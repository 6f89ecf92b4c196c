import Mathlib.Analysis.Calculus.Gradient.Basic
import Mathlib.Analysis.InnerProductSpace.PiL2
import Mathlib.Analysis.SpecialFunctions.ExpDeriv
import Mathlib.Analysis.SpecialFunctions.Log.Deriv
import Mathlib.Analysis.SpecialFunctions.Trigonometric.DerivHyp
import Convnet.Proofs.Real
import Convnet.Proofs.Selection
import Convnet.Training.Evaluation

namespace Convnet

open Finset

namespace Buffer

noncomputable def vector (n : Nat) (a : Array ℝ) : EuclideanSpace ℝ (Fin n) :=
  (EuclideanSpace.equiv (Fin n) ℝ).symm fun i => read a i

theorem sum_ofFn {n : Nat} (f : Fin n → ℝ) : sum (Array.ofFn f) = ∑ i, f i := by
  rw [← List.sum_ofFn, sum, ← Array.foldl_toList, Array.toList_ofFn, List.sum_eq_foldl]

theorem zipWith_ofFn {n : Nat} (op : ℝ → ℝ → ℝ) (f g : Fin n → ℝ) :
    Array.zipWith op (Array.ofFn f) (Array.ofFn g) = Array.ofFn fun i => op (f i) (g i) := by
  apply Array.ext <;> simp

end Buffer

namespace Activation

open Buffer

theorem softmaxVector_ofFn {n : Nat} (z : Fin n → ℝ) :
    softmaxVector (Array.ofFn z) = Array.ofFn fun i => Real.exp (z i) / ∑ j, Real.exp (z j) := by
  obtain ⟨top, htop⟩ : ∃ top, top = largest (Array.ofFn z) := ⟨_, rfl⟩
  have hshift (i : Fin n) : Scalar.exp (z i - top) = Real.exp (z i) / Real.exp top := Real.exp_sub _ _
  have htotal : ∑ i, Real.exp (z i) / Real.exp top = (∑ i, Real.exp (z i)) / Real.exp top := (sum_div _ _ _).symm
  rw [softmaxVector, ← htop, Array.map_ofFn, sum_ofFn, Array.map_ofFn]
  congr 1
  funext i
  simp only [Function.comp_apply, hshift, htotal]
  exact div_div_div_cancel_right₀ (Real.exp_ne_zero top) _ _

theorem softmaxVector_add {n : Nat} (z : Fin n → ℝ) (c : ℝ) :
    softmaxVector (Array.ofFn fun i => z i + c) = softmaxVector (Array.ofFn z) := by
  rw [softmaxVector_ofFn, softmaxVector_ofFn]
  congr 1
  funext i
  simp only [Real.exp_add, ← sum_mul]
  exact mul_div_mul_right _ _ (Real.exp_ne_zero c)

end Activation

/-- Whether the first of the largest entries of a buffer stands at a place. -/
structure Buffer.LargestAt (a : Array ℝ) (i : Nat) : Prop where
  lt : i < a.size
  largest : ∀ j < a.size, read a j ≤ read a i
  first : ∀ j < i, read a j < read a i

theorem Buffer.LargestAt.unique {a : Array ℝ} {i j : Nat} (hi : LargestAt a i) (hj : LargestAt a j) : i = j := by
  rcases Nat.lt_trichotomy i j with h | h | h
  · exact absurd (hj.first i h) (hi.largest j hj.lt).not_gt
  · exact h
  · exact absurd (hi.first j h) (hj.largest i hi.lt).not_gt

theorem Buffer.toList_zipIdx (a : Array ℝ) :
    a.zipIdx.toList = (List.range a.size).map fun i => (read a i, i) := by
  refine List.ext_getElem (by simp) fun i hi hi' => ?_
  have hlt : i < a.size := by simpa using hi
  simp [read_of_lt hlt]

theorem argmax_largestAt {a : Array ℝ} (h : 0 < a.size) : Buffer.LargestAt a (argmax a) := by
  let _ : OrderedScalar ℝ := OrderedScalar.ofField
  have hfold : a.zipIdx.foldl (fun kept (x, i) => Scalar.prefer kept x i) none =
      (List.range a.size).foldl (fun kept i => Scalar.prefer kept (Buffer.read a i) i) none := by
    rw [← Array.foldl_toList, Buffer.toList_zipIdx, List.foldl_map]
  rcases Scalar.foldl_prefer_first (Buffer.read a) (List.range a.size) with
    ⟨-, hlow⟩ | ⟨front, i, back, hsplit, hsome, hfront, hback⟩
  · exact absurd (hlow 0 (List.mem_range.mpr h)) nofun
  · have hplace : argmax a = i := by rw [argmax, hfold, hsome]
    have hmem (j : Nat) : j < a.size ↔ j ∈ front ∨ j = i ∨ j ∈ back := by
      rw [← List.mem_range, hsplit, List.mem_append, List.mem_cons]
    have hsorted := List.pairwise_lt_range (n := a.size)
    rw [hsplit, List.pairwise_append, List.pairwise_cons] at hsorted
    rw [hplace]
    refine ⟨(hmem i).mpr (.inr (.inl rfl)), fun j hj => ?_, fun j hj => ?_⟩
    · rcases (hmem j).mp hj with hj | rfl | hj
      · exact (hfront j hj).le
      · exact le_rfl
      · exact hback j hj
    · rcases (hmem j).mp (hj.trans ((hmem i).mpr (.inr (.inl rfl)))) with hj' | rfl | hj'
      · exact hfront j hj'
      · exact absurd hj (lt_irrefl j)
      · exact absurd hj (hsorted.2.1.1 j hj').not_gt

section CrossEntropy

variable {n : Nat}

theorem hasGradientAt_of_sum {f : EuclideanSpace ℝ (Fin n) → ℝ} {f' : EuclideanSpace ℝ (Fin n) →L[ℝ] ℝ}
    {g z : EuclideanSpace ℝ (Fin n)} (hf : HasFDerivAt f f' z) (hg : ∀ w, f' w = ∑ i, g i * w i) :
    HasGradientAt f g z := by
  rw [hasGradientAt_iff_hasFDerivAt]
  refine hf.congr_fderiv (ContinuousLinearMap.ext fun w => ?_)
  rw [hg, InnerProductSpace.toDual_apply_apply, PiLp.inner_apply]
  exact sum_congr rfl fun i _ => mul_comm _ _

noncomputable def entry (i : Fin n) : EuclideanSpace ℝ (Fin n) →L[ℝ] ℝ := EuclideanSpace.proj i

@[simp] theorem entry_apply (i : Fin n) (w : EuclideanSpace ℝ (Fin n)) : entry i w = w i := rfl

theorem hasFDerivAt_entry (i : Fin n) (z : EuclideanSpace ℝ (Fin n)) :
    HasFDerivAt (fun z : EuclideanSpace ℝ (Fin n) => z i) (entry i) z := (entry i).hasFDerivAt

theorem hasFDerivAt_sumExp (z : EuclideanSpace ℝ (Fin n)) :
    HasFDerivAt (fun z : EuclideanSpace ℝ (Fin n) => ∑ j, Real.exp (z j)) (∑ j, Real.exp (z j) • entry j) z :=
  HasFDerivAt.fun_sum fun j _ => (hasFDerivAt_entry j z).exp

theorem sumExp_pos (k : Fin n) (z : EuclideanSpace ℝ (Fin n)) : 0 < ∑ j, Real.exp (z j) :=
  sum_pos (fun j _ => Real.exp_pos (z j)) ⟨k, mem_univ k⟩

theorem hasGradientAt_logSumExp (k : Fin n) (z : EuclideanSpace ℝ (Fin n)) :
    HasGradientAt (fun z : EuclideanSpace ℝ (Fin n) => Real.log (∑ j, Real.exp (z j)) - z k)
      (WithLp.toLp 2 fun i => Real.exp (z i) / ∑ j, Real.exp (z j) - if i = k then 1 else 0) z := by
  have hlog := (hasFDerivAt_sumExp z).log (sumExp_pos k z).ne'
  refine hasGradientAt_of_sum (hlog.sub (hasFDerivAt_entry k z)) fun w => ?_
  have halong : ((∑ j, Real.exp (z j))⁻¹ • (∑ j, Real.exp (z j) • entry j) - entry k) w =
      (∑ j, Real.exp (z j))⁻¹ * ∑ i, Real.exp (z i) * w i - w k := by simp
  have hshare (i : Fin n) : (∑ j, Real.exp (z j))⁻¹ * (Real.exp (z i) * w i) =
      Real.exp (z i) / (∑ j, Real.exp (z j)) * w i := by ring
  simp only [halong, mul_sum, hshare, sub_mul, sum_sub_distrib, ite_mul, one_mul, zero_mul, sum_ite_eq', mem_univ,
    if_true]

theorem oneHot_eq {label : Nat} {y : Array ℝ} (h : Dataset.oneHot label n = .ok y) :
    ∃ k : Fin n, k = label ∧ y = Array.ofFn fun i : Fin n => if i = k then 1 else 0 := by
  obtain ⟨hlt, h⟩ := require_bind_eq_ok.mp h
  obtain ⟨⟩ := pure_eq_ok_iff.mp h
  rw [Bool.and_eq_true, decide_eq_true_eq] at hlt
  refine ⟨⟨label, hlt.1⟩, rfl, Array.ext (by simp) fun i hi hi' => ?_⟩
  have hi : i < n := by simpa using hi
  rcases eq_or_ne label i with rfl | hne
  · simp
  · simp [Array.getElem_setIfInBounds_ne, hne, hne.symm, Buffer.zeros, hi]

theorem value_oneHot (p : Fin n → ℝ) (k : Fin n) :
    Loss.value .categoricalCrossentropy (Array.ofFn p) (Array.ofFn fun i : Fin n => if i = k then 1 else 0) =
      -Real.log (Scalar.clamp Loss.margin (1 - Loss.margin) (p k)) := by
  rw [Loss.value, Buffer.zipWith_ofFn, Buffer.sum_ofFn, sum_eq_single k]
  · rw [if_pos rfl, neg_one_mul]
    rfl
  · intro i _ hi
    rw [if_neg hi, neg_zero, zero_mul]
  · intro hk
    exact absurd (mem_univ k) hk

theorem clamp_of_mem {lo hi x : ℝ} (hlo : lo < x) (hhi : x < hi) : Scalar.clamp lo hi x = x := by
  rw [Scalar.clamp, if_neg hlo.not_gt, if_neg hhi.not_gt]

/-- Where the probability of the label is not held, the gradient is the difference from the target. -/
theorem hasGradientAt_crossEntropy {label : Nat} {y : Array ℝ} (hy : Dataset.oneHot label n = .ok y)
    (z : EuclideanSpace ℝ (Fin n))
    (hlo : Loss.margin < Buffer.read (Activation.apply .softmax (Array.ofFn z)) label)
    (hhi : Buffer.read (Activation.apply .softmax (Array.ofFn z)) label < 1 - Loss.margin) :
    HasGradientAt (fun z : EuclideanSpace ℝ (Fin n) =>
        Loss.value .categoricalCrossentropy (Activation.apply .softmax (Array.ofFn z)) y)
      (Buffer.vector n (Loss.derivative .categoricalCrossentropy (Activation.apply .softmax (Array.ofFn z)) y)) z := by
  obtain ⟨k, rfl, rfl⟩ := oneHot_eq hy
  have hread (z : EuclideanSpace ℝ (Fin n)) (i : Fin n) : Buffer.read (Activation.apply .softmax (Array.ofFn z)) i =
      Real.exp (z i) / ∑ j, Real.exp (z j) := by
    rw [Activation.apply, Activation.softmaxVector_ofFn]
    simp [Buffer.read]
  have hgrad : Buffer.vector n (Loss.derivative .categoricalCrossentropy (Activation.apply .softmax (Array.ofFn z))
      (Array.ofFn fun i : Fin n => if i = k then 1 else 0)) =
      WithLp.toLp 2 fun i => Real.exp (z i) / ∑ j, Real.exp (z j) - if i = k then 1 else 0 := by
    rw [Activation.apply, Activation.softmaxVector_ofFn, Loss.derivative, Buffer.zipWith_ofFn]
    simp [Buffer.vector, Buffer.read]
  rw [hgrad]
  rw [hread] at hlo hhi
  have hcont : ContinuousAt (fun z : EuclideanSpace ℝ (Fin n) => Real.exp (z k) / ∑ j, Real.exp (z j)) z :=
    (hasFDerivAt_entry k z).exp.continuousAt.div (hasFDerivAt_sumExp z).continuousAt (sumExp_pos k z).ne'
  refine (hasGradientAt_logSumExp k z).congr_of_eventuallyEq ?_
  filter_upwards [hcont.eventually (Ioo_mem_nhds hlo hhi)] with v hv
  rw [Activation.apply, Activation.softmaxVector_ofFn, value_oneHot, clamp_of_mem hv.1 hv.2,
    Real.log_div (Real.exp_ne_zero _) (sumExp_pos k v).ne', Real.log_exp, neg_sub]

end CrossEntropy

section MeanSquare

variable {n : Nat}

theorem hasGradientAt_mse (hn : 0 < n) {y : Array ℝ} (hy : y.size = n) (p : EuclideanSpace ℝ (Fin n)) :
    HasGradientAt (fun p : EuclideanSpace ℝ (Fin n) => Loss.value .mse (Array.ofFn p) y)
      (Buffer.vector n (Loss.derivative .mse (Array.ofFn p) y)) p := by
  obtain ⟨e, rfl⟩ : ∃ e : Fin n → ℝ, y = Array.ofFn e := ⟨fun i => y[i], by subst hy; simp⟩
  have hvalue (p : EuclideanSpace ℝ (Fin n)) :
      Loss.value .mse (Array.ofFn p) (Array.ofFn e) = (∑ i, (p i - e i) * (p i - e i)) / n := by
    rw [Loss.value, Buffer.zipWith_ofFn, Buffer.sum_ofFn, Array.size_ofFn]
    rfl
  have hgrad : Buffer.vector n (Loss.derivative .mse (Array.ofFn p) (Array.ofFn e)) =
      WithLp.toLp 2 fun i => 2 * (p i - e i) / n := by
    rw [Loss.derivative, Buffer.zipWith_ofFn]
    simp [Buffer.vector, Buffer.read]
  have hsquare (i : Fin n) : HasFDerivAt (fun p : EuclideanSpace ℝ (Fin n) => (p i - e i) * (p i - e i))
      ((p i - e i) • entry i + (p i - e i) • entry i) p := by
    have hdiff : HasFDerivAt (fun p : EuclideanSpace ℝ (Fin n) => p i - e i) (entry i) p :=
      (hasFDerivAt_entry i p).sub_const (e i)
    exact hdiff.mul hdiff
  have hsum := (HasFDerivAt.fun_sum fun i (_ : i ∈ univ) => hsquare i).mul_const (n : ℝ)⁻¹
  rw [hgrad]
  simp only [hvalue, div_eq_mul_inv]
  refine hasGradientAt_of_sum hsum fun w => ?_
  have halong : ((n : ℝ)⁻¹ • ∑ i, ((p i - e i) • entry i + (p i - e i) • entry i)) w =
      (n : ℝ)⁻¹ * ∑ i, ((p i - e i) * w i + (p i - e i) * w i) := by simp
  rw [halong, mul_sum]
  exact sum_congr rfl fun i _ => by ring

end MeanSquare

theorem Activation.hasDerivAt_point {a : Activation} (ha : a ≠ .softmax) {x : ℝ} (hx : a = .relu → x ≠ 0) :
    HasDerivAt a.point (a.derivative x) x := by
  cases a with
  | softmax => exact absurd rfl ha
  | relu =>
      have hpoint (y : ℝ) : Activation.point .relu y = if 0 < y then y else 0 := rfl
      rw [derivative]
      rcases lt_or_gt_of_ne (hx rfl) with hneg | hpos
      · rw [if_neg hneg.not_gt]
        refine (hasDerivAt_const x (0 : ℝ)).congr_of_eventuallyEq ?_
        filter_upwards [Iio_mem_nhds hneg] with y hy
        rw [hpoint, if_neg (Set.mem_Iio.mp hy).not_gt]
      · rw [if_pos hpos]
        refine (hasDerivAt_id x).congr_of_eventuallyEq ?_
        filter_upwards [Ioi_mem_nhds hpos] with y hy
        rw [hpoint, if_pos (Set.mem_Ioi.mp hy), id]
  | sigmoid =>
      have hpoint : Activation.point .sigmoid = fun y : ℝ => 1 / (1 + Real.exp (-y)) := rfl
      have hder : Activation.derivative .sigmoid x =
          1 / (1 + Real.exp (-x)) * (1 - 1 / (1 + Real.exp (-x))) := rfl
      have hne : 1 + Real.exp (-x) ≠ 0 := (add_pos one_pos (Real.exp_pos _)).ne'
      have hquot := (hasDerivAt_const x (1 : ℝ)).div ((hasDerivAt_neg x).exp.const_add 1) hne
      rw [hpoint, hder]
      refine hquot.congr_deriv ?_
      field_simp
      ring
  | tanh =>
      have hpoint : Activation.point .tanh = fun y : ℝ => Real.sinh y / Real.cosh y :=
        funext Real.tanh_eq_sinh_div_cosh
      have hder : Activation.derivative .tanh x = 1 - Real.tanh x * Real.tanh x := rfl
      have hne : Real.cosh x ≠ 0 := (Real.cosh_pos x).ne'
      have hquot := (Real.hasDerivAt_sinh x).div (Real.hasDerivAt_cosh x) hne
      rw [hpoint, hder, Real.tanh_eq_sinh_div_cosh]
      refine hquot.congr_deriv ?_
      field_simp
  | linear => exact hasDerivAt_id x

namespace Activation

open Buffer

/-- Whether entries are the probabilities that belong to those of a vector. -/
structure Probabilities (z p : Array ℝ) : Prop where
  size : p.size = z.size
  eq : ∀ i < z.size, read p i = Real.exp (read z i) / ∑ j ∈ range z.size, Real.exp (read z j)
  pos : ∀ i < z.size, 0 < read p i
  total : ∑ i ∈ range z.size, read p i = 1
  shift : ∀ c, apply .softmax (z.map (· + c)) = p
  first : LargestAt z (argmax z) ∧ LargestAt p (argmax z) ∧ argmax p = argmax z

theorem read_softmaxVector {z : Array ℝ} {i : Nat} (hi : i < z.size) :
    read (softmaxVector z) i = Real.exp (read z i) / ∑ j ∈ range z.size, Real.exp (read z j) := by
  have htotal : ∑ j ∈ range z.size, Real.exp (read z j) = ∑ j : Fin z.size, Real.exp z[j] :=
    (sum_range _).trans (sum_congr rfl fun j _ => by rw [read_of_lt j.isLt]; rfl)
  have hz : softmaxVector z = Array.ofFn fun i : Fin z.size => Real.exp z[i] / ∑ j : Fin z.size, Real.exp z[j] := by
    rw [← softmaxVector_ofFn]
    simp
  rw [hz, htotal, read_of_lt hi, read_of_lt (by simpa using hi)]
  simp

theorem probabilities_softmax {z : Array ℝ} (hz : 0 < z.size) : Probabilities z (apply .softmax z) := by
  obtain ⟨p, hp⟩ : ∃ p, p = softmaxVector z := ⟨_, rfl⟩
  obtain ⟨s, hs⟩ : ∃ s, s = ∑ j ∈ range z.size, Real.exp (read z j) := ⟨_, rfl⟩
  have hsize : p.size = z.size := by
    rw [hp, softmaxVector]
    simp
  have hpos : 0 < s := hs ▸ sum_pos (fun j _ => Real.exp_pos _) ⟨0, mem_range.mpr hz⟩
  have hread : ∀ i < z.size, read p i = Real.exp (read z i) / s := fun i hi => by
    rw [hp, hs, read_softmaxVector hi]
  -- The exponential and the quotient by a positive sum keep the order.
  have hle (i j : Nat) (hi : i < z.size) (hj : j < z.size) : read p i ≤ read p j ↔ read z i ≤ read z j := by
    rw [hread i hi, hread j hj, div_le_div_iff_of_pos_right hpos, Real.exp_le_exp]
  have hfirst := argmax_largestAt hz
  have hsame : LargestAt p (argmax z) := by
    refine ⟨hsize.symm ▸ hfirst.lt, fun j hj => ?_, fun j hj => ?_⟩
    · rw [hsize] at hj
      exact (hle j _ hj hfirst.lt).mpr (hfirst.largest j hj)
    · exact lt_of_not_ge fun h => (hfirst.first j hj).not_ge ((hle _ j hfirst.lt (hj.trans hfirst.lt)).mp h)
  rw [apply, ← hp]
  refine ⟨hsize, fun i hi => hs ▸ hread i hi, fun i hi => ?_, ?_, fun c => ?_, hfirst, hsame, ?_⟩
  · rw [hread i hi]
    exact div_pos (Real.exp_pos _) hpos
  · rw [sum_congr rfl fun i hi => hread i (mem_range.mp hi), ← sum_div, ← hs, div_self hpos.ne']
  · obtain ⟨n, f, rfl⟩ : ∃ (n : Nat) (f : Fin n → ℝ), z = Array.ofFn f := ⟨z.size, fun i => z[i], by simp⟩
    rw [apply, hp, Array.map_ofFn]
    exact softmaxVector_add f c
  · exact (argmax_largestAt (hsize.symm ▸ hz)).unique hsame

/-- The derivatives of activations and losses are the true ones. -/
theorem derivatives_true :
    (∀ z : Array ℝ, z ≠ #[] → Probabilities z (apply .softmax z)) ∧
    (∀ (n label : Nat) (y : Array ℝ) (z : EuclideanSpace ℝ (Fin n)), Dataset.oneHot label n = .ok y →
      Loss.margin < read (apply .softmax (Array.ofFn z)) label →
      read (apply .softmax (Array.ofFn z)) label < 1 - Loss.margin →
      HasGradientAt
        (fun z : EuclideanSpace ℝ (Fin n) => Loss.value .categoricalCrossentropy (apply .softmax (Array.ofFn z)) y)
        (vector n (Loss.derivative .categoricalCrossentropy (apply .softmax (Array.ofFn z)) y)) z ∧
      (∀ i < n, read (Loss.derivative .categoricalCrossentropy (apply .softmax (Array.ofFn z)) y) i =
        read (apply .softmax (Array.ofFn z)) i - read y i) ∧
      ∀ g, backprop .softmax g (Array.ofFn z) = g) ∧
    (∀ (n : Nat) (y : Array ℝ) (p : EuclideanSpace ℝ (Fin n)), 0 < n → y.size = n →
      HasGradientAt (fun p : EuclideanSpace ℝ (Fin n) => Loss.value .mse (Array.ofFn p) y)
        (vector n (Loss.derivative .mse (Array.ofFn p) y)) p) ∧
    ∀ (a : Activation) (x : ℝ), a ≠ .softmax → (a = .relu → x ≠ 0) →
      ∃ f : ℝ → ℝ, (∀ x, a.function? x = some (f x)) ∧ HasDerivAt f (a.derivative x) x := by
  refine ⟨fun z hz => probabilities_softmax (Array.size_pos_iff.mpr hz), fun n label y z hy hlo hhi => ⟨?_, ?_, ?_⟩,
    fun n y p hn hy => hasGradientAt_mse hn hy p, fun a x ha hx => ⟨a.point, fun x => ?_, hasDerivAt_point ha hx⟩⟩
  · exact hasGradientAt_crossEntropy hy z hlo hhi
  · obtain ⟨k, -, rfl⟩ := oneHot_eq hy
    intro i hi
    rw [apply, softmaxVector_ofFn, Loss.derivative, zipWith_ofFn]
    simp [Buffer.read, hi]
  · exact fun g => rfl
  · cases a with
    | softmax => exact absurd rfl ha
    | relu | sigmoid | tanh | linear => rfl

theorem derivatives_true_even : HasGradientAt
    (fun z : EuclideanSpace ℝ (Fin 2) => Loss.value .categoricalCrossentropy (apply .softmax (Array.ofFn z)) #[1, 0])
    (WithLp.toLp 2 ![-(1 / 2), 1 / 2]) 0 := by
  have hy : Dataset.oneHot (α := ℝ) 0 2 = .ok #[1, 0] := rfl
  have hmargin : (Loss.margin : ℝ) = 1 / 10000000 := by
    have h : (Loss.margin : ℝ) = (1e-7 : ℝ) := rfl
    rw [h]
    norm_num
  obtain ⟨p, hp⟩ : ∃ p, p = apply .softmax (Array.ofFn (0 : EuclideanSpace ℝ (Fin 2))) := ⟨_, rfl⟩
  have heven : p = #[1 / 2, 1 / 2] := by
    have hshare : (fun _ : Fin 2 => Real.exp 0 / ∑ _ : Fin 2, Real.exp 0) = fun _ => 1 / 2 := by
      funext i
      norm_num
    rw [hp, apply, softmaxVector_ofFn]
    exact congrArg Array.ofFn hshare
  obtain ⟨hgrad, hentry, -⟩ := derivatives_true.2.1 2 0 #[1, 0] 0 hy
    (by rw [← hp, heven, hmargin]; norm_num [Buffer.read]) (by rw [← hp, heven, hmargin]; norm_num [Buffer.read])
  rw [← hp, heven] at hgrad hentry
  have hvector : vector 2 (Loss.derivative .categoricalCrossentropy #[1 / 2, 1 / 2] #[1, 0]) =
      WithLp.toLp 2 ![-(1 / 2), 1 / 2] := by
    refine congrArg (WithLp.toLp 2) (funext fun i => ?_)
    rw [hentry i i.isLt]
    fin_cases i <;> norm_num [Buffer.read]
  rwa [hvector] at hgrad

end Activation

end Convnet
