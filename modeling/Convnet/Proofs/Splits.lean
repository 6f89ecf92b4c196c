import Mathlib
import Convnet.Proofs.Preparing
import Convnet.Proofs.Real

namespace Convnet

namespace Dataset

section Definitions

variable {α : Type}

structure Formed (d : Dataset α) : Prop where
  labels : d.labels.size = d.images.size
  images : ∀ x ∈ d.images, x.shape = d.shape
  classes : ∀ c ∈ d.labels, c < d.numClasses
  several : 2 ≤ d.numClasses

def hot [Zero α] [One α] (c n : Nat) : Array α := Array.ofFn fun j : Fin n => if (j : Nat) = c then 1 else 0

/-- The datasets that come of one that was put together. -/
inductive Reached [Scalar α] : Dataset α → Prop
  | built {shape : Shape} {images : Array (Tensor α)} {labels : Array Nat} {n : Nat} {d : Dataset α}
      (h : build shape images labels n = .ok d) : Reached d
  | named {d : Dataset α} (hd : Reached d) (names : List String) : Reached (d.withClassNames names)
  | first {d : Dataset α} (hd : Reached d) (n : Nat) : Reached (d.take n)
  | kept {d a b : Dataset α} {f : α} (hd : Reached d) (h : d.splitValidation f = .ok (a, b)) : Reached a
  | rest {d a b : Dataset α} {f : α} (hd : Reached d) (h : d.splitValidation f = .ok (a, b)) : Reached b
  | scaled {d : Dataset α} (hd : Reached d) (s : Scaling α) : Reached (s.apply d)
  | train {d test a b : Dataset α} {p : Preprocessing} {s : Scaling α} (hd : Reached d)
      (h : p.apply d test = .ok (s, a, b)) : Reached a
  | test {d train a b : Dataset α} {p : Preprocessing} {s : Scaling α} (hd : Reached d)
      (h : p.apply train d = .ok (s, a, b)) : Reached b

end Definitions

section Steps

variable {α : Type} {d : Dataset α}

theorem Formed.take (h : d.Formed) (n : Nat) : (d.take n).Formed where
  labels := by simp [Dataset.take, h.labels]
  images x hx := h.images x (mem_of_mem_take hx)
  classes c hc := h.classes c (mem_of_mem_take hc)
  several := h.several

theorem Formed.drop (h : d.Formed) (n : Nat) : (d.drop n).Formed where
  labels := by simp [Dataset.drop, h.labels]
  images x hx := h.images x (mem_of_mem_drop hx)
  classes c hc := h.classes c (mem_of_mem_drop hc)
  several := h.several

variable [Scalar α]

theorem Formed.scaled (h : d.Formed) (s : Scaling α) : (s.apply d).Formed where
  labels := h.labels.trans Array.size_map.symm
  images x hx := by
    obtain ⟨y, hy, rfl⟩ := Array.mem_map.mp hx
    exact (s.shape_applyTensor y).trans (h.images y hy)
  classes := h.classes
  several := h.several

theorem splitValidation_eq_ok {a b : Dataset α} {f : α} : d.splitValidation f = .ok (a, b) ↔
    Scalar.inUnit f = true ∧ ∃ kept, kept = Scalar.floor ((d.size : α) * (1 - f)) ∧ kept ≤ d.size ∧
      a = d.take kept ∧ b = d.drop kept := by
  rw [splitValidation]
  cases Scalar.inUnit f with
  | false => simp
  | true =>
      simp only [Bool.not_true, Bool.false_eq_true, if_false, true_and]
      rw [require_bind_eq_ok, decide_eq_true_iff, pure_eq_ok_iff, Prod.mk.injEq]
      constructor
      · rintro ⟨hle, ha, hb⟩
        exact ⟨_, rfl, hle, ha, hb⟩
      · rintro ⟨_, rfl, hle, ha, hb⟩
        exact ⟨hle, ha, hb⟩

theorem splitValidation_outside {f : α} (hf : f < 0 ∨ ¬ f < 1) (d : Dataset α) :
    d.splitValidation f = .error (.config (.validationSplit (Scalar.text f))) := by
  have hunit : Scalar.inUnit f = false := by
    rw [Scalar.inUnit]
    rcases hf with hf | hf <;> simp [hf]
  rw [splitValidation, hunit]
  rfl

theorem Reached.formed (h : d.Reached) : d.Formed := by
  induction h with
  | built h =>
      obtain ⟨hcount, hn, hi, hl, rfl⟩ := build_eq_ok.mp h
      exact ⟨hcount.symm, hi, hl, hn⟩
  | named _ _ ih => exact ⟨ih.labels, ih.images, ih.classes, ih.several⟩
  | first _ n ih => exact ih.take n
  | kept _ h ih =>
      obtain ⟨-, kept, -, -, rfl, -⟩ := splitValidation_eq_ok.mp h
      exact ih.take kept
  | rest _ h ih =>
      obtain ⟨-, kept, -, -, -, rfl⟩ := splitValidation_eq_ok.mp h
      exact ih.drop kept
  | scaled _ s ih => exact ih.scaled s
  | train _ h ih =>
      obtain ⟨-, rfl, -⟩ := Preprocessing.apply_eq_ok.mp h
      exact ih.scaled _
  | test _ h ih =>
      obtain ⟨-, -, rfl⟩ := Preprocessing.apply_eq_ok.mp h
      exact ih.scaled _

theorem oneHot_eq {c n : Nat} (hc : c < n) (hfits : Buffer.fits n = true) : oneHot c n = .ok (hot c n : Array α) := by
  rw [oneHot, hfits, decide_eq_true hc]
  refine congrArg Except.ok ?_
  apply Array.ext
  · simp [hot]
  · intro j _ hj
    have hlt : j < n := by simpa [hot] using hj
    rw [Array.getElem_setIfInBounds (by simpa using hlt)]
    simp [hot, Buffer.zeros, eq_comm]

theorem Formed.targets (h : d.Formed) (hfits : Buffer.fits d.numClasses = true) :
    d.targets = .ok (d.labels.toList.map fun c => hot c d.numClasses) := by
  refine mapM_eq_ok.mpr ?_
  rw [List.forall₂_map_right_iff, List.forall₂_same]
  exact fun c hc => oneHot_eq (h.classes c (Array.mem_toList_iff.mp hc)) hfits

omit [Scalar α] in
theorem samplesOf_take (d : Dataset α) (n : Nat) : Network.samplesOf (d.take n) = (Network.samplesOf d).take n := by
  simp [Network.samplesOf, Dataset.take, List.zip, List.take_zipWith]

omit [Scalar α] in
theorem samplesOf_drop (d : Dataset α) (n : Nat) : Network.samplesOf (d.drop n) = (Network.samplesOf d).drop n := by
  rw [Network.samplesOf, Network.samplesOf, Array.toList_zip, Array.toList_zip, Dataset.drop, Array.toList_drop,
    Array.toList_drop]
  exact List.drop_zipWith.symm

end Steps

section Exact

variable {d : Dataset ℝ} {f : ℝ}

theorem inUnit_iff : Scalar.inUnit f = true ↔ 0 ≤ f ∧ f < 1 := by
  rw [Scalar.inUnit, Bool.and_eq_true, Bool.not_eq_true', decide_eq_false_iff_not, decide_eq_true_eq, not_lt]

theorem floor_rest (n : Nat) (hf : 0 ≤ f) (hf' : f ≤ 1) : ⌊(n : ℝ) * (1 - f)⌋₊ + ⌈(n : ℝ) * f⌉₊ = n := by
  have hn : (0 : ℝ) ≤ n := Nat.cast_nonneg n
  have hle : ⌈(n : ℝ) * f⌉₊ ≤ n := Nat.ceil_le.mpr (mul_le_of_le_one_right hn hf')
  have hlt := Nat.ceil_lt_add_one (mul_nonneg hn hf)
  have hge := Nat.le_ceil ((n : ℝ) * f)
  have hfloor : ⌊(n : ℝ) * (1 - f)⌋₊ = n - ⌈(n : ℝ) * f⌉₊ := by
    refine (Nat.floor_eq_iff (mul_nonneg hn (by linarith))).mpr ?_
    rw [Nat.cast_sub hle, mul_one_sub]
    constructor <;> linarith
  omega

theorem splitValidation_exact (hf : 0 ≤ f) (hf' : f < 1) (d : Dataset ℝ) : ∃ kept,
    d.splitValidation f = .ok (d.take kept, d.drop kept) ∧ kept = ⌊(d.size : ℝ) * (1 - f)⌋₊ ∧ kept ≤ d.size := by
  have hle : ⌊(d.size : ℝ) * (1 - f)⌋₊ ≤ d.size := by
    have hsum := floor_rest d.size hf hf'.le
    omega
  exact ⟨_, splitValidation_eq_ok.mpr ⟨inUnit_iff.mpr ⟨hf, hf'⟩, _, rfl, hle, rfl, rfl⟩, rfl, hle⟩

end Exact

section Doubles

open Float.Model UnpackedFloat

theorem outside_of_float {f : Float} (hf : ¬ ((0.0 : Float) ≤ f ∧ f < (1.0 : Float))) :
    f < (0.0 : Float) ∨ ¬ f < (1.0 : Float) := by
  by_cases hhigh : f < (1.0 : Float)
  · left
    have hlow : ¬ (0.0 : Float) ≤ f := fun h => hf ⟨h, hhigh⟩
    have hzero : (0.0 : Float).toModel.unpack = .zero .positive := by rfl
    have hle : (0.0 : Float) ≤ f ↔ (0.0 : Float).toModel.unpack.le f.toModel.unpack = true := decide_eq_true_iff
    rw [hle, hzero] at hlow
    rw [Binary64.lt_iff_compare] at hhigh ⊢
    rw [hzero]
    cases hx : f.toModel.unpack with
    | notANumber =>
        rw [hx] at hhigh
        cases hhigh
    | zero s =>
        rw [hx] at hlow
        exact absurd rfl hlow
    | infinity s | finite s =>
        rw [hx] at hlow
        cases s with
        | negative => rfl
        | positive => exact absurd rfl hlow
  · exact .inr hhigh

end Doubles

section Reach

/-- What a split by a share comes to: the two parts make up the dataset, with each image beside its label, and are as
large as the share says. -/
structure Parts (d : Dataset ℝ) (f : ℝ) (a b : Dataset ℝ) : Prop where
  samples : Network.samplesOf a ++ Network.samplesOf b = Network.samplesOf d
  images : a.images ++ b.images = d.images
  labels : a.labels ++ b.labels = d.labels
  kept : a.size = ⌊(d.size : ℝ) * (1 - f)⌋₊
  rest : b.size = ⌈(d.size : ℝ) * f⌉₊

theorem parts_of_split {f : ℝ} (hf : 0 ≤ f) (hf' : f < 1) (d : Dataset ℝ) :
    ∃ a b, d.splitValidation f = .ok (a, b) ∧ d.Parts f a b := by
  obtain ⟨kept, hsplit, hkept, hle⟩ := splitValidation_exact hf hf' d
  have hsum := floor_rest d.size hf hf'.le
  have hwhole : ∀ {β : Type} (xs : Array β), xs.take kept ++ xs.drop kept = xs := fun xs => by
    apply Array.toList_inj.mp
    simp
  refine ⟨_, _, hsplit, ⟨?_, hwhole d.images, hwhole d.labels, ?_, ?_⟩⟩
  · rw [samplesOf_take, samplesOf_drop, List.take_append_drop]
  · rw [← hkept]
    simpa [Dataset.take, Dataset.size] using hle
  · have hsize : (d.drop kept).size = d.size - kept := by simp [Dataset.drop, Dataset.size]
    omega

variable {α : Type} [Scalar α]

/-- Whatever is made of a dataset by naming its classes, taking a part of it and scaling it is well formed, so that
each label has its target as long as there is room for one. The first samples stay what they were. In exact
arithmetic a split always answers, with two parts that make up the whole again; a share that is no proper one is
refused, also as a double. -/
theorem reached_formed {d : Dataset α} (hd : d.Reached) {e : Dataset ℝ} (he : e.Reached) :
    d.Formed ∧ e.Formed ∧
    (Buffer.fits d.numClasses = true → (∀ c < d.numClasses, d.target c = .ok (hot c d.numClasses)) ∧
      d.targets = .ok (d.labels.toList.map fun c => hot c d.numClasses)) ∧
    (∀ m, (d.take m).size = min m d.size ∧ Network.samplesOf (d.take m) = (Network.samplesOf d).take m) ∧
    (∀ f, 0 ≤ f → f < 1 → ∃ a b, e.splitValidation f = .ok (a, b) ∧ a.Formed ∧ b.Formed ∧ e.Parts f a b) ∧
    (∀ f, ¬ (0 ≤ f ∧ f < 1) → e.splitValidation f = .error (.config (.validationSplit (Scalar.text f)))) ∧
    ∀ (k : Dataset Float) (f : Float), ¬ ((0.0 : Float) ≤ f ∧ f < (1.0 : Float)) →
      k.splitValidation f = .error (.config (.validationSplit (Scalar.text f))) := by
  refine ⟨hd.formed, he.formed, fun hfits => ⟨fun c hc => oneHot_eq hc hfits, hd.formed.targets hfits⟩,
    fun m => ⟨by simp [Dataset.take, Dataset.size], samplesOf_take d m⟩, fun f hf hf' => ?_, fun f hf => ?_,
    fun k f hf => splitValidation_outside (outside_of_float hf) k⟩
  · obtain ⟨a, b, hsplit, hparts⟩ := parts_of_split hf hf' e
    exact ⟨a, b, hsplit, (he.kept hsplit).formed, (he.rest hsplit).formed, hparts⟩
  · refine splitValidation_outside ?_ e
    by_contra hin
    push Not at hin
    exact hf hin

def threePixels (x y z : ℝ) : Dataset ℝ :=
  ⟨.flat 1, #[⟨.flat 1, #[x]⟩, ⟨.flat 1, #[y]⟩, ⟨.flat 1, #[z]⟩], #[0, 1, 0], 2, none⟩

theorem threePixels_reached (x y z : ℝ) : (threePixels x y z).Reached :=
  .built (build_eq_ok.mpr ⟨rfl, le_rfl, by simp, by decide, rfl⟩)

theorem reached_formed_threePixels : ∃ d : Dataset ℝ, d.Reached ∧ d.labels = #[0, 1, 0] ∧ d.Formed ∧
    d.target 1 = .ok (hot 1 2) ∧ (d.take 2).size = 2 ∧ ∃ a b, d.splitValidation (1 / 4) = .ok (a, b) ∧
      a.size = 2 ∧ b.size = 1 ∧ Network.samplesOf a ++ Network.samplesOf b = Network.samplesOf d := by
  have hreached := threePixels_reached 0 1 2
  obtain ⟨d, hd⟩ : ∃ d, d = threePixels 0 1 2 := ⟨_, rfl⟩
  rw [← hd] at hreached
  have hclasses : d.numClasses = 2 := by rw [hd]; rfl
  have hsize : d.size = 3 := by rw [hd]; rfl
  obtain ⟨hformed, -, htargets, htake, hsplit, -, -⟩ := reached_formed hreached hreached
  rw [hclasses] at htargets
  rw [hsize] at htake
  obtain ⟨a, b, hab, -, -, hparts⟩ := hsplit (1 / 4) (by norm_num) (by norm_num)
  refine ⟨d, hreached, by rw [hd]; rfl, hformed, (htargets (by decide)).1 1 (by decide), (htake 2).1, a, b, hab, ?_, ?_,
    hparts.samples⟩
  · rw [hparts.kept, hsize]
    norm_num
  · rw [hparts.rest, hsize]
    norm_num

/-- A dataset may be put together with more classes than a vector has room for. -/
theorem oneHot_without_room :
    let d : Dataset Float := ⟨.flat 1, #[⟨.flat 1, #[1.0]⟩], #[0], 2305843009213693952, none⟩
    build (.flat 1) #[⟨.flat 1, #[1.0]⟩] #[0] 2305843009213693952 = .ok d ∧ d.Reached ∧
      d.target 0 = .error .misuse ∧ d.targets = .error .misuse := by
  intro d
  have hbuild : build (.flat 1) #[⟨.flat 1, #[1.0]⟩] #[0] 2305843009213693952 = .ok d :=
    build_eq_ok.mpr ⟨rfl, by decide, by simp, by decide, rfl⟩
  have htarget : d.target 0 = .error .misuse := rfl
  refine ⟨hbuild, .built hbuild, htarget, ?_⟩
  have hlabels : d.labels.toList = [0] := rfl
  rw [targets, hlabels, List.mapM_cons, htarget]
  rfl

end Reach

end Dataset

end Convnet
