import Mathlib
import Convnet.Proofs.Real
import Convnet.Proofs.Spread

namespace Convnet

section Definitions

variable {α : Type} [Scalar α]

/-- What changes a training set and a test set where they are, and may fail. -/
abbrev InPlace (α : Type) := ExceptT Error (StateM (Dataset α × Dataset α))

def Scaling.applyInPlace (s : Scaling α) : InPlace α (Scaling α) := do
  modify fun (train, test) => (s.apply train, test)
  modify fun (train, test) => (train, s.apply test)
  return s

def Preprocessing.applyInPlace (p : Preprocessing) : InPlace α (Scaling α) := do
  let (train, _) ← get
  let s ← p.fit train
  s.applyInPlace

def Dataset.mapPixels (f : α → α) (d : Dataset α) : Dataset α :=
  { d with images := d.images.map fun t => t.map f }

end Definitions

namespace Preprocessing

section Statistics

variable {K : Type} [Field K] {xs : List K} {c : K}

def mean (xs : List K) : K := xs.sum / xs.length

def variance (xs : List K) : K := mean (xs.map fun x => (x - mean xs) ^ 2)

variable [CharZero K]

theorem mean_affine (h : xs ≠ []) (m c : K) : mean (xs.map fun x => (x - m) / c) = (mean xs - m) / c := by
  have hlength : (xs.length : K) ≠ 0 := by exact_mod_cast mt List.length_eq_zero_iff.mp h
  have hterm : ∀ x : K, (x - m) / c = x * c⁻¹ + -(m * c⁻¹) := fun x => by ring
  have hsum : (xs.map fun x => (x - m) / c).sum = xs.sum * c⁻¹ + xs.length * -(m * c⁻¹) := by
    simp only [hterm, List.sum_map_add, List.sum_map_mul_right, List.map_id', List.map_const', List.sum_replicate,
      nsmul_eq_mul]
  rw [mean, hsum, List.length_map, mean, hterm]
  field_simp

theorem variance_affine (h : xs ≠ []) (m c : K) : variance (xs.map fun x => (x - m) / c) = variance xs / c ^ 2 := by
  have hterm : ∀ x : K, ((x - m) / c - (mean xs - m) / c) ^ 2 = ((x - mean xs) ^ 2 - 0) / c ^ 2 := fun x => by
    rw [div_sub_div_same, sub_sub_sub_cancel_right, div_pow, sub_zero]
  have hscaled := mean_affine (mt List.map_eq_nil_iff.mp h : xs.map (fun x => (x - mean xs) ^ 2) ≠ []) 0 (c ^ 2)
  rw [List.map_map, sub_zero] at hscaled
  rw [variance, mean_affine h, List.map_map, variance, ← hscaled]
  exact congrArg mean (List.map_congr_left fun x _ => hterm x)

theorem mean_of_equal (h : xs ≠ []) (hc : ∀ x ∈ xs, x = c) : mean xs = c := by
  have hlength : (xs.length : K) ≠ 0 := by exact_mod_cast mt List.length_eq_zero_iff.mp h
  rw [mean, List.eq_replicate_of_mem hc, List.sum_replicate, List.length_replicate, nsmul_eq_mul,
    mul_div_cancel_left₀ c hlength]

end Statistics

section Ordered

variable {K : Type} [Field K] [LinearOrder K] [IsStrictOrderedRing K] {xs : List K}

theorem squares_nonneg (m : K) : ∀ y ∈ xs.map (fun x => (x - m) ^ 2), 0 ≤ y := by
  intro y hy
  obtain ⟨x, -, rfl⟩ := List.mem_map.mp hy
  exact sq_nonneg _

theorem variance_nonneg (xs : List K) : 0 ≤ variance xs :=
  div_nonneg (List.sum_nonneg (squares_nonneg _)) (Nat.cast_nonneg _)

theorem variance_eq_zero_iff : variance xs = 0 ↔ ∃ c, ∀ x ∈ xs, x = c := by
  rcases eq_or_ne xs [] with rfl | h
  · simp [variance, mean]
  have hsquares : xs.map (fun x => (x - mean xs) ^ 2) ≠ [] := mt List.map_eq_nil_iff.mp h
  constructor
  · intro hzero
    have hlength : ((xs.map fun x => (x - mean xs) ^ 2).length : K) ≠ 0 := by
      exact_mod_cast mt List.length_eq_zero_iff.mp hsquares
    have hsum := (div_eq_zero_iff.mp hzero).resolve_right hlength
    refine ⟨mean xs, fun x hx => ?_⟩
    have hsq := List.all_zero_of_le_zero_le_of_sum_eq_zero (squares_nonneg _) hsum (List.mem_map_of_mem hx)
    exact sub_eq_zero.mp (pow_eq_zero_iff two_ne_zero |>.mp hsq)
  · rintro ⟨c, hc⟩
    refine mean_of_equal hsquares fun y hy => ?_
    obtain ⟨x, hx, rfl⟩ := List.mem_map.mp hy
    rw [mean_of_equal h hc, hc x hx, sub_self, zero_pow two_ne_zero]

end Ordered

section Maps

variable {α : Type}

theorem pixels_mapPixels (f : α → α) (d : Dataset α) : pixels (d.mapPixels f) = (pixels d).map f := by
  simp [pixels, Dataset.mapPixels, Tensor.map, List.map_flatMap, List.flatMap_map]

variable [Scalar α]

theorem applyInPlace_eq (p : Preprocessing) (train test : Dataset α) : p.applyInPlace (train, test) =
    match p.apply train test with
    | .ok (s, a, b) => (.ok s, a, b)
    | .error e => (.error e, train, test) := by
  have hrun : p.applyInPlace (train, test) =
      ((liftM (p.fit train) : InPlace α (Scaling α)) >>= Scaling.applyInPlace) (train, test) := rfl
  rw [hrun, Preprocessing.apply]
  cases p.fit train with
  | ok s => rfl
  | error e => rfl

end Maps

section Exact

variable {K : Type} [Field K] [LinearOrder K] [Elementary K]

theorem isIdentity_iff {s : Scaling K} : s.isIdentity = true ↔ s = .identity := by
  cases s with
  | mk o c => simp [Scaling.isIdentity, Scaling.identity]

theorem applyTensor_eq (s : Scaling K) (t : Tensor K) :
    s.applyTensor t = t.map fun x => (x - s.offset) / s.scale := by
  rw [Scaling.applyTensor]
  split
  case isTrue hs =>
    obtain rfl := isIdentity_iff.mp hs
    simp [Scaling.identity, Tensor.map]
  case isFalse => rfl

theorem apply_eq_mapPixels (s : Scaling K) (d : Dataset K) :
    s.apply d = d.mapPixels fun x => (x - s.offset) / s.scale := by
  rw [Scaling.apply, Dataset.mapPixels, funext (applyTensor_eq s)]

end Exact

section Real

variable {d train test a b : Dataset ℝ} {s : Scaling ℝ} {e : Error}

theorem spread_exact (d : Dataset ℝ) : spread d = (mean (pixels d), √(variance (pixels d))) := by
  have hsum : ∀ f : ℝ → ℝ, pixelSum f d = ((pixels d).map f).sum := fun f =>
    (pixelSum_eq f d).trans List.sum_eq_foldl.symm
  rw [spread]
  dsimp only
  rw [pixelCount_eq, hsum, hsum, List.map_id]
  split
  case isTrue hnone =>
    have hnil := List.length_eq_zero_iff.mp hnone
    simp [hnil, mean, variance]
  case isFalse =>
    have hvariance : variance (pixels d) = ((pixels d).map fun x => Scalar.square (x - mean (pixels d))).sum /
        (pixels d).length := by
      simp only [variance, mean, List.length_map, sq, Scalar.square]
    rw [hvariance]
    rfl

theorem fit_standardize_of_ne (h : variance (pixels d) ≠ 0) :
    standardize.fit d = .ok ⟨mean (pixels d), √(variance (pixels d))⟩ := by
  rw [fit, spread_exact]
  exact if_pos (Real.sqrt_pos.mpr ((variance_nonneg _).lt_of_ne' h))

theorem fit_standardize_of_eq (h : variance (pixels d) = 0) : standardize.fit d = .error (.dataset .zeroVariance) := by
  rw [fit, spread_exact, h, Real.sqrt_zero]
  exact if_neg (lt_irrefl 0)

/-- Datasets that were standardized by the mean and the deviation of the one to train with. -/
structure Standardized (train test : Dataset ℝ) (s : Scaling ℝ) (a b : Dataset ℝ) : Prop where
  offset : s.offset = mean (pixels train)
  scale : s.scale = √(variance (pixels train))
  positive : 0 < s.scale
  train : a = train.mapPixels fun x => (x - s.offset) / s.scale
  test : b = test.mapPixels fun x => (x - s.offset) / s.scale
  centred : mean (pixels a) = 0
  unit : variance (pixels a) = 1

theorem standardized_of_ne (h : variance (pixels train) ≠ 0) (test : Dataset ℝ) : ∃ s a b,
    standardize.apply train test = .ok (s, a, b) ∧ Standardized train test s a b := by
  have hpos : 0 < variance (pixels train) := (variance_nonneg _).lt_of_ne' h
  have hne : pixels train ≠ [] := by
    rintro hnil
    exact h (variance_eq_zero_iff.mpr ⟨0, by simp [hnil]⟩)
  refine ⟨⟨_, _⟩, _, _, apply_eq_ok.mpr ⟨fit_standardize_of_ne h, rfl, rfl⟩, rfl, rfl,
    Real.sqrt_pos.mpr hpos, apply_eq_mapPixels _ _, apply_eq_mapPixels _ _, ?_, ?_⟩
  · rw [apply_eq_mapPixels, pixels_mapPixels, mean_affine hne, sub_self, zero_div]
  · rw [apply_eq_mapPixels, pixels_mapPixels, variance_affine hne, Real.sq_sqrt hpos.le, div_self h]

theorem standardize_eq_error_iff : (∃ e, standardize.apply train test = .error e) ↔ variance (pixels train) = 0 := by
  constructor
  · rintro ⟨e, he⟩
    by_contra h
    obtain ⟨s, a, b, hok, -⟩ := standardized_of_ne h test
    rw [he] at hok
    cases hok
  · exact fun h => ⟨_, apply_eq_error.mpr (fit_standardize_of_eq h)⟩

/-- Standardizing is refused exactly where there is no pixel to train with or all are equal, and then both datasets are
left as they are. Otherwise the pixels to train with have mean zero and variance one afterwards, and those to test
with are put through the same map, in whose choice they have no part. Whatever the map is and however it was chosen,
each pixel goes through it. -/
theorem standardize_centres (train test : Dataset ℝ) :
    ((∃ e, standardize.apply train test = .error e) ↔ pixels train = [] ∨ ∃ c, ∀ x ∈ pixels train, x = c) ∧
    (∀ e, standardize.apply train test = .error e → e = .dataset .zeroVariance ∧
      standardize.applyInPlace (train, test) = (.error e, train, test)) ∧
    (∀ s a b, standardize.apply train test = .ok (s, a, b) → Standardized train test s a b ∧
      standardize.applyInPlace (train, test) = (.ok s, a, b)) ∧
    (∀ (p : Preprocessing) (other : Dataset ℝ),
      (p.apply train other).map Prod.fst = (p.apply train test).map Prod.fst) ∧
    ∀ (p : Preprocessing) s a b, p.apply train test = .ok (s, a, b) →
      (∀ t, s.applyTensor t = t.map fun x => (x - s.offset) / s.scale) ∧
      a = train.mapPixels (fun x => (x - s.offset) / s.scale) ∧
      b = test.mapPixels fun x => (x - s.offset) / s.scale := by
  refine ⟨?_, fun e he => ?_, fun s a b h => ?_, fun p other => ?_, fun p s a b h => ?_⟩
  · rw [standardize_eq_error_iff, variance_eq_zero_iff]
    refine ⟨.inr, fun h => h.elim (fun hnil => ⟨0, ?_⟩) id⟩
    simp [hnil]
  · have hvariance := standardize_eq_error_iff.mp ⟨e, he⟩
    have hfit := apply_eq_error.mp he
    rw [fit_standardize_of_eq hvariance] at hfit
    refine ⟨(Except.error.inj hfit).symm, ?_⟩
    rw [applyInPlace_eq, he]
  · have hvariance : variance (pixels train) ≠ 0 := fun hzero => by
      obtain ⟨e, he⟩ := standardize_eq_error_iff.mpr hzero
      rw [h] at he
      cases he
    obtain ⟨s', a', b', hok, hall⟩ := standardized_of_ne hvariance test
    obtain ⟨⟩ := Except.ok.inj (h.symm.trans hok)
    refine ⟨hall, ?_⟩
    rw [applyInPlace_eq, h]
  · rw [Preprocessing.apply, Preprocessing.apply]
    cases p.fit train with
    | ok s => rfl
    | error e => rfl
  · obtain ⟨-, rfl, rfl⟩ := apply_eq_ok.mp h
    exact ⟨applyTensor_eq s, apply_eq_mapPixels s _, apply_eq_mapPixels s _⟩

def twoPixels (x y : ℝ) : Dataset ℝ := ⟨.flat 1, #[⟨.flat 1, #[x]⟩, ⟨.flat 1, #[y]⟩], #[0, 1], 2, .none⟩

theorem pixels_twoPixels (x y : ℝ) : pixels (twoPixels x y) = [x, y] := rfl

theorem standardize_centres_twoPixels : (∃ a b,
    standardize.apply (twoPixels 1 5) (twoPixels 7 9) = .ok (⟨3, 2⟩, a, b) ∧ pixels a = [-1, 1] ∧ pixels b = [2, 3] ∧
      mean (pixels a) = 0 ∧ variance (pixels a) = 1) ∧
    standardize.applyInPlace (twoPixels 4 4, twoPixels 7 9) =
      (.error (.dataset .zeroVariance), twoPixels 4 4, twoPixels 7 9) := by
  constructor
  · obtain ⟨hrefused, -, hdone, -⟩ := standardize_centres (twoPixels 1 5) (twoPixels 7 9)
    rw [pixels_twoPixels] at hrefused
    cases h : standardize.apply (twoPixels 1 5) (twoPixels 7 9) with
    | error e =>
        obtain hnil | ⟨c, hc⟩ := hrefused.mp ⟨e, h⟩
        · cases hnil
        · have hone := hc 1 (by simp)
          have hfive := hc 5 (by simp)
          linarith
    | ok r =>
        obtain ⟨s, a, b⟩ := r
        obtain ⟨hs, -⟩ := hdone s a b h
        have hoffset : s.offset = 3 := by
          rw [hs.offset, pixels_twoPixels]
          norm_num [mean]
        have hscale : s.scale = 2 := by
          have hvariance : variance [(1 : ℝ), 5] = 2 ^ 2 := by norm_num [variance, mean]
          rw [hs.scale, pixels_twoPixels, hvariance, Real.sqrt_sq zero_le_two]
        refine ⟨a, b, ?_, ?_, ?_, hs.centred, hs.unit⟩
        · rw [← hoffset, ← hscale]
        · rw [hs.train, pixels_mapPixels, pixels_twoPixels, hoffset, hscale]
          norm_num
        · rw [hs.test, pixels_mapPixels, pixels_twoPixels, hoffset, hscale]
          norm_num
  · obtain ⟨hrefused, hkept, -⟩ := standardize_centres (twoPixels 4 4) (twoPixels 7 9)
    obtain ⟨e, he⟩ := hrefused.mpr (.inr ⟨4, by simp [pixels_twoPixels]⟩)
    obtain ⟨rfl, hplace⟩ := hkept e he
    exact hplace

end Real

end Preprocessing

end Convnet
