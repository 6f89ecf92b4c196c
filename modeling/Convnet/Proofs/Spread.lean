import Mathlib
import Convnet.Dataset.Scaling
import Convnet.Proofs.Loading
import Convnet.Proofs.Operations

namespace Convnet

namespace Rounding

variable {x y : Float} {w : ℝ} {c : ℤ}

/-- Above a power of two, the grid goes on a unit of its last digit higher. -/
theorem grid_above {k : ℤ} (hw : Grid w) (h : 2 ^ k < w) : 2 ^ k + 2 ^ (k - 52) ≤ w := by
  obtain ⟨n, e, hn, -, rfl⟩ := hw
  rw [Nat.cast_ofNat] at h ⊢
  have he := two_zpow_pos e
  have hk : (2 : ℝ) ^ (k - 52) ≤ 2 ^ k := two_zpow_mono (by omega)
  have hn' : (n : ℝ) < 2 ^ (53 : ℤ) := by exact_mod_cast (le_abs_self n).trans_lt hn
  have hpos : 0 < n := by
    have h₀ : (0 : ℝ) < n * 2 ^ e := (two_zpow_pos k).trans h
    exact_mod_cast (pos_iff_pos_of_mul_pos h₀).mpr he
  rcases Int.lt_or_le k e with hlt | hle
  · have hone : (1 : ℝ) ≤ n := by exact_mod_cast hpos
    have hpow : (2 : ℝ) ^ (k + 1) ≤ 2 ^ e := two_zpow_mono (by omega)
    rw [two_zpow_add, zpow_one] at hpow
    have hle := mul_le_mul_of_nonneg_right hone he.le
    linarith
  rcases Int.lt_or_le e (k - 52) with hlow | hhigh
  · have hpow : (2 : ℝ) ^ (53 : ℤ) * 2 ^ e ≤ 2 ^ k := by
      rw [← two_zpow_add]
      exact two_zpow_mono (by omega)
    have hlt := mul_lt_mul_of_pos_right hn' he
    linarith
  · obtain ⟨j, rfl⟩ : ∃ j : Nat, k = e + j := ⟨(k - e).toNat, by omega⟩
    rw [two_zpow_add, zpow_natCast, mul_comm] at h
    have hlt : (2 : ℤ) ^ j < n := by exact_mod_cast lt_of_mul_lt_mul_right h he.le
    have hsucc : (2 : ℝ) ^ j + 1 ≤ n := by exact_mod_cast hlt
    have hmul := mul_le_mul_of_nonneg_right hsucc he.le
    have hpow : (2 : ℝ) ^ (e + j - 52) ≤ 2 ^ e := two_zpow_mono (by omega)
    rw [two_zpow_add e, zpow_natCast]
    linarith

structure Within (w : ℝ) (x : Float) : Prop where
  finite : x.isFinite = true
  low : 0 ≤ number x
  high : number x ≤ w

theorem two_zpow_le_limit (h : c ≤ 1023) : (2 : ℝ) ^ c ≤ 2 ^ (1023 : ℤ) := two_zpow_mono h

theorem within_add (hc : -900 ≤ c) (hc' : c ≤ 900) (hx : Within (2 ^ (c + 54)) x) (hy : Within (2 ^ c) y) :
    Within (2 ^ (c + 54)) (x + y) ∧ number x ≤ number (x + y) ∧ number y ≤ number (x + y) := by
  have hsmall : (2 : ℝ) ^ (c + 55) = 2 * 2 ^ (c + 54) := by
    rw [show c + 55 = 1 + (c + 54) by ring, two_zpow_add, zpow_one]
  have hle : (2 : ℝ) ^ c ≤ 2 ^ (c + 54) := two_zpow_mono (by omega)
  have hsum := hx.high
  have hterm := hy.high
  have hsum₀ := hx.low
  have hterm₀ := hy.low
  have h := nearest_add hx.finite hy.finite (by
    rw [abs_of_nonneg (add_nonneg hsum₀ hterm₀)]
    exact le_trans (by linarith) (two_zpow_le_limit (c := c + 55) (by omega)))
  have hfrom : number x ≤ number (x + y) :=
    h.closest.ge (grid_number hx.finite) (by linarith)
  refine ⟨⟨h.finite, hsum₀.trans hfrom, ?_⟩, hfrom, h.closest.ge (grid_number hy.finite) (by linarith)⟩
  have hgrid : Grid (2 ^ (c + 54)) := grid_two_zpow (by omega)
  rcases le_or_gt (number x + number y) (2 ^ (c + 54)) with hin | hover
  · exact h.closest.le hgrid hin
  · -- The bound is nearer than what comes next on the grid.
    by_contra hlt
    have habove := grid_above (grid_number h.finite) (not_le.mp hlt)
    have hnear := h.closest _ hgrid
    rw [abs_sub_comm (2 ^ (c + 54)) _, abs_of_pos (sub_pos.mpr hover)] at hnear
    have hhigh := (le_abs_self _).trans hnear
    have hgap : (2 : ℝ) ^ (c + 54 - 52) = 4 * 2 ^ c := by
      rw [show c + 54 - 52 = 2 + c by ring, two_zpow_add]
      norm_num
    have hpos := two_zpow_pos c
    linarith

theorem within_foldl (hc : -900 ≤ c) (hc' : c ≤ 900) {ys : List Float} (hys : ∀ y ∈ ys, Within (2 ^ c) y)
    (hx : Within (2 ^ (c + 54)) x) : Within (2 ^ (c + 54)) (ys.foldl (· + ·) x) ∧
      number x ≤ number (ys.foldl (· + ·) x) ∧ ∀ y ∈ ys, number y ≤ number (ys.foldl (· + ·) x) := by
  induction ys generalizing x with
  | nil => exact ⟨hx, le_rfl, by simp⟩
  | cons y ys ih =>
      rw [List.forall_mem_cons] at hys
      obtain ⟨hnext, hfrom, hterm⟩ := within_add hc hc' hx hys.1
      obtain ⟨hall, hfrom', hterms⟩ := ih hys.2 hnext
      rw [List.foldl_cons, List.forall_mem_cons]
      exact ⟨hall, hfrom.trans hfrom', hterm.trans hfrom', hterms⟩

theorem within_zero (hw : 0 ≤ w) : Within w 0.0 := ⟨rfl, number_zero.ge, number_zero.trans_le hw⟩

theorem within_sum (hc : -900 ≤ c) (hc' : c ≤ 900) {ys : List Float} (hys : ∀ y ∈ ys, Within (2 ^ c) y) :
    Within (2 ^ (c + 54)) (ys.foldl (· + ·) 0.0) ∧ ∀ y ∈ ys, number y ≤ number (ys.foldl (· + ·) 0.0) := by
  obtain ⟨hall, -, hterms⟩ := within_foldl hc hc' hys (within_zero (two_zpow_pos _).le)
  exact ⟨hall, hterms⟩

theorem within_div_ofNat (hc : -1074 ≤ c) (hc' : c ≤ 1023) (hx : Within (2 ^ c) x) {n : Nat} (hn : 0 < n) :
    Within (2 ^ c) (x / Float.ofNat n) := by
  obtain ⟨hfin, hlow, hhigh⟩ := div_ofNat_bounds hx.finite hx.low hx.high (grid_two_zpow hc) (two_zpow_le_limit hc') hn
  exact ⟨hfin, hlow, hhigh⟩

/-- The square of a difference of bounded numbers, which keeps a difference of a half apart from zero. -/
theorem within_square_sub (hc : 0 ≤ c) (hc' : c ≤ 400) (hx : Within (2 ^ c) x) (hy : Within (2 ^ c) y) :
    Within (2 ^ (2 * c)) ((x - y) * (x - y)) ∧
      (1 / 2 ≤ |number x - number y| → 1 / 4 ≤ number ((x - y) * (x - y))) := by
  have hdiff : |number x - number y| ≤ 2 ^ c := by
    rw [abs_le]
    have := hx.low
    have := hx.high
    have := hy.low
    have := hy.high
    constructor <;> linarith
  have hsub := nearest_sub hx.finite hy.finite (hdiff.trans (two_zpow_le_limit (by omega)))
  have hd := hsub.closest.bound (grid_two_zpow (by omega)) hdiff
  have hsq : (2 : ℝ) ^ (2 * c) = 2 ^ c * 2 ^ c := by
    rw [two_mul, two_zpow_add]
  have hbound : number (x - y) * number (x - y) ≤ 2 ^ (2 * c) := by
    rw [hsq, ← abs_mul_abs_self]
    exact mul_self_le_mul_self (abs_nonneg _) hd
  have hnonneg := mul_self_nonneg (number (x - y))
  have hmul := nearest_mul hsub.finite hsub.finite (by
    rw [abs_of_nonneg hnonneg]
    exact hbound.trans (two_zpow_le_limit (by omega)))
  refine ⟨⟨hmul.finite, hmul.closest.ge grid_zero hnonneg, hmul.closest.le (grid_two_zpow (by omega)) hbound⟩,
    fun hapart => ?_⟩
  have hhalf : Grid (1 / 2) := by
    have h := grid_two_zpow (e := -1) (by norm_num)
    norm_num at h ⊢
    exact h
  have hquarter : Grid (1 / 4) := by
    have h := grid_two_zpow (e := -2) (by norm_num)
    norm_num at h ⊢
    exact h
  have hfar : 1 / 2 ≤ |number (x - y)| := by
    rcases le_abs.mp hapart with hpos | hneg
    · exact (hsub.closest.ge hhalf hpos).trans (le_abs_self _)
    · have hle := hsub.closest.le hhalf.neg (by linarith)
      exact le_trans (by linarith) (neg_le_abs _)
  refine hmul.closest.ge hquarter ?_
  rw [← abs_mul_abs_self]
  nlinarith

theorem Within.mono {w' : ℝ} (h : Within w x) (hw : w ≤ w') : Within w' x := ⟨h.finite, h.low, h.high.trans hw⟩

theorem within_sqrt (hc : 0 ≤ c) (hc' : c ≤ 400) (hx : Within (2 ^ (2 * c)) x) : Within (2 ^ c) (Float.sqrt x) := by
  have hroot : √(number x) ≤ 2 ^ c := by
    refine Real.sqrt_le_iff.mpr ⟨(two_zpow_pos c).le, ?_⟩
    rw [sq, ← two_zpow_add, ← two_mul]
    exact hx.high
  have h := nearest_sqrt hx.finite hx.low (hroot.trans (two_zpow_le_limit (by omega)))
  exact ⟨h.finite, h.closest.ge grid_zero (Real.sqrt_nonneg _), h.closest.le (grid_two_zpow (by omega)) hroot⟩

theorem within_byte {n : Nat} (hn : n < 256) : Within (2 ^ (8 : ℤ)) (Float.ofNat n) ∧ number (Float.ofNat n) = n := by
  have h := nearest_small (n := n) (by omega)
  have hnumber := h.exact (grid_natCast (by omega))
  have hn' : (n : ℝ) ≤ 2 ^ (8 : ℤ) := by exact_mod_cast hn.le
  exact ⟨⟨h.finite, hnumber ▸ Nat.cast_nonneg n, hnumber ▸ hn'⟩, hnumber⟩

end Rounding

namespace Preprocessing

section Sums

variable {α : Type} [Scalar α]

omit [Scalar α] in
def pixels (d : Dataset α) : List α := d.images.toList.flatMap fun t => t.data.toList

theorem pixelSum_eq (f : α → α) (d : Dataset α) : pixelSum f d = ((pixels d).map f).foldl (· + ·) 0 := by
  simp [pixelSum, pixels, ← Array.foldl_toList, List.foldl_flatMap, List.foldl_map]

omit [Scalar α] in
theorem pixelCount_eq (d : Dataset α) : pixelCount d = (pixels d).length := by
  have hfold : ∀ (ts : List (Tensor α)) (k : Nat), ts.foldl (fun n t => n + t.data.size) k =
      k + (ts.flatMap fun t => t.data.toList).length := by
    intro ts
    induction ts with
    | nil => simp
    | cons t ts ih =>
        intro k
        rw [List.foldl_cons, ih, List.flatMap_cons, List.length_append, ← Array.length_toList, Nat.add_assoc]
  rw [pixelCount, ← Array.foldl_toList, hfold, Nat.zero_add]
  rfl

theorem bytes_of_raw {d : Dataset α} (h : ∀ x ∈ d.images, x.Raw) : ∀ v ∈ pixels d, ∃ n : Nat, n < 256 ∧ v = (n : α) := by
  intro v hv
  obtain ⟨x, hx, hv⟩ := List.mem_flatMap.mp hv
  exact (h x (Array.mem_toList_iff.mp hx)).bytes v (Array.mem_toList_iff.mp hv)

end Sums

section Application

variable {α : Type} [Scalar α] {p : Preprocessing} {train test a b : Dataset α} {s : Scaling α}

theorem apply_eq_ok : p.apply train test = .ok (s, a, b) ↔
    p.fit train = .ok s ∧ a = s.apply train ∧ b = s.apply test := by
  rw [Preprocessing.apply, bind_eq_ok]
  constructor
  · rintro ⟨s', hs, h⟩
    obtain ⟨⟩ := pure_eq_ok_iff.mp h
    exact ⟨hs, rfl, rfl⟩
  · rintro ⟨hs, rfl, rfl⟩
    exact ⟨s, hs, rfl⟩

theorem apply_eq_error {e : Error} : p.apply train test = .error e ↔ p.fit train = .error e := by
  rw [Preprocessing.apply]
  cases p.fit train with
  | ok s => exact iff_of_false nofun nofun
  | error e =>
      rw [error_bind, Except.error.injEq, Except.error.injEq]

end Application

section Bytes

open Rounding

variable {d : Dataset Float}

def distances (d : Dataset Float) (mean : Float) : List Float := (pixels d).map fun x => (x - mean) * (x - mean)

theorem spread_eq (h : pixels d ≠ []) : spread d = (((pixels d).foldl (· + ·) 0.0) / Float.ofNat (pixels d).length,
    Float.sqrt (((distances d (spread d).1).foldl (· + ·) 0.0) / Float.ofNat (pixels d).length)) := by
  have hlength : pixelCount d ≠ 0 := by
    rw [pixelCount_eq]
    exact fun hzero => h (List.length_eq_zero_iff.mp hzero)
  rw [spread]
  dsimp only
  rw [if_neg hlength, pixelCount_eq, pixelSum_eq, pixelSum_eq, List.map_id]
  rfl

structure Measured (d : Dataset Float) : Prop where
  mean : Within (2 ^ (62 : ℤ)) (spread d).1
  terms : ∀ x ∈ distances d (spread d).1, Within (2 ^ (124 : ℤ)) x
  deviation : Within (2 ^ (89 : ℤ)) (spread d).2

theorem measured_of_bytes (hb : ∀ v ∈ pixels d, ∃ n : Nat, n < 256 ∧ v = (n : Float)) : Measured d := by
  by_cases hnone : pixels d = []
  · have hzero : spread d = (0.0, 0.0) := by
      have hcount : pixelCount d = 0 := by rw [pixelCount_eq, hnone, List.length_nil]
      rw [spread]
      exact if_pos hcount
    constructor
    · rw [hzero]
      exact within_zero (by positivity)
    · simp [distances, hnone]
    · rw [hzero]
      exact within_zero (by positivity)
  · have hlength := List.length_pos_iff.mpr hnone
    have hbyte : ∀ v ∈ pixels d, Within (2 ^ (8 : ℤ)) v := by
      intro v hv
      obtain ⟨n, hn, rfl⟩ := hb v hv
      exact (within_byte hn).1
    have hmean : Within (2 ^ (62 : ℤ)) (spread d).1 := by
      obtain ⟨hsum, -⟩ := within_sum (by norm_num) (by norm_num) hbyte
      rw [spread_eq hnone]
      exact within_div_ofNat (by norm_num) (by norm_num) hsum hlength
    have hterms : ∀ x ∈ distances d (spread d).1, Within (2 ^ (124 : ℤ)) x := by
      intro x hx
      obtain ⟨v, hv, rfl⟩ := List.mem_map.mp hx
      exact (within_square_sub (c := 62) (by norm_num) (by norm_num)
        ((hbyte v hv).mono (two_zpow_mono (by norm_num))) hmean).1
    refine ⟨hmean, hterms, ?_⟩
    obtain ⟨hsum, -⟩ := within_sum (by norm_num) (by norm_num) hterms
    rw [spread_eq hnone]
    exact within_sqrt (by norm_num) (by norm_num) (within_div_ofNat (by norm_num) (by norm_num) hsum hlength)

theorem deviation_of_total {total : Float} {n : Nat} (h : Within (2 ^ ((124 : ℤ) + 54)) total)
    (hquarter : 1 / 4 ≤ number total) (hn : 0 < n) (hlt : n < 2 ^ 64) : 0.0 < Float.sqrt (total / Float.ofNat n) := by
  have hcount := nearest_ofNat hlt
  have hone : 1 ≤ number (Float.ofNat n) :=
    hcount.closest.ge (by exact_mod_cast grid_natCast (n := 1) (by decide)) (by exact_mod_cast hn)
  have hmany : number (Float.ofNat n) ≤ 2 ^ (64 : ℤ) :=
    hcount.closest.le (grid_two_zpow (by norm_num)) (by exact_mod_cast hlt.le)
  have hquotient := within_div_ofNat (by norm_num) (by norm_num) h hn
  have hratio : (2 : ℝ) ^ (-66 : ℤ) ≤ number total / number (Float.ofNat n) := by
    have hsplit : (2 : ℝ) ^ (-66 : ℤ) * 2 ^ (64 : ℤ) = 1 / 4 := by
      rw [← two_zpow_add]
      norm_num
    rw [le_div_iff₀ (by linarith)]
    exact (mul_le_mul_of_nonneg_left hmany (two_zpow_pos _).le).trans (hsplit.trans_le hquarter)
  have hdiv : Nearest (number total / number (Float.ofNat n)) (total / Float.ofNat n) := by
    refine nearest_div h.finite hcount.finite (by linarith) ?_
    rw [abs_of_nonneg (div_nonneg h.low (by linarith))]
    exact (div_le_self h.low hone).trans (h.high.trans (two_zpow_le_limit (by norm_num)))
  have hpart := hdiv.closest.ge (grid_two_zpow (by norm_num)) hratio
  have hroot : Nearest (√(number (total / Float.ofNat n))) (Float.sqrt (total / Float.ofNat n)) := by
    refine nearest_sqrt hquotient.finite hquotient.low ?_
    refine Real.sqrt_le_iff.mpr ⟨(two_zpow_pos _).le, hquotient.high.trans ?_⟩
    rw [sq, ← two_zpow_add]
    exact two_zpow_mono (by norm_num)
  have hlow : (2 : ℝ) ^ (-33 : ℤ) ≤ number (Float.sqrt (total / Float.ofNat n)) := by
    refine hroot.closest.ge (grid_two_zpow (by norm_num)) ((Real.le_sqrt (two_zpow_pos _).le ?_).mpr ?_)
    · exact hquotient.low
    · rw [sq, ← two_zpow_add]
      exact hpart
  rw [lt_iff_number rfl hroot.finite, number_zero]
  exact (two_zpow_pos _).trans_le hlow

/-- The deviation is positive as soon as two bytes differ. -/
theorem deviation_pos (hb : ∀ v ∈ pixels d, ∃ n : Nat, n < 256 ∧ v = (n : Float)) (hlt : (pixels d).length < 2 ^ 64)
    {v w : Float} (hv : v ∈ pixels d) (hw : w ∈ pixels d) (hne : v ≠ w) : 0.0 < (spread d).2 := by
  have hmeasured := measured_of_bytes hb
  obtain ⟨mean, hm⟩ : ∃ mean, mean = (spread d).1 := ⟨_, rfl⟩
  -- One of the two is at least a half away from the mean.
  obtain ⟨u, hu, hfar⟩ : ∃ u ∈ pixels d, 1 / 2 ≤ |number u - number mean| := by
    obtain ⟨a, ha, rfl⟩ := hb v hv
    obtain ⟨b, hb', rfl⟩ := hb w hw
    have hab : a ≠ b := fun h => hne (by rw [h])
    have hone : (1 : ℝ) ≤ |(a : ℝ) - b| := by
      have h : 1 ≤ |(a : ℤ) - b| := Int.one_le_abs (sub_ne_zero.mpr (by exact_mod_cast hab))
      exact_mod_cast h
    by_contra hnear
    simp only [not_exists, not_and, not_le] at hnear
    have hva := hnear _ hv
    have hwb := hnear _ hw
    have hnumber : ∀ n : Nat, n < 256 → number ((n : Nat) : Float) = n := fun n hn => (within_byte hn).2
    rw [hnumber _ ha] at hva
    rw [hnumber _ hb'] at hwb
    have htri := abs_sub_le (a : ℝ) (number mean) b
    rw [abs_sub_comm (number mean)] at htri
    linarith
  have hnone : pixels d ≠ [] := List.ne_nil_of_mem hu
  have hlength := List.length_pos_iff.mpr hnone
  have hmean := hmeasured.mean
  rw [← hm] at hmean
  -- Its square is at least a quarter, and so is the sum of all squares.
  have hquarter : 1 / 4 ≤ number ((distances d mean).foldl (· + ·) 0.0) := by
    obtain ⟨n, hn, rfl⟩ := hb u hu
    have hbyte := (within_byte hn).1.mono (two_zpow_mono (show (8 : ℤ) ≤ 62 by norm_num))
    have hterm := (within_square_sub (by norm_num) (by norm_num) hbyte hmean).2 hfar
    have hterms := hmeasured.terms
    rw [← hm] at hterms
    exact hterm.trans ((within_sum (by norm_num) (by norm_num) hterms).2 _ (List.mem_map_of_mem hu))
  generalize hsum : (distances d mean).foldl (· + ·) 0.0 = total at hquarter
  have htotal : Within (2 ^ ((124 : ℤ) + 54)) total := by
    have h := (within_sum (by norm_num) (by norm_num) hmeasured.terms).1
    rwa [← hm, hsum] at h
  rw [spread_eq hnone, ← hm, hsum]
  exact deviation_of_total htotal hquarter hlength hlt

end Bytes

end Preprocessing

end Convnet
