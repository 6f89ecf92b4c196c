import Mathlib
import Convnet.Proofs.Correct

namespace Convnet.Rounding

open Float.Model UnpackedFloat

section Operations

variable {u v : UnpackedFloat} {x y : Float} {m n : Nat} {e f : Int}

theorem log2_ge_of_le (h : 2 ^ 52 ≤ m) : 52 ≤ m.log2 := (Nat.le_log2 (by omega)).mpr h

theorem signed_mul (s t : Sign) (z w : ℝ) : signed s z * signed t w = signed (s * t) (z * w) := by
  cases s <;> cases t
  · exact neg_mul_neg z w
  · exact neg_mul z w
  · exact mul_neg z w
  · rfl

theorem mul_closest (hu : Canonical u) (hv : Canonical v) : Canonical (UnpackedFloat.mul Format.binary64 u v) ∧
    Closest (value u * value v) (value (UnpackedFloat.mul Format.binary64 u v)) := by
  cases u with
  | infinity | notANumber => exact hu.elim
  | zero s =>
      cases v with
      | infinity | notANumber => exact hv.elim
      | zero | finite => exact ⟨trivial, .of_eq (zero_mul _)⟩
  | finite s m e hm =>
      cases v with
      | infinity | notANumber => exact hv.elim
      | zero => exact ⟨trivial, .of_eq (mul_zero _)⟩
      | finite t n f hn =>
          obtain ⟨-, -, hfull⟩ := hu
          obtain ⟨-, -, hfull'⟩ := hv
          rw [value_finite, value_finite, signed_mul]
          refine round_closest ?_ ?_ (s * t)
          · rcases hfull with rfl | hfull
            · rcases hfull' with rfl | hfull'
              · exact .inr (by norm_num)
              · exact .inl (log2_ge_of_le (hfull'.trans (Nat.le_mul_of_pos_left n hm)))
            · exact .inl (log2_ge_of_le (hfull.trans (Nat.le_mul_of_pos_right m hn)))
          · rw [two_zpow_add, Tells]
            field_simp
            push_cast
            ring

theorem nearest_mul (hx : x.isFinite = true) (hy : y.isFinite = true)
    (hz : |number x * number y| ≤ 2 ^ (1023 : ℤ)) : Nearest (number x * number y) (x * y) := by
  obtain ⟨hc, hclosest⟩ := mul_closest (canonical_unpack hx) (canonical_unpack hy)
  exact nearest_pack hc hclosest hz

theorem round_exact_closest (s : Sign) (hm : 0 < m) (e : Int) : Canonical (UnpackedFloat.round Format.binary64 s m e) ∧
    Closest (signed s (m * 2 ^ e)) (value (UnpackedFloat.round Format.binary64 s m e)) := by
  obtain ⟨k, hk⟩ : ∃ k : Nat, (e - Format.binary64.targetExponent (totalExponent m e)).toNat = k := ⟨_, rfl⟩
  rw [UnpackedFloat.round, decreaseExponent, hk]
  dsimp only
  rw [Nat.shiftLeft_eq]
  refine round_closest ?_ ?_ s
  · rw [target_eq] at hk
    by_cases hmany : 52 ≤ m.log2 + k
    · refine .inl (log2_ge_of_le ?_)
      calc 2 ^ 52 ≤ 2 ^ m.log2 * 2 ^ k := by
            rw [← Nat.pow_add]
            exact Nat.pow_le_pow_right (by decide) hmany
        _ ≤ m * 2 ^ k := Nat.mul_le_mul_right _ (Nat.log2_self_le (by omega))
    · exact .inr (by omega)
  · have hpow : (2 : ℝ) ^ e = 2 ^ (e - k) * 2 ^ k := by
      rw [← zpow_natCast, ← two_zpow_add]
      congr 1
      omega
    rw [Tells, hpow]
    field_simp
    push_cast
    ring

/-- A sum of multiples of one power of two is rounded to a closest number. -/
theorem normalize_closest (n e : Int) : Canonical (UnpackedFloat.normalize Format.binary64 n e .positive) ∧
    Closest (n * 2 ^ e) (value (UnpackedFloat.normalize Format.binary64 n e .positive)) := by
  unfold UnpackedFloat.normalize
  rcases lt_trichotomy n 0 with hn | rfl | hn
  · obtain ⟨hc, hclosest⟩ := round_exact_closest .negative (m := (-n).toNat) (by omega) e
    have hcast : (((-n).toNat : ℕ) : ℝ) = -n := by
      have : (((-n).toNat : ℕ) : ℤ) = -n := by omega
      exact_mod_cast this
    rw [Int.compare_eq_lt.mpr hn]
    refine ⟨hc, ?_⟩
    simpa [signed, hcast] using hclosest
  · exact ⟨trivial, .of_eq (by simp [value])⟩
  · obtain ⟨hc, hclosest⟩ := round_exact_closest .positive (m := n.toNat) (by omega) e
    have hcast : ((n.toNat : ℕ) : ℝ) = n := by
      have : ((n.toNat : ℕ) : ℤ) = n := by omega
      exact_mod_cast this
    rw [Int.compare_eq_gt.mpr hn]
    refine ⟨hc, ?_⟩
    simpa [signed, hcast] using hclosest

theorem apply_decreased (s : Sign) (m : Nat) {e t : Int} (h : t ≤ e) :
    ((s.apply ((m <<< (e - t).toNat : ℕ) : ℤ) : ℤ) : ℝ) * 2 ^ t = signed s (m * 2 ^ e) := by
  obtain ⟨k, rfl⟩ : ∃ k : Nat, e = t + k := ⟨(e - t).toNat, by omega⟩
  have hk : (t + (k : Int) - t).toNat = k := by omega
  rw [hk, Nat.shiftLeft_eq, two_zpow_add, zpow_natCast]
  cases s <;> simp only [Sign.apply, signed] <;> push_cast <;> ring

theorem add_closest (hu : Canonical u) (hv : Canonical v) : Canonical (UnpackedFloat.add Format.binary64 u v) ∧
    Closest (value u + value v) (value (UnpackedFloat.add Format.binary64 u v)) := by
  cases u with
  | infinity | notANumber => exact hu.elim
  | zero s =>
      cases v with
      | infinity | notANumber => exact hv.elim
      | zero t => cases s <;> cases t <;> exact ⟨trivial, .of_eq (zero_add _)⟩
      | finite => exact ⟨hv, .of_eq (zero_add _)⟩
  | finite s m e hm =>
      cases v with
      | infinity | notANumber => exact hv.elim
      | zero => exact ⟨hu, .of_eq (add_zero _)⟩
      | finite t n f hn =>
          have hnormal := normalize_closest
            (s.apply ((m <<< (e - min e f).toNat : ℕ) : ℤ) + t.apply ((n <<< (f - min e f).toNat : ℕ) : ℤ)) (min e f)
          rw [Int.cast_add, add_mul, apply_decreased s m (min_le_left e f),
            apply_decreased t n (min_le_right e f)] at hnormal
          rw [value_finite, value_finite]
          exact hnormal

theorem neg_canonical (hu : Canonical u) : Canonical u.neg := by cases u <;> exact hu

theorem value_neg (u : UnpackedFloat) : value u.neg = -value u := by
  cases u with
  | infinity | notANumber | zero => exact neg_zero.symm
  | finite s m e hm =>
      rw [UnpackedFloat.neg, value_finite, value_finite]
      cases s
      · exact (neg_neg _).symm
      · rfl

theorem sub_eq_add_neg (u v : UnpackedFloat) :
    UnpackedFloat.sub Format.binary64 u v = UnpackedFloat.add Format.binary64 u v.neg := by
  cases u with
  | notANumber => rfl
  | infinity s => cases v <;> rfl
  | zero s => cases v <;> rfl
  | finite s m e hm =>
      cases v with
      | infinity | notANumber | zero => rfl
      | finite t n f hn =>
          have hneg : ∀ k : Int, (-t).apply k = -t.apply k := by
            intro k
            cases t
            · exact (neg_neg k).symm
            · rfl
          simp only [UnpackedFloat.sub, UnpackedFloat.neg, UnpackedFloat.add, hneg, Int.sub_eq_add_neg]

theorem nearest_add (hx : x.isFinite = true) (hy : y.isFinite = true)
    (hz : |number x + number y| ≤ 2 ^ (1023 : ℤ)) : Nearest (number x + number y) (x + y) := by
  obtain ⟨hc, hclosest⟩ := add_closest (canonical_unpack hx) (canonical_unpack hy)
  exact nearest_pack hc hclosest hz

theorem nearest_sub (hx : x.isFinite = true) (hy : y.isFinite = true)
    (hz : |number x - number y| ≤ 2 ^ (1023 : ℤ)) : Nearest (number x - number y) (x - y) := by
  obtain ⟨hc, hclosest⟩ := add_closest (canonical_unpack hx) (neg_canonical (canonical_unpack hy))
  rw [value_neg, ← sub_eq_add_neg] at hclosest
  rw [← sub_eq_add_neg] at hc
  exact nearest_pack hc hclosest hz

theorem tells_accuracyOfFraction (a : Nat) {d : Nat} (hd : 0 < d) :
    Tells ((a : ℝ) / d) (a / d) (accuracyOfFraction (a % d) d) := by
  have hlt : a % d < d := Nat.mod_lt a hd
  have hd' : (0 : ℝ) < d := by exact_mod_cast hd
  have hsplit : (a : ℝ) / d = (a / d : ℕ) + (a % d : ℕ) / d := by
    have h : (a : ℝ) = d * (a / d : ℕ) + (a % d : ℕ) := by exact_mod_cast (Nat.div_add_mod a d).symm
    rw [div_eq_iff hd'.ne', add_mul, div_mul_cancel₀ _ hd'.ne', mul_comm _ (d : ℝ)]
    exact h
  rw [hsplit]
  generalize a / d = q at *
  generalize a % d = r at *
  have hone : (r : ℝ) / d < 1 := by
    rw [div_lt_one hd']
    exact_mod_cast hlt
  unfold accuracyOfFraction
  by_cases hr : r = 0
  · rw [if_pos hr, hr, Nat.cast_zero, zero_div, add_zero]
    rfl
  · have hpos : (0 : ℝ) < r / d := div_pos (by exact_mod_cast Nat.pos_of_ne_zero hr) hd'
    rw [if_neg hr]
    rcases Nat.lt_trichotomy (2 * r) d with h | h | h
    · have hhalf : (r : ℝ) / d < 1 / 2 := by
        rw [div_lt_div_iff₀ hd' (by norm_num)]
        exact_mod_cast (by omega : r * 2 < 1 * d)
      rw [Nat.compare_eq_lt.mpr h]
      constructor <;> linarith
    · have hhalf : (r : ℝ) / d = 1 / 2 := by
        rw [div_eq_div_iff hd'.ne' (by norm_num)]
        exact_mod_cast (by omega : r * 2 = 1 * d)
      rw [Nat.compare_eq_eq.mpr h, hhalf]
      rfl
    · have hhalf : (1 : ℝ) / 2 < r / d := by
        rw [div_lt_div_iff₀ (by norm_num) hd']
        exact_mod_cast (by omega : 1 * d < r * 2)
      rw [Nat.compare_eq_gt.mpr h]
      constructor <;> linarith

theorem signed_div (s t : Sign) (z w : ℝ) : signed s z / signed t w = signed (s / t) (z / w) := by
  cases s <;> cases t
  · exact neg_div_neg_eq z w
  · exact neg_div w z
  · exact div_neg z
  · rfl

theorem div_closest (hu : Canonical u) (hv : Canonical v) (hne : value v ≠ 0) :
    Canonical (UnpackedFloat.div Format.binary64 u v) ∧
      Closest (value u / value v) (value (UnpackedFloat.div Format.binary64 u v)) := by
  cases v with
  | infinity | notANumber => exact hv.elim
  | zero => exact absurd rfl hne
  | finite t n f hn =>
      cases u with
      | infinity | notANumber => exact hu.elim
      | zero => exact ⟨trivial, .of_eq (zero_div _)⟩
      | finite s m e hm =>
          rw [value_finite, value_finite, signed_div]
          obtain ⟨p, hp⟩ : ∃ p, min (e - f) (Format.binary64.targetExponent (totalExponent m e - totalExponent n f)) = p :=
            ⟨_, rfl⟩
          obtain ⟨k, hk⟩ : ∃ k : Nat, (e - f - p).toNat = k := ⟨_, rfl⟩
          have hcore : divCore Format.binary64 m e n f =
              (m * 2 ^ k / n, p, accuracyOfFraction (m * 2 ^ k % n) n) := by
            simp only [divCore, hp, hk, Nat.shiftLeft_eq]
          have htarget : Format.binary64.targetExponent (totalExponent m e - totalExponent n f) =
              max ((m.log2 : Int) + e - (n.log2 + f) - 53) (-1074) := by
            have hleast : Format.binary64.minExponent = -1074 := by decide
            have hbits : (Format.binary64.mantissaBits : Int) = 53 := rfl
            rw [Format.targetExponent, hleast, hbits, totalExponent, totalExponent]
            omega
          rw [htarget] at hp
          have hround : UnpackedFloat.div Format.binary64 (.finite s m e hm) (.finite t n f hn) =
              roundWithAccuracy Format.binary64 (s / t) (m * 2 ^ k / n) p (accuracyOfFraction (m * 2 ^ k % n) n) := by
            rw [UnpackedFloat.div, hcore]
          rw [hround]
          refine round_closest ?_ ?_ (s / t)
          · by_cases hmany : 53 + n.log2 ≤ m.log2 + k
            · refine .inl (log2_ge_of_le ?_)
              rw [Nat.le_div_iff_mul_le hn]
              calc 2 ^ 52 * n ≤ 2 ^ 52 * 2 ^ (n.log2 + 1) := Nat.mul_le_mul_left _ Nat.lt_log2_self.le
                _ = 2 ^ (53 + n.log2) := by rw [← Nat.pow_add]; congr 1; omega
                _ ≤ 2 ^ (m.log2 + k) := Nat.pow_le_pow_right (by decide) hmany
                _ = 2 ^ m.log2 * 2 ^ k := Nat.pow_add ..
                _ ≤ m * 2 ^ k := Nat.mul_le_mul_right _ (Nat.log2_self_le (by omega))
            · exact .inr (by omega)
          · have hscale : (m : ℝ) * 2 ^ e / (n * 2 ^ f) / 2 ^ p = ((m * 2 ^ k : ℕ) : ℝ) / n := by
              have he : (2 : ℝ) ^ e = 2 ^ p * 2 ^ f * 2 ^ k := by
                rw [← zpow_natCast, ← two_zpow_add, ← two_zpow_add]
                congr 1
                omega
              have hn' : (n : ℝ) ≠ 0 := by exact_mod_cast hn.ne'
              rw [he]
              push_cast
              field_simp
            rw [hscale]
            exact tells_accuracyOfFraction _ hn

theorem nearest_div (hx : x.isFinite = true) (hy : y.isFinite = true) (hne : number y ≠ 0)
    (hz : |number x / number y| ≤ 2 ^ (1023 : ℤ)) : Nearest (number x / number y) (x / y) := by
  obtain ⟨hc, hclosest⟩ := div_closest (canonical_unpack hx) (canonical_unpack hy) hne
  exact nearest_pack hc hclosest hz

theorem tells_sqrt (a : Nat) : Tells (√(a : ℝ)) (Nat.sqrt a) (if a - Nat.sqrt a * Nat.sqrt a = 0 then .exact
    else .inexact (if a - Nat.sqrt a * Nat.sqrt a ≤ Nat.sqrt a then .lt else .gt)) := by
  have hlow : Nat.sqrt a * Nat.sqrt a ≤ a := Nat.sqrt_le a
  have hhigh : a < (Nat.sqrt a + 1) * (Nat.sqrt a + 1) := Nat.lt_succ_sqrt a
  generalize Nat.sqrt a = r at *
  split_ifs with hexact hhalf
  · obtain rfl : a = r * r := by omega
    rw [Tells]
    push_cast
    exact Real.sqrt_mul_self (Nat.cast_nonneg r)
  · have hr : r * r < a := by omega
    have hr' : (r : ℝ) * r < a := by exact_mod_cast hr
    have ha : (a : ℝ) ≤ r * r + r := by exact_mod_cast (by omega : a ≤ r * r + r)
    constructor
    · exact Real.lt_sqrt_of_sq_lt (by nlinarith)
    · rw [Real.sqrt_lt' (by positivity)]
      nlinarith
  · have hr : r * r + r + 1 ≤ a := by omega
    have hr' : (r : ℝ) * r + r + 1 ≤ a := by exact_mod_cast hr
    have ha : (a : ℝ) < (r + 1) * (r + 1) := by exact_mod_cast hhigh
    constructor
    · exact Real.lt_sqrt_of_sq_lt (by nlinarith)
    · rw [Real.sqrt_lt' (by positivity)]
      nlinarith

theorem sqrt_closest (hu : Canonical u) (hpos : 0 ≤ value u) : Canonical (UnpackedFloat.sqrt Format.binary64 u) ∧
    Closest (√(value u)) (value (UnpackedFloat.sqrt Format.binary64 u)) := by
  cases u with
  | infinity | notANumber => exact hu.elim
  | zero => exact ⟨trivial, .of_eq Real.sqrt_zero⟩
  | finite s m e hm =>
      have hm' : (0 : ℝ) < m := by exact_mod_cast hm
      cases s with
      | negative =>
          rw [value_finite] at hpos
          have := mul_pos hm' (two_zpow_pos e)
          exact absurd hpos (not_le.mpr (by rw [signed]; linarith))
      | positive =>
          obtain ⟨p, hp⟩ : ∃ p, min (e.ediv 2) (Format.binary64.targetExponent ((totalExponent m e + 1).ediv 2)) = p :=
            ⟨_, rfl⟩
          obtain ⟨k, hk⟩ : ∃ k : Nat, (e - 2 * p).toNat = k := ⟨_, rfl⟩
          have htarget : Format.binary64.targetExponent ((totalExponent m e + 1).ediv 2) =
              max (((m.log2 : Int) + e + 2) / 2 - 53) (-1074) := by
            have hleast : Format.binary64.minExponent = -1074 := by decide
            have hbits : (Format.binary64.mantissaBits : Int) = 53 := rfl
            have hdiv : (totalExponent m e + 1).ediv 2 = ((m.log2 : Int) + e + 2) / 2 := by
              rw [totalExponent]
              show ((m.log2 : Int) + 1 + e + 1) / 2 = _
              omega
            rw [Format.targetExponent, hleast, hbits, hdiv]
          have hcore := tells_sqrt (m * 2 ^ k)
          have hround : UnpackedFloat.sqrt Format.binary64 (.finite .positive m e hm) =
              roundWithAccuracy Format.binary64 .positive (Nat.sqrt (m * 2 ^ k)) p
                (if m * 2 ^ k - Nat.sqrt (m * 2 ^ k) * Nat.sqrt (m * 2 ^ k) = 0 then .exact
                  else .inexact (if m * 2 ^ k - Nat.sqrt (m * 2 ^ k) * Nat.sqrt (m * 2 ^ k) ≤
                    Nat.sqrt (m * 2 ^ k) then .lt else .gt)) := by
            simp only [UnpackedFloat.sqrt, sqrtCore, hp, hk, Nat.shiftLeft_eq]
          have hhalf : (e.ediv 2 : Int) = e / 2 := rfl
          rw [htarget, hhalf] at hp
          rw [hround, value_finite]
          refine round_closest ?_ ?_ .positive
          · by_cases hmany : 104 ≤ m.log2 + k
            · refine .inl (log2_ge_of_le ?_)
              rw [Nat.le_sqrt]
              calc 2 ^ 52 * 2 ^ 52 ≤ 2 ^ (m.log2 + k) := by
                    rw [← Nat.pow_add]
                    exact Nat.pow_le_pow_right (by decide) hmany
                _ = 2 ^ m.log2 * 2 ^ k := Nat.pow_add ..
                _ ≤ m * 2 ^ k := Nat.mul_le_mul_right _ (Nat.log2_self_le (by omega))
            · exact .inr (by omega)
          · have hscale : √(signed .positive (m * 2 ^ e)) / 2 ^ p = √((m * 2 ^ k : ℕ) : ℝ) := by
              have he : (2 : ℝ) ^ e = 2 ^ k * (2 ^ p * 2 ^ p) := by
                rw [← zpow_natCast, ← two_zpow_add, ← two_zpow_add]
                congr 1
                omega
              have hsplit : (m : ℝ) * 2 ^ e = m * 2 ^ k * (2 ^ p * 2 ^ p) := by
                rw [he]
                ring
              rw [signed, hsplit, Real.sqrt_mul (by positivity), Real.sqrt_mul_self (two_zpow_pos p).le,
                mul_div_cancel_right₀ _ (two_zpow_pos p).ne']
              push_cast
              rfl
            rw [hscale]
            exact hcore

theorem nearest_sqrt (hx : x.isFinite = true) (hpos : 0 ≤ number x) (hz : √(number x) ≤ 2 ^ (1023 : ℤ)) :
    Nearest (√(number x)) (Float.sqrt x) := by
  obtain ⟨hc, hclosest⟩ := sqrt_closest (canonical_unpack hx) hpos
  refine nearest_pack hc hclosest ?_
  rwa [abs_of_nonneg (Real.sqrt_nonneg _)]

end Operations

section Comparison

variable {m n : Nat} {e f : Int} {u v : UnpackedFloat} {x y : Float}

theorem units_lt (hm : m < 2 ^ 53) (he : -1074 ≤ e) (hf : f = -1074 ∨ 2 ^ 52 ≤ n)
    (h : e < f ∨ e = f ∧ m < n) : (m : ℝ) * 2 ^ e < n * 2 ^ f := by
  rcases h with hlt | ⟨rfl, hlt⟩
  · have hn' : (2 : ℝ) ^ (52 : ℤ) ≤ n := by exact_mod_cast hf.resolve_left (by omega)
    have hm' : (m : ℝ) < 2 ^ (53 : ℤ) := by exact_mod_cast hm
    calc (m : ℝ) * 2 ^ e < 2 ^ (53 : ℤ) * 2 ^ e := mul_lt_mul_of_pos_right hm' (two_zpow_pos e)
      _ = 2 ^ (53 + e) := (two_zpow_add _ _).symm
      _ ≤ 2 ^ (52 + f) := two_zpow_mono (by omega)
      _ = 2 ^ (52 : ℤ) * 2 ^ f := two_zpow_add _ _
      _ ≤ n * 2 ^ f := mul_le_mul_of_nonneg_right hn' (two_zpow_pos f).le
  · exact mul_lt_mul_of_pos_right (by exact_mod_cast hlt) (two_zpow_pos e)

theorem units_lt_iff (hm : m < 2 ^ 53) (he : -1074 ≤ e) (he' : e = -1074 ∨ 2 ^ 52 ≤ m)
    (hn : n < 2 ^ 53) (hf : -1074 ≤ f) (hf' : f = -1074 ∨ 2 ^ 52 ≤ n) :
    (compare e f).then (compare m n) = .lt ↔ (m : ℝ) * 2 ^ e < n * 2 ^ f := by
  rcases Int.lt_trichotomy e f with h | rfl | h
  · rw [Int.compare_eq_lt.mpr h, Ordering.lt_then]
    exact iff_of_true rfl (units_lt hm he hf' (.inl h))
  · rw [Int.compare_eq_eq.mpr rfl, Ordering.eq_then, Nat.compare_eq_lt]
    rcases Nat.lt_or_ge m n with h | h
    · exact iff_of_true h (units_lt hm he hf' (.inr ⟨rfl, h⟩))
    · refine iff_of_false (Nat.not_lt.mpr h) (not_lt.mpr ?_)
      exact mul_le_mul_of_nonneg_right (by exact_mod_cast h) (two_zpow_pos e).le
  · rw [Int.compare_eq_gt.mpr h, Ordering.gt_then]
    exact iff_of_false nofun (not_lt.mpr (units_lt hn hf he' (.inl h)).le)

theorem compare_lt_iff (hu : Canonical u) (hv : Canonical v) : u.compare v = some .lt ↔ value u < value v := by
  have hpos : ∀ (m : Nat) (e : Int), 0 < m → (0 : ℝ) < m * 2 ^ e := fun m e hm =>
    mul_pos (by exact_mod_cast hm) (two_zpow_pos e)
  cases u with
  | infinity | notANumber => exact hu.elim
  | zero s =>
      cases v with
      | infinity | notANumber => exact hv.elim
      | zero => exact iff_of_false (by rintro ⟨⟩) (lt_irrefl _)
      | finite t n f hn =>
          have hn' := hpos n f hn
          rw [value_finite]
          cases t
          · exact iff_of_false (by rintro ⟨⟩) (not_lt.mpr (neg_nonpos.mpr hn'.le))
          · exact iff_of_true rfl hn'
  | finite s m e hm =>
      have hm' := hpos m e hm
      obtain ⟨hlt, he, hfull⟩ := hu
      cases v with
      | infinity | notANumber => exact hv.elim
      | zero =>
          rw [value_finite]
          cases s
          · exact iff_of_true rfl (neg_lt_zero.mpr hm')
          · exact iff_of_false (by rintro ⟨⟩) (not_lt.mpr hm'.le)
      | finite t n f hn =>
          have hn' := hpos n f hn
          obtain ⟨hlt', hf, hfull'⟩ := hv
          rw [value_finite, value_finite]
          cases s <;> cases t
          · have hswap : ∀ o : Ordering, some o.swap = some .lt ↔ o = .gt := by decide
            rw [UnpackedFloat.compare, hswap, signed, signed, neg_lt_neg_iff,
              ← units_lt_iff hlt' hf hfull' hlt he hfull, ← Ordering.swap_eq_lt, Ordering.swap_then,
              Int.compare_swap, Nat.compare_swap]
          · exact iff_of_true rfl ((neg_lt_zero.mpr hm').trans hn')
          · exact iff_of_false (by rintro ⟨⟩) (not_lt.mpr ((neg_lt_zero.mpr hn').trans hm').le)
          · rw [UnpackedFloat.compare, Option.some_inj]
            exact units_lt_iff hlt he hfull hlt' hf hfull'

theorem lt_iff_number (hx : x.isFinite = true) (hy : y.isFinite = true) : x < y ↔ number x < number y :=
  (Binary64.lt_iff_compare x y).trans (compare_lt_iff (canonical_unpack hx) (canonical_unpack hy))

end Comparison

section Counts

variable {x : Float} {n : Nat} {w : ℝ}

theorem Nearest.exact (h : Nearest w x) (hw : Grid w) : number x = w := h.closest.eq hw

theorem number_zero : number 0.0 = 0 := by
  have hu : (0.0 : Float).toModel.unpack = .zero .positive := by rfl
  rw [number, hu]
  rfl

theorem number_one : number 1.0 = 1 := by
  have hu : (1.0 : Float).toModel.unpack = .finite .positive (2 ^ 52) (-52) (by decide) := by rfl
  rw [number, hu, value_finite]
  norm_num [signed]

theorem ofNat_closest (n : Nat) : Canonical (UnpackedFloat.ofNat Format.binary64 n) ∧
    Closest n (value (UnpackedFloat.ofNat Format.binary64 n)) := by
  have h := normalize_closest n 0
  rwa [zpow_zero, mul_one, Int.cast_natCast] at h

theorem nearest_small (hn : n < 2 ^ 53) : Nearest n (Float.ofNat n) := by
  have hbound : |(n : ℝ)| ≤ 2 ^ (1023 : ℤ) := by
    rw [Nat.abs_cast]
    calc (n : ℝ) ≤ 2 ^ (53 : ℤ) := by exact_mod_cast hn.le
      _ ≤ 2 ^ (1023 : ℤ) := two_zpow_mono (by norm_num)
  have hto : n.toUInt64.toNat = n := by
    rw [Nat.toUInt64, UInt64.toNat_ofNat', Nat.mod_eq_of_lt (by omega)]
  obtain ⟨hc, hclosest⟩ := ofNat_closest n
  have hfloat : Nearest n n.toUInt64.toFloat := by
    have h : Nearest n (.ofModel (.pack (UnpackedFloat.ofNat Format.binary64 n.toUInt64.toNat))) := by
      rw [hto]
      exact nearest_pack hc hclosest hbound
    exact h
  have hone : number (Float.ofBits 0x3FF0000000000000) = 1 := by
    have h : Float.ofBits 0x3FF0000000000000 = 1.0 := by rfl
    rw [h, number_one]
  have hprod : Nearest (number n.toUInt64.toFloat * number (Float.ofBits 0x3FF0000000000000))
      (n.toUInt64.toFloat * Float.ofBits 0x3FF0000000000000) := by
    refine nearest_mul hfloat.finite rfl ?_
    rw [hone, mul_one, hfloat.exact (grid_natCast hn)]
    exact hbound
  rw [hone, mul_one, hfloat.exact (grid_natCast hn)] at hprod
  have hof : Float.ofNat n = n.toUInt64.toFloat * Float.ofBits 0x3FF0000000000000 := by
    change Float.ofScientific n false 0 = _
    unfold Float.ofScientific
    rw [dif_pos ⟨hn, by decide⟩]
    rfl
  rwa [hof]

theorem ofNat_large (hn : 2 ^ 53 ≤ n) : ∃ u, Float.ofNat n = .ofModel (.pack u) ∧ Canonical u ∧ Closest n (value u) := by
  have hof : Float.ofNat n = .ofModel (Float.Model.ofScientific n 0) := by
    change Float.ofScientific n false 0 = _
    unfold Float.ofScientific
    rw [dif_neg (by omega)]
    rfl
  have hround : UnpackedFloat.ofScientific Format.binary64 n 0 =
      roundWithAccuracy Format.binary64 .positive (n <<< 53 * 1) (-53) .exact := by
    have hrange : (2 : Int) ^ Format.binary64.exponentBits = 2048 := by decide
    rw [UnpackedFloat.ofScientific, dif_neg (by omega), if_neg (by decide), if_neg (by omega),
      if_pos (by decide)]
    rfl
  refine ⟨_, hof, ?_⟩
  rw [hround, Nat.mul_one, Nat.shiftLeft_eq]
  refine round_closest (.inl (log2_ge_of_le (by omega))) ?_ .positive
  rw [Tells]
  push_cast
  norm_num
  ring

theorem natCast_le_two_zpow (hn : n < 2 ^ 64) : |(n : ℝ)| ≤ 2 ^ (1023 : ℤ) := by
  rw [Nat.abs_cast]
  calc (n : ℝ) ≤ 2 ^ (64 : ℤ) := by exact_mod_cast hn.le
    _ ≤ 2 ^ (1023 : ℤ) := two_zpow_mono (by norm_num)

theorem nearest_ofNat (hn : n < 2 ^ 64) : Nearest n (Float.ofNat n) := by
  rcases Nat.lt_or_ge n (2 ^ 53) with hsmall | hlarge
  · exact nearest_small hsmall
  · obtain ⟨u, hu, hc, hclosest⟩ := ofNat_large hlarge
    rw [hu]
    exact nearest_pack hc hclosest (natCast_le_two_zpow hn)

theorem pack_cases {u : UnpackedFloat} (h : Canonical u) (hpos : 0 < value u) :
    (Float.Model.pack u).unpack = u ∨ (Float.Model.pack u).unpack = .infinity .positive := by
  cases u with
  | infinity | notANumber => exact h.elim
  | zero s => exact absurd hpos (lt_irrefl 0)
  | finite s m e hm =>
      obtain ⟨hlt, he, hfull⟩ := h
      rcases Nat.lt_or_ge m (2 ^ 52) with hfew | hmany
      · obtain rfl : e = -1074 := hfull.resolve_right (by omega)
        exact .inl (unpack_pack_subnormal hm hfew)
      by_cases hin : e ≤ 971
      · exact .inl (unpack_pack_normal hm hmany hlt he hin)
      · cases s with
        | negative =>
            rw [value_finite] at hpos
            exact absurd hpos (not_lt.mpr (neg_nonpos.mpr (by positivity)))
        | positive =>
            have hbias : (Format.binary64.exponentBias : Int) = 1023 := rfl
            have hpack : UnpackedFloat.pack Format.binary64 (.finite .positive m e hm) =
                packedInfinity Format.binary64 .positive := by
              have hover : 2 ^ Format.binary64.exponentBits ≤
                  (e + (Format.binary64.exponentBias : Int) + (52 : Nat)).toNat + 1 := by
                have hbits : 2 ^ Format.binary64.exponentBits = 2048 := by decide
                omega
              rw [UnpackedFloat.pack]
              exact if_pos hover
            have hunpack : UnpackedFloat.unpack Format.binary64 (packedInfinity Format.binary64 .positive) =
                .infinity .positive := by rfl
            exact .inr ((congrArg (UnpackedFloat.unpack Format.binary64) hpack).trans hunpack)

theorem ofNat_cases (hn : 0 < n) : ((Float.ofNat n).isFinite = true ∧ 1 ≤ number (Float.ofNat n)) ∨
    (Float.ofNat n).toModel.unpack = .infinity .positive := by
  have hone : (1 : ℝ) ≤ n := by exact_mod_cast hn
  have hgrid : Grid 1 := by exact_mod_cast grid_natCast (n := 1) (by decide)
  rcases Nat.lt_or_ge n (2 ^ 53) with hsmall | hlarge
  · have h := nearest_small hsmall
    exact .inl ⟨h.finite, h.closest.ge hgrid hone⟩
  · obtain ⟨u, hu, hc, hclosest⟩ := ofNat_large hlarge
    have hge := hclosest.ge hgrid hone
    rw [number, hu]
    rcases pack_cases hc (by linarith) with hin | hover
    · refine .inl ⟨?_, ?_⟩
      · change (Float.Model.pack u).unpack.isFinite = true
        rw [hin]
        cases u with
        | infinity | notANumber => exact hc.elim
        | zero | finite => rfl
      · change 1 ≤ value (Float.Model.pack u).unpack
        rwa [hin]
    · exact .inr hover

/-- Dividing by a positive count takes nothing out of its bounds. -/
theorem div_ofNat_bounds (hx : x.isFinite = true) (hpos : 0 ≤ number x) (hle : number x ≤ w) (hw : Grid w)
    (hlim : w ≤ 2 ^ (1023 : ℤ)) (hn : 0 < n) :
    (x / Float.ofNat n).isFinite = true ∧ 0 ≤ number (x / Float.ofNat n) ∧ number (x / Float.ofNat n) ≤ w := by
  rcases ofNat_cases hn with ⟨hfin, hone⟩ | hinf
  · have hlow : 0 ≤ number x / number (Float.ofNat n) := div_nonneg hpos (by linarith)
    have hhigh : number x / number (Float.ofNat n) ≤ w := (div_le_self hpos hone).trans hle
    have h := nearest_div hx hfin (by linarith) (by rw [abs_of_nonneg hlow]; exact hhigh.trans hlim)
    exact ⟨h.finite, h.closest.ge grid_zero hlow, h.closest.le hw hhigh⟩
  · have hc := canonical_unpack hx
    have hquot : ∃ s, (x / Float.ofNat n) = .ofModel (.pack (.zero s)) := by
      change ∃ s, Float.ofModel (.pack (UnpackedFloat.div Format.binary64 x.toModel.unpack _)) = _
      rw [hinf]
      cases hu : x.toModel.unpack with
      | infinity | notANumber =>
          rw [hu] at hc
          exact hc.elim
      | zero s => exact ⟨_, rfl⟩
      | finite s m e hm => exact ⟨_, rfl⟩
    obtain ⟨s, hs⟩ := hquot
    rw [hs]
    cases s <;> exact ⟨rfl, le_rfl, hpos.trans hle⟩

theorem floorNat_le (hx : x.isFinite = true) (h : number x ≤ n) : (Binary64.ofFloat x).floorNat ≤ n := by
  obtain ⟨negative, m, q, hword, -, -, hnumber⟩ := unpack_of_isFinite hx
  rw [hword]
  cases negative with
  | true => exact Nat.zero_le n
  | false =>
      rw [hnumber] at h
      change (m : ℝ) * 2 ^ q ≤ n at h
      refine (Nat.min_le_left _ _).trans ?_
      split
      case isTrue hq =>
        obtain ⟨k, rfl⟩ := Int.eq_ofNat_of_zero_le hq
        rw [zpow_natCast] at h
        change m * 2 ^ k ≤ n
        exact_mod_cast h
      case isFalse hq =>
        obtain ⟨k, rfl⟩ : ∃ k : Nat, q = -k := ⟨(-q).toNat, by omega⟩
        have hk : (-(-(k : Int))).toNat = k := by omega
        rw [hk]
        rw [zpow_neg, zpow_natCast, ← div_eq_mul_inv, div_le_iff₀ (by positivity)] at h
        refine Nat.div_le_of_le_mul ?_
        change m ≤ 2 ^ k * n
        rw [Nat.mul_comm]
        exact_mod_cast h

end Counts

end Convnet.Rounding
