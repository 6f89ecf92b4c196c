import Mathlib
import Convnet.Binary64

namespace Convnet

theorem roundDivEven_eq {num den n : Nat} (hlow : 2 * n * den ≤ 2 * num + den)
    (hhigh : 2 * num ≤ (2 * n + 1) * den) (hlow' : n % 2 = 1 → 2 * n * den < 2 * num + den)
    (hhigh' : n % 2 = 1 → 2 * num < (2 * n + 1) * den) (hd : 0 < den) : roundDivEven num den = n := by
  have hnum : den * (num / den) + num % den = num := Nat.div_add_mod num den
  have hr : num % den < den := Nat.mod_lt num hd
  rw [roundDivEven]
  generalize num / den = c at *
  generalize num % den = r at *
  subst hnum
  have hle : c ≤ n := by
    by_contra h
    have hmul : den * (n + 1) ≤ den * c := Nat.mul_le_mul_left _ (by omega)
    nlinarith
  have hge : n ≤ c + 1 := by
    by_contra h
    have hmul : den * (c + 2) ≤ den * n := Nat.mul_le_mul_left _ (by omega)
    nlinarith
  obtain rfl | rfl : n = c ∨ n = c + 1 := by omega
  · have hhalf : 2 * r ≤ den := by nlinarith
    have hodd : n % 2 = 1 → 2 * r < den := fun h => by nlinarith [hhigh' h]
    split_ifs <;> omega
  · have hhalf : den ≤ 2 * r := by nlinarith
    have hodd : (c + 1) % 2 = 1 → den < 2 * r := fun h => by nlinarith [hlow' h]
    split_ifs <;> omega

namespace Binary64

/-- What a finite word stands for, but for its sign: a significand of 53 bits, or fewer of them at the least
exponent. -/
structure Regular (m : Nat) (q : Int) : Prop where
  bits : m < 2 ^ 53
  least : leastExponent ≤ q
  most : q ≤ 971
  full : q = leastExponent ∨ 2 ^ 52 ≤ m

def gap (m : Nat) (q : Int) : ℚ := if m = 2 ^ 52 ∧ leastExponent < q then 1 / 4 else 1 / 2

/-- The numbers that are rounded to `m * 2 ^ q`. -/
structure Rounds (x : ℚ) (m : Nat) (q : Int) : Prop where
  low : (m - gap m q) * 2 ^ q ≤ x
  high : x ≤ (m + 1 / 2) * 2 ^ q
  above : m % 2 = 1 → (m - gap m q) * 2 ^ q < x
  below : m % 2 = 1 → x < (m + 1 / 2) * 2 ^ q

theorem gap_le (m : Nat) (q : Int) : gap m q ≤ 1 / 2 := by
  rw [gap]
  split <;> norm_num

section Fractions

variable {num den : Nat}

variable (num) in
theorem scaled_iff {b : Nat} (hb : 0 < b) (hd : 0 < den) (c : Nat) (q : Int) :
    (if 0 ≤ q then num < den * (c * b ^ q.toNat) else num * b ^ (-q).toNat < den * c) ↔
      (num / den : ℚ) < c * (b : ℚ) ^ q := by
  have hd' : (0 : ℚ) < den := by exact_mod_cast hd
  have hb' : (0 : ℚ) < b := by exact_mod_cast hb
  rw [div_lt_iff₀ hd']
  split
  case isTrue h =>
    obtain ⟨n, rfl⟩ := Int.eq_ofNat_of_zero_le h
    rw [Int.toNat_natCast, zpow_natCast, ← @Nat.cast_lt ℚ]
    push_cast
    rw [mul_comm (den : ℚ)]
  case isFalse h =>
    obtain ⟨n, hn⟩ := Int.eq_ofNat_of_zero_le (show 0 ≤ -q by omega)
    obtain rfl : q = -n := by omega
    rw [hn, Int.toNat_natCast, zpow_neg, zpow_natCast, ← @Nat.cast_lt ℚ]
    push_cast
    rw [← lt_div_iff₀ (by positivity)]
    constructor <;> intro h <;> refine lt_of_lt_of_eq h ?_ <;> ring

theorem significand_eq {n : Nat} {q : Int} (hd : 0 < den) (hlow : (n - 1 / 2) * 2 ^ q ≤ (num / den : ℚ))
    (hhigh : (num / den : ℚ) ≤ (n + 1 / 2) * 2 ^ q) (hlow' : n % 2 = 1 → (n - 1 / 2) * 2 ^ q < (num / den : ℚ))
    (hhigh' : n % 2 = 1 → (num / den : ℚ) < (n + 1 / 2) * 2 ^ q) : significand num den q = n := by
  obtain ⟨a, b, hb, hab, hs⟩ : ∃ a b : Nat, 0 < b ∧ (num / den : ℚ) = a / b * 2 ^ q ∧
      significand num den q = roundDivEven a b := by
    have hd' : (den : ℚ) ≠ 0 := by exact_mod_cast hd.ne'
    rw [significand]
    split
    case isTrue h =>
      obtain ⟨k, rfl⟩ := Int.eq_ofNat_of_zero_le h
      refine ⟨num, den * 2 ^ k, by positivity, ?_, rfl⟩
      push_cast
      rw [zpow_natCast]
      field_simp
    case isFalse h =>
      obtain ⟨k, hk⟩ := Int.eq_ofNat_of_zero_le (show 0 ≤ -q by omega)
      obtain rfl : q = -k := by omega
      refine ⟨num * 2 ^ k, den, hd, ?_, by rw [hk]; rfl⟩
      push_cast
      rw [zpow_neg, zpow_natCast]
      field_simp
  have hb' : (0 : ℚ) < b := by exact_mod_cast hb
  have hq : (0 : ℚ) < 2 ^ q := by positivity
  rw [hab, mul_le_mul_iff_left₀ hq, le_div_iff₀ hb'] at hlow
  rw [hab, mul_le_mul_iff_left₀ hq, div_le_iff₀ hb'] at hhigh
  rw [hab, mul_lt_mul_iff_left₀ hq, lt_div_iff₀ hb'] at hlow'
  rw [hab, mul_lt_mul_iff_left₀ hq, div_lt_iff₀ hb'] at hhigh'
  rw [hs]
  refine roundDivEven_eq ?_ ?_ (fun h => ?_) (fun h => ?_) hb
  · have h : (2 * n * b : ℚ) ≤ 2 * a + b := by linarith
    exact_mod_cast h
  · have h : (2 * a : ℚ) ≤ (2 * n + 1) * b := by linarith
    exact_mod_cast h
  · have h : (2 * n * b : ℚ) < 2 * a + b := by linarith [hlow' h]
    exact_mod_cast h
  · have h : (2 * a : ℚ) < (2 * n + 1) * b := by linarith [hhigh' h]
    exact_mod_cast h

theorem zpow_log2_le (hn : 0 < num) : (2 : ℚ) ^ (num.log2 : Int) ≤ num ∧ (num : ℚ) < 2 ^ ((num.log2 : Int) + 1) := by
  constructor
  · rw [zpow_natCast]
    exact_mod_cast Nat.log2_self_le hn.ne'
  · rw [← Nat.cast_succ, zpow_natCast]
    exact_mod_cast Nat.lt_log2_self

theorem log2_bounds (hn : 0 < num) (hd : 0 < den) :
    (2 : ℚ) ^ ((num.log2 : Int) - den.log2 - 1) < num / den ∧
      (num / den : ℚ) < 2 ^ ((num.log2 : Int) - den.log2 + 1) := by
  obtain ⟨hn₁, hn₂⟩ := zpow_log2_le hn
  obtain ⟨hd₁, hd₂⟩ := zpow_log2_le hd
  have hd' : (0 : ℚ) < den := by exact_mod_cast hd
  constructor
  · calc (2 : ℚ) ^ ((num.log2 : Int) - den.log2 - 1) = 2 ^ (num.log2 : Int) / 2 ^ ((den.log2 : Int) + 1) := by
          rw [← zpow_sub₀ two_ne_zero]; congr 1; ring
      _ < num / den := div_lt_div₀' hn₁ hd₂ (by positivity) hd'
  · calc (num / den : ℚ) < 2 ^ ((num.log2 : Int) + 1) / 2 ^ (den.log2 : Int) :=
          div_lt_div₀ hn₂ hd₁ (by positivity) (by positivity)
      _ = 2 ^ ((num.log2 : Int) - den.log2 + 1) := by
          rw [← zpow_sub₀ two_ne_zero]; congr 1; ring

variable (num) in
theorem scaled_two (hd : 0 < den) (q : Int) :
    (if 0 ≤ q then num < den * Nat.pow 2 (q.toNat + 52) else num * Nat.pow 2 (-q).toNat < den * Nat.pow 2 52) ↔
      (num / den : ℚ) < 2 ^ (q + 52) := by
  have h := scaled_iff num Nat.two_pos hd (Nat.pow 2 52) q
  have hpow : Nat.pow 2 52 * 2 ^ q.toNat = Nat.pow 2 (q.toNat + 52) := by
    rw [Nat.mul_comm]
    exact (Nat.pow_add 2 q.toNat 52).symm
  have hcast : ((Nat.pow 2 52 : Nat) : ℚ) * ((2 : Nat) : ℚ) ^ q = 2 ^ (q + 52) := by
    rw [zpow_add₀ two_ne_zero, mul_comm]
    congr 1
  rw [hpow, hcast] at h
  exact h

theorem exponentOf_eq {t : Int} (hn : 0 < num) (hd : 0 < den) (hl : (2 : ℚ) ^ (t + 52) ≤ num / den)
    (hh : (num / den : ℚ) < 2 ^ (t + 53)) : exponentOf num den = max t leastExponent := by
  obtain ⟨hlow, hhigh⟩ := log2_bounds hn hd
  have hshort := scaled_two num hd ((num.log2 : Int) - den.log2 - 52)
  have hmono : ∀ {a b : Int} {x : ℚ}, (2 : ℚ) ^ a ≤ x → x < 2 ^ b → a < b := fun ha hb =>
    (zpow_lt_zpow_iff_right₀ one_lt_two).mp (lt_of_le_of_lt ha hb)
  have h₁ := hmono hl hhigh
  have h₂ := hmono hlow.le hh
  rw [exponentOf]
  by_cases h : (num / den : ℚ) < 2 ^ ((num.log2 : Int) - den.log2 - 52 + 52)
  · have h₃ := hmono hl h
    rw [if_pos (hshort.mpr h)]
    congr 1
    omega
  · have h₃ := hmono (not_lt.mp h) hh
    rw [if_neg (mt hshort.mp h)]
    congr 1
    omega

theorem magnitude_eq (m : Nat) (q : Int) : magnitude m q =
    if m < 2 ^ 52 then m else min ((q + 1075).toNat * 2 ^ 52 + (m - 2 ^ 52)) (2047 * 2 ^ 52) := rfl

theorem magnitude_carried {q : Int} (hq : leastExponent < q) : magnitude (2 ^ 53) (q - 1) = magnitude (2 ^ 52) q := by
  have hq' : -1074 < q := hq
  have hstep : (q + 1075).toNat = (q - 1 + 1075).toNat + 1 := by omega
  have htwice : (2 : Nat) ^ 53 = 2 ^ 52 + 2 ^ 52 := by norm_num
  rw [magnitude_eq, magnitude_eq, htwice]
  generalize (2 : Nat) ^ 52 = b
  rw [if_neg (Nat.not_lt.mpr (Nat.le_add_right b b)), if_neg (Nat.lt_irrefl b), hstep, Nat.add_sub_cancel,
    Nat.sub_self, Nat.succ_mul (q - 1 + 1075).toNat b, Nat.add_zero]

variable {m : Nat} {q : Int}

theorem Rounds.pos {x : ℚ} (hx : Rounds x m q) (hm : 0 < m) : 0 < x := by
  have hm' : (1 : ℚ) ≤ m := by exact_mod_cast hm
  have hgap := gap_le m q
  exact lt_of_lt_of_le (mul_pos (by linarith) (by positivity)) hx.low

theorem Rounds.lt {x : ℚ} (hx : Rounds x m q) (hw : Regular m q) : x < 2 ^ (q + 53) := by
  have hm : (m + 1 : ℚ) ≤ 2 ^ 53 := by exact_mod_cast hw.bits
  have hq : (0 : ℚ) < 2 ^ q := by positivity
  calc x ≤ (m + 1 / 2) * 2 ^ q := hx.high
    _ < 2 ^ 53 * 2 ^ q := mul_lt_mul_of_pos_right (by linarith) hq
    _ = 2 ^ (q + 53) := by rw [zpow_add₀ two_ne_zero, mul_comm]; norm_num

theorem Rounds.significand_eq (hx : Rounds (num / den : ℚ) m q) (hd : 0 < den) : significand num den q = m := by
  have hgap := gap_le m q
  have hq : (0 : ℚ) < 2 ^ q := by positivity
  have hlow : (m - 1 / 2) * (2 : ℚ) ^ q ≤ (m - gap m q) * 2 ^ q := mul_le_mul_of_nonneg_right (by linarith) hq.le
  exact Binary64.significand_eq hd (hlow.trans hx.low) hx.high (fun h => lt_of_le_of_lt hlow (hx.above h)) hx.below

/-- Only the first number of a binade is told from within the binade before. -/
theorem Rounds.first_of_binade {x : ℚ} (hx : Rounds x m q) (hm : 2 ^ 52 ≤ m) (hq : leastExponent < q)
    (h : x < 2 ^ (q + 52)) : m = 2 ^ 52 ∧ (2 ^ 53 - 1 / 2) * 2 ^ (q - 1) ≤ x := by
  have hpow : (2 : ℚ) ^ (q + 52) = 2 ^ 52 * 2 ^ q := by rw [zpow_add₀ two_ne_zero, mul_comm]; norm_num
  have hhalf : (2 : ℚ) ^ q = 2 * 2 ^ (q - 1) := by rw [← zpow_one_add₀ two_ne_zero]; congr 1; ring
  have hpos : (0 : ℚ) < 2 ^ q := by positivity
  have hfirst : m = 2 ^ 52 := by
    have hlt : ((m : ℚ) - gap m q) * 2 ^ q < 2 ^ 52 * 2 ^ q := lt_of_le_of_lt hx.low (hpow ▸ h)
    have hlt' := lt_of_mul_lt_mul_right hlt hpos.le
    have hm' : (m : ℚ) < 2 ^ 52 + 1 := by linarith [gap_le m q]
    have hm'' : m < 2 ^ 52 + 1 := by exact_mod_cast hm'
    omega
  refine ⟨hfirst, ?_⟩
  have hgap : gap m q = 1 / 4 := if_pos ⟨hfirst, hq⟩
  have hlow := hx.low
  rw [hgap, hfirst, hhalf] at hlow
  push_cast at hlow
  linarith

theorem nearest_eq (hw : Regular m q) (hm : 0 < m) (hd : 0 < den) (hx : Rounds (num / den : ℚ) m q)
    (negative : Bool) : nearest negative num den = (if negative then 2 ^ 63 else 0) + magnitude m q := by
  have hpos := hx.pos hm
  have hnum : 0 < num := Nat.pos_of_ne_zero fun h => by simp [h] at hpos
  suffices h : magnitude (significand num den (exponentOf num den)) (exponentOf num den) = magnitude m q by
    have hnearest : nearest negative num den =
        if negative then Nat.pow 2 63 + magnitude m q else magnitude m q := by
      rw [← h, nearest, if_neg hnum.ne']
    have hsign : Nat.pow 2 63 = 2 ^ 63 := rfl
    rw [hnearest, hsign]
    cases negative with
    | true => rw [if_pos rfl, if_pos rfl]
    | false => simp
  by_cases hbinade : (2 : ℚ) ^ (q + 52) ≤ num / den
  · rw [exponentOf_eq hnum hd hbinade (hx.lt hw), max_eq_left hw.least, hx.significand_eq hd]
  · have hbelow := not_le.mp hbinade
    rcases hw.least.lt_or_eq with hq | hq
    · obtain ⟨hfirst, hlow⟩ := hx.first_of_binade (hw.full.resolve_left hq.ne') hq hbelow
      have hhalf : (0 : ℚ) < 2 ^ (q - 1) := by positivity
      have hpow : (2 : ℚ) ^ (q - 1 + 53) = 2 ^ 53 * 2 ^ (q - 1) := by
        rw [zpow_add₀ two_ne_zero, mul_comm]; norm_num
      have hpow' : (2 : ℚ) ^ (q - 1 + 52) = 2 ^ 52 * 2 ^ (q - 1) := by
        rw [zpow_add₀ two_ne_zero, mul_comm]; norm_num
      have hbelow' : (num / den : ℚ) < 2 ^ (q - 1 + 53) := by
        rwa [show q - 1 + 53 = q + 52 by ring]
      have hexp : exponentOf num den = q - 1 := by
        rw [exponentOf_eq hnum hd _ hbelow', max_eq_left (Int.le_sub_one_of_lt hq)]
        rw [hpow']
        exact le_trans (mul_le_mul_of_nonneg_right (by norm_num) hhalf.le) hlow
      have hsig : significand num den (q - 1) = 2 ^ 53 := by
        rw [hpow] at hbelow'
        refine significand_eq hd ?_ ?_ (fun h => by norm_num at h) (fun h => by norm_num at h)
        · push_cast
          exact hlow
        · push_cast
          exact hbelow'.le.trans (mul_le_mul_of_nonneg_right (by norm_num) hhalf.le)
      rw [hexp, hsig, hfirst, magnitude_carried hq]
    · have hlog := Int.zpow_log_le_self (b := 2) one_lt_two hpos
      have hlog' := Int.lt_zpow_succ_log_self (b := 2) one_lt_two (num / den : ℚ)
      push_cast at hlog hlog'
      have hlt : Int.log 2 (num / den : ℚ) < q + 52 :=
        (zpow_lt_zpow_iff_right₀ one_lt_two).mp (lt_of_le_of_lt hlog hbelow)
      have hexp : exponentOf num den = q := by
        rw [exponentOf_eq (t := Int.log 2 (num / den : ℚ) - 52) hnum hd (by rwa [sub_add_cancel]), hq,
          max_eq_right (by omega)]
        rwa [show Int.log 2 (num / den : ℚ) - 52 + 53 = Int.log 2 (num / den : ℚ) + 1 by ring]
      rw [hexp, hx.significand_eq hd]

theorem nearestDecimal_eq (hw : Regular m q) (hm : 0 < m) {d : Nat} {e : Int} (hd : 0 < d) (hlt : d < 2 ^ 64)
    (hx : Rounds (d * 10 ^ e) m q) (negative : Bool) :
    nearestDecimal negative d e = (if negative then 2 ^ 63 else 0) + magnitude m q := by
  have hm' : (1 : ℚ) ≤ m := by exact_mod_cast hm
  have hten : (0 : ℚ) < 10 ^ e := by positivity
  have hsmall : ¬ ((d.log2 * 1233 / 4096 : Nat) : Int) + e < -400 := by
    intro h
    have he : e ≤ -401 := by omega
    have hd' : (d : ℚ) < 2 ^ 64 := by exact_mod_cast hlt
    have hlow : (2 : ℚ) ^ (-1075 : Int) ≤ d * 10 ^ e := by
      have hq : (2 : ℚ) ^ leastExponent ≤ 2 ^ q := zpow_le_zpow_right₀ one_le_two hw.least
      calc (2 : ℚ) ^ (-1075 : Int) = 1 / 2 * 2 ^ leastExponent := by
            rw [leastExponent, show (-1075 : Int) = -1 + -1074 by norm_num, zpow_add₀ two_ne_zero]; norm_num
        _ ≤ (m - gap m q) * 2 ^ q :=
            mul_le_mul (by linarith [gap_le m q]) hq (by positivity) (by linarith [gap_le m q])
        _ ≤ d * 10 ^ e := hx.low
    have hhigh : (d : ℚ) * 10 ^ e < 2 ^ (-1075 : Int) := by
      calc (d : ℚ) * 10 ^ e < 2 ^ (64 : Int) * 10 ^ e := mul_lt_mul_of_pos_right (by exact_mod_cast hd') hten
        _ ≤ 2 ^ (64 : Int) * 8 ^ e := by
            obtain ⟨n, hn⟩ := Int.eq_ofNat_of_zero_le (show 0 ≤ -e by omega)
            obtain rfl : e = -n := by omega
            rw [zpow_neg, zpow_neg, zpow_natCast, zpow_natCast]
            gcongr
            norm_num
        _ = 2 ^ (64 + 3 * e) := by
            rw [zpow_add₀ two_ne_zero, zpow_mul]; norm_num
        _ ≤ 2 ^ (-1075 : Int) := zpow_le_zpow_right₀ one_le_two (by omega)
    exact absurd hlow (not_le.mpr hhigh)
  have hlarge : ¬ 310 < ((d.log2 * 1233 / 4096 : Nat) : Int) + e := by
    intro h
    have hdigits : ∀ n < 64, 10 ^ (n * 1233 / 4096) ≤ 2 ^ n := by decide
    have hlog : d.log2 < 64 := (Nat.log2_lt hd.ne').mpr hlt
    have hlow : (10 : ℚ) ^ (311 : Int) ≤ d * 10 ^ e := by
      have hd' : (10 : ℚ) ^ ((d.log2 * 1233 / 4096 : Nat) : Int) ≤ d := by
        rw [zpow_natCast]
        exact_mod_cast (hdigits _ hlog).trans (Nat.log2_self_le hd.ne')
      calc (10 : ℚ) ^ (311 : Int) ≤ 10 ^ (((d.log2 * 1233 / 4096 : Nat) : Int) + e) :=
            zpow_le_zpow_right₀ (by norm_num) (by omega)
        _ = 10 ^ ((d.log2 * 1233 / 4096 : Nat) : Int) * 10 ^ e := zpow_add₀ (by norm_num) _ _
        _ ≤ d * 10 ^ e := mul_le_mul_of_nonneg_right hd' hten.le
    have hhigh : (d : ℚ) * 10 ^ e < 10 ^ (311 : Int) := by
      calc (d : ℚ) * 10 ^ e < 2 ^ (q + 53) := hx.lt hw
        _ ≤ 2 ^ (93 * 11 + 3 : Int) := zpow_le_zpow_right₀ one_le_two (by have := hw.most; omega)
        _ = (2 ^ 93) ^ 11 * 2 ^ 3 := by rw [zpow_add₀ two_ne_zero, zpow_mul]; rfl
        _ ≤ (10 ^ 28) ^ 11 * 10 := by gcongr <;> norm_num
        _ = 10 ^ (28 * 11 + 1 : Int) := by rw [zpow_add₀ (by norm_num), zpow_mul]; rfl
        _ ≤ 10 ^ (311 : Int) := zpow_le_zpow_right₀ (by norm_num) (by norm_num)
    exact absurd hlow (not_le.mpr hhigh)
  rw [nearestDecimal, if_neg (not_or.mpr ⟨hd.ne', hsmall⟩), if_neg hlarge]
  split
  case isTrue h =>
    obtain ⟨n, rfl⟩ := Int.eq_ofNat_of_zero_le h
    refine nearest_eq hw hm Nat.one_pos ?_ negative
    convert hx using 1
    push_cast
    simp
  case isFalse h =>
    obtain ⟨n, hn⟩ := Int.eq_ofNat_of_zero_le (show 0 ≤ -e by omega)
    obtain rfl : e = -n := by omega
    refine nearest_eq hw hm (Nat.pow_pos (by decide)) ?_ negative
    convert hx using 1
    rw [hn, Int.toNat_natCast, zpow_neg, zpow_natCast, div_eq_mul_inv]
    push_cast
    rfl

end Fractions

end Binary64
end Convnet
