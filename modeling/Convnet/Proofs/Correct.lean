import Mathlib
import Convnet.Proofs.Doubles
import Convnet.Proofs.Real
import Convnet.Proofs.Share

namespace Convnet.Rounding

open Float.Model UnpackedFloat

noncomputable def value : UnpackedFloat → ℝ
  | .finite s m e _ => (s.apply m : ℤ) * ((2 : ℕ) : ℝ) ^ e
  | _ => 0

def Canonical : UnpackedFloat → Prop
  | .finite _ m e _ => m < 2 ^ 53 ∧ -1074 ≤ e ∧ (e = -1074 ∨ 2 ^ 52 ≤ m)
  | .zero _ => True
  | .infinity _ | .notANumber => False

/-- The multiples of powers of two that have no more than 53 digits. -/
def Grid (w : ℝ) : Prop := ∃ n e : ℤ, |n| < 2 ^ 53 ∧ -1074 ≤ e ∧ w = n * ((2 : ℕ) : ℝ) ^ e

/-- Whether no number of the grid is nearer to `z`. -/
def Closest (z x : ℝ) : Prop := ∀ w, Grid w → |x - z| ≤ |w - z|

def Tells (z : ℝ) (m : Nat) : Accuracy → Prop
  | .exact => z = m
  | .inexact .lt => (m : ℝ) < z ∧ z < m + 1 / (2 : ℕ)
  | .inexact .eq => z = m + 1 / (2 : ℕ)
  | .inexact .gt => (m : ℝ) + 1 / (2 : ℕ) < z ∧ z < m + 1

theorem two_zpow_pos (e : ℤ) : (0 : ℝ) < 2 ^ e := zpow_pos (by norm_num) e

theorem two_zpow_add (a b : ℤ) : (2 : ℝ) ^ (a + b) = 2 ^ a * 2 ^ b := zpow_add₀ (by norm_num) a b

theorem two_zpow_mono {a b : ℤ} (h : a ≤ b) : (2 : ℝ) ^ a ≤ 2 ^ b := zpow_le_zpow_right₀ (by norm_num) h

section Mantissas

variable {z : ℝ} {m k : Nat} {a : Accuracy}

theorem tells_shiftRightOne {em : ExtendedMantissa} (h : Tells z em.mantissa em.accuracy) :
    Tells (z / 2) em.shiftRightOne.mantissa em.shiftRightOne.accuracy := by
  obtain ⟨m, bit, sticky⟩ := em
  have hm : (m : ℝ) = 2 * (m / 2 : ℕ) + (m % 2 : ℕ) := by
    exact_mod_cast (Nat.div_add_mod m 2).symm
  rcases Nat.mod_two_eq_zero_or_one m with hodd | hodd
  · have hround : (m % 2 != 0) = false := by
      rw [hodd]
      rfl
    rw [hodd, Nat.cast_zero, add_zero] at hm
    cases bit <;> cases sticky <;>
      simp only [ExtendedMantissa.shiftRightOne, ExtendedMantissa.accuracy, Tells, hround, Bool.or_self,
        Bool.or_true, Bool.or_false] at h ⊢ <;> (try constructor) <;> linarith
  · have hround : (m % 2 != 0) = true := by
      rw [hodd]
      rfl
    rw [hodd, Nat.cast_one] at hm
    cases bit <;> cases sticky <;>
      simp only [ExtendedMantissa.shiftRightOne, ExtendedMantissa.accuracy, Tells, hround, Bool.or_self,
        Bool.or_true, Bool.or_false] at h ⊢ <;> (try constructor) <;> linarith

theorem tells_shiftRight (h : Tells z m a) (k : Nat) :
    Tells (z / 2 ^ k) (ExtendedMantissa.ofMantissaAndAccuracy m a >>> k).mantissa
      (ExtendedMantissa.ofMantissaAndAccuracy m a >>> k).accuracy := by
  induction k with
  | zero =>
      rw [pow_zero, div_one]
      cases a with
      | exact => exact h
      | inexact o => cases o <;> exact h
  | succ k ih =>
      rw [pow_succ, ← div_div]
      exact tells_shiftRightOne ih

theorem Tells.rounded (h : Tells z m a) : |(a.roundToNearestEven m : ℝ) - z| ≤ 1 / 2 := by
  have heven : m % 2 = 0 ∨ m % 2 = 1 := Nat.mod_two_eq_zero_or_one m
  cases a with
  | exact =>
      rw [Accuracy.roundToNearestEven, (h : z = m), sub_self, abs_zero]
      norm_num
  | inexact o =>
      rw [abs_le]
      cases o <;> simp only [Accuracy.roundToNearestEven, Tells] at h ⊢ <;> push_cast
      · constructor <;> linarith
      · rcases heven with heven | heven <;> rw [heven] <;> push_cast <;> constructor <;> linarith
      · constructor <;> linarith

theorem Tells.low (h : Tells z m a) : (m : ℝ) ≤ z := by
  cases a with
  | exact => exact h.ge
  | inexact o => cases o <;> simp only [Tells] at h <;> linarith

theorem abs_sub_le_of_whole {r : Nat} {w : ℝ} (h : |(r : ℝ) - z| ≤ 1 / 2) (hw : ∃ n : ℤ, (n : ℝ) = w) :
    |(r : ℝ) - z| ≤ |w - z| := by
  obtain ⟨n, rfl⟩ := hw
  by_cases hn : n = r
  · rw [hn, Int.cast_natCast]
  · have hone : (1 : ℝ) ≤ |(n : ℝ) - r| := by
      have hone : 1 ≤ |n - r| := Int.one_le_abs (sub_ne_zero.mpr hn)
      exact_mod_cast hone
    have htri : |(n : ℝ) - r| ≤ |n - z| + |r - z| := by
      have h := abs_sub_le (n : ℝ) z r
      rwa [abs_sub_comm z] at h
    linarith

end Mantissas

section Rounded

variable {s : Sign} {m r k : Nat} {e t : Int} {z : ℝ} {a : Accuracy}

theorem target_eq (m : Nat) (e : Int) : Format.binary64.targetExponent (totalExponent m e) =
    max ((m.log2 : Int) + e - 52) (-1074) := by
  have hleast : Format.binary64.minExponent = -1074 := by decide
  have hbits : (Format.binary64.mantissaBits : Int) = 53 := rfl
  rw [Format.targetExponent, hleast, hbits, totalExponent]
  omega

theorem target_shift (h : 52 ≤ m.log2 ∨ e ≤ -1074) : ∃ k : Nat,
    Format.binary64.targetExponent (totalExponent m e) = e + k ∧ -1074 ≤ e + k ∧ m < 2 ^ (53 + k) ∧
      (e + k = -1074 ∨ 2 ^ (52 + k) ≤ m) := by
  rw [target_eq]
  refine ⟨(max ((m.log2 : Int) + e - 52) (-1074) - e).toNat, by omega, by omega, ?_, ?_⟩
  · exact Nat.lt_of_lt_of_le Nat.lt_log2_self (Nat.pow_le_pow_right (by decide) (by omega))
  · rcases Int.le_total ((m.log2 : Int) + e - 52) (-1074) with hleast | hleast
    · exact .inl (by omega)
    · by_cases hm : m = 0
      · subst hm
        have hlog : Nat.log2 0 = 0 := by decide
        exact .inl (by omega)
      · exact .inr (Nat.le_trans (Nat.pow_le_pow_right (by decide) (by omega)) (Nat.log2_self_le hm))

/-- The number `r * 2 ^ t`, where `r` may have been rounded up to `2 ^ 53`. -/
def settled (s : Sign) (r : Nat) (t : Int) : UnpackedFloat :=
  if h : r = 0 then .zero s
  else if r < 2 ^ 53 then .finite s r t (Nat.pos_of_ne_zero h)
  else .finite s (2 ^ 52) (t + 1) (by decide)

theorem value_settled (hr : r ≤ 2 ^ 53) (t : Int) : value (settled s r t) = (s.apply r : ℤ) * (2 : ℝ) ^ t := by
  unfold settled
  split_ifs with hzero hlt
  · subst hzero
    cases s <;> simp [value, Sign.apply]
  · rfl
  · obtain rfl : r = 2 ^ 53 := by omega
    rw [value, Nat.cast_ofNat, two_zpow_add, zpow_one]
    cases s <;> simp only [Sign.apply] <;> push_cast <;> ring

theorem canonical_settled (ht : -1074 ≤ t) (hfull : t = -1074 ∨ 2 ^ 52 ≤ r) : Canonical (settled s r t) := by
  unfold settled
  split_ifs with hzero hlt
  · trivial
  · exact ⟨hlt, ht, hfull⟩
  · exact ⟨by decide, by omega, .inr le_rfl⟩

theorem round_eq_settled (ht : Format.binary64.targetExponent (totalExponent m e) = e + k) (hleast : -1074 ≤ e + k)
    (hr : (ExtendedMantissa.ofMantissaAndAccuracy m a >>> k).roundedMantissa ≤ 2 ^ 53) :
    roundWithAccuracy Format.binary64 s m e a =
      settled s (ExtendedMantissa.ofMantissaAndAccuracy m a >>> k).roundedMantissa (e + k) := by
  have hfirst : shiftToTargetExponent Format.binary64 m e a =
      (ExtendedMantissa.ofMantissaAndAccuracy m a >>> k, e + k) := by
    have hk : (e + (k : Int) - e).toNat = k := by omega
    simp only [shiftToTargetExponent, shiftToExponent, ht, hk]
  unfold roundWithAccuracy
  rw [hfirst]
  dsimp only
  generalize (ExtendedMantissa.ofMantissaAndAccuracy m a >>> k).roundedMantissa = r at *
  have hsecond : ∀ j : Nat, max ((r.log2 : Int) + (e + k) - 52) (-1074) - (e + k) ≤ j →
      (0 < j → max ((r.log2 : Int) + (e + k) - 52) (-1074) = e + k + j) →
      shiftToTargetExponent Format.binary64 r (e + k) .exact =
        (ExtendedMantissa.ofMantissaAndAccuracy r .exact >>> j, e + k + j) := by
    intro j hle hpos
    have hj : (max ((r.log2 : Int) + (e + k) - 52) (-1074) - (e + k)).toNat = j := by omega
    simp only [shiftToTargetExponent, shiftToExponent, target_eq, hj]
  rcases Nat.lt_or_ge r (2 ^ 53) with hlt | hge
  · have hlog : r.log2 ≤ 52 := by
      by_cases hzero : r = 0
      · subst hzero
        decide
      · have := (Nat.log2_lt hzero).mpr hlt
        omega
    have hshift := hsecond 0 (by omega) (by omega)
    generalize shiftToTargetExponent Format.binary64 r (e + k) .exact = last at *
    subst hshift
    have hm : (ExtendedMantissa.ofMantissaAndAccuracy r .exact >>> 0).mantissa = r := rfl
    have he : e + (k : Int) + ((0 : Nat) : Int) = e + k := by omega
    simp only [hm, he, settled, if_pos hlt]
  · obtain rfl : r = 2 ^ 53 := by omega
    have hlog : Nat.log2 (2 ^ 53) = 53 := Nat.log2_two_pow
    have hshift := hsecond 1 (by omega) (by omega)
    generalize shiftToTargetExponent Format.binary64 (2 ^ 53) (e + k) .exact = last at *
    subst hshift
    rfl

end Rounded

section Nearest

variable {z w x : ℝ} {m r : Nat} {e t : Int} {s : Sign} {a : Accuracy}

def signed (s : Sign) (z : ℝ) : ℝ :=
  match s with
  | .negative => -z
  | .positive => z

theorem Grid.neg (h : Grid w) : Grid (-w) := by
  obtain ⟨n, e, hn, he, rfl⟩ := h
  exact ⟨-n, e, by rwa [abs_neg], he, by push_cast; ring⟩

theorem Closest.neg (h : Closest z x) : Closest (-z) (-x) := by
  intro w hw
  have h := h (-w) hw.neg
  rwa [← abs_neg, ← abs_neg (w - -z), show -(-x - -z) = x - z by ring, show -(w - -z) = -w - z by ring]

theorem closest_units (hhalf : |(r : ℝ) - z / 2 ^ t| ≤ 1 / 2)
    (hfull : t = -1074 ∨ (2 : ℝ) ^ 52 ≤ z / 2 ^ t) : Closest z (r * 2 ^ t) := by
  rintro w ⟨n, f, hn, hf, rfl⟩
  have ht := two_zpow_pos t
  have hunits : ∀ v : ℝ, |v - z| = |v / 2 ^ t - z / 2 ^ t| * 2 ^ t := by
    intro v
    rw [← sub_div, abs_div, abs_of_pos ht, div_mul_cancel₀ _ ht.ne']
  rw [hunits, hunits, mul_div_cancel_right₀ _ ht.ne']
  refine mul_le_mul_of_nonneg_right ?_ ht.le
  rcases Int.lt_or_le f t with hlt | hle
  · -- All digits of the other number are below the unit, so that it lies under `2 ^ 52` units.
    have hz : (2 : ℝ) ^ 52 ≤ z / 2 ^ t := hfull.resolve_left (by omega)
    have hsmall : (n : ℝ) * 2 ^ f / 2 ^ t ≤ 2 ^ 52 := by
      have hn' : (n : ℝ) ≤ 2 ^ 53 := by exact_mod_cast (le_abs_self n).trans hn.le
      have hpow : (2 : ℝ) ^ f ≤ 2 ^ (t + -1) := two_zpow_mono (by omega)
      rw [two_zpow_add] at hpow
      rw [div_le_iff₀ ht]
      calc (n : ℝ) * 2 ^ f ≤ 2 ^ 53 * 2 ^ f := mul_le_mul_of_nonneg_right hn' (two_zpow_pos f).le
        _ ≤ 2 ^ 53 * (2 ^ t * 2 ^ (-1 : ℤ)) := mul_le_mul_of_nonneg_left hpow (by positivity)
        _ = 2 ^ 52 * 2 ^ t := by norm_num; ring
    have hwhole := abs_sub_le_of_whole hhalf (w := 2 ^ 52) ⟨4503599627370496, by norm_num⟩
    rw [abs_sub_comm ((2 : ℝ) ^ 52), abs_of_nonneg (sub_nonneg.mpr hz)] at hwhole
    rw [abs_sub_comm (_ / _)]
    exact hwhole.trans ((sub_le_sub_left hsmall _).trans (le_abs_self _))
  · obtain ⟨j, rfl⟩ : ∃ j : Nat, f = t + j := ⟨(f - t).toNat, by omega⟩
    have hwhole := abs_sub_le_of_whole hhalf (w := n * 2 ^ j) ⟨n * 2 ^ j, by push_cast; rfl⟩
    rwa [Nat.cast_ofNat, two_zpow_add, mul_comm ((2 : ℝ) ^ t), ← mul_assoc, mul_div_cancel_right₀ _ ht.ne', zpow_natCast]

/-- Rounding gives a closest number, in its canonical form. -/
theorem round_closest (hm : 52 ≤ m.log2 ∨ e ≤ -1074) (hz : Tells (z / 2 ^ e) m a) (s : Sign) :
    Canonical (roundWithAccuracy Format.binary64 s m e a) ∧
      Closest (signed s z) (value (roundWithAccuracy Format.binary64 s m e a)) := by
  obtain ⟨k, ht, hleast, hlt, hfull⟩ := target_shift hm
  have htells := tells_shiftRight hz k
  have hmantissa := mantissa_shiftRight (ExtendedMantissa.ofMantissaAndAccuracy m a) k
  rw [mantissa_ofAccuracy] at hmantissa
  obtain ⟨hlow, hhigh⟩ := roundedMantissa_bounds (ExtendedMantissa.ofMantissaAndAccuracy m a >>> k)
  have hq : m / 2 ^ k < 2 ^ 53 := by
    rwa [Nat.div_lt_iff_lt_mul (Nat.two_pow_pos k), ← Nat.pow_add]
  have hscale : z / 2 ^ e / 2 ^ k = z / 2 ^ (e + (k : ℤ)) := by
    rw [two_zpow_add, zpow_natCast, div_div]
  rw [hscale] at htells
  have hhalf := htells.rounded
  rw [round_eq_settled ht hleast (by omega), value_settled (by omega)]
  rw [hmantissa] at hlow
  have hdigits : e + (k : ℤ) = -1074 ∨ 2 ^ 52 ≤ m / 2 ^ k := by
    refine hfull.imp_right fun h => ?_
    rwa [Nat.le_div_iff_mul_le (Nat.two_pow_pos k), ← Nat.pow_add]
  refine ⟨canonical_settled hleast (hdigits.imp_right fun h => h.trans hlow), ?_⟩
  have hclosest : Closest z ((ExtendedMantissa.ofMantissaAndAccuracy m a >>> k).roundedMantissa *
      2 ^ (e + (k : ℤ))) := by
    refine closest_units hhalf (hdigits.imp_right fun h => ?_)
    have h' : (2 : ℝ) ^ 52 ≤ (m / 2 ^ k : ℕ) := by exact_mod_cast h
    exact h'.trans (hmantissa ▸ htells.low)
  cases s with
  | positive => exact_mod_cast hclosest
  | negative =>
      have hneg := hclosest.neg
      rw [← neg_mul] at hneg
      exact_mod_cast hneg

end Nearest

section Words

theorem toNat_unpackMantissa (b : BitVec 64) :
    (@unpackMantissa Format.binary64 b).toNat = b.toNat % 2 ^ 52 := by
  simp [unpackMantissa, BitVec.extractLsb_toNat]

theorem toNat_unpackExponent (b : BitVec 64) :
    (@unpackExponent Format.binary64 b).toNat = b.toNat / 2 ^ 52 % 2 ^ 11 := by
  simp [unpackExponent, BitVec.extractLsb_toNat, Nat.shiftRight_eq_div_pow]

theorem toNat_unpackSign (b : BitVec 64) :
    (@unpackSign Format.binary64 b).toNat = b.toNat / 2 ^ 63 % 2 := by
  simp [unpackSign, BitVec.extractLsb_toNat, Nat.shiftRight_eq_div_pow]

noncomputable def number (x : Float) : ℝ := value x.toModel.unpack

theorem ofBitVec_unpackSign (b : BitVec 64) : Sign.ofBitVec (@unpackSign Format.binary64 b) =
    if b.toNat / 2 ^ 63 % 2 == 1 then .negative else .positive := by
  have hs := toNat_unpackSign b
  have hzero : @unpackSign Format.binary64 b = 0#1 ↔ b.toNat / 2 ^ 63 % 2 = 0 := by
    rw [← hs]
    exact BitVec.toNat_inj.symm
  rw [Sign.ofBitVec]
  rcases Nat.mod_two_eq_zero_or_one (b.toNat / 2 ^ 63) with h | h
  · rw [if_pos (hzero.mpr h), h]
    rfl
  · rw [if_neg (fun hone => Nat.one_ne_zero (h.symm.trans (hzero.mp hone))), h]
    rfl

theorem signed_zero (s : Sign) : signed s 0 = 0 := by
  cases s <;> simp [signed]

theorem value_finite (s : Sign) {m : Nat} (h : 0 < m) (e : Int) : value (.finite s m e h) = signed s (m * 2 ^ e) := by
  cases s <;> simp [value, signed, Sign.apply]

theorem canonical_of_regular {s : Sign} {m n : Nat} {e f : Int} (h : 0 < m) (hm : m = n) (he : e = f)
    (hr : Binary64.Regular n f) :
    Canonical (.finite s m e h) ∧ value (.finite s m e h) = signed s (n * 2 ^ f) := by
  subst hm he
  exact ⟨⟨hr.bits, hr.least, hr.full⟩, value_finite s h e⟩

theorem unpack_of_isFinite {x : Float} (h : x.isFinite = true) :
    ∃ negative m q, Binary64.ofFloat x = .finite negative m q ∧ Binary64.Regular m q ∧
      Canonical x.toModel.unpack ∧ number x = signed (if negative then .negative else .positive) (m * 2 ^ q) := by
  have hexponent := (Binary64.isFinite_iff _).mp h
  obtain ⟨negative, m, q, hword, hregular, -⟩ := Binary64.ofWord_finite x.toBits.toNat_lt hexponent
  refine ⟨negative, m, q, hword, hregular, ?_⟩
  have hw : x.toBits.toBitVec.toNat = x.toBits.toNat := rfl
  have hm := toNat_unpackMantissa x.toBits.toBitVec
  have he := toNat_unpackExponent x.toBits.toBitVec
  have hs := ofBitVec_unpackSign x.toBits.toBitVec
  rw [hw] at hm he hs
  obtain ⟨u, hu⟩ : ∃ u, UnpackedFloat.unpack Format.binary64 x.toBits.toBitVec = u := ⟨_, rfl⟩
  change Canonical (UnpackedFloat.unpack Format.binary64 x.toBits.toBitVec) ∧
    value (UnpackedFloat.unpack Format.binary64 x.toBits.toBitVec) = _
  rw [hu]
  rw [Binary64.ofWord] at hword
  simp only [if_neg hexponent] at hword
  rw [UnpackedFloat.unpack] at hu
  simp only [hs] at hu
  split at hu
  case isTrue hones =>
    rw [hones] at he
    exact absurd he.symm hexponent
  split at hu
  case isTrue hleast =>
    have hzero : x.toBits.toNat / Nat.pow 2 52 % Nat.pow 2 11 = 0 := by
      rw [hleast] at he
      exact he.symm
    rw [if_pos hzero, Binary64.finite.injEq] at hword
    obtain ⟨rfl, rfl, rfl⟩ := hword
    split at hu
    case isTrue hnone =>
      subst hu
      rw [hnone] at hm
      have hm₀ : x.toBits.toNat % Nat.pow 2 52 = 0 := hm.symm
      rw [hm₀, Nat.cast_zero, zero_mul, signed_zero]
      exact ⟨trivial, rfl⟩
    case isFalse hsome =>
      subst hu
      refine canonical_of_regular _ hm ?_ hregular
      rw [hleast]
      decide
  case isFalse hleast =>
    have hzero : x.toBits.toNat / Nat.pow 2 52 % Nat.pow 2 11 ≠ 0 := fun hzero =>
      hleast (BitVec.eq_of_toNat_eq (he.trans hzero))
    rw [if_neg hzero, Binary64.finite.injEq] at hword
    obtain ⟨rfl, rfl, rfl⟩ := hword
    subst hu
    refine canonical_of_regular _ ?_ ?_ hregular
    · rw [BitVec.toNat_append, ← Nat.shiftLeft_add_eq_or_of_lt (BitVec.isLt _), hm, Nat.add_comm]
      rfl
    · have hbias : (Format.binary64.exponentBias : Int) = 1023 := rfl
      rw [he, hbias]
      norm_num

theorem canonical_unpack {x : Float} (h : x.isFinite = true) : Canonical x.toModel.unpack := by
  obtain ⟨negative, m, q, -, -, hc, -⟩ := unpack_of_isFinite h
  exact hc

end Words

section Order

variable {z w x y : ℝ} {u v : UnpackedFloat}

theorem signed_abs (s : Sign) (z : ℝ) : |signed s z| = |z| := by
  cases s
  · exact abs_neg z
  · rfl

theorem Canonical.grid (h : Canonical u) : Grid (value u) := by
  cases u with
  | infinity | notANumber => exact h.elim
  | zero => exact ⟨0, 0, by norm_num, by norm_num, by simp [value]⟩
  | finite s m e hm =>
      obtain ⟨hlt, he, -⟩ := h
      refine ⟨s.apply m, e, ?_, he, rfl⟩
      have habs : |s.apply m| = m := by cases s <;> simp [Sign.apply]
      rw [habs]
      exact_mod_cast hlt

theorem grid_number {x : Float} (h : x.isFinite = true) : Grid (number x) := (canonical_unpack h).grid

theorem grid_two_zpow {e : ℤ} (h : -1074 ≤ e) : Grid (2 ^ e) := ⟨1, e, by norm_num, h, by simp⟩

theorem grid_zero : Grid 0 := ⟨0, 0, by norm_num, by norm_num, by simp⟩

theorem grid_natCast {n : Nat} (h : n < 2 ^ 53) : Grid n := by
  refine ⟨n, 0, ?_, by norm_num, by simp⟩
  rw [Nat.abs_cast]
  exact_mod_cast h

theorem Closest.le (h : Closest z x) (hw : Grid w) (hz : z ≤ w) : x ≤ w := by
  by_contra hlt
  have h := h w hw
  rw [abs_of_nonneg (by linarith), abs_of_nonneg (by linarith)] at h
  linarith

theorem Closest.ge (h : Closest z x) (hw : Grid w) (hz : w ≤ z) : w ≤ x := by
  have hneg := h.neg.le hw.neg (neg_le_neg hz)
  linarith

theorem Closest.bound (h : Closest z x) (hw : Grid w) (hz : |z| ≤ w) : |x| ≤ w := by
  obtain ⟨hlow, hhigh⟩ := abs_le.mp hz
  exact abs_le.mpr ⟨h.ge hw.neg hlow, h.le hw hhigh⟩

theorem Closest.eq (h : Closest z x) (hz : Grid z) : x = z := by
  have h := h z hz
  rw [sub_self, abs_zero] at h
  exact sub_eq_zero.mp (abs_eq_zero.mp (le_antisymm h (abs_nonneg _)))

theorem Closest.of_eq (h : z = x) : Closest z x := by
  intro w _
  rw [h, sub_self, abs_zero]
  exact abs_nonneg _

end Order

section Packing

variable {z : ℝ} {u : UnpackedFloat}

theorem unpack_pack_canonical (h : Canonical u) (hu : |value u| ≤ 2 ^ (1023 : ℤ)) :
    (Float.Model.pack u).unpack = u := by
  cases u with
  | infinity | notANumber => exact h.elim
  | zero s => cases s <;> rfl
  | finite s m e hm =>
      obtain ⟨hlt, he, hfull⟩ := h
      rcases Nat.lt_or_ge m (2 ^ 52) with hfew | hmany
      · obtain rfl : e = -1074 := hfull.resolve_right (by omega)
        exact unpack_pack_subnormal hm hfew
      · refine unpack_pack_normal hm hmany hlt he ?_
        by_contra hbig
        rw [value_finite, signed_abs, abs_of_nonneg (by positivity)] at hu
        have hm' : (2 : ℝ) ^ (52 : ℤ) ≤ m := by exact_mod_cast hmany
        have hpow : (2 : ℝ) ^ (1024 : ℤ) ≤ m * 2 ^ e :=
          calc (2 : ℝ) ^ (1024 : ℤ) ≤ 2 ^ (52 + e) := two_zpow_mono (by omega)
            _ = 2 ^ (52 : ℤ) * 2 ^ e := two_zpow_add _ _
            _ ≤ m * 2 ^ e := mul_le_mul_of_nonneg_right hm' (two_zpow_pos e).le
        have hlt : (2 : ℝ) ^ (1023 : ℤ) < 2 ^ (1024 : ℤ) := zpow_lt_zpow_right₀ (by norm_num) (by norm_num)
        exact absurd (hpow.trans hu) (not_le.mpr hlt)

/-- A finite double that no other one is nearer to a number. -/
structure Nearest (z : ℝ) (x : Float) : Prop where
  finite : x.isFinite = true
  closest : Closest z (number x)

theorem nearest_pack (h : Canonical u) (hu : Closest z (value u)) (hz : |z| ≤ 2 ^ (1023 : ℤ)) :
    Nearest z (.ofModel (.pack u)) := by
  have hunpack := unpack_pack_canonical h (hu.bound (grid_two_zpow (by norm_num)) hz)
  constructor
  · change (Float.Model.pack u).unpack.isFinite = true
    rw [hunpack]
    cases u with
    | infinity | notANumber => exact h.elim
    | zero | finite => rfl
  · change Closest z (value (Float.Model.pack u).unpack)
    rwa [hunpack]

end Packing

end Convnet.Rounding
