import Mathlib
import Convnet.Proofs.Architecture
import Convnet.Weights

namespace Convnet.Rounding

open Float.Model UnpackedFloat

def Full (lo hi : Int) (u : UnpackedFloat) : Prop :=
  ∃ m e h, u = .finite .positive m e h ∧ 2 ^ 52 ≤ m ∧ m < 2 ^ 53 ∧ lo ≤ e ∧ e ≤ hi

theorem mantissa_shiftRight (em : ExtendedMantissa) (n : Nat) :
    (em >>> n).mantissa = em.mantissa / 2 ^ n := by
  induction n with
  | zero => exact (Nat.div_one _).symm
  | succ n ih =>
      calc (em >>> (n + 1)).mantissa = (em >>> n).mantissa / 2 := rfl
        _ = em.mantissa / 2 ^ (n + 1) := by rw [ih, Nat.div_div_eq_div_mul, Nat.pow_succ]

theorem mantissa_ofAccuracy (m : Nat) (a : Accuracy) :
    (ExtendedMantissa.ofMantissaAndAccuracy m a).mantissa = m := by
  cases a with
  | exact => rfl
  | inexact o => cases o <;> rfl

theorem roundedMantissa_bounds (em : ExtendedMantissa) :
    em.mantissa ≤ em.roundedMantissa ∧ em.roundedMantissa ≤ em.mantissa + 1 := by
  obtain ⟨m, r, s⟩ := em
  cases r <;> cases s <;>
    simp only [ExtendedMantissa.roundedMantissa, ExtendedMantissa.accuracy,
      Accuracy.roundToNearestEven] <;> omega

theorem targetExponent_eq {t : Int} (h : -1021 ≤ t) :
    Format.binary64.targetExponent t = t - 53 := by
  simp only [Format.targetExponent, Format.mantissaBits, Format.minExponent]
  omega

theorem log2_eq {m k : Nat} (hl : 2 ^ k ≤ m) (hu : m < 2 ^ (k + 1)) : m.log2 = k := by
  have hm : m ≠ 0 := by
    have := Nat.two_pow_pos k
    omega
  have h₁ := (Nat.le_log2 hm).mpr hl
  have h₂ := (Nat.log2_lt hm).mpr hu
  omega

theorem shiftToTargetExponent_eq {m : Nat} {e : Int} (k : Nat) (hl : 2 ^ (52 + k) ≤ m)
    (hu : m < 2 ^ (52 + k + 1)) (he : -1000 ≤ e) (a : Accuracy) :
    shiftToTargetExponent Format.binary64 m e a =
      (ExtendedMantissa.ofMantissaAndAccuracy m a >>> k, e + k) := by
  have ht : Format.binary64.targetExponent (totalExponent m e) = e + k := by
    rw [totalExponent, log2_eq hl hu, targetExponent_eq (by omega)]
    omega
  have hk : (e + (k : Int) - e).toNat = k := by omega
  simp only [shiftToTargetExponent, shiftToExponent, ht, hk]

/-- The positive number `r * 2 ^ t`, where rounding may have carried the mantissa into one more digit. -/
def Carries (r : Nat) (t : Int) (u : UnpackedFloat) : Prop :=
  ∃ m e h, u = .finite .positive m e h ∧
    (r < 2 ^ 53 ∧ m = r ∧ e = t ∨ r = 2 ^ 53 ∧ m = 2 ^ 52 ∧ e = t + 1)

theorem carries_shift {r : Nat} {t : Int} (hr : 2 ^ 52 ≤ r) (hr' : r ≤ 2 ^ 53) (ht : -1000 ≤ t) :
    Carries r t (if h : (shiftToTargetExponent Format.binary64 r t .exact).1.mantissa = 0 then
      .zero .positive
    else .finite .positive (shiftToTargetExponent Format.binary64 r t .exact).1.mantissa
      (shiftToTargetExponent Format.binary64 r t .exact).2 (Nat.pos_of_ne_zero h)) := by
  rcases Nat.lt_or_ge r (2 ^ 53) with hcarry | hcarry
  · have hs := shiftToTargetExponent_eq 0 hr hcarry ht .exact
    generalize shiftToTargetExponent Format.binary64 r t .exact = last at *
    subst hs
    have hm : (ExtendedMantissa.ofMantissaAndAccuracy r .exact >>> 0).mantissa = r := rfl
    have hne : r ≠ 0 := by omega
    rw [dif_neg (hm.symm ▸ hne)]
    exact ⟨_, _, _, rfl, .inl ⟨hcarry, hm, Int.add_zero t⟩⟩
  · obtain rfl : r = 2 ^ 53 := by omega
    have hs := shiftToTargetExponent_eq (m := 2 ^ 53) 1 (by decide) (by decide) ht .exact
    generalize shiftToTargetExponent Format.binary64 (2 ^ 53) t .exact = last at *
    subst hs
    exact ⟨_, _, _, rfl, .inr ⟨rfl, rfl, rfl⟩⟩

theorem round_carries {m : Nat} {e : Int} (k : Nat) (hl : 2 ^ (52 + k) ≤ m) (hu : m < 2 ^ (52 + k + 1))
    (he : -1000 ≤ e) (a : Accuracy) :
    ∃ r, r = (ExtendedMantissa.ofMantissaAndAccuracy m a >>> k).roundedMantissa ∧ 2 ^ 52 ≤ r ∧
      r ≤ 2 ^ 53 ∧ Carries r (e + k) (roundWithAccuracy Format.binary64 .positive m e a) := by
  obtain ⟨hr₁, hr₂⟩ := roundedMantissa_bounds (ExtendedMantissa.ofMantissaAndAccuracy m a >>> k)
  rw [mantissa_shiftRight, mantissa_ofAccuracy] at hr₁ hr₂
  have hlow : 2 ^ 52 ≤ m / 2 ^ k := by
    rw [Nat.le_div_iff_mul_le (Nat.two_pow_pos k), ← Nat.pow_add]
    exact hl
  have hhigh : m / 2 ^ k < 2 ^ 53 := by
    rw [Nat.div_lt_iff_lt_mul (Nat.two_pow_pos k), ← Nat.pow_add]
    exact Nat.lt_of_lt_of_eq hu (by congr 1; omega)
  refine ⟨_, rfl, by omega, by omega, ?_⟩
  unfold roundWithAccuracy
  rw [shiftToTargetExponent_eq k hl hu he a]
  exact carries_shift (by omega) (by omega) (by omega)

theorem Carries.full {r : Nat} {t : Int} {u : UnpackedFloat} (h : Carries r t u) (hr : 2 ^ 52 ≤ r) :
    Full t (t + 1) u := by
  obtain ⟨m, e, hm, rfl, ⟨hlt, rfl, rfl⟩ | ⟨-, rfl, rfl⟩⟩ := h
  · exact ⟨_, _, hm, rfl, hr, hlt, by omega, by omega⟩
  · exact ⟨_, _, hm, rfl, by decide, by decide, by omega, by omega⟩

theorem round_full {m : Nat} {e : Int} (k : Nat) (hl : 2 ^ (52 + k) ≤ m) (hu : m < 2 ^ (52 + k + 1))
    (he : -1000 ≤ e) (a : Accuracy) :
    Full (e + k) (e + k + 1) (roundWithAccuracy Format.binary64 .positive m e a) := by
  obtain ⟨r, -, hr, -, h⟩ := round_carries k hl hu he a
  exact h.full hr

/-- What a shift by `k` digits has dropped of `m`, as the residual bits tell it. -/
def Dropped (m k : Nat) : ExtendedMantissa → Prop
  | ⟨_, false, false⟩ => m % 2 ^ k = 0
  | ⟨_, false, true⟩ => 0 < m % 2 ^ k ∧ 2 * (m % 2 ^ k) < 2 ^ k
  | ⟨_, true, false⟩ => 2 * (m % 2 ^ k) = 2 ^ k
  | ⟨_, true, true⟩ => 2 ^ k < 2 * (m % 2 ^ k)

theorem dropped_shiftRight (m k : Nat) :
    Dropped m k (ExtendedMantissa.ofMantissaAndAccuracy m .exact >>> k) := by
  induction k with
  | zero => exact Nat.mod_one m
  | succ k ih =>
      have hm := mantissa_shiftRight (ExtendedMantissa.ofMantissaAndAccuracy m .exact) k
      rw [mantissa_ofAccuracy] at hm
      change Dropped m (k + 1) (ExtendedMantissa.ofMantissaAndAccuracy m .exact >>> k).shiftRightOne
      generalize ExtendedMantissa.ofMantissaAndAccuracy m .exact >>> k = em at *
      obtain ⟨q, bit, sticky⟩ := em
      obtain rfl : q = m / 2 ^ k := hm
      have hlt := Nat.mod_lt m (Nat.two_pow_pos k)
      have hmod : m % 2 ^ (k + 1) = m % 2 ^ k + 2 ^ k * (m / 2 ^ k % 2) := Nat.mod_pow_succ
      have hpow : 2 ^ (k + 1) = 2 * 2 ^ k := Nat.pow_succ'
      rcases Nat.mod_two_eq_zero_or_one (m / 2 ^ k) with hbit | hbit
      · have hround : (m / 2 ^ k % 2 != 0) = false := by
          rw [hbit]
          rfl
        rw [hbit, Nat.mul_zero] at hmod
        cases bit <;> cases sticky <;>
          simp only [ExtendedMantissa.shiftRightOne, Dropped, hround, Bool.or_self, Bool.or_true,
            Bool.or_false] at ih ⊢ <;> omega
      · have hround : (m / 2 ^ k % 2 != 0) = true := by
          rw [hbit]
          rfl
        rw [hbit, Nat.mul_one] at hmod
        cases bit <;> cases sticky <;>
          simp only [ExtendedMantissa.shiftRightOne, Dropped, hround, Bool.or_self, Bool.or_true,
            Bool.or_false] at ih ⊢ <;> omega

/-- A mantissa for which `r * 2 ^ k` is at most half a unit away from `m`. -/
structure Near (m k r : Nat) : Prop where
  above : 2 * (r * 2 ^ k) ≤ 2 * m + 2 ^ k
  below : 2 * m ≤ 2 * (r * 2 ^ k) + 2 ^ k

theorem near_shiftRight (m k : Nat) :
    Near m k (ExtendedMantissa.ofMantissaAndAccuracy m .exact >>> k).roundedMantissa := by
  have hd := dropped_shiftRight m k
  have hm := mantissa_shiftRight (ExtendedMantissa.ofMantissaAndAccuracy m .exact) k
  rw [mantissa_ofAccuracy] at hm
  generalize ExtendedMantissa.ofMantissaAndAccuracy m .exact >>> k = em at *
  obtain ⟨q, bit, sticky⟩ := em
  obtain rfl : q = m / 2 ^ k := hm
  have hlt := Nat.mod_lt m (Nat.two_pow_pos k)
  have hdiv : m / 2 ^ k * 2 ^ k + m % 2 ^ k = m := Nat.div_add_mod' m (2 ^ k)
  have hup : (m / 2 ^ k + 1) * 2 ^ k = m / 2 ^ k * 2 ^ k + 2 ^ k := Nat.succ_mul _ _
  have htie : (m / 2 ^ k + m / 2 ^ k % 2) * 2 ^ k = m / 2 ^ k * 2 ^ k ∨
      (m / 2 ^ k + m / 2 ^ k % 2) * 2 ^ k = m / 2 ^ k * 2 ^ k + 2 ^ k := by
    rcases Nat.mod_two_eq_zero_or_one (m / 2 ^ k) with h | h <;> rw [h]
    · exact .inl rfl
    · exact .inr hup
  cases bit <;> cases sticky <;> simp only [Dropped] at hd <;> constructor <;>
    simp only [ExtendedMantissa.roundedMantissa, ExtendedMantissa.accuracy,
      Accuracy.roundToNearestEven] <;> omega

theorem Near.mono {a b k r r' : Nat} (h : Near a k r) (h' : Near b k r') (hab : a < b) : r ≤ r' := by
  by_contra hlt
  have hmul : (r' + 1) * 2 ^ k ≤ r * 2 ^ k := Nat.mul_le_mul_right _ (by omega)
  have hup : (r' + 1) * 2 ^ k = r' * 2 ^ k + 2 ^ k := Nat.succ_mul _ _
  have habove := h.above
  have hbelow := h'.below
  omega

theorem Near.eq_of_mul {n k r : Nat} (h : Near (n * 2 ^ k) k r) : r = n := by
  obtain ⟨above, below⟩ := h
  rcases Nat.lt_trichotomy r n with hlt | heq | hlt
  · have hmul : (r + 1) * 2 ^ k ≤ n * 2 ^ k := Nat.mul_le_mul_right _ hlt
    have hup : (r + 1) * 2 ^ k = r * 2 ^ k + 2 ^ k := Nat.succ_mul _ _
    have hpos := Nat.two_pow_pos k
    omega
  · exact heq
  · have hmul : (n + 1) * 2 ^ k ≤ r * 2 ^ k := Nat.mul_le_mul_right _ hlt
    have hup : (n + 1) * 2 ^ k = n * 2 ^ k + 2 ^ k := Nat.succ_mul _ _
    have hpos := Nat.two_pow_pos k
    omega

theorem sign_toBitVec (s : Sign) : Sign.ofBitVec s.toBitVec = s := by cases s <;> rfl

theorem unpackSign_pack {f : Format} (s : Sign) (e : BitVec f.exponentBits)
    (m : BitVec f.mantissaBitsWithoutImplicit) :
    unpackSign (packComponents f s e m) = s.toBitVec := by
  ext i hi
  obtain rfl : i = 0 := by omega
  simp [unpackSign, packComponents, BitVec.getLsbD_eq_getElem, BitVec.getLsbD_append,
    BitVec.getElem_append]

theorem unpack_pack_normal {s : Sign} {m : Nat} {e : Int} (hm : 0 < m) (hl : 2 ^ 52 ≤ m) (hu : m < 2 ^ 53)
    (he : -1074 ≤ e) (he' : e ≤ 971) : UnpackedFloat.unpack Format.binary64
      (UnpackedFloat.pack Format.binary64 (.finite s m e hm)) = .finite s m e hm := by
  have hlog : m.log2 = 52 := log2_eq hl hu
  have hbias : (Format.binary64.exponentBias : Int) = 1023 := rfl
  obtain ⟨b, hb⟩ : ∃ b : Nat, (b : Int) = e + 1023 + 52 := ⟨(e + 1023 + 52).toNat, by omega⟩
  have hbe : (e + (Format.binary64.exponentBias : Int) + (52 : Nat)).toNat = b := by omega
  have hpack : UnpackedFloat.pack Format.binary64 (.finite s m e hm) =
      packComponents Format.binary64 s (BitVec.ofNat _ b) (BitVec.ofNat _ m) := by
    simp only [UnpackedFloat.pack, hbe, hlog, Format.mantissaBits]
    rw [if_neg (by omega)]
    rfl
  rw [hpack, UnpackedFloat.unpack]
  simp only [unpackMantissa_packComponents, unpackExponent_packComponents, unpackSign_pack,
    sign_toBitVec]
  have hb₁ : (BitVec.ofNat 11 b).toNat = b := by
    rw [BitVec.toNat_ofNat]
    omega
  have hm₁ : (1#1 ++ BitVec.ofNat 52 m).toNat = m := by
    rw [BitVec.toNat_append, ← Nat.shiftLeft_add_eq_or_of_lt (BitVec.isLt _), BitVec.toNat_ofNat,
      Nat.shiftLeft_eq]
    simp only [BitVec.toNat_ofNat]
    omega
  have hne : BitVec.ofNat 11 b ≠ -1#_ := by
    intro h
    have hb₂ : b = 2047 := by
      rw [← hb₁, h]
      rfl
    omega
  have hnz : BitVec.ofNat 11 b ≠ 0#_ := by
    intro h
    have hb₂ : b = 0 := by
      rw [← hb₁, h]
      rfl
    omega
  rw [if_neg hne, if_neg hnz]
  have he₁ : ((BitVec.ofNat 11 b).toNat : Int) -
      ((Format.binary64.exponentBias : Int) + (52 : Nat)) = e := by
    rw [hb₁]
    omega
  simp only [hm₁]
  congr 1

/-- A number with fewer digits is read back as it was written at the least exponent. -/
theorem unpack_pack_subnormal {s : Sign} {m : Nat} (hm : 0 < m) (hu : m < 2 ^ 52) :
    UnpackedFloat.unpack Format.binary64 (UnpackedFloat.pack Format.binary64 (.finite s m (-1074) hm)) =
      .finite s m (-1074) hm := by
  have hlog : m.log2 < 52 := (Nat.log2_lt (by omega)).mpr hu
  have hm₁ : (BitVec.ofNat 52 m).toNat = m := by
    rw [BitVec.toNat_ofNat, Nat.mod_eq_of_lt hu]
  have hbe : (-1074 + (Format.binary64.exponentBias : Int) + (52 : Nat)).toNat = 1 := rfl
  have hpack : UnpackedFloat.pack Format.binary64 (.finite s m (-1074) hm) =
      packComponents Format.binary64 s 0#_ (BitVec.ofNat _ m) := by
    simp only [UnpackedFloat.pack, hbe, Format.mantissaBits]
    rw [if_neg (by decide), if_neg (by omega)]
  have hne : (0#11) ≠ -1#11 := by decide
  have hnz : BitVec.ofNat 52 m ≠ 0#52 := by
    intro h
    have hm₂ : m = 0 := by
      rw [← hm₁, h]
      rfl
    omega
  rw [hpack, UnpackedFloat.unpack]
  simp only [unpackMantissa_packComponents, unpackExponent_packComponents, unpackSign_pack,
    sign_toBitVec]
  rw [if_neg hne, if_pos trivial, dif_neg hnz]
  simp only [hm₁]
  congr 1

theorem unpack_pack {lo hi : Int} {u : UnpackedFloat} (h : Full lo hi u) (hlo : -1000 ≤ lo)
    (hhi : hi ≤ 900) : UnpackedFloat.unpack Format.binary64 (UnpackedFloat.pack Format.binary64 u) = u := by
  obtain ⟨m, e, hm, rfl, hl, hu, he, he'⟩ := h
  exact unpack_pack_normal hm hl hu (by omega) (by omega)

def Between (lo hi : Int) (x : Float) : Prop := Full lo hi x.toModel.unpack

theorem between_pack {lo hi : Int} {u : UnpackedFloat} (h : Full lo hi u) (hlo : -1000 ≤ lo)
    (hhi : hi ≤ 900) : Between lo hi (.ofModel (.pack u)) := by
  have hu : (Float.Model.pack u).unpack = u := unpack_pack h hlo hhi
  rw [Between, hu]
  exact h

theorem Full.mono {lo hi lo' hi' : Int} {u : UnpackedFloat} (h : Full lo hi u) (hlo : lo' ≤ lo)
    (hhi : hi ≤ hi') : Full lo' hi' u := by
  obtain ⟨m, e, hm, hu, hl, hlt, he, he'⟩ := h
  exact ⟨m, e, hm, hu, hl, hlt, by omega, by omega⟩

theorem ofNat_carries {n : Nat} (hn : 0 < n) (hlt : n < 2 ^ 53) :
    2 ^ 52 ≤ n * 2 ^ (52 - n.log2) ∧ n * 2 ^ (52 - n.log2) < 2 ^ 53 ∧
      Carries (n * 2 ^ (52 - n.log2)) (n.log2 - 52) (UnpackedFloat.ofNat Format.binary64 n) := by
  have hlog : n.log2 < 53 := (Nat.log2_lt (by omega)).mpr hlt
  have hl : 2 ^ n.log2 ≤ n := Nat.log2_self_le (by omega)
  have hu : n < 2 ^ (n.log2 + 1) := Nat.lt_log2_self
  have hround : UnpackedFloat.ofNat Format.binary64 n = UnpackedFloat.round Format.binary64 .positive n 0 := by
    have hc : compare (n : Int) 0 = .gt := by
      rw [Int.compare_eq_gt]
      omega
    rw [UnpackedFloat.ofNat, UnpackedFloat.ofInt, UnpackedFloat.normalize, hc, Int.toNat_natCast]
  have ht : Format.binary64.targetExponent (totalExponent n 0) = n.log2 - 52 := by
    rw [totalExponent, targetExponent_eq (by omega)]
    omega
  have hs : (0 - ((n.log2 : Int) - 52)).toNat = 52 - n.log2 := by omega
  have hl' : 2 ^ 52 ≤ n * 2 ^ (52 - n.log2) :=
    calc 2 ^ 52 = 2 ^ n.log2 * 2 ^ (52 - n.log2) := by rw [← Nat.pow_add]; congr 1; omega
      _ ≤ n * 2 ^ (52 - n.log2) := Nat.mul_le_mul_right _ hl
  have hu' : n * 2 ^ (52 - n.log2) < 2 ^ 53 :=
    calc n * 2 ^ (52 - n.log2) < 2 ^ (n.log2 + 1) * 2 ^ (52 - n.log2) :=
          Nat.mul_lt_mul_of_pos_right hu (Nat.two_pow_pos _)
      _ = 2 ^ 53 := by rw [← Nat.pow_add]; congr 1; omega
  have he : (0 : Int) - ((52 - n.log2 : Nat) : Int) = n.log2 - 52 := by omega
  obtain ⟨r, rfl, -, -, h⟩ := round_carries (e := (n.log2 : Int) - 52) 0 hl' hu' (by omega) .exact
  refine ⟨hl', hu', ?_⟩
  rw [hround, UnpackedFloat.round, ht, decreaseExponent]
  dsimp only
  rw [hs, he, Nat.shiftLeft_eq]
  rw [Int.natCast_zero, Int.add_zero] at h
  exact h

theorem divCore_eq {m n : Nat} {e f : Int} (hml : 2 ^ 52 ≤ m) (hmu : m < 2 ^ 53) (hnl : 2 ^ 52 ≤ n)
    (hnu : n < 2 ^ 53) (he : -900 ≤ e - f) : divCore Format.binary64 m e n f =
      (m * 2 ^ 53 / n, e - f - 53, accuracyOfFraction (m * 2 ^ 53 % n) n) := by
  have ht : min (e - f) (Format.binary64.targetExponent (totalExponent m e - totalExponent n f)) =
      e - f - 53 := by
    rw [totalExponent, totalExponent, log2_eq hml hmu, log2_eq hnl hnu, targetExponent_eq (by omega)]
    omega
  have hs : (e - f - (e - f - 53)).toNat = 53 := by omega
  simp only [divCore, ht, hs, Nat.shiftLeft_eq]

theorem div_full {a b c d : Int} {u v : UnpackedFloat} (hu : Full a b u) (hv : Full c d v)
    (hlo : -900 ≤ a - d) :
    Full (a - d - 53) (b - c - 51) (UnpackedFloat.div Format.binary64 u v) := by
  obtain ⟨m, e, hm, rfl, hml, hmu, hea, heb⟩ := hu
  obtain ⟨n, f, hn, rfl, hnl, hnu, hfc, hfd⟩ := hv
  have hl : 2 ^ 52 ≤ m * 2 ^ 53 / n := by
    rw [Nat.le_div_iff_mul_le hn]
    omega
  have hh : m * 2 ^ 53 / n < 2 ^ 54 := by
    rw [Nat.div_lt_iff_lt_mul hn]
    omega
  show Full _ _ (roundWithAccuracy Format.binary64 .positive (divCore Format.binary64 m e n f).1
    (divCore Format.binary64 m e n f).2.1 (divCore Format.binary64 m e n f).2.2)
  rw [divCore_eq hml hmu hnl hnu (by omega)]
  dsimp only
  rcases Nat.lt_or_ge (m * 2 ^ 53 / n) (2 ^ 53) with h | h
  · exact (round_full 0 hl h (by omega) _).mono (by omega) (by omega)
  · exact (round_full 1 h hh (by omega) _).mono (by omega) (by omega)

theorem sqrt_full {a b : Int} {u : UnpackedFloat} (hu : Full a b u) (ha : -900 ≤ a) :
    Full (a / 2 - 26) (b / 2 - 25) (UnpackedFloat.sqrt Format.binary64 u) := by
  obtain ⟨m, e, hm, rfl, hml, hmu, hea, heb⟩ := hu
  have ht : min (e.ediv 2) (Format.binary64.targetExponent ((totalExponent m e + 1).ediv 2)) =
      e / 2 - 26 := by
    rw [totalExponent, log2_eq hml hmu, targetExponent_eq]
    · show min (e / 2) (_ / 2 - 53) = _
      omega
    · show -1021 ≤ (((52 : Nat) : Int) + 1 + e + 1) / 2
      omega
  have hs : (e - 2 * (e / 2 - 26)).toNat = 52 ∨ (e - 2 * (e / 2 - 26)).toNat = 53 := by omega
  have hl : 2 ^ 104 ≤ m <<< (e - 2 * (e / 2 - 26)).toNat := by
    rcases hs with hs | hs <;> rw [hs, Nat.shiftLeft_eq] <;> omega
  have hh : m <<< (e - 2 * (e / 2 - 26)).toNat < 2 ^ 106 := by
    rcases hs with hs | hs <;> rw [hs, Nat.shiftLeft_eq] <;> omega
  show Full _ _ (roundWithAccuracy Format.binary64 .positive (sqrtCore Format.binary64 m e).1
    (sqrtCore Format.binary64 m e).2.1 (sqrtCore Format.binary64 m e).2.2)
  simp only [sqrtCore, ht]
  refine (round_full 0 ?_ ?_ (by omega) _).mono (by omega) (by omega)
  · rw [Nat.le_sqrt]
    omega
  · rw [Nat.sqrt_lt]
    omega

theorem between_six : Between (-50) (-50) 6.0 :=
  ⟨6755399441055744, -50, by decide, by rfl, by decide, by decide, by decide, by decide⟩

def Counts (n : Nat) (x : Float) : Prop :=
  ∃ r, 2 ^ 52 ≤ r ∧ r ≤ 2 ^ 53 ∧ Near (n * 2 ^ 53) (n.log2 + 1) r ∧
    Carries r (n.log2 - 52) x.toModel.unpack

theorem mul_one_carries {r : Nat} {t : Int} {u : UnpackedFloat} (h : Carries r t u) (hl : 2 ^ 52 ≤ r)
    (hu : r < 2 ^ 53) (ht : -900 ≤ t) :
    Carries r t (UnpackedFloat.mul Format.binary64 u (Float.ofBits 0x3FF0000000000000).toModel.unpack) := by
  obtain ⟨m, e, hm, rfl, ⟨-, rfl, rfl⟩ | ⟨hcarry, -, -⟩⟩ := h
  · obtain ⟨r, hr, -, -, h⟩ := round_carries (m := m * 2 ^ 52) (e := e + -52) 52 (by omega) (by omega)
      (by omega) .exact
    obtain rfl : r = m := Near.eq_of_mul (k := 52) (hr ▸ near_shiftRight (m * 2 ^ 52) 52)
    have hexp : e + -52 + (52 : Nat) = e := by omega
    rw [hexp] at h
    exact h
  · omega

theorem counts_small {n : Nat} (hn : 0 < n) (hsmall : n < 2 ^ 53) :
    Counts n (n.toUInt64.toFloat * Float.ofBits 0x3FF0000000000000) := by
  have hlog : n.log2 < 53 := (Nat.log2_lt (by omega)).mpr hsmall
  have hto : n.toUInt64.toNat = n := by
    rw [Nat.toUInt64, UInt64.toNat_ofNat', Nat.mod_eq_of_lt (by omega)]
  obtain ⟨hl, hu, hc⟩ := ofNat_carries hn hsmall
  have hsplit : n * 2 ^ 53 = n * 2 ^ (52 - n.log2) * 2 ^ (n.log2 + 1) := by
    rw [Nat.mul_assoc, ← Nat.pow_add]
    congr 2
    omega
  generalize n * 2 ^ (52 - n.log2) = r at *
  have hfloat : n.toUInt64.toFloat.toModel.unpack = UnpackedFloat.ofNat Format.binary64 n := by
    have hfull : Full (n.log2 - 52) (n.log2 - 52 + 1)
        (UnpackedFloat.ofNat Format.binary64 n.toUInt64.toNat) := by
      rw [hto]
      exact hc.full hl
    have h : n.toUInt64.toFloat.toModel.unpack =
        UnpackedFloat.ofNat Format.binary64 n.toUInt64.toNat := unpack_pack hfull (by omega) (by omega)
    rwa [hto] at h
  have h := mul_one_carries hc hl hu (by omega)
  rw [← hfloat] at h
  have hprod : (n.toUInt64.toFloat * Float.ofBits 0x3FF0000000000000).toModel.unpack =
      UnpackedFloat.mul Format.binary64 n.toUInt64.toFloat.toModel.unpack
        (Float.ofBits 0x3FF0000000000000).toModel.unpack :=
    unpack_pack (h.full hl) (by omega) (by omega)
  rw [← hprod] at h
  refine ⟨r, hl, by omega, ?_, h⟩
  rw [hsplit]
  exact ⟨Nat.le_add_right _ _, Nat.le_add_right _ _⟩

/-- A large count is read as a number of many digits. -/
theorem counts_large {n : Nat} (hbig : 2 ^ 53 ≤ n) (hlt : n < 2 ^ 64) :
    Counts n (.ofModel (Float.Model.ofScientific n 0)) := by
  have hl : 2 ^ n.log2 ≤ n := Nat.log2_self_le (by omega)
  have hu : n < 2 ^ (n.log2 + 1) := Nat.lt_log2_self
  have hlow : 53 ≤ n.log2 := (Nat.le_log2 (by omega)).mpr (by omega)
  have hlog : n.log2 < 64 := (Nat.log2_lt (by omega)).mpr hlt
  have hround : UnpackedFloat.ofScientific Format.binary64 n 0 =
      roundWithAccuracy Format.binary64 .positive (n <<< 53 * 1) (-53) .exact := by
    have hrange : (2 : Int) ^ Format.binary64.exponentBits = 2048 := by decide
    rw [UnpackedFloat.ofScientific, dif_neg (by omega), if_neg (by decide), if_neg (by omega),
      if_pos (by decide)]
    rfl
  have hl' : 2 ^ (52 + (n.log2 + 1)) ≤ n * 2 ^ 53 :=
    calc 2 ^ (52 + (n.log2 + 1)) = 2 ^ n.log2 * 2 ^ 53 := by rw [← Nat.pow_add]; congr 1; omega
      _ ≤ n * 2 ^ 53 := Nat.mul_le_mul_right _ hl
  have hu' : n * 2 ^ 53 < 2 ^ (52 + (n.log2 + 1) + 1) :=
    calc n * 2 ^ 53 < 2 ^ (n.log2 + 1) * 2 ^ 53 := Nat.mul_lt_mul_of_pos_right hu (by decide)
      _ = 2 ^ (52 + (n.log2 + 1) + 1) := by rw [← Nat.pow_add]; congr 1; omega
  obtain ⟨r, hr, hrl, hru, h⟩ := round_carries (n.log2 + 1) hl' hu' (e := -53) (by omega) .exact
  have hexp : (-53 : Int) + ((n.log2 + 1 : Nat) : Int) = n.log2 - 52 := by omega
  rw [hexp, ← Nat.shiftLeft_eq, ← Nat.mul_one (n <<< 53), ← hround] at h
  have hunpack : (Float.ofModel (Float.Model.ofScientific n 0)).toModel.unpack =
      UnpackedFloat.ofScientific Format.binary64 n 0 := unpack_pack (h.full hrl) (by omega) (by omega)
  rw [← hunpack] at h
  exact ⟨r, hrl, hru, hr ▸ near_shiftRight (n * 2 ^ 53) (n.log2 + 1), h⟩

theorem counts_ofNat {n : Nat} (hn : 0 < n) (hlt : n < 2 ^ 64) : Counts n (Float.ofNat n) := by
  change Counts n (Float.ofScientific n false 0)
  unfold Float.ofScientific
  split
  · exact counts_small hn (And.left ‹_›)
  · exact counts_large (by omega) hlt

theorem between_ofNat {n : Nat} (hn : 0 < n) (hlt : n < 2 ^ 64) :
    Between (-52) 15 (Float.ofNat n) := by
  obtain ⟨r, hr, -, -, hc⟩ := counts_ofNat hn hlt
  have hlog : n.log2 < 64 := (Nat.log2_lt (by omega)).mpr hlt
  exact (hc.full hr).mono (by omega) (by omega)

theorem between_div {a b c d : Int} {x y : Float} (hx : Between a b x) (hy : Between c d y)
    (hlo : -900 ≤ a - d) (hhi : b - c ≤ 900) : Between (a - d - 53) (b - c - 51) (x / y) :=
  between_pack (div_full hx hy hlo) (by omega) (by omega)

theorem between_sqrt {a b : Int} {x : Float} (hx : Between a b x) (hlo : -900 ≤ a) (hhi : b ≤ 900) :
    Between (a / 2 - 26) (b / 2 - 25) (Float.sqrt x) :=
  between_pack (sqrt_full hx hlo) (by omega) (by omega)

theorem isFinite_of_between {a b : Int} {x : Float} (hx : Between a b x) : x.isFinite = true := by
  obtain ⟨m, e, hm, hu, -⟩ := hx
  show x.toModel.unpack.isFinite = true
  rw [hu]
  rfl

theorem pos_of_between {a b : Int} {x : Float} (hx : Between a b x) : 0.0 < x := by
  obtain ⟨m, e, hm, hu, -⟩ := hx
  have hz : (0.0 : Float).toModel.unpack = .zero .positive := by rfl
  have hlt : ((0.0 : Float).toModel.unpack.compare x.toModel.unpack == some .lt) = true := by
    rw [hu, hz]
    rfl
  exact decide_eq_true hlt

theorem glorotLimit_pos {fanIn fanOut : Nat} (h : 0 < fanIn + fanOut)
    (hlt : fanIn + fanOut < 2 ^ 64) :
    (Weights.glorotLimit fanIn fanOut).isFinite = true ∧ 0.0 < Weights.glorotLimit fanIn fanOut := by
  have hquot := between_div between_six (between_ofNat h hlt) (by omega) (by omega)
  have hlimit := between_sqrt hquot (by omega) (by omega)
  exact ⟨isFinite_of_between hlimit, pos_of_between hlimit⟩

end Convnet.Rounding

namespace Convnet

theorem Stream.size_many {β : Type} (draw : Stream → β × Stream) (n : Nat) (s : Stream) :
    (many draw n s).1.size = n := by
  unfold many
  generalize hb : Array.emptyWithCapacity n = base
  have hbase : base.size = 0 := by
    rw [← hb]
    rfl
  clear hb
  induction n with
  | zero => exact hbase
  | succ n ih =>
      rw [Nat.fold_succ]
      dsimp only
      rw [Array.size_push, ih]

theorem Weights.glorotUniform_draws : Initializer.Draws Weights.glorotUniform where
  size := by
    intro fanIn fanOut n s xs s' h
    have hmany := pure_eq_ok_iff.mp (require_bind_eq_ok.mp h).2
    have hxs : xs = (Stream.many (Stream.symmetric (glorotLimit fanIn fanOut)) n s).1 :=
      congrArg Prod.fst hmany
    rw [hxs]
    exact Stream.size_many _ n s
  answers := by
    intro fanIn fanOut n hin hout hin' hout' hf s
    have hn : 8 * n < 2 ^ 63 := by simpa [Buffer.fits] using hf
    have hsum : 0 < fanIn + fanOut := by omega
    obtain ⟨hfin, hpos⟩ := Rounding.glorotLimit_pos hsum (by omega)
    have hguard : (Buffer.fits n && (n == 0 || ((glorotLimit fanIn fanOut).isFinite &&
        0.0 < glorotLimit fanIn fanOut))) = true := by
      simp [hf, hfin, hpos]
    exact ⟨_, _, require_bind_eq_ok.mpr ⟨hguard, rfl⟩⟩

end Convnet
