import Convnet.Proofs.Saved
import Convnet.Proofs.Shortest

namespace Convnet

open Float.Model UnpackedFloat

namespace Binary64

theorem unpackExponent_eq_iff (x : Float) : @unpackExponent Format.binary64 x.toBits.toBitVec = -1#11 ↔
    x.toBits.toNat / Nat.pow 2 52 % Nat.pow 2 11 = 2047 := by
  have hnat : (@unpackExponent Format.binary64 x.toBits.toBitVec).toNat =
      x.toBits.toNat / Nat.pow 2 52 % Nat.pow 2 11 := by
    rw [unpackExponent_def, BitVec.extractLsb'_toNat]
    change x.toBits.toNat >>> 52 % 2 ^ 11 = _
    rw [Nat.shiftRight_eq_div_pow]
  rw [← BitVec.toNat_inj, hnat]
  rfl

theorem isFinite_iff (x : Float) : x.isFinite = true ↔ x.toBits.toNat / Nat.pow 2 52 % Nat.pow 2 11 ≠ 2047 := by
  have hf : x.isFinite = (UnpackedFloat.unpack Format.binary64 x.toBits.toBitVec).isFinite := rfl
  rw [hf, UnpackedFloat.unpack, ne_eq, ← unpackExponent_eq_iff]
  constructor
  · intro h hb
    simp only [hb] at h
    rw [if_pos trivial] at h
    split at h <;> exact Bool.false_ne_true h
  · intro hb
    simp only [if_neg hb]
    repeat' split
    all_goals rfl

theorem ofWord_finite {w : Nat} (hw : w < 2 ^ 64) (he : w / Nat.pow 2 52 % Nat.pow 2 11 ≠ 2047) :
    ∃ negative m q, ofWord w = .finite negative m q ∧ Regular m q ∧
      w = (if negative then 2 ^ 63 else 0) + magnitude m q := by
  obtain ⟨s, e, f, hs, he', hf, rfl⟩ : ∃ s e f : Nat, s < 2 ∧ e < 2048 ∧ f < 2 ^ 52 ∧
      w = s * 2 ^ 63 + e * 2 ^ 52 + f :=
    ⟨w / 2 ^ 63, w / 2 ^ 52 % 2048, w % 2 ^ 52, by omega, by omega, by omega, by omega⟩
  have h₁ : (s * 2 ^ 63 + e * 2 ^ 52 + f) / Nat.pow 2 63 % 2 = s := by
    change (s * 2 ^ 63 + e * 2 ^ 52 + f) / 2 ^ 63 % 2 = s
    omega
  have h₂ : (s * 2 ^ 63 + e * 2 ^ 52 + f) / Nat.pow 2 52 % Nat.pow 2 11 = e := by
    change (s * 2 ^ 63 + e * 2 ^ 52 + f) / 2 ^ 52 % 2 ^ 11 = e
    omega
  have h₃ : (s * 2 ^ 63 + e * 2 ^ 52 + f) % Nat.pow 2 52 = f := by
    change (s * 2 ^ 63 + e * 2 ^ 52 + f) % 2 ^ 52 = f
    omega
  have hsign : (if (s == 1) = true then 2 ^ 63 else 0) = s * 2 ^ 63 := by
    obtain rfl | rfl : s = 0 ∨ s = 1 := by omega
    · rfl
    · rfl
  rw [h₂] at he
  rw [ofWord]
  simp only [h₁, h₂, h₃]
  rw [if_neg he]
  split
  case isTrue hzero =>
    refine ⟨_, _, _, rfl, ⟨by omega, le_rfl, by decide, .inl rfl⟩, ?_⟩
    rw [hsign, magnitude_eq, if_pos hf, hzero]
    omega
  case isFalse hzero =>
    have hp : Nat.pow 2 52 = 2 ^ 52 := rfl
    rw [hp]
    refine ⟨_, _, _, rfl, ⟨by omega, ?_, by omega, .inr (by omega)⟩, ?_⟩
    · rw [leastExponent]
      omega
    · rw [hsign, magnitude_eq, if_neg (by omega)]
      have hexp : ((e : Int) - 1075 + 1075).toNat = e := by omega
      rw [hexp, Nat.add_sub_cancel, Nat.min_eq_left (by omega)]
      omega

theorem toFloat_toBits (x : Float) : toFloat x.toBits.toNat = x := by
  rw [toFloat, UInt64.ofNat_toNat, Float.ofBits_toBits]

theorem lt_iff_compare (x y : Float) : x < y ↔ x.toModel.unpack.compare y.toModel.unpack = some .lt :=
  (decide_eq_true_iff (p := (x.toModel.unpack.compare y.toModel.unpack == some .lt) = true)).trans beq_iff_eq

theorem isFinite_of_inUnit {x : Float} (h : Scalar.inUnit x = true) : x.isFinite = true := by
  obtain ⟨hlow, hhigh⟩ : ¬ x < (0.0 : Float) ∧ x < (1.0 : Float) := by
    rw [Scalar.inUnit, Bool.and_eq_true, Bool.not_eq_true', decide_eq_false_iff_not, decide_eq_true_eq] at h
    exact h
  have hzero : (0.0 : Float).toModel.unpack = .zero .positive := by rfl
  rw [lt_iff_compare, hzero] at hlow
  rw [lt_iff_compare] at hhigh
  change x.toModel.unpack.isFinite = true
  cases hx : x.toModel.unpack with
  | notANumber =>
      rw [hx] at hhigh
      cases hhigh
  | infinity s =>
      rw [hx] at hlow hhigh
      cases s with
      | negative => exact absurd rfl hlow
      | positive => cases hhigh
  | zero | finite => rfl

end Binary64

namespace JsonText

open Decimal

theorem digits_lt (d : Nat) : d < 10 ^ (digits d).length := by
  have hlen : (digits d).length = (Nat.toDigits 10 d).length := by rw [← String.length_toList, toList_digits]
  rw [hlen]
  exact (Nat.length_toDigits_le_iff (by decide) Nat.length_toDigits_pos).mp le_rfl

theorem reread_decimal (negative : Bool) {d : Nat} (e : Int) (hd : 0 < d) (hle : d ≤ 10 ^ 17) :
    ∃ d' e', reread (.decimal negative d e) = .decimal negative d' e' ∧ (d' * 10 ^ e' : ℚ) = d * 10 ^ e ∧
      0 < d' ∧ d' < 2 ^ 64 := by
  rw [reread, if_neg hd.ne']
  split
  case isFalse => exact ⟨d, e, rfl, rfl, hd, by omega⟩
  case isTrue h =>
    obtain ⟨n, rfl⟩ := Int.eq_ofNat_of_zero_le h.1
    refine ⟨_, _, rfl, ?_, Nat.mul_pos hd (by positivity), ?_⟩
    · rw [Int.toNat_natCast, zpow_neg_one, zpow_natCast]
      push_cast
      rw [pow_succ]
      field_simp
    · rw [Int.toNat_natCast]
      calc d * 10 ^ (n + 1) < 10 ^ (digits d).length * 10 ^ (n + 1) :=
            Nat.mul_lt_mul_of_pos_right (digits_lt d) (by positivity)
        _ = 10 ^ ((digits d).length + (n + 1)) := (Nat.pow_add ..).symm
        _ ≤ 10 ^ 17 := Nat.pow_le_pow_right (by decide) (by omega)
        _ < 2 ^ 64 := by decide

end JsonText

open Binary64 Decimal in
theorem Numeral.toFloat?_of_word {x : Float} (hx : x.isFinite = true) {negative : Bool} {d : Nat} {e : Int}
    (h : nearestDecimal negative d e = x.toBits.toNat) : (Numeral.decimal negative d e).toFloat? = some x := by
  rw [toFloat?]
  simp only [h, toFloat_toBits]
  exact if_pos hx

theorem Numeral.isRepresentable_of_toFloat? {n : Numeral} {x : Float} (h : n.toFloat? = some x) :
    n.isRepresentable = true := by
  cases n <;> rw [isRepresentable, h, Option.isSome_some, Bool.or_true]

open Binary64 Decimal in
/-- The saved form of a finite double is a number that is read as the double. -/
theorem Json.ofFloat_reread {x : Float} (hx : x.isFinite = true) :
    ∃ n : Numeral, ofFloat x = .number n ∧ (JsonText.reread n).toFloat? = some x := by
  obtain ⟨negative, m, q, hword, hregular, hbits⟩ := ofWord_finite x.toBits.toNat_lt ((isFinite_iff x).mp hx)
  rw [ofFloat, Binary64.ofFloat, hword]
  cases m with
  | zero =>
      refine ⟨_, rfl, Numeral.toFloat?_of_word hx ?_⟩
      have hzero : magnitude 0 q = 0 := if_pos (by decide)
      rw [hbits, hzero]
      cases negative <;> rfl
  | succ m =>
      obtain ⟨hrounds, hpos, hle⟩ := shortest_rounds .even hregular m.succ_pos
      obtain ⟨d, e, hread, hvalue, hd, hlt⟩ := JsonText.reread_decimal negative _ hpos hle
      rw [← hvalue] at hrounds
      refine ⟨.decimal negative (shortest .even (m + 1) q).1 (shortest .even (m + 1) q).2, rfl, ?_⟩
      rw [hread]
      exact Numeral.toFloat?_of_word hx ((nearestDecimal_eq hregular m.succ_pos hd hlt hrounds negative).trans hbits.symm)

theorem JsonNumber.returns_of_isFinite {x : Float} (hx : x.isFinite = true) : JsonNumber.Returns x := by
  obtain ⟨n, hn, hread⟩ := Json.ofFloat_reread hx
  refine ⟨?_, ?_⟩
  · change Json.float? (Json.ofFloat x).reread = some x
    rw [hn]
    exact hread
  · change Json.keepable 0 (Json.ofFloat x).reread = true
    rw [hn]
    exact Numeral.isRepresentable_of_toFloat? hread

end Convnet
