import Convnet.Json.Parser
import Convnet.Json.Printer
import Mathlib

namespace Convnet

namespace Decimal

theorem natOfDigits_eq (cs : List Char) : natOfDigits cs = Nat.ofDigitChars 10 cs 0 := by
  simp only [natOfDigits, Nat.ofDigitChars, Nat.mul_comm 10]
  rfl

theorem natOfDigits_append (cs ds : List Char) :
    natOfDigits (cs ++ ds) = natOfDigits cs * 10 ^ ds.length + natOfDigits ds := by
  simp only [natOfDigits_eq, Nat.ofDigitChars_append]
  rw [Nat.ofDigitChars_eq_ofDigitChars_zero, Nat.mul_comm]

@[simp] theorem toList_digits (n : Nat) : (digits n).toList = Nat.toDigits 10 n := by
  rw [digits, Nat.toString_eq_ofList_toDigits, String.toList_ofList]

theorem natOfDigits_toDigits (n : Nat) : natOfDigits (Nat.toDigits 10 n) = n :=
  (natOfDigits_eq _).trans Nat.ofDigitChars_ten_toDigits

theorem natOfDigits_zeros (n : Nat) : natOfDigits (List.replicate n '0') = 0 := by
  induction n with
  | zero => rfl
  | succ n ih => rw [List.replicate_succ', natOfDigits_append, ih]; rfl

theorem isDigit_of_mem_digits {n : Nat} {c : Char} (h : c ∈ Nat.toDigits 10 n) : c.isDigit = true :=
  Nat.isDigit_of_mem_toDigits (by decide) (by decide) h

theorem head_digits {n : Nat} (h : n ≠ 0) : (Nat.toDigits 10 n).head? ≠ some '0' := by
  induction n using Nat.base_induction 10 (by decide) with
  | single m hm =>
      rw [Nat.toDigits_of_lt_base hm]
      interval_cases m <;> simp_all
  | digit m k hk hm ih =>
      rw [← Nat.toDigits_append_toDigits (by decide) hm hk, List.head?_append_of_ne_nil _ Nat.toDigits_ne_nil]
      exact ih (Nat.ne_of_gt hm)

theorem length_of_head_digits {n : Nat} (h : (Nat.toDigits 10 n).head? = some '0') :
    (Nat.toDigits 10 n).length = 1 := by
  obtain rfl : n = 0 := by
    by_contra hn
    exact head_digits hn h
  rfl

theorem toList_signed (negative : Bool) (s : String) :
    (signed negative s).toList = (if negative then ['-'] else []) ++ s.toList := by
  cases negative <;> simp [signed]

end Decimal

namespace JsonText

open Decimal

def NoDigit (r : List Char) : Prop := ∀ c, r.head? = some c → c.isDigit = false

/-- Whether a number is over before a text. -/
def Stops (r : List Char) : Prop :=
  ∀ c, r.head? = some c → c.isDigit = false ∧ c ≠ '.' ∧ c ≠ 'e' ∧ c ≠ 'E'

theorem Stops.noDigit {r : List Char} (h : Stops r) : NoDigit r := fun c hc => (h c hc).1

theorem takeWhile_digits {ds r : List Char} (hd : ∀ c ∈ ds, c.isDigit = true) (hr : NoDigit r) :
    (ds ++ r).takeWhile Char.isDigit = ds ∧ (ds ++ r).dropWhile Char.isDigit = r := by
  rw [List.takeWhile_append_of_pos hd, List.dropWhile_append_of_pos hd]
  cases r with
  | nil => simp
  | cons c r => simp [hr c rfl]

theorem fraction_point {ds r : List Char} (hd : ∀ c ∈ ds, c.isDigit = true) (hne : ds ≠ []) (hr : NoDigit r) :
    fraction ('.' :: (ds ++ r)) = some (ds, r) := by
  obtain ⟨htake, hdrop⟩ := takeWhile_digits hd hr
  simp [fraction, htake, hdrop, hne]

theorem fraction_none {r : List Char} (h : ∀ c, r.head? = some c → c ≠ '.') : fraction r = some ([], r) := by
  unfold fraction
  split
  · exact absurd rfl (h '.' rfl)
  · rfl

theorem exponent_mark {negative : Bool} {n : Nat} {r : List Char} (hr : NoDigit r) :
    exponent ((if negative then "e-" else "e+").toList ++ (Nat.toDigits 10 n ++ r)) =
      some (some (if negative then -(n : Int) else n), r) := by
  obtain ⟨htake, hdrop⟩ := takeWhile_digits (fun _ (hc : _ ∈ Nat.toDigits 10 n) => isDigit_of_mem_digits hc) hr
  cases negative with
  | true => simp [exponent, htake, hdrop, natOfDigits_toDigits]
  | false => simp [exponent, htake, hdrop, natOfDigits_toDigits]

theorem exponent_none {r : List Char} (h : ∀ c, r.head? = some c → c ≠ 'e' ∧ c ≠ 'E') :
    exponent r = some (none, r) := by
  unfold exponent
  split
  all_goals first | rfl | simp at h

theorem number_whole {negative : Bool} {whole r : List Char} (hw : ∀ c ∈ whole, c.isDigit = true)
    (hne : whole ≠ []) (hz : whole.head? = some '0' → whole.length = 1) (hr : NoDigit r) :
    number ((if negative then ['-'] else []) ++ (whole ++ r)) = (do
      let (part, r) ← fraction r
      let (e, r) ← exponent r
      if part.isEmpty && e.isNone then
        return (.integer negative (natOfDigits whole), r)
      return (.decimal negative (natOfDigits (whole ++ part)) (e.getD 0 - part.length), r)) := by
  obtain ⟨htake, hdrop⟩ := takeWhile_digits hw hr
  have hzero : (whole.isEmpty || (whole.head? == some '0' && decide (whole.length > 1))) = false := by
    have hempty : whole.isEmpty = false := by simpa using hne
    rw [hempty, Bool.false_or]
    cases hh : whole.head? == some '0' with
    | false => rfl
    | true => simp [hz (by simpa using hh)]
  cases negative with
  | true =>
      simp only [number, List.singleton_append, if_true, htake, hdrop, hzero]
      rfl
  | false =>
      rw [if_neg Bool.false_ne_true, List.nil_append, number]
      · simp only [htake, hdrop, hzero]
        rfl
      · intro cs hcs
        obtain ⟨c, ds, rfl⟩ := List.exists_cons_of_ne_nil hne
        obtain ⟨rfl, -⟩ := List.cons.inj hcs
        exact absurd (hw '-' (by simp)) (by decide)

/-- How a numeral is read back from its text: a whole number of up to sixteen digits has one zero
more behind its point. -/
def reread : Numeral → Numeral
  | .integer negative n => .integer negative n
  | .decimal negative d e =>
    if d = 0 then .decimal negative 0 (-1)
    else if 0 ≤ e ∧ ((digits d).length : Int) + e ≤ 16 then
      .decimal negative (d * 10 ^ (e.toNat + 1)) (-1)
    else .decimal negative d e

section Texts

variable {negative : Bool} {whole part r : List Char}

theorem number_integer (hw : ∀ c ∈ whole, c.isDigit = true) (hne : whole ≠ [])
    (hz : whole.head? = some '0' → whole.length = 1) (hr : Stops r) :
    number ((if negative then ['-'] else []) ++ (whole ++ r)) =
      some (.integer negative (natOfDigits whole), r) := by
  rw [number_whole hw hne hz hr.noDigit, fraction_none fun c hc => (hr c hc).2.1]
  simp [exponent_none fun c hc => (hr c hc).2.2]

theorem number_point (hw : ∀ c ∈ whole, c.isDigit = true) (hne : whole ≠ [])
    (hz : whole.head? = some '0' → whole.length = 1) (hp : ∀ c ∈ part, c.isDigit = true) (hpne : part ≠ [])
    (hr : Stops r) :
    number ((if negative then ['-'] else []) ++ (whole ++ '.' :: (part ++ r))) =
      some (.decimal negative (natOfDigits (whole ++ part)) (-part.length), r) := by
  rw [number_whole hw hne hz (by simp [NoDigit]), fraction_point hp hpne hr.noDigit]
  simp [exponent_none fun c hc => (hr c hc).2.2, hpne]

theorem number_scientific (hw : ∀ c ∈ whole, c.isDigit = true) (hne : whole ≠ [])
    (hz : whole.head? = some '0' → whole.length = 1) (hp : ∀ c ∈ part, c.isDigit = true) (small : Bool) (n : Nat)
    (hr : Stops r) :
    number ((if negative then ['-'] else []) ++ (whole ++ ((if part = [] then [] else '.' :: part) ++
        ((if small then "e-" else "e+").toList ++ (Nat.toDigits 10 n ++ r))))) =
      some (.decimal negative (natOfDigits (whole ++ part)) ((if small then -(n : Int) else n) - part.length), r) := by
  have hmark : NoDigit ((if small then "e-" else "e+").toList ++ (Nat.toDigits 10 n ++ r)) := by
    cases small <;> simp [NoDigit]
  by_cases hpne : part = []
  · subst hpne
    rw [if_pos rfl, List.nil_append, number_whole hw hne hz hmark, fraction_none (by cases small <;> simp)]
    simp [exponent_mark hr.noDigit]
  · rw [if_neg hpne, List.cons_append, number_whole hw hne hz (by simp [NoDigit]),
      fraction_point hp hpne hmark]
    simp [exponent_mark hr.noDigit]

theorem number_dataText {d : Nat} (e : Int) (hd : d ≠ 0) (hr : Stops r) :
    number ((if negative then ['-'] else []) ++ ((dataText d e).toList ++ r)) =
      some (reread (.decimal negative d e), r) := by
  -- the digits of `d` stand before the point, behind it, or on both sides
  have hlen : (digits d).length = (Nat.toDigits 10 d).length := by
    rw [← String.length_toList, toList_digits]
  have hpos : 0 < (Nat.toDigits 10 d).length := Nat.length_toDigits_pos
  have hall : ∀ c ∈ Nat.toDigits 10 d, c.isDigit = true := fun _ => isDigit_of_mem_digits
  have hzeros : ∀ (n : Nat), ∀ c ∈ List.replicate n '0', c.isDigit = true := by
    intro n c hc
    rw [List.eq_of_mem_replicate hc]
    decide
  rw [dataText, reread, hlen]
  dsimp only
  rw [if_neg hd, if_neg hd]
  generalize hL : Nat.toDigits 10 d = L at hlen hpos hall
  have hne : L ≠ [] := List.ne_nil_of_length_pos hpos
  have hhead : L.head? ≠ some '0' := hL ▸ head_digits hd
  have hvalue : natOfDigits L = d := hL ▸ natOfDigits_toDigits d
  by_cases h : 0 ≤ e ∧ (L.length : Int) + e ≤ 16
  · rw [if_pos h, if_pos h]
    have htext : (digits d ++ zeros e.toNat ++ ".0").toList ++ r =
        (L ++ List.replicate e.toNat '0') ++ '.' :: (['0'] ++ r) := by
      simp [zeros, hL]
    rw [htext, number_point (by simpa [or_imp, forall_and] using hall) (by simp [hne])
      (by rw [List.head?_append_of_ne_nil _ hne]; exact fun h => absurd h hhead) (by simp) (by simp) hr]
    simp only [natOfDigits_append, hvalue, natOfDigits_zeros, List.length_replicate]
    simp [natOfDigits, Nat.pow_succ, Nat.mul_assoc]
  rw [if_neg h, if_neg h]
  by_cases hk : 0 < (L.length : Int) + e ∧ (L.length : Int) + e ≤ 16
  · rw [if_pos hk]
    obtain ⟨n, hn⟩ : ∃ n : Nat, (L.length : Int) + e = n := ⟨_, (Int.toNat_of_nonneg (by omega)).symm⟩
    have htext : (withPoint (digits d) ((L.length : Int) + e).toNat).toList ++ r =
        L.take n ++ '.' :: (L.drop n ++ r) := by
      simp [withPoint, hL, hn]
    rw [htext, number_point (fun c hc => hall c (List.mem_of_mem_take hc)) (by simp [hne]; omega)
      (fun h' => absurd (by rwa [List.head?_take, if_neg (by omega)] at h') hhead)
      (fun c hc => hall c (List.mem_of_mem_drop hc)) (by simp; omega) hr, List.take_append_drop, hvalue]
    simp only [List.length_drop, Option.some.injEq, Prod.mk.injEq, Numeral.decimal.injEq, true_and, and_true]
    omega
  rw [if_neg hk]
  by_cases hk' : -5 < (L.length : Int) + e ∧ (L.length : Int) + e ≤ 0
  · rw [if_pos hk']
    obtain ⟨n, hn⟩ : ∃ n : Nat, -((L.length : Int) + e) = n := ⟨_, (Int.toNat_of_nonneg (by omega)).symm⟩
    have htext : ("0." ++ zeros (-((L.length : Int) + e)).toNat ++ digits d).toList ++ r =
        ['0'] ++ '.' :: ((List.replicate n '0' ++ L) ++ r) := by
      simp [zeros, hL, hn]
    rw [htext, number_point (by simp) (by simp) (by simp) (by simpa [or_imp, forall_and] using hall) (by simp [hne]) hr]
    simp only [natOfDigits_append, hvalue, natOfDigits_zeros, List.length_append, List.length_replicate]
    simp [natOfDigits]
    omega
  rw [if_neg hk']
  generalize hx : (L.length : Int) + e - 1 = x
  have htext : ((if L.length = 1 then digits d else withPoint (digits d) 1) ++
        (if x < 0 then "e-" else "e+") ++ digits x.natAbs).toList ++ r =
      L.take 1 ++ ((if L.drop 1 = [] then [] else '.' :: L.drop 1) ++
        ((if decide (x < 0) = true then "e-" else "e+").toList ++ (Nat.toDigits 10 x.natAbs ++ r))) := by
    by_cases hone : L.length = 1
    · have htake : L.take 1 = L := List.take_of_length_le (by omega)
      have hdrop : L.drop 1 = [] := List.drop_eq_nil_of_le (by omega)
      rw [hdrop]
      simp [hone, hL, htake]
    · have hdrop : L.drop 1 ≠ [] := by
        rw [ne_eq, List.drop_eq_nil_iff]
        omega
      rw [if_neg hdrop]
      simp [hone, hL, withPoint]
  rw [htext, number_scientific (fun c hc => hall c (List.mem_of_mem_take hc)) (by simp [hne])
    (fun h' => absurd (by rwa [List.head?_take, if_neg (by omega)] at h') hhead)
    (fun c hc => hall c (List.mem_of_mem_drop hc)) _ _ hr, List.take_append_drop, hvalue]
  simp only [decide_eq_true_eq, List.length_drop, Option.some.injEq, Prod.mk.injEq, Numeral.decimal.injEq,
    true_and, and_true]
  split <;> omega

theorem number_text (n : Numeral) (hr : Stops r) : number (n.text.toList ++ r) = some (reread n, r) := by
  cases n with
  | integer negative n =>
      rw [Numeral.text, toList_signed, List.append_assoc, toList_digits,
        number_integer (fun _ => isDigit_of_mem_digits) Nat.toDigits_ne_nil length_of_head_digits hr,
        natOfDigits_toDigits]
      rfl
  | decimal negative d e =>
      rw [Numeral.text, toList_signed, List.append_assoc]
      by_cases hd : d = 0
      · subst hd
        rw [dataText, if_pos rfl]
        have hzero : ∀ c ∈ ['0'], c.isDigit = true := by simp
        exact number_point hzero (by simp) (by simp) hzero (by simp) hr
      · exact number_dataText e hd hr

end Texts

end JsonText

end Convnet
