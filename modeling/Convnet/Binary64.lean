namespace Convnet

inductive Binary64
  | nan
  | infinite (negative : Bool)
  | finite (negative : Bool) (m : Nat) (q : Int)
  deriving DecidableEq, Repr, Inhabited

def roundDivEven (num den : Nat) : Nat :=
  -- a half goes to the even one
  let c := num / den
  let r := num % den
  if 2 * r < den then c else if den < 2 * r then c + 1 else c + c % 2

namespace Binary64

def leastExponent : Int := -1074

def ofWord (w : Nat) : Binary64 :=
  -- `Nat.pow` names one function whatever else is imported, which `^` does not
  let negative := w / Nat.pow 2 63 % 2 == 1
  let exponent : Nat := w / Nat.pow 2 52 % Nat.pow 2 11
  let fraction : Nat := w % Nat.pow 2 52
  if exponent = 2047 then
    if fraction = 0 then .infinite negative else .nan
  else if exponent = 0 then
    .finite negative fraction leastExponent
  else
    .finite negative (fraction + Nat.pow 2 52) ((exponent : Int) - 1075)

def ofFloat (x : Float) : Binary64 := ofWord x.toBits.toNat

def ratio (m : Nat) (q : Int) : Nat × Nat :=
  if 0 ≤ q then (m * Nat.pow 2 q.toNat, 1) else (m, Nat.pow 2 (-q).toNat)

def significand (num den : Nat) (q : Int) : Nat :=
  if 0 ≤ q then roundDivEven num (den * Nat.pow 2 q.toNat)
  else roundDivEven (num * Nat.pow 2 (-q).toNat) den

def exponentOf (num den : Nat) : Int :=
  let q : Int := (num.log2 : Int) - (den.log2 : Int) - 52
  let short :=
    if 0 ≤ q then num < den * Nat.pow 2 (q.toNat + 52)
    else num * Nat.pow 2 (-q).toNat < den * Nat.pow 2 52
  max (if short then q - 1 else q) leastExponent

/-- The magnitude word of `m * 2 ^ q` for a significand of at most 53 bits. A significand that
rounding has carried to `2 ^ 53` falls into the next binade by itself. -/
def magnitude (m : Nat) (q : Int) : Nat :=
  if m < Nat.pow 2 52 then m
  else
    let w := (q + 1075).toNat * Nat.pow 2 52 + (m - Nat.pow 2 52)
    min w (2047 * Nat.pow 2 52)

def nearest (negative : Bool) (num den : Nat) : Nat :=
  let q := exponentOf num den
  let w := if num = 0 then 0 else magnitude (significand num den q) q
  if negative then Nat.pow 2 63 + w else w

/-- The word nearest to `digits * 10 ^ exponent`. Beyond `10 ^ 310` every number is infinite and
below `10 ^ (-400)` every number is zero, so the fraction is never large. -/
def nearestDecimal (negative : Bool) (digits : Nat) (exponent : Int) : Nat :=
  let size : Int := ((digits.log2 * 1233 / 4096 : Nat) : Int) + exponent
  if digits = 0 ∨ size < -400 then nearest negative 0 1
  else if 310 < size then (if negative then Nat.pow 2 63 else 0) + 2047 * Nat.pow 2 52
  else if 0 ≤ exponent then nearest negative (digits * Nat.pow 10 exponent.toNat) 1
  else nearest negative digits (Nat.pow 10 (-exponent).toNat)

def toFloat (w : Nat) : Float := Float.ofBits (UInt64.ofNat w)

def roundAway : Binary64 → Int
  | .nan => 0
  | .infinite negative => if negative then -(Nat.pow 2 63) else Nat.pow 2 63 - 1
  | .finite negative m q =>
    let n : Nat :=
      if 0 ≤ q then m * Nat.pow 2 q.toNat
      else (2 * m + Nat.pow 2 (-q).toNat) / Nat.pow 2 ((-q).toNat + 1)
    if negative then max (-(n : Int)) (-(Nat.pow 2 63)) else min (n : Int) (Nat.pow 2 63 - 1)

def floorNat : Binary64 → Nat
  | .nan | .infinite true | .finite true _ _ => 0
  | .infinite false => Nat.pow 2 64 - 1
  | .finite false m q =>
    min (if 0 ≤ q then m * Nat.pow 2 q.toNat else m / Nat.pow 2 (-q).toNat) (Nat.pow 2 64 - 1)

end Binary64
end Convnet
