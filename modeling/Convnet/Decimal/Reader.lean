import Convnet.Decimal.Layout

namespace Convnet.Decimal

def allDigits (cs : List Char) : Bool := !cs.isEmpty && cs.all Char.isDigit

def readNat? (s : String) : Option Nat :=
  let cs := match s.toList with
    | '+' :: r => r
    | cs => cs
  let n := natOfDigits cs
  if allDigits cs && n < Nat.pow 2 64 then some n else none

def splitSign : List Char → Bool × List Char
  | '-' :: r => (true, r)
  | '+' :: r => (false, r)
  | cs => (false, cs)

def readExponent? : List Char → Option Int
  | [] => some 0
  | 'e' :: r | 'E' :: r =>
    let (negative, ds) := splitSign r
    if allDigits ds then some (if negative then -(natOfDigits ds : Int) else natOfDigits ds) else none
  | _ => none

def readDigits? (cs : List Char) : Option (Nat × Int) := do
  let whole := cs.takeWhile Char.isDigit
  let r := cs.dropWhile Char.isDigit
  let (part, r) := match r with
    | '.' :: r => (r.takeWhile Char.isDigit, r.dropWhile Char.isDigit)
    | r => ([], r)
  if whole.isEmpty && part.isEmpty then failure
  let e ← readExponent? r
  return (natOfDigits (whole ++ part), e - part.length)

/-- The word of the nearest number. Infinity and what is no number are written by name, in upper or
lower case. -/
def readWord? (s : String) : Option Nat :=
  let (negative, cs) := splitSign s.toList
  match String.ofList (cs.map Char.toLower) with
  | "inf" | "infinity" => some ((if negative then Nat.pow 2 63 else 0) + 2047 * Nat.pow 2 52)
  | "nan" => some (2047 * Nat.pow 2 52 + Nat.pow 2 51)
  | _ => (readDigits? cs).map fun (d, e) => Binary64.nearestDecimal negative d e

def readFloat? (s : String) : Option Float := (readWord? s).map Binary64.toFloat

end Convnet.Decimal
