import Convnet.Binary64

namespace Convnet.Decimal

open Binary64 (ratio leastExponent)

inductive Tie
  | even
  | away
  deriving DecidableEq, Repr

def leadingExponent (num den : Nat) : Int :=
  let bits : Int := (num.log2 : Int) - (den.log2 : Int)
  let k := Int.fdiv (bits * 1233) 4096
  let below (k : Int) : Bool :=
    if 0 ≤ k then num < den * Nat.pow 10 k.toNat else num * Nat.pow 10 (-k).toNat < den
  if below k then k - 1 else if below (k + 1) then k else k + 1

/-- The interval of reals that round to a word, over one denominator: the value, its two ends, and
whether the ends belong to it. -/
structure Interval where
  low : Nat
  value : Nat
  high : Nat
  den : Nat
  closed : Bool

def Interval.around (m : Nat) (q : Int) : Interval :=
  let (unit, den) := ratio 1 (q - 2)
  let below := if m = Nat.pow 2 52 ∧ leastExponent < q then 1 else 2
  ⟨(4 * m - below) * unit, 4 * m * unit, (4 * m + 2) * unit, den, m % 2 == 0⟩

def Interval.gridPoint? (i : Interval) (tie : Tie) (t : Int) : Option Nat :=
  let scale := if t < 0 then Nat.pow 10 (-t).toNat else 1
  let step := if 0 ≤ t then i.den * Nat.pow 10 t.toNat else i.den
  let value := i.value * scale
  let c := value / step
  let r := value % step
  let inside (a b : Nat) : Bool := if i.closed then a ≤ b else a < b
  let down := inside (i.low * scale) (c * step)
  let up := inside ((c + 1) * step) (i.high * scale)
  if down && up then
    if 2 * r < step then some c
    else if step < 2 * r then some (c + 1)
    else match tie with
      | .even => some (c + c % 2)
      | .away => some (c + 1)
  else if down then some c
  else if up then some (c + 1)
  else none

def trim : Nat → Nat → Int → Nat × Int
  | 0, d, e => (d, e)
  | fuel + 1, d, e => if d % 10 = 0 then trim fuel (d / 10) (e + 1) else (d, e)

/-- The point on the coarsest of the grids of `n` and fewer digits that has one in the interval, as
`d * 10 ^ e`; `found` is the point on the grid before. A point of a grid lies on every finer one, so
the search ends at the first grid without a point. -/
def Interval.coarsest (i : Interval) (tie : Tie) (k : Int) : Nat → Nat × Int → Nat × Int
  | 0, found => found
  | n + 1, found =>
    let t := k - (n : Int)
    match i.gridPoint? tie t with
    | some d => i.coarsest tie k n (d, t)
    | none => found

def shortest (tie : Tie) (m : Nat) (q : Int) : Nat × Int :=
  let i := Interval.around m q
  let (d, e) := i.coarsest tie (leadingExponent i.value i.den) 17 (0, 0)
  trim 18 d e

def significant (places : Nat) (m : Nat) (q : Int) : Nat × Int :=
  let (num, den) := ratio m q
  let k := leadingExponent num den
  let t := k - places
  let d := if 0 ≤ t then roundDivEven num (den * Nat.pow 10 t.toNat)
    else roundDivEven (num * Nat.pow 10 (-t).toNat) den
  if d = Nat.pow 10 (places + 1) then (Nat.pow 10 places, k + 1) else (d, k)

def fixed (places : Nat) (m : Nat) (q : Int) : Nat :=
  let (num, den) := ratio m q
  roundDivEven (num * Nat.pow 10 places) den

end Convnet.Decimal
