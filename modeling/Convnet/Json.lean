import Convnet.Scalar.Float

namespace Convnet

inductive Numeral
  | integer (negative : Bool) (n : Nat)
  | decimal (negative : Bool) (digits : Nat) (exponent : Int)
  deriving DecidableEq, Repr, Inhabited

inductive Json
  | null
  | bool (b : Bool)
  | number (n : Numeral)
  -- `none` where it stands for no characters, as with half of a surrogate pair: it is well formed all the same
  | string (s : Option String)
  | array (items : List Json)
  | object (members : List (Option String × Json))
  deriving Inhabited

namespace Numeral

def toFloat? (n : Numeral) : Option Float :=
  let x := match n with
    | integer negative k => Binary64.toFloat (Binary64.nearestDecimal negative k 0)
    | decimal negative d e => Binary64.toFloat (Binary64.nearestDecimal negative d e)
  if x.isFinite then some x else none

/-- Whether there is a double for the number. Numbers of fewer than three hundred digits before the point
need no closer look. -/
def isRepresentable (n : Numeral) : Bool :=
  match n with
  | integer _ k => k < Nat.pow 2 1000 || n.toFloat?.isSome
  | decimal _ d e => (d < Nat.pow 2 64 && e < 250) || n.toFloat?.isSome

def toNat? (bound : Nat) : Numeral → Option Nat
  | integer false n => if n < bound then some n else none
  | _ => none

def text : Numeral → String
  | integer negative n => Decimal.signed negative (Decimal.digits n)
  | decimal negative d e => Decimal.signed negative (Decimal.dataText d e)

end Numeral

namespace Json

def ofString (s : String) : Json := .string (some s)

def ofNat (n : Nat) : Json := .number (.integer false n)

/-- The fewest digits that read back; what is no finite number is `null`. -/
def ofFloat (x : Float) : Json :=
  match Binary64.ofFloat x with
  | .finite negative 0 _ => .number (.decimal negative 0 0)
  | .finite negative m q =>
    let (d, e) := Decimal.shortest .even m q
    .number (.decimal negative d e)
  | _ => .null

def ofOption {β : Type} (f : β → Json) : Option β → Json
  | none => .null
  | some b => f b

def record (members : List (String × Json)) : Json :=
  .object (members.map fun (k, v) => (some k, v))

def member? (name : String) : Json → Option Json
  | .object ms => (ms.reverse.find? fun m => m.1 == some name).map (·.2)
  | _ => none

end Json
end Convnet
