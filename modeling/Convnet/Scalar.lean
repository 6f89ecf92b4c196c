namespace Convnet

/-- Operations on numbers. No laws are assumed: floating-point numbers satisfy few of them. -/
class Scalar (α : Type) extends Zero α, One α, Add α, Sub α, Mul α, Div α, Neg α, BEq α, LT α,
    NatCast α, OfScientific α where
  decLT : DecidableLT α
  bottom : α
  aboveBottom : α → Bool
  sqrt : α → α
  exp : α → α
  ln : α → α
  tanh : α → α
  eulerPow : α → α
  floor : α → Nat
  round : α → Int
  isFinite : α → Bool
  text : α → String
  fixed : Nat → α → String

namespace Scalar

variable {α : Type} [Scalar α]

instance : DecidableLT α := decLT

@[specialize] def ge (a b : α) : Bool := b < a || a == b

def inUnit (x : α) : Bool := !(x < 0) && x < 1

@[specialize] def square (x : α) : α := x * x

def abs (x : α) : α := if x < 0 then -x else x

@[specialize] def max (a b : α) : α := if a < b then b else a

@[specialize] def min (a b : α) : α := if b < a then b else a

/-- What to keep of a marked number that was kept, if any, and the next one: a number above `bottom`
is kept until one comes that is larger. -/
@[specialize] def prefer {ι : Type} (kept : Option (α × ι)) (x : α) (mark : ι) : Option (α × ι) :=
  match kept with
  | none => if aboveBottom x then some (x, mark) else none
  | some (y, i) => if y < x then some (x, mark) else some (y, i)

@[specialize] def clamp (lo hi x : α) : α := if x < lo then lo else if hi < x then hi else x

/-- `a ^ n` by repeated squaring: `r * a ^ n` for the accumulated factor `r`. -/
@[specialize] def powLoop (r a : α) (n : Nat) : α :=
  let r := if n % 2 = 1 then r * a else r
  if h : n / 2 = 0 then r else powLoop r (a * a) (n / 2)
termination_by n
decreasing_by omega

@[specialize] def power (a : α) (n : Int) : α :=
  let p := powLoop 1 a n.natAbs
  if n < 0 then 1 / p else p

end Scalar

namespace Buffer

variable {α : Type} [Scalar α]

@[inline] def read (a : Array α) (i : Nat) : α := a.getD i 0

@[specialize] def zeros (n : Nat) : Array α := Array.replicate n 0

/-- Whether there can be a buffer of `n` numbers of eight bytes: its bytes are counted by a signed
number of 64 bits. -/
def fits (n : Nat) : Bool := 8 * n < Nat.pow 2 63

@[inline] def bump (a : Array α) (i : Nat) (v : α) : Array α := a.modify i (· + v)

@[specialize] def axpy (z : Array α) (base : Nat) (x : α) (w : Array α) (start n : Nat) : Array α :=
  n.fold (fun f _ z => bump z (base + f) (x * read w (start + f))) z

@[specialize] def addRow (z : Array α) (base : Nat) (w : Array α) (start n : Nat) : Array α :=
  n.fold (fun f _ z => bump z (base + f) (read w (start + f))) z

@[specialize] def dot (a : Array α) (i : Nat) (b : Array α) (j n : Nat) : α :=
  n.fold (fun f _ s => s + read a (i + f) * read b (j + f)) 0

@[specialize] def zipKeep (f : α → α → α) (a b : Array α) : Array α :=
  a.mapIdx fun i x => if h : i < b.size then f x b[i] else x

def sized (a : Array α) (n : Nat) : Array α := if a.size = n then a else zeros n

@[specialize] def sum (a : Array α) : α := a.foldl (· + ·) 0

end Buffer
end Convnet
