import Convnet.Error

namespace Convnet

def isUnsigned (n : Nat) : Bool := n < Nat.pow 2 64

def isSigned (v : Int) : Bool := -(Nat.pow 2 63) ≤ v && v < Nat.pow 2 63

def signed (v : Int) : Result Int := do
  require (isSigned v)
  return v

/-- Whether the size of a shape, multiplied from the left, is a number of 64 bits. -/
def Shape.isCountable (s : Shape) : Bool := isUnsigned (s.height * s.width) && isUnsigned s.size

theorem signed_bind {β : Type} (v : Int) (f : Int → Result β) :
    (signed v >>= f) = if isSigned v then f v else .error .misuse := by
  rw [signed]
  cases isSigned v <;> rfl

@[simp] theorem isUnsigned_iff {n : Nat} : isUnsigned n = true ↔ n < Nat.pow 2 64 := decide_eq_true_iff

end Convnet
