import Convnet.Error
import Convnet.Json.Decode
import Convnet.Word

namespace Convnet

inductive Padding
  | same
  | valid
  deriving DecidableEq, Repr, Inhabited

namespace Padding

def name : Padding → String
  | same => "same"
  | valid => "valid"

def toJson (p : Padding) : Json := .ofString p.name

def table : List (String × Padding) := [same, valid].map fun p => (p.name, p)

def ofJson? (v : Json) : Option Padding := v.name? table

def ofKept? (v : Json) : Option Padding := v.keptName? table

def windows (p : Padding) (input kernel stride : Nat) : Nat :=
  match p with
  | valid => if input < kernel then 0 else (input - kernel) / stride + 1
  | same => (input + stride - 1) / stride

/-- The number of zeros before the first pixel: half of all zeros, rounded down. -/
def lead (p : Padding) (input kernel stride : Nat) : Nat :=
  match p with
  | valid => 0
  | same => ((p.windows input kernel stride - 1) * stride + kernel - input) / 2

/-- Whether windows can be counted: only a kernel wider than the image needs no stride, and padding
needs an image. -/
def counts (p : Padding) (input kernel stride : Nat) : Bool :=
  match p with
  | valid => input < kernel || stride != 0
  | same => stride != 0 && input != 0

def resolve (p : Padding) (input kernel stride : Nat) : Result (Nat × Nat) := do
  require (p.counts input kernel stride)
  return (p.windows input kernel stride, p.lead input kernel stride)

/-- The largest number that is come to on the way to the windows. -/
def largest (p : Padding) (input kernel stride : Nat) : Nat :=
  match p with
  | valid => p.windows input kernel stride
  | same => (p.windows input kernel stride - 1) * stride + kernel

def resolveUnsigned (p : Padding) (input kernel stride : Nat) : Result (Nat × Nat) := do
  let r ← p.resolve input kernel stride
  requireWord (isUnsigned (p.largest input kernel stride))
  return r

def isCountable (p : Padding) (s : Shape) (kernel stride : Nat) : Bool :=
  isUnsigned (p.largest s.height kernel stride) && isUnsigned (p.largest s.width kernel stride)

def source? (stride lead limit o k : Nat) : Option Nat :=
  let i := o * stride + k
  if lead ≤ i ∧ i - lead < limit then some (i - lead) else none

def sourceUnsigned (stride lead limit o k : Nat) : Result (Option Nat) := do
  requireWord (isUnsigned (o * stride + k))
  return source? stride lead limit o k

def tapRange (stride lead limit kernel o : Nat) : Nat × Nat :=
  let first := lead - o * stride
  (first, min kernel (lead + limit - o * stride) - first)

end Padding
end Convnet
