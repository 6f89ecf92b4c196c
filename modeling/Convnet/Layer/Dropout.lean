import Convnet.Random
import Convnet.Tensor

namespace Convnet

structure Dropout (α : Type) where
  rate : α
  shape : Shape
  mask : Array α
  deriving DecidableEq, Inhabited

namespace Dropout

variable {α : Type} [Scalar α] {σ : Type} [RandomSource σ]

/-- The factor of a value: zero for a draw below the rate, and otherwise the scale that keeps the mean. -/
@[specialize] def factor (rate draw : α) : α := if draw < rate then 0 else 1 / (1 - rate)

@[specialize] def drawMask (rate : α) (n : Nat) (s : σ) : Array α × σ :=
  n.fold (fun _ _ (acc, s) =>
    let (u, s) := RandomSource.unit s
    (acc.push (factor rate u), s)) (#[], s)

@[specialize]
def forwardTraining (l : Dropout α) (input : Tensor α) (s : σ) : Dropout α × Tensor α × σ :=
  let (mask, s) := drawMask l.rate input.data.size s
  ({ l with mask := mask }, ⟨input.shape, Buffer.zipKeep (· * ·) input.data mask⟩, s)

@[specialize] def backward (l : Dropout α) (gradient : Tensor α) : Result (Tensor α) := do
  require (l.mask.size == gradient.data.size)
  return ⟨gradient.shape, Buffer.zipKeep (· * ·) gradient.data l.mask⟩

end Dropout

namespace Dropout

variable {α : Type} [JsonNumber α]

def members (l : Dropout α) : List (String × Json) :=
  [("rate", .ofNumber l.rate), ("shape", l.shape.toJson)]

def ofJson? (v : Json) : Option (Dropout α) := do
  let [r, s] ← v.slots ["rate", "shape"] | none
  return ⟨← r.required Json.number?, ← s.required Shape.ofJson?, #[]⟩

end Dropout
end Convnet
