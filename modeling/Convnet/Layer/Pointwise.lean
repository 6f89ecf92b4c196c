import Convnet.Activation
import Convnet.Tensor

namespace Convnet

structure Pointwise (α : Type) where
  activation : Activation
  shape : Shape
  preActivation : Array α
  deriving DecidableEq, Inhabited

namespace Pointwise

variable {α : Type} [Scalar α]

@[specialize] def forward (l : Pointwise α) (input : Tensor α) (training : Bool) :
    Result (Pointwise α × Tensor α) := do
  let out ← Tensor.ofBuffer input.shape (l.activation.apply input.data)
  return (if training then { l with preActivation := input.data } else l, out)

@[specialize] def backward (l : Pointwise α) (gradient : Tensor α) : Tensor α :=
  ⟨gradient.shape, l.activation.backprop gradient.data l.preActivation⟩

end Pointwise

namespace Pointwise

variable {α : Type} [JsonNumber α]

def members (l : Pointwise α) : List (String × Json) :=
  [("activation", l.activation.toJson), ("shape", l.shape.toJson)]

def ofJson? (v : Json) : Option (Pointwise α) := do
  let [a, s] ← v.slots ["activation", "shape"] | none
  return ⟨← a.required Activation.ofKept?, ← s.required Shape.ofJson?, #[]⟩

end Pointwise
end Convnet
