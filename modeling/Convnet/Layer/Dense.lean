import Convnet.Activation
import Convnet.Matrix

namespace Convnet

structure Dense (α : Type) where
  weights : Matrix α
  biases : Array α
  activation : Activation
  /-- Gradients summed since they were last applied; empty until they are needed. -/
  weightsGrad : Matrix α
  biasesGrad : Array α
  inputs : Array α
  preActivation : Array α
  deriving Inhabited

namespace Dense

variable {α : Type} [Scalar α]

@[specialize] def response (l : Dense α) (x : Array α) : Array α :=
  Buffer.zipKeep (· + ·) (l.weights.vecMul x) l.biases

@[specialize]
def forward (l : Dense α) (input : Tensor α) (training : Bool) : Result (Dense α × Tensor α) := do
  require (input.data.size == l.weights.rows && Buffer.fits l.weights.cols &&
    l.weights.coversRows input.data)
  let z := l.response input.data
  return (if training then { l with inputs := input.data, preActivation := z } else l,
    .flat (l.activation.apply z))

@[specialize] def ready (l : Dense α) : Dense α :=
  { l with
    weightsGrad :=
      if l.weightsGrad.rows = l.weights.rows ∧ l.weightsGrad.cols = l.weights.cols then l.weightsGrad
      else .zeros l.weights.rows l.weights.cols
    biasesGrad := Buffer.sized l.biasesGrad l.biases.size }

@[specialize] def ready? (l : Dense α) : Result (Dense α) := do
  require (Buffer.fits (l.weights.rows * l.weights.cols))
  return l.ready

/-- From the gradient of the output to the gradient of the input, adding to the gradients of the
parameters. It uses up the inputs that the training pass kept. -/
@[specialize] def backward (l : Dense α) (gradient : Tensor α) : Result (Dense α × Tensor α) := do
  require (l.inputs.size == l.weights.rows)
  let l ← l.ready?
  let delta := l.activation.backprop gradient.data l.preActivation
  let weightsGrad ← l.weightsGrad.addOuter? l.inputs delta
  let back ← l.weights.mulVec? delta
  return ({ l with
    weightsGrad := weightsGrad
    biasesGrad := Buffer.zipKeep (· + ·) l.biasesGrad delta
    inputs := #[] }, .flat back)

end Dense

namespace Dense

variable {α : Type} [JsonNumber α]

def members (l : Dense α) : List (String × Json) :=
  [("weights", l.weights.toJson), ("biases", .ofNumbers l.biases),
    ("activator", l.activation.toJson)]

def ofJson? (v : Json) : Option (Dense α) := do
  let [w, b, a] ← v.slots ["weights", "biases", "activator"] | none
  return ⟨← w.required Matrix.ofJson?, ← b.required Json.numbers?,
    ← a.required Activation.ofKept?, .empty, #[], #[], #[]⟩

end Dense
end Convnet
