import Convnet.Layer.Convolution
import Convnet.Layer.Dense
import Convnet.Layer.Dropout
import Convnet.Layer.Pointwise
import Convnet.Layer.Pooling

namespace Convnet

/-- Whether a pass is part of training, which draws random numbers and keeps what the pass back
needs, or only infers. -/
inductive Phase (σ : Type)
  | train (source : σ)
  | infer

def Phase.isTraining {σ : Type} : Phase σ → Bool
  | .train _ => true
  | .infer => false

inductive Layer (α : Type)
  | conv (l : Convolution α)
  | pool (l : Pooling)
  | flatten (inputShape : Shape)
  | dense (l : Dense α)
  | dropout (l : Dropout α)
  | pointwise (l : Pointwise α)
  deriving Inhabited

structure Parameter (α : Type) where
  values : Array α
  grads : Array α
  deriving DecidableEq, Inhabited

namespace Layer

variable {α : Type}

def kind : Layer α → String
  | conv _ => "Conv2D"
  | pool l => l.kind.layerName
  | flatten _ => "Flatten"
  | dense _ => "Dense"
  | dropout _ => "Dropout"
  | pointwise _ => "Activation"

def inputShape : Layer α → Shape
  | conv l => l.inputShape
  | pool l => l.inputShape
  | flatten s => s
  | dense l => .flat l.weights.rows
  | dropout l => l.shape
  | pointwise l => l.shape

/-- The shape of the output; windows that cannot be counted are a misuse. -/
def outputShape? : Layer α → Result Shape
  | conv l => l.outputShape?
  | pool l => l.outputShape?
  | flatten s => .ok (.flat s.size)
  | dense l => .ok (.flat l.weights.cols)
  | dropout l => .ok l.shape
  | pointwise l => .ok l.shape

def parameterCount : Layer α → Nat
  | conv l => l.kernel.size + l.bias.size
  | dense l => l.weights.data.size + l.biases.size
  | _ => 0

variable [Scalar α]

@[specialize]
def forward {σ : Type} [RandomSource σ] (l : Layer α) (input : Tensor α) (phase : Phase σ) :
    Result (Layer α × Tensor α × Phase σ) := do
  match l with
  | conv l =>
    let (l, out) ← l.forward input phase.isTraining
    return (conv l, out, phase)
  | pool l =>
    let (l, out) ← l.forward input phase.isTraining
    return (pool l, out, phase)
  | flatten s =>
    let out ← input.reshape (.flat s.size)
    return (flatten s, out, phase)
  | dense l =>
    let (l, out) ← l.forward input phase.isTraining
    return (dense l, out, phase)
  | dropout l =>
    match phase with
    | .infer => return (dropout l, input, .infer)
    | .train s =>
      let (l, out, s) := l.forwardTraining input s
      return (dropout l, out, .train s)
  | pointwise l =>
    let (l, out) ← l.forward input phase.isTraining
    return (pointwise l, out, phase)

@[specialize] def backward (l : Layer α) (gradient : Tensor α) : Result (Layer α × Tensor α) := do
  match l with
  | conv l =>
    let (l, back) ← l.backward gradient
    return (conv l, back)
  | pool l =>
    let (l, back) ← l.backward gradient
    return (pool l, back)
  | flatten s =>
    let back ← gradient.reshape s
    return (flatten s, back)
  | dense l =>
    let (l, back) ← l.backward gradient
    return (dense l, back)
  | dropout l =>
    let back ← l.backward gradient
    return (dropout l, back)
  | pointwise l => return (pointwise l, l.backward gradient)

@[specialize] def ready : Layer α → Layer α
  | conv l => conv l.ready
  | dense l => dense l.ready
  | l => l

def ready? : Layer α → Result (Layer α)
  | dense l => do return dense (← l.ready?)
  | l => .ok l.ready

def parameters : Layer α → List (Parameter α)
  | conv l => [⟨l.kernel, l.kernelGrad⟩, ⟨l.bias, l.biasGrad⟩]
  | dense l => [⟨l.weights.data, l.weightsGrad.data⟩, ⟨l.biases, l.biasesGrad⟩]
  | _ => []

/-- Puts buffers in the place of those that `parameters` lists. -/
def withParameters (l : Layer α) (ps : List (Parameter α)) : Layer α :=
  match l, ps with
  | conv l, [k, b] =>
    conv { l with kernel := k.values, kernelGrad := k.grads, bias := b.values, biasGrad := b.grads }
  | dense l, [w, b] =>
    dense { l with
      weights := { l.weights with data := w.values }
      weightsGrad := { l.weightsGrad with data := w.grads }
      biases := b.values
      biasesGrad := b.grads }
  | l, _ => l

def settingsFault? : Layer α → Option LayerError
  | conv l =>
    if l.filters = 0 ∨ l.kernelSize = 0 ∨ l.stride = 0 then
      some (.convolution l.filters l.kernelSize l.stride)
    else none
  | pool l => if l.poolSize = 0 ∨ l.stride = 0 then some (.pooling l.poolSize l.stride) else none
  | dropout l => if Scalar.inUnit l.rate then none else some (.rate (Scalar.text l.rate))
  | flatten _ | dense _ | pointwise _ => none

def weightCount : Layer α → Nat
  | conv l => l.kernelLength
  | dense l => l.weights.rows * l.weights.cols
  | pool _ | flatten _ | dropout _ | pointwise _ => 0

/-- Whether the numbers on the way to the windows of a layer have 64 bits. -/
def windowsCountable : Layer α → Bool
  | conv l => l.padding.isCountable l.inputShape l.kernelSize l.stride
  | pool _ | flatten _ | dense _ | dropout _ | pointwise _ => true

def buffersFault? : Layer α → Option LayerError
  | conv l =>
    if l.kernel.size ≠ l.kernelLength then some (.kernelLength l.kernel.size l.kernelLength)
    else if l.bias.size ≠ l.filters then some (.biasLength l.bias.size l.filters)
    else none
  | dense l =>
    let w := l.weights
    if w.data.size ≠ w.rows * w.cols then some (.weightsLength w.data.size w.rows w.cols)
    else if l.biases.size ≠ w.cols then some (.biasesLength l.biases.size w.cols)
    else none
  | pool _ | flatten _ | dropout _ | pointwise _ => none

/-- What is wrong with the sizes and buffers of a layer, if anything. Nothing is derived from a size
before the size has been checked, and no size is compared that cannot be counted. -/
def fault? (l : Layer α) : Result (Option LayerError) := do
  requireWord l.inputShape.isCountable
  if l.inputShape.isEmpty then return some (.emptyInput l.inputShape)
  if let some cause := l.settingsFault? then return some cause
  requireWord (isUnsigned l.weightCount)
  if let some cause := l.buffersFault? then return some cause
  requireWord l.windowsCountable
  let out ← l.outputShape?
  requireWord out.isCountable
  return if out.isEmpty then some (.emptyOutput l.inputShape) else none

def check (l : Layer α) (index : Option Nat) : Result Unit := do
  match ← l.fault? with
  | none => return ()
  | some cause => throw (.invalidSpec (.layer index l.kind cause))

end Layer

namespace Layer

variable {α : Type} [JsonNumber α]

def toJson : Layer α → Json
  | conv l => .record (("type", .ofString "Conv2D") :: l.members)
  | pool l => .record (("type", .ofString "Pooling2D") :: l.members)
  | flatten s => .record [("type", .ofString "Flatten"), ("input_shape", s.toJson)]
  | dense l => .record (("type", .ofString "Dense") :: l.members)
  | dropout l => .record (("type", .ofString "Dropout") :: l.members)
  | pointwise l => .record (("type", .ofString "Activation") :: l.members)

def ofJson? (level : Nat) (v : Json) : Option (Layer α) := do
  match ← v.tagged level "type" with
  | ("Conv2D", v) => return conv (← Convolution.ofJson? v)
  | ("Pooling2D", v) => return pool (← Pooling.ofJson? v)
  | ("Flatten", v) =>
    let [s] ← v.slots ["input_shape"] | none
    return flatten (← s.required Shape.ofJson?)
  | ("Dense", v) => return dense (← Dense.ofJson? v)
  | ("Dropout", v) => return dropout (← Dropout.ofJson? v)
  | ("Activation", v) => return pointwise (← Pointwise.ofJson? v)
  | _ => none

end Layer
end Convnet
