import Convnet.Layer
import Convnet.Loss
import Convnet.Weights

namespace Convnet

inductive LayerSpec (α : Type)
  | conv (filters kernelSize strides : Nat) (padding : Padding) (activation : Activation)
  | pool (kind : PoolKind) (poolSize : Nat) (strides : Option Nat)
  | flatten
  | dense (units : Nat) (activation : Activation)
  | dropout (rate : α)
  | pointwise (activation : Activation)
  deriving DecidableEq, Repr, Inhabited

structure ModelSpec (α : Type) where
  inputShape : Shape
  layers : List (LayerSpec α)
  loss : Loss
  deriving DecidableEq, Repr, Inhabited

/-- A way to draw the initial values of a buffer, from its two fans and its size. -/
abbrev Initializer (α σ : Type) := (fanIn fanOut n : Nat) → σ → Result (Array α × σ)

namespace LayerSpec

variable {α : Type}

def kind : LayerSpec α → String
  | conv .. => "Conv2D"
  | pool k .. => k.layerName
  | flatten => "Flatten"
  | dense .. => "Dense"
  | dropout _ => "Dropout"
  | pointwise _ => "Activation"

def activation? : LayerSpec α → Option Activation
  | conv _ _ _ _ a | dense _ a | pointwise a => some a
  | _ => none

def poolWindows (poolSize stride n : Nat) : Result Nat := do
  if n < poolSize then return 0
  require (stride != 0)
  return (n - poolSize) / stride + 1

def filled (l : LayerSpec α) (input shape : Shape) : Result (Except LayerSpecError Shape) := do
  requireWord shape.isCountable
  return if shape.isEmpty then .error (.emptyOutput l.kind input) else .ok shape

def outputShape (l : LayerSpec α) (input : Shape) : Result (Except LayerSpecError Shape) := do
  match l with
  | conv filters kernelSize strides padding _ =>
    if input.isFlat then return .error (.needsSpatial input)
    let (h, _) ← padding.resolveUnsigned input.height kernelSize strides
    let (w, _) ← padding.resolveUnsigned input.width kernelSize strides
    l.filled input ⟨h, w, filters⟩
  | pool _ poolSize strides =>
    let s := strides.getD poolSize
    let h ← poolWindows poolSize s input.height
    let w ← poolWindows poolSize s input.width
    l.filled input ⟨h, w, input.channels⟩
  | flatten => l.filled input (.flat input.size)
  | dense units _ =>
    if input.isFlat then l.filled input (.flat units) else return .error (.needsFlat input)
  | dropout _ | pointwise _ => l.filled input input

variable [Scalar α]

def fault? (l : LayerSpec α) : Option LayerSpecError :=
  match l with
  | conv filters kernelSize strides _ _ =>
    if filters = 0 ∨ kernelSize = 0 ∨ strides = 0 then
      some (.convolution filters kernelSize strides)
    else none
  | pool _ poolSize strides =>
    if poolSize = 0 ∨ strides = some 0 then some (.pooling l.kind) else none
  | dense units _ => if units = 0 then some .units else none
  | dropout rate => if Scalar.inUnit rate then none else some (.rate (Scalar.text rate))
  | flatten | pointwise _ => none

def build {σ : Type} (draw : Initializer α σ) (l : LayerSpec α) (input : Shape) (s : σ) :
    Result (Layer α × σ) := do
  match l with
  | conv filters kernelSize strides padding activation =>
    let area := kernelSize * kernelSize
    let n := area * input.channels * filters
    require (Buffer.fits n)
    let (kernel, s) ← draw (area * input.channels) (area * filters) n s
    return (.conv {
      filters := filters
      kernelSize := kernelSize
      stride := strides
      padding := padding
      activation := activation
      inputShape := input
      kernel := kernel
      bias := Buffer.zeros filters
      kernelGrad := Buffer.zeros n
      biasGrad := Buffer.zeros filters
      input := none
      preActivation := none }, s)
  | pool kind poolSize strides => return (.pool ⟨kind, poolSize, strides.getD poolSize, input, #[]⟩, s)
  | flatten => return (.flatten input, s)
  | dense units activation =>
    let n := input.size
    require (Buffer.fits (n * units))
    let (weights, s) ← draw n units (n * units) s
    let weights ← Matrix.ofBuffer n units weights
    return (.dense ⟨weights, Buffer.zeros units, activation, .zeros n units, Buffer.zeros units,
      #[], #[]⟩, s)
  | dropout rate => return (.dropout ⟨rate, input, #[]⟩, s)
  | pointwise activation => return (.pointwise ⟨activation, input, #[]⟩, s)

end LayerSpec

namespace ModelSpec

variable {α : Type} [Scalar α]

/-- Two blocks of convolution and pooling, a hidden layer with dropout, and a softmax. -/
def smallCnn (inputShape : Shape) (classes : Nat) : ModelSpec α where
  inputShape := inputShape
  layers := [
    .conv 32 3 1 .same .relu,
    .pool .max 2 (some 2),
    .conv 64 3 1 .same .relu,
    .pool .max 2 (some 2),
    .flatten,
    .dense 128 .relu,
    .dropout 0.5,
    .dense classes .softmax]
  loss := .categoricalCrossentropy

def mnistCnn : ModelSpec α := smallCnn ⟨28, 28, 1⟩ 10

/-- Checks the layers from place `i` on, given the shape that reaches them; `last` is the last place. -/
def validateLayers (last : Nat) : Nat → Shape → List (LayerSpec α) → Result (List Shape)
  | _, _, [] => .ok []
  | i, shape, l :: ls => do
    match l.fault? with
    | some cause => throw (.invalidSpec (.description i cause))
    | none => pure ()
    if l.activation? = some .softmax ∧ i ≠ last then
      throw (.invalidSpec (.innerSoftmax i l.kind))
    match ← l.outputShape shape with
    | .error cause => throw (.invalidSpec (.description i cause))
    | .ok shape =>
      let shapes ← validateLayers last (i + 1) shape ls
      return shape :: shapes

def outputsSoftmax (m : ModelSpec α) : Bool :=
  (m.layers.getLast?.bind LayerSpec.activation?) == some .softmax

def validate (m : ModelSpec α) : Result (List Shape) := do
  requireWord m.inputShape.isCountable
  if m.inputShape.isEmpty then throw (.invalidSpec (.emptyInput m.inputShape))
  if m.layers.isEmpty then throw (.invalidSpec .noLayers)
  let shapes ← validateLayers (m.layers.length - 1) 0 m.inputShape m.layers
  match m.loss with
  | .categoricalCrossentropy =>
    if !m.outputsSoftmax then throw (.invalidSpec .softmaxRequired)
  | .mse => if m.outputsSoftmax then throw (.invalidSpec .softmaxForbidden)
  let output := shapes.getLastD m.inputShape
  if !output.isFlat then throw (.invalidSpec (.outputNotFlat output))
  return shapes

def outputSize (m : ModelSpec α) : Result Nat := do
  let shapes ← m.validate
  return match shapes.getLast? with
    | some s => s.size
    | none => 0

end ModelSpec

namespace LayerSpec

variable {α : Type} [JsonNumber α]

def toJson : LayerSpec α → Json
  | conv f k s p a => .record [("type", .ofString "Conv2D"), ("filters", .ofNat f),
      ("kernel_size", .ofNat k), ("strides", .ofNat s), ("padding", p.toJson),
      ("activation", a.toJson)]
  | pool k p s => .record [("type", .ofString k.layerName), ("pool_size", .ofNat p),
      ("strides", .ofOption .ofNat s)]
  | flatten => .record [("type", .ofString "Flatten")]
  | dense u a => .record [("type", .ofString "Dense"), ("units", .ofNat u), ("activation", a.toJson)]
  | dropout r => .record [("type", .ofString "Dropout"), ("rate", .ofNumber r)]
  | pointwise a => .record [("type", .ofString "Activation"), ("activation", a.toJson)]

def ofJson? (level : Nat) (v : Json) : Option (LayerSpec α) := do
  match ← v.tagged level "type" with
  | ("Conv2D", v) =>
    let [f, k, s, p, a] ← v.slots ["filters", "kernel_size", "strides", "padding", "activation"]
      | none
    return conv (← f.required Json.size?) (← k.required Json.size?)
      (← s.withDefault Json.size? 1) (← p.withDefault Padding.ofKept? .valid)
      (← a.withDefault Activation.ofKept? .linear)
  | ("MaxPooling2D", v) => pooling .max v
  | ("AveragePooling2D", v) => pooling .average v
  | ("Flatten", v) =>
    let [] ← v.slots [] | none
    return flatten
  | ("Dense", v) =>
    let [u, a] ← v.slots ["units", "activation"] | none
    return dense (← u.required Json.size?) (← a.withDefault Activation.ofKept? .linear)
  | ("Dropout", v) =>
    let [r] ← v.slots ["rate"] | none
    return dropout (← r.required Json.number?)
  | ("Activation", v) =>
    let [a] ← v.slots ["activation"] | none
    return pointwise (← a.required Activation.ofKept?)
  | _ => none
where
  pooling (k : PoolKind) (v : Json) : Option (LayerSpec α) := do
    let [p, s] ← v.slots ["pool_size", "strides"] | none
    return pool k (← p.required Json.size?) (← s.optionalAnywhere Json.size?)

end LayerSpec

namespace ModelSpec

variable {α : Type} [JsonNumber α]

def toJson (m : ModelSpec α) : Json :=
  .record [("input_shape", m.inputShape.toJson), ("layers", .array (m.layers.map LayerSpec.toJson)),
    ("loss", m.loss.toJson)]

def ofJson? (level : Nat) (v : Json) : Option (ModelSpec α) := do
  let [i, ls, l] ← v.slots ["input_shape", "layers", "loss"] | none
  return ⟨← i.required Shape.ofJson?, ← ls.required (Json.list? (LayerSpec.ofJson? (level + 2))),
    ← l.withDefault Loss.ofJson? .categoricalCrossentropy⟩

end ModelSpec
end Convnet
