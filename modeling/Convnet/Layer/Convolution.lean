import Convnet.Activation
import Convnet.Layer.Padding
import Convnet.Tensor

namespace Convnet

structure Convolution (α : Type) where
  filters : Nat
  kernelSize : Nat
  stride : Nat
  padding : Padding
  activation : Activation
  inputShape : Shape
  -- by row, column, channel and filter, so that each tap meets a run of filters
  kernel : Array α
  bias : Array α
  /-- Gradients summed since they were last applied; empty until they are needed. -/
  kernelGrad : Array α
  biasGrad : Array α
  input : Option (Tensor α)
  preActivation : Option (Tensor α)
  deriving Inhabited

/-- One place of a kernel on one place of an image: where the run of filters starts in the output and
in the kernel, and the pixel and channel under it. -/
structure Tap where
  out : Nat
  weight : Nat
  y : Nat
  x : Nat
  channel : Nat
  deriving DecidableEq, Repr

namespace Convolution

variable {α : Type}

def rows (l : Convolution α) : Nat := l.padding.windows l.inputShape.height l.kernelSize l.stride

def columns (l : Convolution α) : Nat := l.padding.windows l.inputShape.width l.kernelSize l.stride

def outputShape (l : Convolution α) : Shape := ⟨l.rows, l.columns, l.filters⟩

def countsWindows (l : Convolution α) : Bool :=
  l.padding.counts l.inputShape.height l.kernelSize l.stride &&
    l.padding.counts l.inputShape.width l.kernelSize l.stride

def outputShape? (l : Convolution α) : Result Shape := do
  require l.countsWindows
  return l.outputShape

def kernelLength (l : Convolution α) : Nat :=
  l.kernelSize * l.kernelSize * l.inputShape.channels * l.filters

def kernelOffset (l : Convolution α) (ky kx channel : Nat) : Nat :=
  ((ky * l.kernelSize + kx) * l.inputShape.channels + channel) * l.filters

def leadRows (l : Convolution α) : Nat := l.padding.lead l.inputShape.height l.kernelSize l.stride

def leadColumns (l : Convolution α) : Nat := l.padding.lead l.inputShape.width l.kernelSize l.stride

def sourceRow? (l : Convolution α) (oy ky : Nat) : Option Nat :=
  -- no bound is needed: once the windows of a layer were checked, all its taps have 64 bits
  Padding.source? l.stride l.leadRows l.inputShape.height oy ky

def sourceColumn? (l : Convolution α) (ox kx : Nat) : Option Nat :=
  Padding.source? l.stride l.leadColumns l.inputShape.width ox kx

def rowRange (l : Convolution α) (oy : Nat) : Nat × Nat :=
  Padding.tapRange l.stride l.leadRows l.inputShape.height l.kernelSize oy

def columnRange (l : Convolution α) (ox : Nat) : Nat × Nat :=
  Padding.tapRange l.stride l.leadColumns l.inputShape.width l.kernelSize ox

def tap (l : Convolution α) (oy ox ky kx y x c : Nat) : Tap :=
  ⟨(oy * l.columns + ox) * l.filters, l.kernelOffset ky kx c, y, x, c⟩

def tapsAt (l : Convolution α) (oy ox : Nat) : List Tap :=
  (List.range' (l.rowRange oy).1 (l.rowRange oy).2).flatMap fun ky =>
    match l.sourceRow? oy ky with
    | none => []
    | some y => (List.range' (l.columnRange ox).1 (l.columnRange ox).2).flatMap fun kx =>
      match l.sourceColumn? ox kx with
      | none => []
      | some x => (List.range l.inputShape.channels).map (l.tap oy ox ky kx y x)

def tapRows (l : Convolution α) : Nat :=
  if l.columns = 0 ∨ l.inputShape.channels = 0 then 0 else l.rows

def taps (l : Convolution α) : List Tap :=
  (List.range l.tapRows).flatMap fun oy => (List.range l.columns).flatMap fun ox => l.tapsAt oy ox

/-- Whether something holds of every tap. The taps are gone through one by one, up to the first of
which it does not hold. -/
@[specialize] def allTaps (l : Convolution α) (holds : Tap → Bool) : Bool :=
  Nat.all l.tapRows fun oy _ => Nat.all l.columns fun ox _ =>
    Nat.all (l.rowRange oy).2 fun i _ =>
      let ky := (l.rowRange oy).1 + i
      match l.sourceRow? oy ky with
      | none => true
      | some y => Nat.all (l.columnRange ox).2 fun j _ =>
        let kx := (l.columnRange ox).1 + j
        match l.sourceColumn? ox kx with
        | none => true
        | some x => Nat.all l.inputShape.channels fun c _ => holds (l.tap oy ox ky kx y x c)

variable [Scalar α]

@[specialize] def biasMap (l : Convolution α) : Array α :=
  Array.ofFn fun (o : Fin l.outputShape.size) => Buffer.read l.bias (o % l.filters)

/-- The output before the activation. Taps on a zero are passed over. -/
@[specialize] def response (l : Convolution α) (input : Tensor α) : Tensor α :=
  ⟨l.outputShape, l.taps.foldl (fun z t =>
    let v := input.get (input.index t.y t.x t.channel)
    if v == 0 then z else Buffer.axpy z t.out v l.kernel t.weight l.filters) l.biasMap⟩

/-- Whether a pass reads inside its buffers: the pixel of every tap, and the filters of every tap on
a value other than zero. -/
@[specialize] def reaches (l : Convolution α) (input : Tensor α) : Bool :=
  (input.shape == l.inputShape && decide input.Sized && l.kernel.size == l.kernelLength) ||
    l.allTaps fun t =>
      let i := input.index t.y t.x t.channel
      i < input.data.size && (input.get i == 0 || t.weight + l.filters ≤ l.kernel.size)

@[specialize] def forward (l : Convolution α) (input : Tensor α) (training : Bool) :
    Result (Convolution α × Tensor α) := do
  require (l.countsWindows && Buffer.fits l.outputShape.size &&
    (l.rows * l.columns == 0 || l.bias.size == l.filters) && l.reaches input)
  let z := l.response input
  let out : Tensor α := ⟨z.shape, l.activation.apply z.data⟩
  return (if training then { l with input := some input, preActivation := some z } else l, out)

@[specialize] def ready (l : Convolution α) : Convolution α :=
  { l with
    kernelGrad := Buffer.sized l.kernelGrad l.kernel.size
    biasGrad := Buffer.sized l.biasGrad l.bias.size }

@[specialize] def biasGradient (l : Convolution α) (delta : Array α) : Array α :=
  (l.rows * l.columns).fold (fun p _ g => Buffer.addRow g 0 delta (p * l.filters) l.filters) l.biasGrad

@[specialize]
def kernelGradient (l : Convolution α) (input : Tensor α) (delta : Array α) : Array α :=
  l.taps.foldl (fun g t =>
    Buffer.axpy g t.weight (input.get (input.index t.y t.x t.channel)) delta t.out l.filters)
    l.kernelGrad

@[specialize] def inputGradient (l : Convolution α) (delta : Array α) : Tensor α :=
  ⟨l.inputShape, l.taps.foldl (fun g t =>
    Buffer.bump g (l.inputShape.index t.y t.x t.channel)
      (Buffer.dot l.kernel t.weight delta t.out l.filters)) (Buffer.zeros l.inputShape.size)⟩

@[specialize] def reachesBack (l : Convolution α) (input : Tensor α) (delta : Array α) : Bool :=
  (l.rows * l.columns == 0 || l.outputShape.size ≤ delta.size) &&
    ((input.shape == l.inputShape && decide input.Sized && l.kernel.size == l.kernelLength) ||
      l.allTaps fun t => input.index t.y t.x t.channel < input.data.size &&
        (l.filters == 0 || t.weight + l.filters ≤ l.kernel.size))

/-- From the gradient of the output to the gradient of the input, adding to the gradients of the
parameters. It uses up what the training pass kept. -/
@[specialize]
def backward (l : Convolution α) (gradient : Tensor α) : Result (Convolution α × Tensor α) := do
  let some input := l.input | throw .misuse
  let some z := l.preActivation | throw .misuse
  let l := l.ready
  let delta := l.activation.backprop gradient.data z.data
  require (Buffer.fits l.inputShape.size && l.reachesBack input delta)
  return ({ l with
    kernelGrad := l.kernelGradient input delta
    biasGrad := l.biasGradient delta
    input := none
    preActivation := none }, l.inputGradient delta)

end Convolution

namespace Convolution

variable {α : Type} [JsonNumber α]

def members (l : Convolution α) : List (String × Json) :=
  [("filters", .ofNat l.filters), ("kernel_size", .ofNat l.kernelSize), ("stride", .ofNat l.stride),
    ("padding", l.padding.toJson), ("activation", l.activation.toJson),
    ("input_shape", l.inputShape.toJson), ("kernel", .ofNumbers l.kernel), ("bias", .ofNumbers l.bias)]

def ofJson? (v : Json) : Option (Convolution α) := do
  let [f, k, s, p, a, i, w, b] ← v.slots ["filters", "kernel_size", "stride", "padding",
    "activation", "input_shape", "kernel", "bias"] | none
  return {
    filters := ← f.required Json.size?
    kernelSize := ← k.required Json.size?
    stride := ← s.required Json.size?
    padding := ← p.required Padding.ofKept?
    activation := ← a.required Activation.ofKept?
    inputShape := ← i.required Shape.ofJson?
    kernel := ← w.required Json.numbers?
    bias := ← b.required Json.numbers?
    kernelGrad := #[]
    biasGrad := #[]
    input := none
    preActivation := none }

end Convolution
end Convnet
