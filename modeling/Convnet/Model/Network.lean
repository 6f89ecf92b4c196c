import Convnet.Model.Metadata
import Convnet.Model.Spec
import Convnet.Optimizer

namespace Convnet

structure Network (α : Type) where
  inputShape : Shape
  layers : List (Layer α)
  loss : Loss
  metadata : Option (Metadata α)
  deriving Inhabited

namespace Network

variable {α : Type}

def outputSize (net : Network α) : Result Nat :=
  match net.layers.getLast? with
  | some l => do
    let s ← l.outputShape?
    return s.size
  | none => .ok 0

def checkInput (net : Network α) (shape : Shape) : Result Unit :=
  if shape = net.inputShape then .ok ()
  else .error (.shapeMismatch (.images net.inputShape) (.images shape))

def parameterCount (net : Network α) : Nat := net.layers.foldl (fun n l => n + l.parameterCount) 0

variable [Scalar α]

def buildLayers {σ : Type} (draw : Initializer α σ) :
    Shape → σ → List (LayerSpec α) → Result (List (Layer α) × σ)
  | _, s, [] => .ok ([], s)
  | shape, s, spec :: specs => do
    let (layer, s) ← spec.build draw shape s
    let shape ← layer.outputShape?
    let (layers, s) ← buildLayers draw shape s specs
    return (layer :: layers, s)

def build {σ : Type} (draw : Initializer α σ) (spec : ModelSpec α) (s : σ) :
    Result (Network α × σ) := do
  let _ ← spec.validate
  let (layers, s) ← buildLayers draw spec.inputShape s spec.layers
  return (⟨spec.inputShape, layers, spec.loss, none⟩, s)

variable {σ : Type} [RandomSource σ]

@[specialize]
def forwardLayers : List (Layer α) → Tensor α → Phase σ → Result (List (Layer α) × Tensor α × Phase σ)
  | [], x, phase => .ok ([], x, phase)
  | l :: ls, x, phase => do
    let (l, x, phase) ← l.forward x phase
    let (ls, x, phase) ← forwardLayers ls x phase
    return (l :: ls, x, phase)

@[specialize] def backwardLayers : List (Layer α) → Tensor α → Result (List (Layer α) × Tensor α)
  | [], g => .ok ([], g)
  | l :: ls, g => do
    let (ls, g) ← backwardLayers ls g
    let (l, g) ← l.backward g
    return (l :: ls, g)

/-- Runs all layers. The caller has checked the shape of the input. -/
@[specialize] def forward (net : Network α) (input : Tensor α) (phase : Phase σ) :
    Result (Network α × Array α × Phase σ) := do
  let (layers, out, phase) ← forwardLayers net.layers input phase
  return ({ net with layers := layers }, out.data, phase)

/-- Sends the gradient of the output back through all layers, adding to the gradients of their
parameters. It follows a training pass. -/
@[specialize] def backward (net : Network α) (gradient : Array α) : Result (Network α) := do
  let (layers, _) ← backwardLayers net.layers (.flat gradient)
  return { net with layers := layers }

@[specialize] def infer (net : Network α) (input : Tensor α) : Result (Array α) := do
  let (_, out, _) ← net.forward input (Phase.infer : Phase Stream)
  return out

@[specialize] def predict (net : Network α) (input : Tensor α) : Result (Array α) := do
  net.checkInput input.shape
  net.infer input

def parameters (net : Network α) : List (Parameter α) :=
  net.layers.flatMap fun l => l.ready.parameters

@[specialize] def mapSlots {τ : Type} (f : Nat → Parameter α → τ → Result (Parameter α × τ)) :
    Nat → List (Parameter α) → τ → Result (List (Parameter α) × τ)
  | _, [], t => .ok ([], t)
  | slot, p :: ps, t => do
    let (p, t) ← f slot p t
    let (ps, t) ← mapSlots f (slot + 1) ps t
    return (p :: ps, t)

/-- Changes all parameters in the order of the layers, numbered from `slot` on. -/
@[specialize] def mapLayerSlots {τ : Type} (f : Nat → Parameter α → τ → Result (Parameter α × τ)) :
    Nat → List (Layer α) → τ → Result (List (Layer α) × τ)
  | _, [], t => .ok ([], t)
  | slot, l :: ls, t => do
    let l := l.ready
    let (ps, t) ← mapSlots f slot l.parameters t
    let (ls, t) ← mapLayerSlots f (slot + l.parameters.length) ls t
    return (l.withParameters ps :: ls, t)

/-- One step of an optimizer on one parameter: its summed gradient is scaled, used and cleared. -/
@[specialize] def applyParameter (scale : α) (slot : Nat) (p : Parameter α) (o : Optimizer α) :
    Result (Parameter α × Optimizer α) := do
  let grads := p.grads.map (· * scale)
  let (values, o) ← o.update? slot p.values grads
  return (⟨values, Buffer.zeros grads.size⟩, o)

@[specialize] def applyGradients (net : Network α) (o : Optimizer α) (scale : α) :
    Result (Network α × Optimizer α) := do
  let (layers, o) ← mapLayerSlots (applyParameter scale) 0 net.layers o.beginStep
  return ({ net with layers := layers }, o)

def checkLayersFrom : Nat → Shape → List (Layer α) → Result Unit
  | _, _, [] => .ok ()
  | i, shape, l :: ls => do
    l.check (some i)
    if l.inputShape ≠ shape then
      throw (.invalidSpec (.chain i l.kind l.inputShape shape))
    let shape ← l.outputShape?
    checkLayersFrom (i + 1) shape ls

def checkLayers (net : Network α) : Result Unit :=
  if net.layers.isEmpty then .error (.invalidSpec .savedWithoutLayers)
  else checkLayersFrom 0 net.inputShape net.layers

end Network

namespace Network

variable {α : Type} [JsonNumber α]

def toJson (net : Network α) : Json :=
  .record [("input_shape", net.inputShape.toJson), ("layers", .array (net.layers.map Layer.toJson)),
    ("loss", net.loss.toJson), ("metadata", .ofOption Metadata.toJson net.metadata)]

def ofJson? (v : Json) : Option (Network α) := do
  let [i, ls, l, m] ← v.slots ["input_shape", "layers", "loss", "metadata"] | none
  return ⟨← i.required Shape.ofJson?, ← ls.required (Json.list? (Layer.ofJson? 2)),
    ← l.required Loss.ofJson?, ← m.optionalAnywhere (Metadata.ofJson? 1)⟩

def ofDocument [Scalar α] (v : Json) : Result (Network α) := do
  match ofJson? v with
  | none => throw .json
  | some net =>
    net.checkLayers
    return net

end Network
end Convnet
