import Convnet.Tensor

namespace Convnet

inductive PoolKind
  | max
  | average
  deriving DecidableEq, Repr, Inhabited

namespace PoolKind

def name : PoolKind → String
  | max => "max"
  | average => "average"

def layerName : PoolKind → String
  | max => "MaxPooling2D"
  | average => "AveragePooling2D"

def toJson (k : PoolKind) : Json := .ofString k.name

def table : List (String × PoolKind) := [max, average].map fun k => (k.name, k)

def ofJson? (v : Json) : Option PoolKind := v.name? table

def ofKept? (v : Json) : Option PoolKind := v.keptName? table

end PoolKind

structure Pooling where
  kind : PoolKind
  poolSize : Nat
  stride : Nat
  inputShape : Shape
  /-- For each output value of the last training pass, the place of the input value it came from. -/
  winners : Array Nat
  deriving DecidableEq, Inhabited

namespace Pooling

def windows (l : Pooling) (n : Nat) : Nat :=
  if n < l.poolSize then 0 else (n - l.poolSize) / l.stride + 1

def outputShape (l : Pooling) : Shape :=
  ⟨l.windows l.inputShape.height, l.windows l.inputShape.width, l.inputShape.channels⟩

/-- Whether windows can be counted: only a window wider than the image needs no stride. -/
def countsWindows (l : Pooling) : Bool :=
  l.stride != 0 || (l.inputShape.height < l.poolSize && l.inputShape.width < l.poolSize)

def outputShape? (l : Pooling) : Result Shape := do
  require l.countsWindows
  return l.outputShape

def window (l : Pooling) (s : Shape) (oy ox c : Nat) : List Nat :=
  (List.range l.poolSize).flatMap fun py => (List.range l.poolSize).map fun px =>
    s.index (oy * l.stride + py) (ox * l.stride + px) c

def windowOf (l : Pooling) (s cells : Shape) (o : Nat) : List Nat :=
  l.window s (o / cells.channels / cells.width) (o / cells.channels % cells.width)
    (o % cells.channels)

/-- Whether every window of an output of shape `cells` lies in a buffer of shape `s` with `n` values:
no place of a window is beyond the last place of the last window. -/
def reaches (l : Pooling) (s cells : Shape) (n : Nat) : Bool :=
  cells.size == 0 || l.poolSize == 0 ||
    s.index ((cells.height - 1) * l.stride + (l.poolSize - 1))
      ((cells.width - 1) * l.stride + (l.poolSize - 1)) (cells.channels - 1) < n

variable {α : Type} [Scalar α]

@[specialize] def best (data : Array α) (places : List Nat) : α × Nat :=
  (places.foldl (fun kept i => Scalar.prefer kept (Buffer.read data i) i) none).getD
    (Scalar.bottom, 0)

@[specialize] def area (l : Pooling) : α := ((l.poolSize * l.poolSize : Nat) : α)

@[specialize] def mean (l : Pooling) (data : Array α) (places : List Nat) : α :=
  places.foldl (fun s i => s + Buffer.read data i) 0 / l.area

@[specialize]
def forward (l : Pooling) (input : Tensor α) (training : Bool) : Result (Pooling × Tensor α) := do
  let cells := l.outputShape
  require (l.countsWindows && Buffer.fits cells.size &&
    l.reaches input.shape cells input.data.size)
  match l.kind with
  | .max =>
    let found := Array.ofFn fun (o : Fin cells.size) =>
      best input.data (l.windowOf input.shape cells o)
    return (if training then { l with winners := found.map (·.2) } else l, ⟨cells, found.map (·.1)⟩)
  | .average =>
    return (l, ⟨cells, Array.ofFn fun (o : Fin cells.size) =>
      l.mean input.data (l.windowOf input.shape cells o)⟩)

/-- Gives each value of the gradient to the place its output value came from. -/
@[specialize] def routeMax (l : Pooling) (gradient : Array α) : Array α :=
  (l.winners.zip gradient).foldl (fun g (i, v) => Buffer.bump g i v) (Buffer.zeros l.inputShape.size)

@[specialize] def routeAverage (l : Pooling) (gradient : Tensor α) : Array α :=
  let share : α := 1 / l.area
  gradient.shape.size.fold (fun o _ g =>
    let v := gradient.get o * share
    (l.windowOf l.inputShape gradient.shape o).foldl (fun g i => Buffer.bump g i v) g)
    (Buffer.zeros l.inputShape.size)

@[specialize] def backward (l : Pooling) (gradient : Tensor α) : Result (Pooling × Tensor α) := do
  require (Buffer.fits l.inputShape.size)
  match l.kind with
  | .max =>
    require (l.winners.size == gradient.data.size && l.winners.all (· < l.inputShape.size))
    return (l, ⟨l.inputShape, l.routeMax gradient.data⟩)
  | .average =>
    require (decide gradient.Sized && l.reaches l.inputShape gradient.shape l.inputShape.size)
    return (l, ⟨l.inputShape, l.routeAverage gradient⟩)

def members (l : Pooling) : List (String × Json) :=
  [("kind", l.kind.toJson), ("pool_size", .ofNat l.poolSize), ("stride", .ofNat l.stride),
    ("input_shape", l.inputShape.toJson)]

def ofJson? (v : Json) : Option Pooling := do
  let [k, p, s, i] ← v.slots ["kind", "pool_size", "stride", "input_shape"] | none
  return ⟨← k.required PoolKind.ofKept?, ← p.required Json.size?, ← s.required Json.size?,
    ← i.required Shape.ofJson?, #[]⟩

end Pooling
end Convnet
