import Convnet.Error
import Convnet.Json.Number

namespace Convnet

structure Tensor (α : Type) where
  shape : Shape
  data : Array α
  deriving DecidableEq, Inhabited

namespace Tensor

variable {α : Type}

/-- Whether the buffer holds one value for each place of the shape. -/
def Sized (t : Tensor α) : Prop := t.data.size = t.shape.size

instance (t : Tensor α) : Decidable t.Sized := inferInstanceAs (Decidable (_ = _))

def flat (data : Array α) : Tensor α := ⟨.flat data.size, data⟩

def index (t : Tensor α) (y x c : Nat) : Nat := t.shape.index y x c

def map (f : α → α) (t : Tensor α) : Tensor α := ⟨t.shape, t.data.map f⟩

def ofBuffer (shape : Shape) (data : Array α) : Result (Tensor α) := do
  require (data.size == shape.size)
  return ⟨shape, data⟩

def reshape (t : Tensor α) (shape : Shape) : Result (Tensor α) := ofBuffer shape t.data

def at? (t : Tensor α) (y x c : Nat) : Result α :=
  match t.data[t.index y x c]? with
  | some v => .ok v
  | none => .error .misuse

variable [Scalar α]

@[inline] def get (t : Tensor α) (i : Nat) : α := Buffer.read t.data i

end Tensor

namespace Shape

def toJson (s : Shape) : Json :=
  .record [("height", .ofNat s.height), ("width", .ofNat s.width), ("channels", .ofNat s.channels)]

def ofJson? (v : Json) : Option Shape := do
  let [h, w, c] ← v.slots ["height", "width", "channels"] | none
  return ⟨← h.required Json.size?, ← w.required Json.size?, ← c.required Json.size?⟩

end Shape

namespace Tensor

variable {α : Type} [JsonNumber α]

def toJson (t : Tensor α) : Json :=
  .record [("shape", t.shape.toJson), ("data", .ofNumbers t.data)]

def ofJson? (v : Json) : Option (Tensor α) := do
  let [s, d] ← v.slots ["shape", "data"] | none
  return ⟨← s.required Shape.ofJson?, ← d.required Json.numbers?⟩

end Tensor
end Convnet
