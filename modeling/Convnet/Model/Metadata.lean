import Convnet.Dataset.Benchmark
import Convnet.Dataset.Scaling

namespace Convnet

inductive InputType
  | numeric
  | grayscale (width height : Nat)
  | rgb (width height : Nat)
  deriving DecidableEq, Repr, Inhabited

structure Metadata (α : Type) where
  description : Option String
  inputType : Option InputType
  outputLabels : Option (List String)
  dataset : Option Benchmark
  scaling : Option (Scaling α)
  deriving DecidableEq, Repr, Inhabited

namespace InputType

/-- Vectors and images of an unusual number of channels are numbers only. -/
def ofShape (s : Shape) : InputType :=
  if s.isFlat then numeric
  else if s.channels = 1 then grayscale (s.width % Nat.pow 2 32) (s.height % Nat.pow 2 32)
  else if s.channels = 3 then rgb (s.width % Nat.pow 2 32) (s.height % Nat.pow 2 32)
  else numeric

def toJson : InputType → Json
  | numeric => .record [("type", .ofString "Numeric")]
  | grayscale w h =>
    .record [("type", .ofString "ImageGrayscale"), ("width", .ofNat w), ("height", .ofNat h)]
  | rgb w h => .record [("type", .ofString "ImageRgb"), ("width", .ofNat w), ("height", .ofNat h)]

def ofJson? (level : Nat) (v : Json) : Option InputType := do
  let side := Json.nat? (Nat.pow 2 32)
  match ← v.tagged level "type" with
  | ("Numeric", v) =>
    let [] ← v.slots [] | none
    return numeric
  | ("ImageGrayscale", v) =>
    let [w, h] ← v.slots ["width", "height"] | none
    return grayscale (← w.required side) (← h.required side)
  | ("ImageRgb", v) =>
    let [w, h] ← v.slots ["width", "height"] | none
    return rgb (← w.required side) (← h.required side)
  | _ => none

end InputType

namespace Metadata

def empty {α : Type} : Metadata α := ⟨none, none, none, none, none⟩

variable {α : Type} [JsonNumber α]

def toJson (m : Metadata α) : Json :=
  .record [("description", .ofOption .ofString m.description),
    ("input_type", .ofOption InputType.toJson m.inputType),
    ("output_labels", .ofOption (fun ls => .array (ls.map .ofString)) m.outputLabels),
    ("dataset", .ofOption Benchmark.toJson m.dataset),
    ("scaling", .ofOption Scaling.toJson m.scaling)]

def ofJson? (level : Nat) (v : Json) : Option (Metadata α) := do
  let [d, i, o, k, s] ← v.slots ["description", "input_type", "output_labels", "dataset",
    "scaling"] | none
  return ⟨← d.optional Json.string?, ← i.optional (InputType.ofJson? (level + 1)),
    ← o.optional (Json.list? Json.string?), ← k.optionalAnywhere Benchmark.ofJson?,
    ← s.optionalAnywhere Scaling.ofJson?⟩

end Metadata
end Convnet
