import Convnet.Dataset

namespace Convnet

/-- The map that takes `x` to `(x - offset) / scale`. -/
structure Scaling (α : Type) where
  offset : α
  scale : α
  deriving DecidableEq, Repr, Inhabited

/-- How the map is chosen: a division by 255, mean zero and deviation one, or no change. -/
inductive Preprocessing
  | normalize
  | standardize
  | none
  deriving DecidableEq, Repr, Inhabited

namespace Scaling

variable {α : Type} [Scalar α]

def identity : Scaling α := ⟨0, 1⟩

def isIdentity (s : Scaling α) : Bool := s.offset == 0 && s.scale == 1

def applyTensor (s : Scaling α) (t : Tensor α) : Tensor α :=
  if s.isIdentity then t else t.map fun x => (x - s.offset) / s.scale

def apply (s : Scaling α) (d : Dataset α) : Dataset α :=
  { d with images := d.images.map s.applyTensor }

end Scaling

namespace Scaling

variable {α : Type} [JsonNumber α]

def toJson (s : Scaling α) : Json :=
  .record [("offset", .ofNumber s.offset), ("scale", .ofNumber s.scale)]

def ofJson? (v : Json) : Option (Scaling α) := do
  let [o, s] ← v.slots ["offset", "scale"] | none
  return ⟨← o.required Json.number?, ← s.required Json.number?⟩

end Scaling

namespace Preprocessing

def name : Preprocessing → String
  | normalize => "normalize"
  | standardize => "standardize"
  | none => "none"

def table : List (String × Preprocessing) := [normalize, standardize, none].map fun p => (p.name, p)

def toJson (p : Preprocessing) : Json := .ofString p.name

def ofJson? (v : Json) : Option Preprocessing := v.name? table

variable {α : Type} [Scalar α]

def pixelSum (f : α → α) (d : Dataset α) : α :=
  d.images.foldl (fun s t => t.data.foldl (fun s x => s + f x) s) 0

def pixelCount (d : Dataset α) : Nat := d.images.foldl (fun n t => n + t.data.size) 0

def spread (d : Dataset α) : α × α :=
  let n := pixelCount d
  if n = 0 then (0, 0)
  else
    let mean := pixelSum id d / (n : α)
    (mean, Scalar.sqrt (pixelSum (fun x => Scalar.square (x - mean)) d / (n : α)))

def fit (p : Preprocessing) (train : Dataset α) : Result (Scaling α) :=
  match p with
  | normalize => .ok ⟨0, ((255 : Nat) : α)⟩
  | none => .ok .identity
  | standardize =>
    let (mean, deviation) := spread train
    if 0 < deviation then .ok ⟨mean, deviation⟩ else .error (.dataset .zeroVariance)

def apply (p : Preprocessing) (train test : Dataset α) :
    Result (Scaling α × Dataset α × Dataset α) := do
  let s ← p.fit train
  return (s, s.apply train, s.apply test)

end Preprocessing
end Convnet
