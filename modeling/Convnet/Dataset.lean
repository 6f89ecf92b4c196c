import Convnet.Tensor

namespace Convnet

structure Dataset (α : Type) where
  shape : Shape
  images : Array (Tensor α)
  labels : Array Nat
  numClasses : Nat
  classNames : Option (List String)
  deriving Inhabited

namespace Dataset

variable {α : Type}

/-- Puts a dataset together, unless a label is missing or out of range or an image has another
shape. -/
def build (shape : Shape) (images : Array (Tensor α)) (labels : Array Nat) (numClasses : Nat) :
    Result (Dataset α) := do
  if images.size ≠ labels.size then
    throw (.dataset (.countMismatch images.size labels.size))
  if numClasses < 2 then throw (.dataset (.fewClasses numClasses))
  match images.find? fun t => t.shape != shape with
  | some t => throw (.shapeMismatch (.images shape) (.images t.shape))
  | none => pure ()
  match labels.findIdx? fun l => numClasses ≤ l with
  | some i => throw (.dataset (.labelOutOfRange i (labels.getD i 0) numClasses))
  | none => pure ()
  return ⟨shape, images, labels, numClasses, none⟩

def withClassNames (d : Dataset α) (names : List String) : Dataset α :=
  { d with classNames := some names }

def size (d : Dataset α) : Nat := d.images.size

def isEmpty (d : Dataset α) : Bool := d.images.isEmpty

def take (d : Dataset α) (n : Nat) : Dataset α :=
  { d with images := d.images.take n, labels := d.labels.take n }

def drop (d : Dataset α) (n : Nat) : Dataset α :=
  { d with images := d.images.drop n, labels := d.labels.drop n }

def className (d : Dataset α) (c : Nat) : String :=
  match d.classNames with
  | some names => names.getD c (toString c)
  | none => toString c

variable [Scalar α]

def oneHot (label n : Nat) : Result (Array α) := do
  require (label < n && Buffer.fits n)
  return (Buffer.zeros n).setIfInBounds label 1

def target (d : Dataset α) (label : Nat) : Result (Array α) := oneHot label d.numClasses

def targets (d : Dataset α) : Result (List (Array α)) := d.labels.toList.mapM d.target

/-- Takes the last `fraction` of the samples off as a second dataset. -/
def splitValidation (d : Dataset α) (fraction : α) : Result (Dataset α × Dataset α) := do
  if !Scalar.inUnit fraction then
    throw (.config (.validationSplit (Scalar.text fraction)))
  let kept := Scalar.floor ((d.size : α) * (1 - fraction))
  require (kept ≤ d.size)
  return (d.take kept, d.drop kept)

end Dataset
end Convnet
