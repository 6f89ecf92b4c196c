import Convnet.Dataset.Idx

namespace Convnet.Cifar

def side : Nat := 32

def plane : Nat := side * side

def record : Nat := 1 + 3 * plane

def shape : Shape := ⟨side, side, 3⟩

def classNames : List String :=
  ["airplane", "automobile", "bird", "cat", "deer", "dog", "frog", "horse", "ship", "truck"]

variable {α : Type} [Scalar α]

/-- The image of a record, with the three bytes of each pixel brought together. -/
def imageAt (b : ByteArray) (start : Nat) : Tensor α :=
  ⟨shape, Array.ofFn fun (i : Fin shape.size) =>
    ((Idx.byteAt b (start + 1 + (i % 3) * plane + i / 3) : Nat) : α)⟩

def parseBatch (b : ByteArray) : Result (Array (Tensor α) × Array Nat) := do
  if b.size = 0 ∨ b.size % record ≠ 0 then
    throw (.dataset (.partialRecord b.size record))
  let n := b.size / record
  return (Array.ofFn fun (k : Fin n) => imageAt b (k * record),
    Array.ofFn fun (k : Fin n) => Idx.byteAt b (k * record))

def load (d : Disk) (paths : List String) : Result (Dataset α) := do
  let (images, labels) ← paths.foldlM (fun (images, labels) path => do
    let bytes ← d.read path
    let (is, ls) ← parseBatch bytes
    return (images ++ is, labels ++ ls)) ((#[] : Array (Tensor α)), (#[] : Array Nat))
  let data ← Dataset.build shape images labels classNames.length
  return data.withClassNames classNames

end Convnet.Cifar
