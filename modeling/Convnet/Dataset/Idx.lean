import Convnet.Dataset
import Convnet.Disk

namespace Convnet.Idx

@[inline] def byteAt (b : ByteArray) (i : Nat) : Nat := if h : i < b.size then b[i].toNat else 0

def wordAt (b : ByteArray) (i : Nat) : Result Nat := do
  require (i + 4 ≤ b.size)
  return ((byteAt b i * 256 + byteAt b (i + 1)) * 256 + byteAt b (i + 2)) * 256 + byteAt b (i + 3)

/-- Where the pieces of `n` bytes start that the bytes from one place up to another are cut into. What is
left of them at the end is no piece. -/
def pieceStarts (b : ByteArray) (start stop n : Nat) : Result (List Nat) := do
  require (start ≤ stop && stop ≤ b.size)
  require (n != 0)
  return (List.range ((stop - start) / n)).map fun k => start + k * n

def checkHeader (b : ByteArray) (what : String) (dimensions length : Nat) : Result Unit := do
  if b.size < length then throw (.dataset (.idx (.shortHeader what length b.size)))
  require (4 ≤ b.size)
  if byteAt b 0 ≠ 0 ∨ byteAt b 1 ≠ 0 then
    throw (.dataset (.idx (.reserved what (byteAt b 0) (byteAt b 1))))
  if byteAt b 2 ≠ 8 then throw (.dataset (.idx (.elementType what (byteAt b 2))))
  if byteAt b 3 ≠ dimensions then
    throw (.dataset (.idx (.dimensions what dimensions (byteAt b 3))))

variable {α : Type} [Scalar α]

def imageAt (b : ByteArray) (shape : Shape) (n start : Nat) : Result (Tensor α) :=
  Tensor.ofBuffer shape (Array.ofFn fun (i : Fin n) => ((byteAt b (start + i) : Nat) : α))

/-- Reads an image file. Bytes past the declared length are not looked at. -/
def parseImages (b : ByteArray) : Result (Shape × Array (Tensor α)) := do
  checkHeader b "image" 3 16
  let items ← wordAt b 4
  let rows ← wordAt b 8
  let cols ← wordAt b 12
  let pixels := rows * cols
  if Nat.pow 2 64 ≤ pixels then throw (.dataset (.idx (.sizeOverflow rows cols)))
  let needed := items * pixels
  if Nat.pow 2 64 ≤ needed + 16 then throw (.dataset (.idx .lengthOverflow))
  if b.size < needed + 16 then throw (.dataset (.idx (.shortImages items rows cols needed b.size)))
  if pixels = 0 then throw (.dataset (.idx (.emptyImages rows cols)))
  let shape : Shape := ⟨rows, cols, 1⟩
  let images ← (← pieceStarts b 16 (needed + 16) pixels).mapM (imageAt b shape pixels)
  return (shape, images.toArray)

def parseLabels (b : ByteArray) : Result (Array Nat) := do
  checkHeader b "label" 1 8
  let items ← wordAt b 4
  if b.size < 8 + items then throw (.dataset (.idx (.shortLabels items b.size (8 + items))))
  let places ← pieceStarts b 8 (8 + items) 1
  return (places.map (byteAt b)).toArray

def parsePair (images labels : ByteArray) (numClasses : Nat) : Result (Dataset α) := do
  let (shape, tensors) ← parseImages images
  let classes ← parseLabels labels
  if classes.size ≠ tensors.size then
    throw (.dataset (.idx (.countMismatch tensors.size classes.size)))
  Dataset.build shape tensors classes numClasses

def loadPair (d : Disk) (imagePath labelPath : String) (numClasses : Nat) : Result (Dataset α) := do
  let images ← d.read imagePath
  let labels ← d.read labelPath
  parsePair images labels numClasses

def word (n : Nat) : ByteArray :=
  ⟨#[UInt8.ofNat (n / Nat.pow 2 24), UInt8.ofNat (n / Nat.pow 2 16), UInt8.ofNat (n / Nat.pow 2 8),
    UInt8.ofNat n]⟩

def encodePair (rows cols : Nat) (pixels labels : ByteArray) : ByteArray × ByteArray :=
  (⟨#[0, 0, 8, 3]⟩ ++ word labels.size ++ word rows ++ word cols ++ pixels,
    ⟨#[0, 0, 8, 1]⟩ ++ word labels.size ++ labels)

end Convnet.Idx
