import Convnet.Plot.Canvas
import Convnet.Session

namespace Convnet.Png

def word (out : ByteArray) (n : UInt32) : ByteArray :=
  (((out.push (n >>> 24).toUInt8).push (n >>> 16).toUInt8).push (n >>> 8).toUInt8).push n.toUInt8

def remainder (n : UInt32) : UInt32 :=
  (List.replicate 8 ()).foldl
    (fun (n : UInt32) _ => if n % 2 = 1 then (n >>> 1) ^^^ 0xEDB88320 else n >>> 1) n

def remainders : Array UInt32 := Array.ofFn fun (i : Fin 256) => remainder (UInt32.ofNat i.val)

def checkByte (sum : UInt32) (b : UInt8) : UInt32 :=
  remainders.getD ((sum ^^^ b.toUInt32) &&& 0xFF).toNat 0 ^^^ (sum >>> 8)

def checksum (bytes : ByteArray) : UInt32 := bytes.foldl checkByte 0xFFFFFFFF ^^^ 0xFFFFFFFF

def chunk (out : ByteArray) (name : String) (content : ByteArray) : ByteArray :=
  let body := name.toUTF8 ++ content
  word (word out (UInt32.ofNat content.size) ++ body) (checksum body)

def sums (bytes : ByteArray) : UInt32 × UInt32 :=
  bytes.foldl (fun (a, b) x =>
    let a := (a + x.toUInt32) % 65521
    (a, (b + a) % 65521)) (1, 0)

def blockSize : Nat := 65535

def pair (out : ByteArray) (n : Nat) : ByteArray :=
  (out.push (UInt8.ofNat n)).push (UInt8.ofNat (n / 256))

def blocks (bytes : ByteArray) (start : Nat) (out : ByteArray) : ByteArray :=
  let stop := min bytes.size (start + blockSize)
  let n := stop - start
  let out := out.push (if stop = bytes.size then 1 else 0)
  let out := pair (pair out n) (65535 - n) ++ bytes.extract start stop
  if stop < bytes.size then blocks bytes stop out else out
termination_by bytes.size - start
decreasing_by
  simp only [blockSize] at *
  omega

/-- A compressed stream that stores bytes as they are. -/
def stored (bytes : ByteArray) : ByteArray :=
  let (a, b) := sums bytes
  word (blocks bytes 0 (ByteArray.mk #[0x78, 0x01])) ((b <<< 16) ||| a)

def colour (out : ByteArray) (k : Colour) : ByteArray :=
  ((out.push k.red).push k.green).push k.blue

def scanlines (c : Canvas) : ByteArray :=
  c.height.fold (fun j _ out =>
    c.width.fold (fun i _ out => colour out (c.pixels.getD (j * c.width + i) default))
      (out.push 0)) (ByteArray.emptyWithCapacity (c.height * (3 * c.width + 1)))

def header (c : Canvas) : ByteArray :=
  word (word .empty (UInt32.ofNat c.width)) (UInt32.ofNat c.height) ++ ByteArray.mk #[8, 2, 0, 0, 0]

def signature : ByteArray := ByteArray.mk #[0x89, 0x50, 0x4E, 0x47, 0x0D, 0x0A, 0x1A, 0x0A]

def encode (c : Canvas) : ByteArray :=
  let out := chunk signature "IHDR" (header c)
  chunk (chunk out "IDAT" (stored (scanlines c))) "IEND" .empty

def size? (bytes : ByteArray) : Option (Nat × Nat) :=
  if bytes.extract 0 8 == signature ∧ 24 ≤ bytes.size then
    let number (i : Nat) : Nat :=
      (List.range 4).foldl (fun n k => n * 256 + (bytes.get! (i + k)).toNat) 0
    some (number 16, number 20)
  else none

end Convnet.Png

namespace Convnet.Canvas

variable {ω : Type}

def createFile (path : String) (bytes : ByteArray) : Action ω Unit :=
  Action.changing fun d =>
    match d.write path bytes with
    | .ok d => .ok d
    | .error _ => .error .image

/-- Writes a canvas as an image file, in a directory that is made if it is missing. A canvas without
pixels has no image, but its file is there by the time that is found. -/
def save (c : Canvas) (path : String) : Action ω Unit := do
  Action.makeParent path
  if c.width = 0 ∨ c.height = 0 then
    createFile path .empty
    throw .image
  createFile path (Png.encode c)

end Convnet.Canvas
