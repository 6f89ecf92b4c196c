import Convnet.Error
import Convnet.Random

namespace Convnet.Weights

def turn : Float := 2.0 * 3.141592653589793

def normal (s : Stream) : Float × Stream :=
  let (a, s) := RandomSource.unit s
  let (b, s) := RandomSource.unit s
  let u : Float := 1.0 - a
  let v : Float := 1.0 - b
  (Float.sqrt (-2.0 * Float.log u) * Float.cos (turn * v), s)

def glorotLimit (fanIn fanOut : Nat) : Float := Float.sqrt (6.0 / Float.ofNat (fanIn + fanOut))

/-- `n` numbers between plus and minus `sqrt (6 / (fanIn + fanOut))`. Without any fan the limit is
not finite and nothing can be drawn. -/
def glorotUniform (fanIn fanOut n : Nat) (s : Stream) : Result (Array Float × Stream) := do
  let limit := glorotLimit fanIn fanOut
  require (Buffer.fits n && (n == 0 || (limit.isFinite && 0.0 < limit)))
  return Stream.many (Stream.symmetric limit) n s

def normals (n : Nat) (s : Stream) : Result (Array Float × Stream) := do
  require (Buffer.fits n)
  return Stream.many normal n s

def heNormal (fanIn n : Nat) (s : Stream) : Result (Array Float × Stream) := do
  let deviation := Float.sqrt (2.0 / Float.ofNat fanIn)
  let (xs, s) ← normals n s
  return (xs.map (· * deviation), s)

end Convnet.Weights
