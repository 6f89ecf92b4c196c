namespace Convnet

/-- Height, width and channels; the channels of one pixel lie side by side. -/
structure Shape where
  height : Nat
  width : Nat
  channels : Nat
  deriving DecidableEq, Repr, Inhabited

namespace Shape

def flat (n : Nat) : Shape := ⟨1, 1, n⟩

def size (s : Shape) : Nat := s.height * s.width * s.channels

def isEmpty (s : Shape) : Bool := s.size == 0

def isFlat (s : Shape) : Bool := s.height == 1 && s.width == 1

def index (s : Shape) (y x c : Nat) : Nat := (y * s.width + x) * s.channels + c

/-- The form in summaries, whose first axis is the open batch axis. -/
def text (s : Shape) : String :=
  if s.isFlat then s!"(None, {s.channels})"
  else s!"(None, {s.height}, {s.width}, {s.channels})"

def sidesText (s : Shape) : String :=
  s!"Shape \x7b height: {s.height}, width: {s.width}, channels: {s.channels} \x7d"

end Shape
end Convnet
