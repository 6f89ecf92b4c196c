import Convnet.Plot.Glyph
import Convnet.Word

namespace Convnet

structure Colour where
  red : UInt8
  green : UInt8
  blue : UInt8
  deriving DecidableEq, Repr, Inhabited

structure Canvas where
  width : Nat
  height : Nat
  pixels : Array Colour
  deriving DecidableEq, Repr, Inhabited

namespace Canvas

def blank (width height : Nat) (background : Colour) : Canvas :=
  ⟨width, height, Array.replicate (width * height) background⟩

/-- Whether there can be a canvas: the bytes of its pixels are counted by a signed number of 64 bits. -/
def fits (width height : Nat) : Bool := 3 * width * height < Nat.pow 2 63

def blank? (width height : Nat) (background : Colour) : Result Canvas := do
  require (fits width height)
  return blank width height background

/-- Axes are addressed by 32-bit numbers: past this many coordinates the addresses come round again. -/
@[noinline] def period : Nat := Nat.pow 2 32

def onAxis (size : Nat) (v : Int) : Option Nat :=
  if v < 0 then none
  else
    let n := v.toNat % period
    if n < size then some n else none

def put (c : Canvas) (x y : Int) (colour : Colour) : Canvas :=
  match onAxis c.width x, onAxis c.height y with
  | some i, some j => { c with pixels := c.pixels.setIfInBounds (j * c.width + i) colour }
  | _, _ => c

def onAxisBetween (size : Nat) (first last : Int) : List Nat :=
  let a := first.toNat
  let z := last.toNat
  (List.range' (a / period) (z / period + 1 - a / period)).flatMap fun round =>
    let low := max a (round * period)
    List.range' low (min z (round * period + size) - low)

@[specialize] def visitFrom {β : Type} (f : β → Nat → β) : Nat → Nat → β → β
  | 0, _, b => b
  | count + 1, first, b => visitFrom f count (first + 1) (f b first)

theorem visitFrom_eq_foldl {β : Type} (f : β → Nat → β) (count first : Nat) (b : β) :
    visitFrom f count first b = (List.range' first count).foldl f b := by
  induction count generalizing first b with
  | zero => rfl
  | succ n ih => simp only [visitFrom, List.range'_succ, List.foldl_cons, ih]

@[specialize] def visitAxis {β : Type} (f : β → Nat → β) (size : Nat) (first last : Int) (b : β) : β :=
  let a := first.toNat
  let z := last.toNat
  visitFrom (fun b round =>
    let low := max a (round * period)
    visitFrom f (min z (round * period + size) - low) low b)
    (z / period + 1 - a / period) (a / period) b

theorem visitAxis_eq_foldl {β : Type} (f : β → Nat → β) (size : Nat) (first last : Int) (b : β) :
    visitAxis f size first last b = (onAxisBetween size first last).foldl f b := by
  simp only [visitAxis, onAxisBetween, visitFrom_eq_foldl, List.foldl_flatMap]

@[specialize]
def fillWhere (c : Canvas) (x y w h : Int) (holds : Int → Int → Bool) (colour : Colour) :
    Canvas :=
  visitAxis (fun c j =>
    visitAxis (fun c i => if holds i j then c.put i j colour else c) c.width x (x + w) c)
    c.height y (y + h) c

theorem fillWhere_eq_foldl (c : Canvas) (x y w h : Int) (holds : Int → Int → Bool) (colour : Colour) :
    c.fillWhere x y w h holds colour =
      (onAxisBetween c.height y (y + h)).foldl (fun c (j : Nat) =>
        (onAxisBetween c.width x (x + w)).foldl (fun c (i : Nat) =>
          if holds i j then c.put i j colour else c) c) c := by
  simp only [fillWhere, visitAxis_eq_foldl]

/-- The length of a range as far as it goes on meeting new places of an axis: one period
of coordinates that are not negative meets them all. -/
def withinPeriod (start length : Int) : Int := min length (max (-start) 0 + period)

def fill (c : Canvas) (x y w h : Int) (colour : Colour) : Result Canvas := do
  require (isSigned (y + h) && (h ≤ 0 || isSigned (x + w)))
  return c.fillWhere x y (withinPeriod x w) (withinPeriod y h) (fun _ _ => true) colour

def lastOf (first length : Int) : Result Int := do
  signed ((← signed (first + length)) - 1)

def stroke (c : Canvas) (x y w h : Int) (colour : Colour) : Result Canvas := do
  let c ← c.fill x y w 1 colour
  let c ← c.fill x (← lastOf y h) w 1 colour
  let c ← c.fill x y 1 h colour
  c.fill (← lastOf x w) y 1 h colour

/-- A walk over the grid to a goal: how far the axes lie apart, in which direction each is stepped,
and what is to be reached. -/
structure Walk where
  goalX : Int
  goalY : Int
  spanX : Int
  spanY : Int
  stepX : Int
  stepY : Int
  deriving Repr

structure Pen where
  x : Int
  y : Int
  balance : Int
  deriving Repr

def Pen.position (p : Pen) : Int × Int := (p.x, p.y)

namespace Walk

def between (x0 y0 x1 y1 : Int) : Walk where
  goalX := x1
  goalY := y1
  spanX := (x1 - x0).natAbs
  spanY := (y1 - y0).natAbs
  stepX := if x0 < x1 then 1 else -1
  stepY := if y0 < y1 then 1 else -1

def start (x0 y0 x1 y1 : Int) : Pen :=
  ⟨x0, y0, (between x0 y0 x1 y1).spanX - (between x0 y0 x1 y1).spanY⟩

/-- The pen after a round, or none at the goal. The balance is twice compared with the spans: an axis
is stepped when the line has drawn half a pixel ahead along it. -/
def next (k : Walk) (p : Pen) : Result (Option Pen) := do
  if p.x = k.goalX ∧ p.y = k.goalY then return none
  let twice ← signed (2 * p.balance)
  let sideways := -k.spanY ≤ twice
  let upright := twice ≤ k.spanX
  let balance ← signed (if sideways then p.balance - k.spanY else p.balance)
  let balance ← signed (if upright then balance + k.spanX else balance)
  -- both coordinates stay between the ends, so there is nothing to check about them
  return some ⟨if sideways then p.x + k.stepX else p.x, if upright then p.y + k.stepY else p.y, balance⟩

@[specialize] def visit {β : Type} (k : Walk) (f : β → Int × Int → Result β) : Nat → Pen → β → Result β
  | 0, _, b => return b
  | fuel + 1, p, b => do
    let b ← f b p.position
    match ← k.next p with
    | none => return b
    | some q => k.visit f fuel q b

end Walk

/-- The most steps that a straight line takes, its ends included. No step leads away from the end, so
the sum of the distances along both axes bounds their number. -/
def lineFuel (x0 y0 x1 y1 : Int) : Nat := (x1 - x0).natAbs + (y1 - y0).natAbs + 1

def fillSquare (c : Canvas) (x y : Int) (side : Nat) (colour : Colour) : Result Canvas := do
  c.fill (← signed x) (← signed y) side side colour

def stamp (c : Canvas) (thickness : Nat) (colour : Colour) (p : Int × Int) : Result Canvas :=
  let half : Int := (thickness / 2 : Nat)
  c.fillSquare (p.1 - half) (p.2 - half) (max thickness 1) colour

def line (c : Canvas) (x0 y0 x1 y1 : Int) (thickness : Nat) (colour : Colour) : Result Canvas := do
  let k := Walk.between x0 y0 x1 y1
  require (isSigned k.spanX && isSigned k.spanY)
  k.visit (fun c p => c.stamp thickness colour p) (lineFuel x0 y0 x1 y1) (Walk.start x0 y0 x1 y1) c

def inDisc (x y : Int) (radius : Nat) (i j : Int) : Bool :=
  (i - x) * (i - x) + (j - y) * (j - y) ≤ radius * radius

def disc (c : Canvas) (x y : Int) (radius : Nat) (colour : Colour) : Result Canvas := do
  let r : Int := radius
  require (isSigned (r * r + r * r))
  require (isSigned (x - r) && isSigned (x + r) && isSigned (y - r) && isSigned (y + r))
  return c.fillWhere (x - r) (y - r) (2 * r + 1) (2 * r + 1) (inDisc x y radius) colour

def textReach (s : String) (scale : Nat) : Int := ((s.length - 1) * Glyph.advance * scale : Nat)

def text (c : Canvas) (x y : Int) (s : String) (scale : Nat) (colour : Colour) : Result Canvas := do
  require (isSigned (textReach s scale) && isSigned (x + textReach s scale))
  (Glyph.textCells s).foldlM (fun c cell =>
    c.fillSquare (x + cell.1 * scale) (y + cell.2 * scale) scale colour) c

def textUpward (c : Canvas) (x y : Int) (s : String) (scale : Nat) (colour : Colour) :
    Result Canvas := do
  require (isSigned (textReach s scale) && isSigned (y - textReach s scale))
  (Glyph.textCells s).foldlM (fun c cell =>
    c.fillSquare (x + cell.2 * scale) (y - (cell.1 + 1) * scale) scale colour) c

def pixel? (c : Canvas) (x y : Nat) : Result Colour := do
  require (x < c.width && y < c.height)
  return c.pixels.getD (y * c.width + x) default

end Canvas
end Convnet
