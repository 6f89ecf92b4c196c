import Convnet.Plot.Canvas
import Convnet.Scalar
import Convnet.Training.History

namespace Convnet

structure Series (α : Type) where
  label : String
  values : Array α
  colour : Colour
  deriving Repr, Inhabited

inductive LegendCorner
  | lowerRight
  | upperRight
  deriving DecidableEq, Repr

/-- The frame of a panel in pixels, and the values at its edges. -/
structure Axes (α : Type) where
  left : Nat
  right : Nat
  top : Nat
  bottom : Nat
  xLow : α
  xHigh : α
  yLow : α
  yHigh : α
  deriving Repr

namespace Figure

def width : Nat := 1200

def height : Nat := 400

def panelWidth : Nat := width / 2

def background : Colour := ⟨255, 255, 255⟩

def ink : Colour := ⟨0, 0, 0⟩

def grid : Colour := ⟨224, 224, 224⟩

def trainingColour : Colour := ⟨31, 119, 180⟩

def validationColour : Colour := ⟨255, 127, 14⟩

def yTicks : Nat := 5

def maxXTicks : Nat := 10

section Ranges

variable {α : Type} [Scalar α]

/-- The extent of `n` epochs counted from zero, with a twentieth to spare on each side. -/
def xRange (n : Nat) : α × α :=
  if n ≤ 1 then (-0.5, 0.5)
  else
    let span : α := ((n - 1 : Nat) : α)
    (-0.05 * span, span * 1.05)

def extremes (first : α) (rest : List α) : α × α :=
  rest.foldl (fun (lo, hi) v => (Scalar.min lo v, Scalar.max hi v)) (first, first)

/-- The extent of all finite values, with a twentieth to spare on each side, or with a margin of its
own when they are all equal. -/
def yRange (values : List α) : α × α :=
  match values.filter Scalar.isFinite with
  | [] => (0, 1)
  | first :: rest =>
    let (lo, hi) := extremes first rest
    let span := hi - lo
    let margin := if 0 < span then span * 0.05 else Scalar.max (Scalar.abs hi * 0.1) 0.05
    (lo - margin, hi + margin)

def tickPlaces (span : α) : Nat :=
  if Scalar.ge span ((10 : Nat) : α) then 0
  else if Scalar.ge span 1 then 1
  else if Scalar.ge span 0.1 then 2
  else if Scalar.ge span 0.01 then 3
  else 4

def xTickEpochs (epochs : Nat) : List Nat :=
  let step := max ((epochs + maxXTicks - 1) / maxXTicks) 1
  let count := (max epochs 1 + step - 1) / step
  (List.range count).map (· * step)

end Ranges
end Figure

namespace Axes

variable {α : Type} [Scalar α]

def ofSeries (offset : Nat) (series : List (Series α)) : Axes α :=
  let (xLow, xHigh) := Figure.xRange ((series.map (·.values.size)).foldl max 0)
  let (yLow, yHigh) := Figure.yRange (series.flatMap (·.values.toList))
  { left := offset + 80
    right := offset + Figure.panelWidth - 24
    top := 50
    bottom := Figure.height - 64
    xLow := xLow
    xHigh := xHigh
    yLow := yLow
    yHigh := yHigh }

def column (a : Axes α) (x : α) : Int :=
  Scalar.round ((a.left : α) + (x - a.xLow) / (a.xHigh - a.xLow) * ((a.right - a.left : Nat) : α))

def row (a : Axes α) (y : α) : Int :=
  Scalar.round ((a.bottom : α) - (y - a.yLow) / (a.yHigh - a.yLow) * ((a.bottom - a.top : Nat) : α))

def positions (a : Axes α) (values : Array α) : List (Int × Int) :=
  values.toList.zipIdx.map fun (v, i) => (a.column (i : α), a.row v)

def tickValue (a : Axes α) (i : Nat) : α :=
  a.yLow + (a.yHigh - a.yLow) * (i : α) / ((Figure.yTicks - 1 : Nat) : α)

end Axes

namespace Figure

variable {α : Type} [Scalar α]

def halfWidth (s : String) (scale : Nat) : Int := (Glyph.textWidth s scale / 2 : Nat)

def drawXTick (a : Axes α) (c : Canvas) (epoch : Nat) : Result Canvas := do
  let x := a.column (epoch : α)
  let label := Decimal.digits epoch
  let c ← c.fill x a.top 1 (a.bottom - a.top : Nat) grid
  let c ← c.fill x a.bottom 1 5 ink
  c.text (x - halfWidth label 1) (a.bottom + 9) label 1 ink

def drawYTick (a : Axes α) (c : Canvas) (i : Nat) : Result Canvas := do
  let value := a.tickValue i
  let y := a.row value
  let label := Scalar.fixed (tickPlaces (a.yHigh - a.yLow)) value
  let c ← c.fill a.left y (a.right - a.left : Nat) 1 grid
  let c ← c.fill ((a.left : Int) - 5) y 5 1 ink
  c.text ((a.left : Int) - 9 - Glyph.textWidth label 1) (y - (Glyph.height / 2 : Nat)) label 1 ink

def drawLines (colour : Colour) (c : Canvas) : List (Int × Int) → Result Canvas
  | p :: q :: rest => do
    let c ← c.line p.1 p.2 q.1 q.2 2 colour
    drawLines colour c (q :: rest)
  | _ => .ok c

/-- A curve; a single value is drawn as a disc. -/
def drawSeries (a : Axes α) (c : Canvas) (s : Series α) : Result Canvas :=
  match a.positions s.values with
  | [p] => c.disc p.1 p.2 4 s.colour
  | ps => drawLines s.colour c ps

def swatchWidth : Nat := 20

def legendRow : Nat := 16

def drawLegend (a : Axes α) (corner : LegendCorner) (c : Canvas) (series : List (Series α)) :
    Result Canvas := do
  if series.isEmpty then return c
  let labels := (series.map fun s => Glyph.textWidth s.label 1).foldl max 0
  let w : Int := (8 + swatchWidth + 6 + labels + 8 : Nat)
  let h : Int := (6 + legendRow * series.length : Nat)
  let x := max ((a.right : Int) - w - 8) (a.left + 1)
  let y := match corner with
    | .upperRight => (a.top : Int) + 8
    | .lowerRight => (a.bottom : Int) - h - 8
  let c ← c.fill x y w h background
  let c ← c.stroke x y w h grid
  series.zipIdx.foldlM (fun c (s, i) => do
    let rowY := y + 6 + (legendRow * i : Nat)
    let c ← c.fill (x + 8) (rowY + (Glyph.height / 2 : Nat) - 1) swatchWidth 2 s.colour
    c.text (x + 8 + swatchWidth + 6) rowY s.label 1 ink) c

def drawFrame (a : Axes α) (offset : Nat) (title yLabel : String) (c : Canvas) : Result Canvas := do
  let centre : Int := ((a.left + a.right) / 2 : Nat)
  let middle : Int := ((a.top + a.bottom) / 2 : Nat)
  let c ← c.stroke a.left a.top (a.right - a.left + 1 : Nat) (a.bottom - a.top + 1 : Nat) ink
  let c ← c.text (centre - halfWidth title 2) 18 title 2 ink
  let c ← c.text (centre - halfWidth "EPOCH" 2) (a.bottom + 28) "EPOCH" 2 ink
  c.textUpward (offset + 14) (middle + halfWidth yLabel 2) yLabel 2 ink

def drawPanel (offset : Nat) (title yLabel : String) (corner : LegendCorner)
    (series : List (Series α)) (c : Canvas) : Result Canvas := do
  let series := series.filter fun s => !s.values.isEmpty
  let a := Axes.ofSeries offset series
  let epochs := (series.map (·.values.size)).foldl max 0
  let c ← (xTickEpochs epochs).foldlM (drawXTick a) c
  let c ← (List.range yTicks).foldlM (drawYTick a) c
  let c ← drawFrame a offset title yLabel c
  let c ← series.foldlM (drawSeries a) c
  drawLegend a corner c series

def ofHistory (h : History α) : Result Canvas := do
  let c := Canvas.blank width height background
  let c ← drawPanel 0 "MODEL ACCURACY" "ACCURACY" .lowerRight
    [⟨"TRAINING ACCURACY", h.accuracy, trainingColour⟩,
      ⟨"VALIDATION ACCURACY", h.valAccuracy, validationColour⟩] c
  drawPanel panelWidth "MODEL LOSS" "LOSS" .upperRight
    [⟨"TRAINING LOSS", h.loss, trainingColour⟩,
      ⟨"VALIDATION LOSS", h.valLoss, validationColour⟩] c

end Figure
end Convnet
