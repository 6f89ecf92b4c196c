import Convnet.Plot.Figure
import Convnet.Proofs.Lettering

namespace Convnet

open Canvas

namespace Canvas.Drawing

def pens : Drawing → List (Int × Int)
  | line x0 y0 x1 y1 _ => linePositions x0 y0 x1 y1
  | disc x y _ => [(x, y)]
  | _ => []

end Canvas.Drawing

namespace Axes

variable {α : Type}

def frame (a : Axes α) : Set (Int × Int) :=
  {p | ((a.left : Int) ≤ p.1 ∧ p.1 ≤ a.right) ∧ (a.top : Int) ≤ p.2 ∧ p.2 ≤ a.bottom}

variable [Scalar α]

def gridColumn (a : Axes α) (epoch : Nat) : Drawing := .fill (a.column (epoch : α)) a.top 1 (a.bottom - a.top : Nat)

def xTick (a : Axes α) (epoch : Nat) : Drawing := .fill (a.column (epoch : α)) a.bottom 1 5

def xLabel (a : Axes α) (epoch : Nat) : Drawing :=
  .text (a.column (epoch : α) - Figure.halfWidth (Decimal.digits epoch) 1) (a.bottom + 9) (Decimal.digits epoch) 1

def gridRow (a : Axes α) (i : Nat) : Drawing := .fill a.left (a.row (a.tickValue i)) (a.right - a.left : Nat) 1

def yTick (a : Axes α) (i : Nat) : Drawing := .fill ((a.left : Int) - 5) (a.row (a.tickValue i)) 5 1

def tickLabel (a : Axes α) (i : Nat) : String :=
  Scalar.fixed (Figure.tickPlaces (a.yHigh - a.yLow)) (a.tickValue i)

def yLabel (a : Axes α) (i : Nat) : Drawing :=
  .text ((a.left : Int) - 9 - Glyph.textWidth (a.tickLabel i) 1) (a.row (a.tickValue i) - (Glyph.height / 2 : Nat))
    (a.tickLabel i) 1

def xTickDrawings (a : Axes α) (epoch : Nat) : List (Drawing × Colour) :=
  [(a.gridColumn epoch, Figure.grid), (a.xTick epoch, Figure.ink), (a.xLabel epoch, Figure.ink)]

def yTickDrawings (a : Axes α) (i : Nat) : List (Drawing × Colour) :=
  [(a.gridRow i, Figure.grid), (a.yTick i, Figure.ink), (a.yLabel i, Figure.ink)]

def frameDrawings (a : Axes α) (offset : Nat) (title name : String) : List (Drawing × Colour) :=
  let centre : Int := ((a.left + a.right) / 2 : Nat)
  let middle : Int := ((a.top + a.bottom) / 2 : Nat)
  [(.stroke a.left a.top (a.right - a.left + 1 : Nat) (a.bottom - a.top + 1 : Nat), Figure.ink),
    (.text (centre - Figure.halfWidth title 2) 18 title 2, Figure.ink),
    (.text (centre - Figure.halfWidth "EPOCH" 2) (a.bottom + 28) "EPOCH" 2, Figure.ink),
    (.textUpward (offset + 14) (middle + Figure.halfWidth name 2) name 2, Figure.ink)]

def legendLine (x y : Int) (s : Series α × Nat) : List (Drawing × Colour) :=
  let rowY := y + 6 + (Figure.legendRow * s.2 : Nat)
  [(.fill (x + 8) (rowY + (Glyph.height / 2 : Nat) - 1) Figure.swatchWidth 2, s.1.colour),
    (.text (x + 8 + Figure.swatchWidth + 6) rowY s.1.label 1, Figure.ink)]

def legendWidth (series : List (Series α)) : Nat :=
  8 + Figure.swatchWidth + 6 + (series.map fun s => Glyph.textWidth s.label 1).foldl max 0 + 8

def legendHeight (series : List (Series α)) : Nat := 6 + Figure.legendRow * series.length

def legendX (a : Axes α) (series : List (Series α)) : Int :=
  max ((a.right : Int) - legendWidth series - 8) (a.left + 1)

def legendY (a : Axes α) (corner : LegendCorner) (series : List (Series α)) : Int :=
  match corner with
  | .upperRight => (a.top : Int) + 8
  | .lowerRight => (a.bottom : Int) - legendHeight series - 8

def legendDrawings (a : Axes α) (corner : LegendCorner) (series : List (Series α)) : List (Drawing × Colour) :=
  if series.isEmpty then []
  else
    let x := a.legendX series
    let y := a.legendY corner series
    (.fill x y (legendWidth series) (legendHeight series), Figure.background) ::
      (.stroke x y (legendWidth series) (legendHeight series), Figure.grid) :: series.zipIdx.flatMap (legendLine x y)

theorem getElem?_positions (a : Axes α) (values : Array α) (i : Nat) :
    (a.positions values)[i]? = values[i]?.map fun v => (a.column (i : α), a.row v) := by
  simp [positions, List.getElem?_zipIdx, Function.comp_def]

end Axes

namespace Figure

section Drawings

variable {α : Type} [Scalar α]

theorem foldlM_picture {β : Type} {f : Canvas → β → Result Canvas} {ds : β → List (Drawing × Colour)}
    (hf : ∀ c b, f c b = Drawing.picture c (ds b)) (bs : List β) (c : Canvas) :
    bs.foldlM f c = Drawing.picture c (bs.flatMap ds) := by
  induction bs generalizing c with
  | nil => rfl
  | cons b bs ih =>
      rw [List.foldlM_cons, List.flatMap_cons, Drawing.picture_append, hf]
      exact bind_congr ih

theorem drawXTick_eq (a : Axes α) (c : Canvas) (epoch : Nat) :
    drawXTick a c epoch = Drawing.picture c (a.xTickDrawings epoch) := by
  simp [drawXTick, Axes.xTickDrawings, Drawing.picture, Drawing.draw, Axes.gridColumn, Axes.xTick, Axes.xLabel, -pure_eq_ok]

theorem drawYTick_eq (a : Axes α) (c : Canvas) (i : Nat) :
    drawYTick a c i = Drawing.picture c (a.yTickDrawings i) := by
  simp [drawYTick, Axes.yTickDrawings, Drawing.picture, Drawing.draw, Axes.gridRow, Axes.yTick, Axes.yLabel,
    Axes.tickLabel, -pure_eq_ok]

omit [Scalar α] in
theorem drawFrame_eq (a : Axes α) (offset : Nat) (title name : String) (c : Canvas) :
    drawFrame a offset title name c = Drawing.picture c (a.frameDrawings offset title name) := by
  simp [drawFrame, Axes.frameDrawings, Drawing.picture, Drawing.draw, -pure_eq_ok]

omit [Scalar α] in
theorem drawLegend_eq (a : Axes α) (corner : LegendCorner) (c : Canvas) (series : List (Series α)) :
    drawLegend a corner c series = Drawing.picture c (a.legendDrawings corner series) := by
  rw [drawLegend, Axes.legendDrawings]
  split
  · rfl
  · simp only [Drawing.picture_cons]
    refine bind_congr fun c => bind_congr fun c => foldlM_picture (fun c s => ?_) _ c
    simp only [Axes.legendLine, Drawing.picture, Drawing.draw, List.foldlM_cons, List.foldlM_nil, bind_pure]
    rfl

def lines (ps : List (Int × Int)) : List Drawing := (ps.zip ps.tail).map fun s => .line s.1.1 s.1.2 s.2.1 s.2.2 2

/-- The drawings of a curve; a single position is drawn as a disc. -/
def strokes : List (Int × Int) → List Drawing
  | [p] => [.disc p.1 p.2 4]
  | ps => lines ps

theorem drawLines_eq (colour : Colour) (c : Canvas) (ps : List (Int × Int)) :
    drawLines colour c ps = Drawing.picture c ((lines ps).map (·, colour)) := by
  induction ps generalizing c with
  | nil => rfl
  | cons p ps ih =>
      cases ps with
      | nil => rfl
      | cons q ps =>
          have hlines : (lines (p :: q :: ps)).map (·, colour) =
            (.line p.1 p.2 q.1 q.2 2, colour) :: (lines (q :: ps)).map (·, colour) := rfl
          rw [hlines, Drawing.picture_cons, drawLines]
          exact bind_congr ih

theorem drawSeries_eq (a : Axes α) (c : Canvas) (s : Series α) :
    drawSeries a c s = Drawing.picture c ((strokes (a.positions s.values)).map (·, s.colour)) := by
  rw [drawSeries]
  split
  case h_1 p hp =>
    rw [hp]
    simp [strokes, Drawing.picture, Drawing.draw, -pure_eq_ok]
  case h_2 ps hp =>
    rw [drawLines_eq, strokes]
    exact hp

theorem mem_lines {ps : List (Int × Int)} {d : Drawing} (hd : d ∈ lines ps) :
    ∃ p ∈ ps, ∃ q ∈ ps, d = .line p.1 p.2 q.1 q.2 2 := by
  obtain ⟨⟨p, q⟩, hs, rfl⟩ := List.mem_map.mp hd
  obtain ⟨hp, hq⟩ := List.of_mem_zip hs
  exact ⟨p, hp, q, List.mem_of_mem_tail hq, rfl⟩

theorem mem_strokes {ps : List (Int × Int)} {d : Drawing} (hd : d ∈ strokes ps) :
    (∃ p ∈ ps, d = .disc p.1 p.2 4) ∨ ∃ p ∈ ps, ∃ q ∈ ps, d = .line p.1 p.2 q.1 q.2 2 := by
  rw [strokes.eq_def] at hd
  split at hd
  case h_1 p => exact .inl ⟨p, List.mem_singleton.mpr rfl, List.mem_singleton.mp hd⟩
  case h_2 => exact .inr (mem_lines hd)

end Drawings

section Frames

variable {α : Type} {a : Axes α} {p q : Int × Int} {ps : List (Int × Int)} {d : Drawing}

theorem line_within (hp : p ∈ a.frame) (hq : q ∈ a.frame) : ∀ r ∈ linePositions p.1 p.2 q.1 q.2, r ∈ a.frame := by
  intro r hr
  obtain ⟨⟨hleft, hright⟩, htop, hbottom⟩ := (straight_linePositions p.1 p.2 q.1 q.2).inside r hr
  exact ⟨⟨(le_min hp.1.1 hq.1.1).trans hleft, hright.trans (max_le hp.1.2 hq.1.2)⟩,
    (le_min hp.2.1 hq.2.1).trans htop, hbottom.trans (max_le hp.2.2 hq.2.2)⟩

theorem strokes_within (h : ∀ p ∈ ps, p ∈ a.frame) (hd : d ∈ strokes ps) : ∀ r ∈ d.pens, r ∈ a.frame := by
  obtain ⟨p, hp, rfl⟩ | ⟨p, hp, q, hq, rfl⟩ := mem_strokes hd
  · exact fun r hr => List.mem_singleton.mp hr ▸ h p hp
  · exact line_within (h p hp) (h q hq)

theorem length_pens_le {n : Nat} (h : ∀ p ∈ ps, ∀ q ∈ ps, (q.1 - p.1).natAbs ≤ n ∧ (q.2 - p.2).natAbs ≤ n)
    (hd : d ∈ strokes ps) : d.pens.length ≤ n + 1 := by
  obtain ⟨p, hp, rfl⟩ | ⟨p, hp, q, hq, rfl⟩ := mem_strokes hd
  · exact Nat.le_add_left 1 n
  · rw [Drawing.pens, (straight_linePositions p.1 p.2 q.1 q.2).length]
    exact Nat.succ_le_succ (max_le (h p hp q hq).1 (h p hp q hq).2)

theorem ends_mem_pens (p q : Int × Int) :
    p ∈ (Drawing.line p.1 p.2 q.1 q.2 2).pens ∧ q ∈ (Drawing.line p.1 p.2 q.1 q.2 2).pens :=
  ⟨List.mem_of_head? (straight_linePositions p.1 p.2 q.1 q.2).first,
    List.mem_of_getLast? (straight_linePositions p.1 p.2 q.1 q.2).last⟩

theorem exists_line {q r : Int × Int} (h : p ∈ q :: r :: ps) : ∃ d ∈ lines (q :: r :: ps), p ∈ d.pens := by
  induction ps generalizing q r with
  | nil =>
      refine ⟨.line q.1 q.2 r.1 r.2 2, List.mem_singleton.mpr rfl, ?_⟩
      obtain ⟨hq, hr⟩ := ends_mem_pens q r
      rcases List.mem_cons.mp h with rfl | h
      · exact hq
      · exact List.mem_singleton.mp h ▸ hr
  | cons s ps ih =>
      rcases List.mem_cons.mp h with rfl | h
      · exact ⟨_, List.mem_cons_self, (ends_mem_pens p r).1⟩
      · obtain ⟨d, hd, hmem⟩ := ih h
        exact ⟨d, List.mem_cons_of_mem _ hd, hmem⟩

theorem exists_stroke (hp : p ∈ ps) : ∃ d ∈ strokes ps, p ∈ d.pens := by
  match ps, hp with
  | [q], h => exact ⟨_, List.mem_singleton.mpr rfl, h⟩
  | q :: r :: ps, h => exact exists_line h

/-- What a curve colours is near its pens. -/
theorem near_pens (hd : d ∈ strokes ps) (hq : q ∈ d.region) : ∃ r ∈ d.pens, r.1 - 4 ≤ q.1 ∧ q.1 ≤ r.1 + 4 := by
  obtain ⟨p, -, rfl⟩ | ⟨p, -, p', -, rfl⟩ := mem_strokes hd
  · rw [Drawing.disc_region] at hq
    obtain ⟨⟨hlow, hhigh⟩, -⟩ := hq.1
    exact ⟨p, List.mem_singleton.mpr rfl, by omega, by omega⟩
  · obtain ⟨r, hr, ⟨hlow, hhigh⟩, -⟩ := hq
    exact ⟨r, hr, by omega, by omega⟩

theorem pens_subset_region (hd : d ∈ strokes ps) (hq : q ∈ d.pens) : q ∈ d.region := by
  obtain ⟨p, -, rfl⟩ | ⟨p, -, p', -, rfl⟩ := mem_strokes hd
  · obtain rfl := List.mem_singleton.mp hq
    simp [Drawing.region]
  · exact ⟨q, hq, ⟨by omega, by omega⟩, by omega, by omega⟩

theorem bounded_of_near (h : ∀ p ∈ ps, (-2 ^ 60 ≤ p.1 ∧ p.1 ≤ 2 ^ 60) ∧ -2 ^ 60 ≤ p.2 ∧ p.2 ≤ 2 ^ 60)
    (hd : d ∈ strokes ps) : d.Bounded := by
  obtain ⟨p, hp, rfl⟩ | ⟨p, hp, q, hq, rfl⟩ := mem_strokes hd
  · have hmiddle := h p hp
    simp only [Drawing.Bounded, Bool.and_eq_true, isSigned_iff]
    omega
  · have hfirst := h p hp
    have hlast := h q hq
    refine lineBounded_of_near (by omega) ?_
    simp only [List.forall_mem_cons, List.not_mem_nil, false_imp_iff, implies_true, and_true]
    omega

/-- No pen can be put on the first or the last row that there is a number for. -/
theorem not_bounded_of_pen (hd : d ∈ strokes ps) (hp : p ∈ d.pens) (h : p.2 = -2 ^ 63 ∨ p.2 = 2 ^ 63 - 1) :
    ¬ d.Bounded := by
  intro hb
  obtain ⟨q, -, rfl⟩ | ⟨q, -, r, -, rfl⟩ := mem_strokes hd
  · obtain rfl := List.mem_singleton.mp hp
    simp only [Drawing.Bounded, Bool.and_eq_true, isSigned_iff] at hb
    omega
  · obtain ⟨pen, hpen, rfl⟩ := List.mem_map.mp hp
    have hsquare := (hb.2 pen hpen).1
    simp only [StampBounded, SquareBounded, Canvas.Bounded, isSigned_iff] at hsquare
    omega

end Frames

theorem le_ten_steps (n : Nat) : max n 1 ≤ 10 * max ((n + maxXTicks - 1) / maxXTicks) 1 := by
  rw [maxXTicks]
  omega

theorem length_xTickEpochs (n : Nat) : (xTickEpochs n).length ≤ 10 := by
  have hten := le_ten_steps n
  simp only [xTickEpochs, List.length_map, List.length_range]
  generalize max ((n + maxXTicks - 1) / maxXTicks) 1 = step at *
  refine Nat.le_of_lt_succ (Nat.div_lt_of_lt_mul ?_)
  omega

theorem lt_of_mem_xTickEpochs {n e : Nat} (he : e ∈ xTickEpochs n) : e < max n 1 := by
  obtain ⟨i, hi, rfl⟩ := List.mem_map.mp he
  have hstep : 0 < max ((n + maxXTicks - 1) / maxXTicks) 1 := le_max_right _ 1
  rw [List.mem_range, Nat.lt_iff_add_one_le, Nat.le_div_iff_mul_le hstep, Nat.succ_mul] at hi
  omega

theorem foldl_max_lt {ns : List Nat} {m b : Nat} (hm : m < b) (h : ∀ n ∈ ns, n < b) : ns.foldl max m < b := by
  induction ns generalizing m with
  | nil => exact hm
  | cons n ns ih =>
      obtain ⟨hn, hns⟩ := List.forall_mem_cons.mp h
      exact ih (max_lt hm hn) hns

theorem le_foldl_max {n : Nat} (ns : List Nat) (m : Nat) (h : n ≤ m ∨ n ∈ ns) : n ≤ ns.foldl max m := by
  induction ns generalizing m with
  | nil => exact h.resolve_right List.not_mem_nil
  | cons k ns ih =>
      refine ih (max m k) ?_
      rcases h with h | h
      · exact .inl (h.trans (le_max_left m k))
      · rcases List.mem_cons.mp h with rfl | h
        · exact .inl (le_max_right m n)
        · exact .inr h

end Figure

end Convnet
