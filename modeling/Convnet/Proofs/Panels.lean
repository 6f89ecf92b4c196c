import Mathlib.Tactic.FieldSimp
import Convnet.Proofs.Extended
import Convnet.Proofs.Real
import Convnet.Proofs.Strokes

namespace Convnet

open Canvas Extended Figure

section Exact

variable {K : Type} [Field K] [LinearOrder K] [IsStrictOrderedRing K]

theorem share_between {x lo hi : K} (h : lo < hi) (hx : lo ≤ x ∧ x ≤ hi) :
    0 ≤ (x - lo) / (hi - lo) ∧ (x - lo) / (hi - lo) ≤ 1 := by
  constructor
  · exact div_nonneg (sub_nonneg.mpr hx.1) (sub_nonneg.mpr h.le)
  · exact div_le_one_of_le₀ (sub_le_sub_right hx.2 lo) (sub_nonneg.mpr h.le)

theorem share_stretch {t : K} (ht : 0 ≤ t ∧ t ≤ 1) {m n : Nat} (h : m ≤ n) :
    0 ≤ t * ((n - m : Nat) : K) ∧ t * ((n - m : Nat) : K) ≤ n - m := by
  have hlength : ((n - m : Nat) : K) = n - m := Nat.cast_sub h
  have hpos : (0 : K) ≤ n - m := sub_nonneg.mpr (Nat.cast_le.mpr h)
  rw [hlength]
  exact ⟨mul_nonneg ht.1 hpos, mul_le_of_le_one_left hpos ht.2⟩

end Exact

section Measures

variable {K : Type} [Field K] [LinearOrder K] [FloorRing K] [Elementary K]

structure Axes.Measures (a : Axes (Extended K)) (xlo xhi ylo yhi : K) : Prop where
  xLow : a.xLow = of xlo
  xHigh : a.xHigh = of xhi
  yLow : a.yLow = of ylo
  yHigh : a.yHigh = of yhi
  x_lt : xlo < xhi
  y_lt : ylo < yhi
  left_le : a.left ≤ a.right
  right_lt : (a.right : Int) < 2 ^ 60
  top_lt : a.top < a.bottom
  bottom_lt : (a.bottom : Int) < 2 ^ 60

variable [IsStrictOrderedRing K]

theorem xRange_eq (n : Nat) : ∃ lo hi : K, xRange (α := Extended K) n = (of lo, of hi) ∧ lo < hi ∧
    ∀ i < max n 1, lo ≤ (i : K) ∧ (i : K) ≤ hi := by
  rw [xRange]
  split
  case isTrue hn =>
    refine ⟨-0.5, 0.5, rfl, by norm_num, fun i hi => ?_⟩
    obtain rfl : i = 0 := by omega
    norm_num
  case isFalse hn =>
    have hspan : (1 : K) ≤ ((n - 1 : Nat) : K) := by exact_mod_cast (by omega : 1 ≤ n - 1)
    refine ⟨-0.05 * ((n - 1 : Nat) : K), ((n - 1 : Nat) : K) * 1.05, rfl, by linarith, fun i hi => ⟨?_, ?_⟩⟩
    · have hi0 : (0 : K) ≤ i := i.cast_nonneg
      linarith
    · have hi1 : (i : K) ≤ ((n - 1 : Nat) : K) := by exact_mod_cast (by omega : i ≤ n - 1)
      linarith

omit [IsStrictOrderedRing K] in
theorem extremes_eq (x : K) (xs : List K) : ∃ lo hi : K, extremes (of x) (xs.map of) = (of lo, of hi) ∧
    ∀ y ∈ x :: xs, lo ≤ y ∧ y ≤ hi := by
  induction xs using List.reverseRecOn with
  | nil => exact ⟨x, x, rfl, fun y hy => by simp_all⟩
  | append_singleton xs z ih =>
      obtain ⟨lo, hi, hfold, hall⟩ := ih
      refine ⟨min lo z, max hi z, ?_, fun y hy => ?_⟩
      · rw [extremes] at hfold ⊢
        rw [List.map_append, List.foldl_append, hfold]
        exact congrArg₂ Prod.mk (min_of lo z) (max_of hi z)
      · rw [← List.cons_append, List.mem_append] at hy
        rcases hy with hy | hy
        · obtain ⟨hlow, hhigh⟩ := hall y hy
          exact ⟨(min_le_left lo z).trans hlow, hhigh.trans (le_max_left hi z)⟩
        · obtain rfl := List.mem_singleton.mp hy
          exact ⟨min_le_right lo y, le_max_right hi y⟩

theorem margin_pos (lo hi : K) : ∃ m : K, 0 < m ∧ (if 0 < (of hi : Extended K) - of lo
    then (of hi - of lo) * 0.05 else Scalar.max (Scalar.abs (of hi) * 0.1) 0.05) = of m := by
  rw [of_sub, zero_eq]
  simp only [of_lt]
  split
  case isTrue h => exact ⟨(hi - lo) * 0.05, mul_pos h (by norm_num), rfl⟩
  case isFalse h =>
    have habs : Scalar.abs (of hi) * 0.1 = of (|hi| * 0.1 : K) := by
      rw [abs_of]
      rfl
    have hleast : (0.05 : Extended K) = of 0.05 := rfl
    rw [habs, hleast, max_of]
    exact ⟨max (|hi| * 0.1) 0.05, lt_max_of_lt_right (by norm_num), rfl⟩

theorem yRange_eq (vs : List (Extended K)) : ∃ lo hi : K, yRange vs = (of lo, of hi) ∧ lo < hi ∧
    ∀ x, of x ∈ vs → lo < x ∧ x < hi := by
  simp only [← mem_filterMap_number?]
  rw [yRange, filter_isFinite]
  cases vs.filterMap number? with
  | nil => exact ⟨0, 1, rfl, zero_lt_one, fun x hx => absurd hx List.not_mem_nil⟩
  | cons first rest =>
      obtain ⟨lo, hi, hextremes, hall⟩ := extremes_eq first rest
      obtain ⟨m, hm, hmargin⟩ := margin_pos lo hi
      have hle := hall first List.mem_cons_self
      refine ⟨lo - m, hi + m, ?_, by linarith, fun x hx => ?_⟩
      · rw [List.map_cons]
        simp only [hextremes]
        rw [hmargin, of_sub, of_add]
      · obtain ⟨hlow, hhigh⟩ := hall x hx
        exact ⟨by linarith, by linarith⟩

namespace Axes.Measures

variable {a : Axes (Extended K)} {xlo xhi ylo yhi x y : K}

theorem column_between (h : a.Measures xlo xhi ylo yhi) (hx : xlo ≤ x ∧ x ≤ xhi) :
    (a.left : Int) ≤ a.column (of x) ∧ a.column (of x) ≤ a.right := by
  obtain ⟨hlow, hhigh⟩ := share_stretch (share_between h.x_lt hx) h.left_le
  rw [column, h.xLow, h.xHigh, natCast_eq, natCast_eq, of_sub, of_sub, of_div (sub_ne_zero.mpr h.x_lt.ne'), of_mul,
    of_add]
  refine round_between ?_ ?_ (by omega) (h.right_lt.trans (by norm_num))
  · push_cast
    linarith
  · push_cast
    linarith

theorem row_between (h : a.Measures xlo xhi ylo yhi) (hy : ylo ≤ y ∧ y ≤ yhi) :
    (a.top : Int) ≤ a.row (of y) ∧ a.row (of y) ≤ a.bottom := by
  obtain ⟨hlow, hhigh⟩ := share_stretch (share_between h.y_lt hy) h.top_lt.le
  rw [row, h.yLow, h.yHigh, natCast_eq, natCast_eq, of_sub, of_sub, of_div (sub_ne_zero.mpr h.y_lt.ne'), of_mul,
    of_sub]
  refine round_between ?_ ?_ (by omega) (h.bottom_lt.trans (by norm_num))
  · push_cast
    linarith
  · push_cast
    linarith

omit [IsStrictOrderedRing K] in
theorem row_nan (h : a.Measures xlo xhi ylo yhi) : a.row nan = 0 := by
  rw [row, h.yLow, h.yHigh, of_sub]
  rfl

theorem row_infinite (h : a.Measures xlo xhi ylo yhi) (s : Bool) :
    a.row (infinite s) = if s then 2 ^ 63 - 1 else -2 ^ 63 := by
  have hheight : (0 : K) < ((a.bottom - a.top : Nat) : K) := Nat.cast_pos.mpr (Nat.sub_pos_of_lt h.top_lt)
  have hsub : (infinite s : Extended K) - of ylo = infinite s := rfl
  rw [row, h.yLow, h.yHigh, of_sub, hsub, infinite_div s (sub_pos.mpr h.y_lt), natCast_eq (a.bottom - a.top),
    infinite_mul s hheight]
  cases s <;> rfl

theorem tickValue_between (h : a.Measures xlo xhi ylo yhi) {i : Nat} (hi : i < yTicks) :
    ∃ y, a.tickValue i = of y ∧ ylo ≤ y ∧ y ≤ yhi := by
  have hlast : ((yTicks - 1 : Nat) : K) = 4 := by norm_num [yTicks]
  have hle : (i : K) ≤ 4 := by exact_mod_cast Nat.le_of_lt_succ hi
  have hpos : (0 : K) ≤ i := i.cast_nonneg
  have hspan : 0 < yhi - ylo := sub_pos.mpr h.y_lt
  refine ⟨ylo + (yhi - ylo) * i / 4, ?_, ?_, ?_⟩
  · rw [tickValue, h.yLow, h.yHigh, natCast_eq, natCast_eq, hlast, of_sub, of_mul, of_div four_ne_zero, of_add]
  · exact le_add_of_nonneg_right (div_nonneg (mul_nonneg hspan.le hpos) zero_le_four)
  · rw [← le_sub_iff_add_le', div_le_iff₀ zero_lt_four]
    exact mul_le_mul_of_nonneg_left hle hspan.le

end Axes.Measures

end Measures

/-- One of the two halves of a figure. -/
structure Panel (α : Type) where
  offset : Nat
  title : String
  yLabel : String
  corner : LegendCorner
  series : List (Series α)

namespace Panel

section Drawings

variable {α : Type}

def curves (p : Panel α) : List (Series α) := p.series.filter fun s => !s.values.isEmpty

def entries (p : Panel α) : List α := p.curves.flatMap (·.values.toList)

def epochs (p : Panel α) : Nat := (p.curves.map (·.values.size)).foldl max 0

theorem mem_curves {p : Panel α} {s : Series α} {v : α} (hs : s ∈ p.series) (hv : v ∈ s.values) : s ∈ p.curves := by
  refine List.mem_filter.mpr ⟨hs, ?_⟩
  rw [Bool.not_eq_true', Array.isEmpty_eq_false_iff]
  exact Array.ne_empty_of_mem hv

theorem mem_entries {p : Panel α} {s : Series α} {v : α} (hs : s ∈ p.curves) (hv : v ∈ s.values) : v ∈ p.entries :=
  List.mem_flatMap.mpr ⟨s, hs, Array.mem_toList_iff.mpr hv⟩

theorem size_le_epochs {p : Panel α} {s : Series α} (hs : s ∈ p.curves) : s.values.size ≤ p.epochs :=
  le_foldl_max _ 0 (.inr (List.mem_map_of_mem hs))

variable [Scalar α]

def draw (p : Panel α) (c : Canvas) : Result Canvas := drawPanel p.offset p.title p.yLabel p.corner p.series c

def axes (p : Panel α) : Axes α := .ofSeries p.offset p.curves

def ticks (p : Panel α) : List (Drawing × Colour) :=
  (xTickEpochs p.epochs).flatMap p.axes.xTickDrawings ++ (List.range yTicks).flatMap p.axes.yTickDrawings

def frame (p : Panel α) : List (Drawing × Colour) := p.axes.frameDrawings p.offset p.title p.yLabel

def strokes (p : Panel α) : List (Drawing × Colour) :=
  p.curves.flatMap fun s => (Figure.strokes (p.axes.positions s.values)).map (·, s.colour)

def legend (p : Panel α) : List (Drawing × Colour) := p.axes.legendDrawings p.corner p.curves

def labels (p : Panel α) : List String :=
  (xTickEpochs p.epochs).map Decimal.digits ++ (List.range yTicks).map p.axes.tickLabel

def drawings (p : Panel α) : List (Drawing × Colour) := p.ticks ++ p.frame ++ p.strokes ++ p.legend

theorem draw_eq (p : Panel α) (c : Canvas) : p.draw c = Drawing.picture c p.drawings := by
  simp only [drawings, Drawing.picture_append, ticks, frame, strokes, legend, ← foldlM_picture (drawXTick_eq p.axes),
    ← foldlM_picture (drawYTick_eq p.axes), ← foldlM_picture (drawSeries_eq p.axes), ← drawFrame_eq, ← drawLegend_eq,
    bind_assoc]
  rfl

end Drawings

section Exact

variable {K : Type} [Field K] [LinearOrder K] [FloorRing K] [Elementary K]

/-- Axes that have an extent, and that enclose what is finite of the curves and all ticks. -/
structure Laid (p : Panel (Extended K)) : Prop where
  x_lt : p.axes.xLow < p.axes.xHigh
  y_lt : p.axes.yLow < p.axes.yHigh
  xSpan : 0 < p.axes.xHigh - p.axes.xLow
  ySpan : 0 < p.axes.yHigh - p.axes.yLow
  encloses : ∀ x : K, of x ∈ p.entries → p.axes.yLow < of x ∧ of x < p.axes.yHigh
  determined : ∀ vs : List (Extended K), vs.filter Scalar.isFinite = p.entries.filter Scalar.isFinite →
    yRange vs = (p.axes.yLow, p.axes.yHigh)
  few : (xTickEpochs p.epochs).length ≤ 10
  gridColumns : ∀ e ∈ xTickEpochs p.epochs, (p.axes.gridColumn e).region ⊆ p.axes.frame
  tickColumns : ∀ e ∈ xTickEpochs p.epochs, ∀ q ∈ (p.axes.xTick e).region,
    (p.axes.left : Int) ≤ q.1 ∧ q.1 ≤ p.axes.right
  gridRows : ∀ i < yTicks, (p.axes.gridRow i).region ⊆ p.axes.frame
  tickRows : ∀ i < yTicks, ∀ q ∈ (p.axes.yTick i).region, (p.axes.top : Int) ≤ q.2 ∧ q.2 ≤ p.axes.bottom

/-- Curves that are drawn between the axes, and in their own panel only. -/
structure Inside (p : Panel (Extended K)) : Prop where
  bounded : ∀ d ∈ p.strokes, d.1.Bounded
  values : ∀ s ∈ p.series, ∀ v ∈ s.values, p.axes.yLow < v ∧ v < p.axes.yHigh
  pens : ∀ d ∈ p.strokes, ∀ q ∈ d.1.pens, q ∈ p.axes.frame
  length_pens : ∀ d ∈ p.strokes,
    d.1.pens.length ≤ max (p.axes.right - p.axes.left) (p.axes.bottom - p.axes.top) + 1
  apart : ∀ d ∈ p.strokes, ∀ q ∈ d.1.region, (p.offset : Int) ≤ q.1 ∧ q.1 < p.offset + panelWidth
  elsewhere : ∀ (c c' : Canvas) (i j : Nat), c.Framed → Drawing.picture c p.strokes = .ok c' → i < c.width →
    j < c.height → i < p.offset ∨ p.offset + panelWidth ≤ i → c'.pixel? i j = c.pixel? i j

/-- What becomes of the entries of a curve. All are drawn in a column of the frame, the finite ones in a row of it too;
what is no number is drawn above it. -/
structure Traced (p : Panel (Extended K)) (s : Series (Extended K)) : Prop where
  columns : ∀ q ∈ p.axes.positions s.values, (p.axes.left : Int) ≤ q.1 ∧ q.1 ≤ p.axes.right
  finite : ∀ (i : Nat) (x : K), s.values[i]? = some (of x) →
    ∃ q ∈ p.axes.frame, (p.axes.positions s.values)[i]? = some q
  nan : ∀ i : Nat, s.values[i]? = some nan → ∃ u, (p.axes.positions s.values)[i]? = some (u, 0)
  infinite : ∀ (i : Nat) (b : Bool), s.values[i]? = some (infinite b) →
    ∃ u, (p.axes.positions s.values)[i]? = some (u, if b then 2 ^ 63 - 1 else -2 ^ 63)
  bounded_iff : (∀ d ∈ Figure.strokes (p.axes.positions s.values), d.Bounded) ↔ ∀ b, Extended.infinite b ∉ s.values
  within_iff : (∀ q ∈ p.axes.positions s.values, q ∈ p.axes.frame) ↔ ∀ v ∈ s.values, Scalar.isFinite v = true
  lines : ∀ q ∈ p.axes.frame, ∀ r ∈ p.axes.frame, (∀ t ∈ linePositions q.1 q.2 r.1 r.2, t ∈ p.axes.frame) ∧
    (linePositions q.1 q.2 r.1 r.2).length ≤ max (p.axes.right - p.axes.left) (p.axes.bottom - p.axes.top) + 1
  pens_iff : (∀ b, Extended.infinite b ∉ s.values) →
    ((∀ d ∈ Figure.strokes (p.axes.positions s.values), ∀ q ∈ d.pens, q ∈ p.axes.frame) ↔
      ∀ v ∈ s.values, Scalar.isFinite v = true)
  length_pens : (∀ b, Extended.infinite b ∉ s.values) → ∀ d ∈ Figure.strokes (p.axes.positions s.values),
    d.pens.length ≤ max (p.axes.right - p.axes.left) p.axes.bottom + 1

variable {p : Panel (Extended K)} {s : Series (Extended K)}

theorem exists_measures [IsStrictOrderedRing K] (hp : p.offset ≤ panelWidth) : ∃ xlo xhi ylo yhi : K,
    p.axes.Measures xlo xhi ylo yhi ∧ (∀ i < max p.epochs 1, xlo ≤ (i : K) ∧ (i : K) ≤ xhi) ∧
      ∀ x, of x ∈ p.entries → ylo < x ∧ x < yhi := by
  obtain ⟨xlo, xhi, hx, hxlt, hepochs⟩ := xRange_eq (K := K) p.epochs
  obtain ⟨ylo, yhi, hy, hylt, hentries⟩ := yRange_eq p.entries
  have hright : p.axes.right = p.offset + panelWidth - 24 := rfl
  have hleft : p.axes.left = p.offset + 80 := rfl
  have hwidth : panelWidth = 600 := rfl
  refine ⟨xlo, xhi, ylo, yhi, ⟨?_, ?_, ?_, ?_, hxlt, hylt, by omega, by omega, ?_, ?_⟩, hepochs, hentries⟩
  · exact congrArg Prod.fst hx
  · exact congrArg Prod.snd hx
  · exact congrArg Prod.fst hy
  · exact congrArg Prod.snd hy
  · exact (by decide : 50 < Figure.height - 64)
  · exact (by decide : ((Figure.height - 64 : Nat) : Int) < 2 ^ 60)

theorem laid_of_measures {xlo xhi ylo yhi : K} [IsStrictOrderedRing K] (hm : p.axes.Measures xlo xhi ylo yhi)
    (hepochs : ∀ i < max p.epochs 1, xlo ≤ (i : K) ∧ (i : K) ≤ xhi)
    (hentries : ∀ x, of x ∈ p.entries → ylo < x ∧ x < yhi) : p.Laid where
  x_lt := by
    rw [hm.xLow, hm.xHigh]
    exact of_lt.mpr hm.x_lt
  y_lt := by
    rw [hm.yLow, hm.yHigh]
    exact of_lt.mpr hm.y_lt
  xSpan := by
    rw [hm.xLow, hm.xHigh, of_sub]
    exact of_lt.mpr (sub_pos.mpr hm.x_lt)
  ySpan := by
    rw [hm.yLow, hm.yHigh, of_sub]
    exact of_lt.mpr (sub_pos.mpr hm.y_lt)
  encloses x hx := by
    rw [hm.yLow, hm.yHigh, of_lt, of_lt]
    exact hentries x hx
  determined vs hvs := by
    change yRange vs = yRange p.entries
    rw [yRange, hvs, yRange]
  few := length_xTickEpochs p.epochs
  gridColumns e he := by
    obtain ⟨hleft, hright⟩ := hm.column_between (hepochs e (lt_of_mem_xTickEpochs he))
    have htop := hm.top_lt
    rintro q ⟨⟨h₁, h₂⟩, h₃, h₄⟩
    exact ⟨⟨hleft.trans h₁, (Int.lt_add_one_iff.mp h₂).trans hright⟩, h₃, by omega⟩
  tickColumns e he := by
    obtain ⟨hleft, hright⟩ := hm.column_between (hepochs e (lt_of_mem_xTickEpochs he))
    rintro q ⟨⟨h₁, h₂⟩, -⟩
    exact ⟨hleft.trans h₁, (Int.lt_add_one_iff.mp h₂).trans hright⟩
  gridRows i hi := by
    obtain ⟨y, hy, hlow, hhigh⟩ := hm.tickValue_between hi
    obtain ⟨htop, hbottom⟩ := hm.row_between ⟨hlow, hhigh⟩
    have hleft := hm.left_le
    rintro q ⟨⟨h₁, h₂⟩, h₃, h₄⟩
    rw [hy] at h₃ h₄
    exact ⟨⟨h₁, by omega⟩, htop.trans h₃, (Int.lt_add_one_iff.mp h₄).trans hbottom⟩
  tickRows i hi := by
    obtain ⟨y, hy, hlow, hhigh⟩ := hm.tickValue_between hi
    obtain ⟨htop, hbottom⟩ := hm.row_between ⟨hlow, hhigh⟩
    rintro q ⟨-, h₃, h₄⟩
    rw [hy] at h₃ h₄
    exact ⟨htop.trans h₃, (Int.lt_add_one_iff.mp h₄).trans hbottom⟩

theorem mem_positions {q : Int × Int} (hq : q ∈ p.axes.positions s.values) :
    ∃ (i : Nat) (v : Extended K), s.values[i]? = some v ∧ q = (p.axes.column (i : Extended K), p.axes.row v) := by
  obtain ⟨i, hi⟩ := List.mem_iff_getElem?.mp hq
  rw [Axes.getElem?_positions, Option.map_eq_some_iff] at hi
  obtain ⟨v, hv, rfl⟩ := hi
  exact ⟨i, v, hv, rfl⟩

theorem position_of_entry {i : Nat} {v : Extended K} (hv : s.values[i]? = some v) :
    (p.axes.positions s.values)[i]? = some (p.axes.column (i : Extended K), p.axes.row v) := by
  rw [Axes.getElem?_positions, hv, Option.map_some]

section Entries

variable [IsStrictOrderedRing K] {xlo xhi ylo yhi : K} (hm : p.axes.Measures xlo xhi ylo yhi)
  (hepochs : ∀ i < max p.epochs 1, xlo ≤ (i : K) ∧ (i : K) ≤ xhi)
  (hentries : ∀ x, of x ∈ p.entries → ylo < x ∧ x < yhi) (hs : s ∈ p.curves) {i : Nat} {v : Extended K}

include hm hepochs hs in
theorem column_of_entry (hv : s.values[i]? = some v) :
    (p.axes.left : Int) ≤ p.axes.column (i : Extended K) ∧ p.axes.column (i : Extended K) ≤ p.axes.right := by
  obtain ⟨hi, -⟩ := Array.getElem?_eq_some_iff.mp hv
  exact hm.column_between (hepochs i (lt_max_of_lt_left (hi.trans_le (size_le_epochs hs))))

include hm hentries hs in
theorem row_of_number {x : K} (hx : of x ∈ s.values) :
    (p.axes.top : Int) ≤ p.axes.row (of x) ∧ p.axes.row (of x) ≤ p.axes.bottom := by
  obtain ⟨hlow, hhigh⟩ := hentries x (mem_entries hs hx)
  exact hm.row_between ⟨hlow.le, hhigh.le⟩

include hm hepochs hentries hs in
theorem entry_mem_frame_iff (hv : s.values[i]? = some v) :
    (p.axes.column (i : Extended K), p.axes.row v) ∈ p.axes.frame ↔ Scalar.isFinite v = true := by
  have htop : p.axes.top = 50 := rfl
  have hbottom : p.axes.bottom = 336 := rfl
  cases v with
  | of x =>
      have hrow := row_of_number hm hentries hs (Array.mem_of_getElem? hv)
      exact iff_of_true ⟨column_of_entry hm hepochs hs hv, hrow⟩ rfl
  | nan =>
      refine iff_of_false (fun h => ?_) Bool.false_ne_true
      have hlow := h.2.1
      rw [hm.row_nan] at hlow
      omega
  | infinite b =>
      refine iff_of_false (fun h => ?_) Bool.false_ne_true
      obtain ⟨-, hlow, hhigh⟩ := h
      rw [hm.row_infinite] at hlow hhigh
      cases b with
      | false =>
          rw [if_neg Bool.false_ne_true] at hlow
          omega
      | true =>
          rw [if_pos rfl] at hhigh
          omega

include hm hepochs hentries hs in
theorem positions_within_iff :
    (∀ q ∈ p.axes.positions s.values, q ∈ p.axes.frame) ↔ ∀ v ∈ s.values, Scalar.isFinite v = true := by
  constructor
  · intro h v hv
    obtain ⟨i, hi⟩ := Array.mem_iff_getElem?.mp hv
    exact (entry_mem_frame_iff hm hepochs hentries hs hi).mp (h _ (List.mem_of_getElem? (position_of_entry hi)))
  · intro h q hq
    obtain ⟨i, v, hv, rfl⟩ := mem_positions hq
    exact (entry_mem_frame_iff hm hepochs hentries hs hv).mpr (h v (Array.mem_of_getElem? hv))

include hm hentries hs in
theorem row_of_entry (hnone : ∀ b, Extended.infinite b ∉ s.values) (hv : v ∈ s.values) :
    0 ≤ p.axes.row v ∧ p.axes.row v ≤ p.axes.bottom := by
  cases v with
  | of x =>
      obtain ⟨htop, hbottom⟩ := row_of_number hm hentries hs hv
      exact ⟨(Int.natCast_nonneg _).trans htop, hbottom⟩
  | nan => exact hm.row_nan ▸ ⟨le_rfl, Int.natCast_nonneg _⟩
  | infinite b => exact absurd hv (hnone b)

include hm hepochs hentries hs in
theorem bounded_iff_of_measures : (∀ d ∈ Figure.strokes (p.axes.positions s.values), d.Bounded) ↔
    ∀ b, Extended.infinite b ∉ s.values := by
  constructor
  · intro h b hb
    obtain ⟨i, hi⟩ := Array.mem_iff_getElem?.mp hb
    obtain ⟨d, hd, hpen⟩ := exists_stroke (List.mem_of_getElem? (position_of_entry hi))
    refine not_bounded_of_pen hd hpen ?_ (h d hd)
    rw [hm.row_infinite]
    cases b with
    | false => exact .inl rfl
    | true => exact .inr rfl
  · intro hnone d hd
    refine bounded_of_near (fun q hq => ?_) hd
    obtain ⟨i, v, hv, rfl⟩ := mem_positions hq
    obtain ⟨h₁, h₂⟩ := column_of_entry hm hepochs hs hv
    obtain ⟨h₃, h₄⟩ := row_of_entry hm hentries hs hnone (Array.mem_of_getElem? hv)
    have hright := hm.right_lt
    have hbottom := hm.bottom_lt
    dsimp only
    omega

include hm hepochs hentries hs in
theorem traced_of_measures : p.Traced s where
  columns q hq := by
    obtain ⟨i, v, hv, rfl⟩ := mem_positions hq
    exact column_of_entry hm hepochs hs hv
  finite i x hx := ⟨_, (entry_mem_frame_iff hm hepochs hentries hs hx).mpr rfl, position_of_entry hx⟩
  nan i hi := ⟨_, hm.row_nan ▸ position_of_entry hi⟩
  infinite i b hi := ⟨_, hm.row_infinite b ▸ position_of_entry hi⟩
  bounded_iff := bounded_iff_of_measures hm hepochs hentries hs
  within_iff := positions_within_iff hm hepochs hentries hs
  lines q hq r hr := by
    refine ⟨line_within hq hr, ?_⟩
    rw [(straight_linePositions q.1 q.2 r.1 r.2).length]
    obtain ⟨⟨h₁, h₂⟩, h₃, h₄⟩ := hq
    obtain ⟨⟨h₅, h₆⟩, h₇, h₈⟩ := hr
    omega
  pens_iff _ := by
    rw [← positions_within_iff hm hepochs hentries hs]
    refine ⟨fun h q hq => ?_, fun h d hd => strokes_within h hd⟩
    obtain ⟨d, hd, hmem⟩ := exists_stroke hq
    exact h d hd q hmem
  length_pens hnone d hd := by
    refine length_pens_le (fun q hq r hr => ?_) hd
    obtain ⟨i, v, hv, rfl⟩ := mem_positions hq
    obtain ⟨j, w, hw, rfl⟩ := mem_positions hr
    obtain ⟨h₁, h₂⟩ := column_of_entry hm hepochs hs hv
    obtain ⟨h₃, h₄⟩ := column_of_entry hm hepochs hs hw
    obtain ⟨h₅, h₆⟩ := row_of_entry hm hentries hs hnone (Array.mem_of_getElem? hv)
    obtain ⟨h₇, h₈⟩ := row_of_entry hm hentries hs hnone (Array.mem_of_getElem? hw)
    dsimp only
    omega

end Entries

section Furniture

variable [IsStrictOrderedRing K] {xlo xhi ylo yhi : K}

theorem text_bounded {x y : Int} {t : String} {scale : Nat} (hx : -2 ^ 61 ≤ x ∧ x ≤ 2 ^ 61) (hy : -2 ^ 61 ≤ y ∧ y ≤ 2 ^ 61)
    (ht : 6 * t.length < 2 ^ 32) (hscale : scale ≤ 2) :
    (Drawing.text x y t scale).Bounded ∧ (Drawing.textUpward x y t scale).Bounded := by
  refine Canvas.text_bounded (by omega) (by omega) ?_
  calc (t.length + 1) * Glyph.advance * scale ≤ (t.length + 1) * 6 * 2 := Nat.mul_le_mul_left _ hscale
    _ < 2 ^ 62 := by omega

theorem width_le {t : String} {scale : Nat} (ht : 6 * t.length < 2 ^ 32) (hscale : scale ≤ 2) :
    Glyph.textWidth t scale < 2 ^ 33 := by
  refine (Glyph.textWidth_le t scale).trans_lt ?_
  calc t.length * Glyph.advance * scale ≤ t.length * 6 * 2 := Nat.mul_le_mul_left _ hscale
    _ < 2 ^ 33 := by omega

theorem ticks_bounded (hm : p.axes.Measures xlo xhi ylo yhi) (hepochs : ∀ i < max p.epochs 1, xlo ≤ (i : K) ∧ (i : K) ≤ xhi)
    (hl : ∀ l ∈ p.labels, 6 * l.length < 2 ^ 32) : ∀ d ∈ p.ticks, d.1.Bounded := by
  have hright := hm.right_lt
  have hbottom := hm.bottom_lt
  have htop := hm.top_lt
  have hleft := hm.left_le
  simp only [ticks, List.forall_mem_append, List.forall_mem_flatMap]
  simp only [labels, List.forall_mem_append, List.forall_mem_map] at hl
  refine ⟨fun e he => ?_, fun i hi => ?_⟩
  · obtain ⟨h₁, h₂⟩ := hm.column_between (hepochs e (lt_of_mem_xTickEpochs he))
    have hwidth := width_le (hl.1 e he) one_le_two
    rw [← natCast_eq] at h₁ h₂
    simp only [Axes.xTickDrawings, List.forall_mem_cons, List.not_mem_nil, false_imp_iff, implies_true, and_true]
    refine ⟨?_, ?_, (text_bounded ?_ ?_ (hl.1 e he) one_le_two).1⟩
    · simp only [Axes.gridColumn, Drawing.Bounded, Canvas.Bounded, isSigned_iff]
      omega
    · simp only [Axes.xTick, Drawing.Bounded, Canvas.Bounded, isSigned_iff]
      omega
    · rw [halfWidth]
      omega
    · omega
  · obtain ⟨y, hy, hlow, hhigh⟩ := hm.tickValue_between (List.mem_range.mp hi)
    obtain ⟨h₁, h₂⟩ := hm.row_between ⟨hlow, hhigh⟩
    have hwidth := width_le (hl.2 i hi) one_le_two
    rw [← hy] at h₁ h₂
    simp only [Axes.yTickDrawings, List.forall_mem_cons, List.not_mem_nil, false_imp_iff, implies_true, and_true]
    refine ⟨?_, ?_, (text_bounded ?_ ?_ (hl.2 i hi) one_le_two).1⟩
    · simp only [Axes.gridRow, Drawing.Bounded, Canvas.Bounded, isSigned_iff]
      omega
    · simp only [Axes.yTick, Drawing.Bounded, Canvas.Bounded, isSigned_iff]
      omega
    · omega
    · have hheight : Glyph.height = 7 := rfl
      omega

omit [IsStrictOrderedRing K] in
theorem frame_bounded (hp : p.offset ≤ panelWidth) (htitle : 6 * p.title.length < 2 ^ 32)
    (hlabel : 6 * p.yLabel.length < 2 ^ 32) : ∀ d ∈ p.frame, d.1.Bounded := by
  have hleft : p.axes.left = p.offset + 80 := rfl
  have hright : p.axes.right = p.offset + panelWidth - 24 := rfl
  have htop : p.axes.top = 50 := rfl
  have hbottom : p.axes.bottom = 336 := rfl
  have hpanel : panelWidth = 600 := rfl
  have hepoch : 6 * "EPOCH".length < 2 ^ 32 := by decide
  have hwidths := And.intro (width_le htitle le_rfl) (And.intro (width_le hlabel le_rfl) (width_le hepoch le_rfl))
  simp only [frame, Axes.frameDrawings, List.forall_mem_cons, List.not_mem_nil, false_imp_iff, implies_true, and_true,
    halfWidth]
  refine ⟨?_, (text_bounded ?_ ?_ htitle le_rfl).1, (text_bounded ?_ ?_ hepoch le_rfl).1,
    (text_bounded ?_ ?_ hlabel le_rfl).2⟩
  · simp only [Drawing.Bounded, Canvas.Bounded, isSigned_iff]
    omega
  all_goals omega

omit [IsStrictOrderedRing K] in
theorem legend_bounded (hp : p.offset ≤ panelWidth) (hseries : p.series.length < 2 ^ 32)
    (hlabels : ∀ s ∈ p.series, 6 * s.label.length < 2 ^ 32) : ∀ d ∈ p.legend, d.1.Bounded := by
  have hleft : p.axes.left = p.offset + 80 := rfl
  have hright : p.axes.right = p.offset + panelWidth - 24 := rfl
  have htop : p.axes.top = 50 := rfl
  have hbottom : p.axes.bottom = 336 := rfl
  have hpanel : panelWidth = 600 := rfl
  have hlength : p.curves.length < 2 ^ 32 := (List.length_filter_le _ _).trans_lt hseries
  have hcurves : ∀ s ∈ p.curves, 6 * s.label.length < 2 ^ 32 := fun s hs => hlabels s (List.mem_of_mem_filter hs)
  have hwidth : Axes.legendWidth p.curves < 2 ^ 34 := by
    have hwidest : (p.curves.map fun s => Glyph.textWidth s.label 1).foldl max 0 < 2 ^ 33 :=
      foldl_max_lt (by norm_num) (List.forall_mem_map.mpr fun s hs => width_le (hcurves s hs) one_le_two)
    rw [Axes.legendWidth, swatchWidth]
    omega
  have hheight : Axes.legendHeight p.curves < 2 ^ 40 := by
    rw [Axes.legendHeight, legendRow]
    omega
  have hx : 0 ≤ p.axes.legendX p.curves ∧ p.axes.legendX p.curves < 2 ^ 34 := by
    rw [Axes.legendX]
    omega
  have hy : -2 ^ 41 ≤ p.axes.legendY p.corner p.curves ∧ p.axes.legendY p.corner p.curves < 2 ^ 41 := by
    cases p.corner <;> simp only [Axes.legendY] <;> omega
  rw [legend, Axes.legendDrawings]
  split
  · exact fun d hd => absurd hd List.not_mem_nil
  · simp only [List.forall_mem_cons, List.forall_mem_flatMap]
    refine ⟨?_, ?_, fun s hs => ?_⟩
    · simp only [Drawing.Bounded, Canvas.Bounded, isSigned_iff]
      omega
    · simp only [Drawing.Bounded, Canvas.Bounded, isSigned_iff]
      omega
    · have hrow : ((legendRow * s.2 : Nat) : Int) < 2 ^ 40 := by
        have hindex := List.snd_lt_of_mem_zipIdx hs
        rw [legendRow]
        omega
      have hlabel := hcurves s.1 (List.fst_mem_of_mem_zipIdx hs)
      simp only [Axes.legendLine, List.forall_mem_cons, List.not_mem_nil, false_imp_iff, implies_true, and_true]
      refine ⟨?_, (text_bounded ?_ ?_ hlabel one_le_two).1⟩
      · simp only [Drawing.Bounded, Canvas.Bounded, isSigned_iff, swatchWidth, Glyph.height]
        omega
      · rw [swatchWidth]
        omega
      · omega

end Furniture

section Panels

variable [IsStrictOrderedRing K]

theorem laid (hp : p.offset ≤ panelWidth) : p.Laid := by
  obtain ⟨xlo, xhi, ylo, yhi, hm, hepochs, hentries⟩ := exists_measures hp
  exact laid_of_measures hm hepochs hentries

theorem traced (hp : p.offset ≤ panelWidth) (hs : s ∈ p.curves) : p.Traced s := by
  obtain ⟨xlo, xhi, ylo, yhi, hm, hepochs, hentries⟩ := exists_measures hp
  exact traced_of_measures hm hepochs hentries hs

theorem inside (hp : p.offset ≤ panelWidth) (hfin : ∀ s ∈ p.series, ∀ v ∈ s.values, Scalar.isFinite v = true) :
    p.Inside := by
  have hwithin : ∀ s ∈ p.curves, ∀ q ∈ p.axes.positions s.values, q ∈ p.axes.frame := fun s hs =>
    (traced hp hs).within_iff.mpr (hfin s (List.mem_of_mem_filter hs))
  have hpens : ∀ d ∈ p.strokes, ∀ q ∈ d.1.pens, q ∈ p.axes.frame := by
    intro d hd
    obtain ⟨s, hs, hd⟩ := List.mem_flatMap.mp hd
    obtain ⟨e, he, rfl⟩ := List.mem_map.mp hd
    exact strokes_within (hwithin s hs) he
  have hapart : ∀ d ∈ p.strokes, ∀ q ∈ d.1.region, (p.offset : Int) ≤ q.1 ∧ q.1 < p.offset + panelWidth := by
    intro d hd q hq
    have hleft : p.axes.left = p.offset + 80 := rfl
    have hright : p.axes.right = p.offset + panelWidth - 24 := rfl
    obtain ⟨s, hs, hd'⟩ := List.mem_flatMap.mp hd
    obtain ⟨e, he, rfl⟩ := List.mem_map.mp hd'
    obtain ⟨r, hr, hlow, hhigh⟩ := near_pens he hq
    obtain ⟨⟨h₁, h₂⟩, -⟩ := hpens _ hd r hr
    have hwidth : panelWidth = 600 := rfl
    omega
  refine ⟨fun d hd => ?_, fun s hs v hv => ?_, hpens, fun d hd => ?_, hapart, fun c c' i j hc h hi hj hout => ?_⟩
  · obtain ⟨s, hs, hd⟩ := List.mem_flatMap.mp hd
    obtain ⟨e, he, rfl⟩ := List.mem_map.mp hd
    exact (traced hp hs).bounded_iff.mpr (fun b hb => Bool.false_ne_true (hfin s (List.mem_of_mem_filter hs) _ hb)) e he
  · obtain ⟨x, rfl⟩ := isFinite_iff.mp (hfin s hs v hv)
    exact (laid hp).encloses x (mem_entries (mem_curves hs hv) hv)
  · obtain ⟨s, hs, hd⟩ := List.mem_flatMap.mp hd
    obtain ⟨e, he, rfl⟩ := List.mem_map.mp hd
    refine length_pens_le (fun q hq r hr => ?_) he
    obtain ⟨⟨h₁, h₂⟩, h₃, h₄⟩ := hwithin s hs q hq
    obtain ⟨⟨h₅, h₆⟩, h₇, h₈⟩ := hwithin s hs r hr
    omega
  · refine Drawing.picture_of_hidden hc h hi hj fun d hd hshown => ?_
    obtain ⟨q, hq, hits, -⟩ := hshown
    obtain ⟨hlow, hhigh⟩ := hapart d hd q hq
    have hwidth : panelWidth = 600 := rfl
    have hperiod : 1200 < period := by decide
    have hplace : q.1 = i := hits.eq_of_lt (by omega)
    omega

end Panels

end Exact

end Panel

namespace Figure

section Panels

variable {α : Type} {h : History α} {p : Panel α}

def panels (h : History α) : List (Panel α) :=
  [⟨0, "MODEL ACCURACY", "ACCURACY", .lowerRight, [⟨"TRAINING ACCURACY", h.accuracy, trainingColour⟩,
      ⟨"VALIDATION ACCURACY", h.valAccuracy, validationColour⟩]⟩,
    ⟨panelWidth, "MODEL LOSS", "LOSS", .upperRight, [⟨"TRAINING LOSS", h.loss, trainingColour⟩,
      ⟨"VALIDATION LOSS", h.valLoss, validationColour⟩]⟩]

theorem ofHistory_eq [Scalar α] (h : History α) :
    ofHistory h = (panels h).foldlM (fun c p => p.draw c) (.blank Figure.width Figure.height background) := by
  simp only [panels, List.foldlM_cons, List.foldlM_nil, bind_pure]
  rfl

theorem offset_le (hp : p ∈ panels h) : p.offset ≤ panelWidth := by
  rcases List.mem_pair.mp hp with rfl | rfl
  · exact Nat.zero_le _
  · exact le_rfl

theorem values_mem {s : Series α} (hp : p ∈ panels h) (hs : s ∈ p.series) :
    s.values ∈ [h.accuracy, h.valAccuracy, h.loss, h.valLoss] := by
  rcases List.mem_pair.mp hp with rfl | rfl <;> rcases List.mem_pair.mp hs with rfl | rfl <;> simp

end Panels

variable {K : Type} [Field K] [LinearOrder K] [IsStrictOrderedRing K] [FloorRing K] [Elementary K]

omit [IsStrictOrderedRing K] in
theorem ofHistory_needs (h : History (Extended K)) :
    ((∃ c, ofHistory h = .ok c) ↔ ∀ p ∈ panels h, ∀ d ∈ p.drawings, d.1.Bounded) ∧
    (¬ (∀ p ∈ panels h, ∀ d ∈ p.drawings, d.1.Bounded) → ofHistory h = .error .misuse) := by
  have hpanels : Needs (fun c => (panels h).foldlM (fun c p => p.draw c) c)
      (∀ p ∈ panels h, ∀ d ∈ p.drawings, d.1.Bounded) := by
    refine Needs.foldlM (fun p => ?_) (panels h)
    simp only [Panel.draw_eq]
    exact Drawing.picture_needs p.drawings
  rw [ofHistory_eq]
  exact ⟨hpanels.answers _, (hpanels _).2⟩

theorem furniture_bounded {h : History (Extended K)} {p : Panel (Extended K)} (hp : p ∈ panels h)
    (hl : ∀ l ∈ p.labels, 6 * l.length < 2 ^ 32) : ∀ d ∈ p.ticks ++ p.frame ++ p.legend, d.1.Bounded := by
  obtain ⟨xlo, xhi, ylo, yhi, hm, hepochs, -⟩ := Panel.exists_measures (offset_le hp)
  have htexts : 6 * p.title.length < 2 ^ 32 ∧ 6 * p.yLabel.length < 2 ^ 32 ∧ p.series.length < 2 ^ 32 ∧
      ∀ s ∈ p.series, 6 * s.label.length < 2 ^ 32 := by
    have htitles : 6 * "MODEL ACCURACY".length < 2 ^ 32 ∧ 6 * "MODEL LOSS".length < 2 ^ 32 ∧
        6 * "ACCURACY".length < 2 ^ 32 ∧ 6 * "LOSS".length < 2 ^ 32 := by decide
    have hcurves : (6 * "TRAINING ACCURACY".length < 2 ^ 32 ∧ 6 * "VALIDATION ACCURACY".length < 2 ^ 32) ∧
        6 * "TRAINING LOSS".length < 2 ^ 32 ∧ 6 * "VALIDATION LOSS".length < 2 ^ 32 := by decide
    rcases List.mem_pair.mp hp with rfl | rfl
    · refine ⟨htitles.1, htitles.2.2.1, Nat.lt_of_lt_of_le (Nat.lt_succ_self 2) (by norm_num), ?_⟩
      simpa only [List.forall_mem_cons, List.not_mem_nil, false_imp_iff, implies_true, and_true] using hcurves.1
    · refine ⟨htitles.2.1, htitles.2.2.2, Nat.lt_of_lt_of_le (Nat.lt_succ_self 2) (by norm_num), ?_⟩
      simpa only [List.forall_mem_cons, List.not_mem_nil, false_imp_iff, implies_true, and_true] using hcurves.2
  obtain ⟨htitle, hlabel, hseries, hlabels⟩ := htexts
  rw [List.forall_mem_append, List.forall_mem_append]
  exact ⟨⟨Panel.ticks_bounded hm hepochs hl, Panel.frame_bounded (offset_le hp) htitle hlabel⟩,
    Panel.legend_bounded (offset_le hp) hseries hlabels⟩

/-- A figure with ticks that can be labelled is drawn if no entry is infinite, and is a misuse otherwise. -/
theorem ofHistory_answers (h : History (Extended K)) :
    ((∃ p ∈ panels h, ∃ s ∈ p.curves, ∃ b, infinite b ∈ s.values) → ofHistory h = .error .misuse) ∧
    ((∀ p ∈ panels h, (∀ s ∈ p.curves, ∀ b, infinite b ∉ s.values) ∧ ∀ l ∈ p.labels, 6 * l.length < 2 ^ 32) →
      ∃ c, ofHistory h = .ok c) := by
  have hstrokes : ∀ p ∈ panels h, (∀ d ∈ p.strokes, d.1.Bounded) ↔ ∀ s ∈ p.curves, ∀ b, infinite b ∉ s.values := by
    intro p hp
    simp only [Panel.strokes, List.forall_mem_flatMap, List.forall_mem_map]
    exact forall₂_congr fun s hs => (Panel.traced (offset_le hp) hs).bounded_iff
  constructor
  · rintro ⟨p, hp, s, hs, b, hb⟩
    refine (ofHistory_needs h).2 fun hbounded => ?_
    refine (hstrokes p hp).mp (fun d hd => hbounded p hp d ?_) s hs b hb
    exact List.mem_append_left _ (List.mem_append_right _ hd)
  · intro hall
    refine (ofHistory_needs h).1.mpr fun p hp => ?_
    have hfurniture := furniture_bounded hp (hall p hp).2
    rw [List.forall_mem_append, List.forall_mem_append] at hfurniture
    rw [Panel.drawings, List.forall_mem_append, List.forall_mem_append, List.forall_mem_append]
    exact ⟨⟨⟨hfurniture.1.1, hfurniture.1.2⟩, (hstrokes p hp).mpr (hall p hp).1⟩, hfurniture.2⟩

/-- Each panel of the figure of a finite history is laid out with axes of some extent, which hold every value, every
tick and every grid line, and its curves are drawn between them: no stroke leaves the frame, and none of their colour
falls on the other panel. If the labels of its ticks are not too wide, such a figure is drawn. -/
theorem curves_inside {h : History (Extended K)}
    (hfin : ∀ vs ∈ [h.accuracy, h.valAccuracy, h.loss, h.valLoss], ∀ v ∈ vs, Scalar.isFinite v = true) :
    ofHistory h = (panels h).foldlM (fun c p => p.draw c) (.blank Figure.width Figure.height background) ∧
    (∀ p ∈ panels h, p.Laid ∧ p.Inside ∧
      ∀ c, p.draw c = Drawing.picture c (p.ticks ++ p.frame ++ p.strokes ++ p.legend)) ∧
    ((∀ p ∈ panels h, ∀ l ∈ p.labels, 6 * l.length < 2 ^ 32) → ∃ c, ofHistory h = .ok c) := by
  have hseries : ∀ p ∈ panels h, ∀ s ∈ p.series, ∀ v ∈ s.values, Scalar.isFinite v = true :=
    fun p hp s hs => hfin s.values (values_mem hp hs)
  refine ⟨ofHistory_eq h, fun p hp => ⟨Panel.laid (offset_le hp), Panel.inside (offset_le hp) (hseries p hp), p.draw_eq⟩,
    fun hl => (ofHistory_answers h).2 fun p hp => ⟨fun s hs b hb => ?_, hl p hp⟩⟩
  exact Bool.false_ne_true (hseries p hp s (List.mem_of_mem_filter hs) _ hb)

theorem length_fixed_le (n : Nat) (v : Extended ℝ) : (Scalar.fixed n v).length ≤ 4 := by
  have hwords : "inf".length ≤ 4 ∧ "-inf".length ≤ 4 ∧ "NaN".length ≤ 4 := by decide
  rcases v with x | (_ | _) | _
  · exact Nat.zero_le 4
  · exact hwords.1
  · exact hwords.2.1
  · exact hwords.2.2

noncomputable def threeEpochs : History (Extended ℝ) :=
  ⟨#[of 0, of 1, of 1], #[], #[of 1, of (-1), of 0], #[of 1]⟩

theorem curves_inside_threeEpochs : (∃ p ∈ panels threeEpochs,
    p.offset = 600 ∧ p.curves.length = 2 ∧ p.epochs = 3 ∧ p.Laid ∧ p.Inside) ∧ ∃ c, ofHistory threeEpochs = .ok c := by
  have hfin : ∀ vs ∈ [threeEpochs.accuracy, threeEpochs.valAccuracy, threeEpochs.loss, threeEpochs.valLoss],
      ∀ v ∈ vs, Scalar.isFinite v = true := by
    simp [threeEpochs, isFinite_iff]
  obtain ⟨-, hpanels, hdrawn⟩ := curves_inside hfin
  obtain ⟨hlaid, hinside, -⟩ := hpanels _ (List.mem_cons_of_mem _ List.mem_cons_self)
  refine ⟨⟨_, List.mem_cons_of_mem _ List.mem_cons_self, rfl, rfl, rfl, hlaid, hinside⟩, hdrawn fun p hp l hl => ?_⟩
  have hepochs : p.epochs = 1 ∨ p.epochs = 3 := by
    rcases List.mem_pair.mp hp with rfl | rfl
    · exact .inl rfl
    · exact .inr rfl
  have hdigits : ∀ n, n = 1 ∨ n = 3 → ∀ l ∈ (xTickEpochs n).map Decimal.digits, l.length ≤ 4 := by
    rintro n (rfl | rfl) <;> decide
  have hlength : l.length ≤ 4 := by
    rcases List.mem_append.mp hl with hl | hl
    · exact hdigits _ hepochs l hl
    · obtain ⟨i, -, rfl⟩ := List.mem_map.mp hl
      exact length_fixed_le _ _
  omega

/-- Each panel of the figure of any history has axes that only its finite entries decide, and that enclose them. An
entry is drawn between the axes if and only if it is finite: all entries have a column there, but what is no number is
drawn in the uppermost row of the canvas, and an infinity as far away as there are rows, so that no stroke can be drawn
to it. Lines between finite entries stay in the frame and take no more steps than it is wide or high. -/
theorem entries_traced (h : History (Extended K)) :
    ofHistory h = (panels h).foldlM (fun c p => p.draw c) (.blank Figure.width Figure.height background) ∧
    (∀ p ∈ panels h, p.Laid ∧ (∀ s ∈ p.curves, p.Traced s) ∧
      ∀ c, p.draw c = Drawing.picture c (p.ticks ++ p.frame ++ p.strokes ++ p.legend)) ∧
    ((∃ p ∈ panels h, ∃ s ∈ p.curves, ∃ b, infinite b ∈ s.values) → ofHistory h = .error .misuse) ∧
    ((∀ p ∈ panels h, (∀ s ∈ p.curves, ∀ b, infinite b ∉ s.values) ∧ ∀ l ∈ p.labels, 6 * l.length < 2 ^ 32) →
      ∃ c, ofHistory h = .ok c) :=
  ⟨ofHistory_eq h, fun p hp =>
    ⟨Panel.laid (offset_le hp), fun _ hs => Panel.traced (offset_le hp) hs, p.draw_eq⟩, ofHistory_answers h⟩

noncomputable def diverged : History (Extended ℝ) := ⟨#[of 1, nan, infinite false], #[], #[], #[]⟩

theorem entries_traced_diverged : (∃ p ∈ panels diverged, ∃ s ∈ p.curves, p.Laid ∧
    (∃ q ∈ p.axes.frame, (p.axes.positions s.values)[0]? = some q) ∧
    (∃ u, (p.axes.positions s.values)[1]? = some (u, 0)) ∧
    ∃ u, (p.axes.positions s.values)[2]? = some (u, -2 ^ 63)) ∧ ofHistory diverged = .error .misuse := by
  obtain ⟨-, hpanels, hmisuse, -⟩ := entries_traced diverged
  obtain ⟨hlaid, htraced, -⟩ := hpanels _ (List.mem_cons_of_mem _ List.mem_cons_self)
  have hs := htraced _ List.mem_cons_self
  refine ⟨⟨_, List.mem_cons_of_mem _ List.mem_cons_self, _, List.mem_cons_self, hlaid, hs.finite 0 _ rfl, hs.nan 1 rfl,
    hs.infinite 2 false rfl⟩, hmisuse ?_⟩
  exact ⟨_, List.mem_cons_of_mem _ List.mem_cons_self, _, List.mem_cons_self, false, by simp [diverged]⟩

/-- The pen is put above the frame, and colours what is there. -/
theorem strokes_diverged : ∃ p ∈ panels (⟨#[of (1 / 2), nan], #[], #[], #[]⟩ : History (Extended ℝ)),
    ∃ d ∈ p.strokes, ∃ q ∈ d.1.pens, q ∈ d.1.region ∧ q ∉ p.axes.frame := by
  have htraced := fun s => Panel.traced (s := s) (offset_le (List.mem_cons_of_mem _ List.mem_cons_self :
    _ ∈ panels (⟨#[of (1 / 2), nan], #[], #[], #[]⟩ : History (Extended ℝ))))
  refine ⟨_, List.mem_cons_of_mem _ List.mem_cons_self, ?_⟩
  obtain ⟨u, hu⟩ := (htraced _ List.mem_cons_self).nan 1 rfl
  obtain ⟨d, hd, hpen⟩ := exists_stroke (List.mem_of_getElem? hu)
  refine ⟨(d, _), List.mem_flatMap.mpr ⟨_, List.mem_cons_self, List.mem_map_of_mem hd⟩, _, hpen,
    pens_subset_region hd hpen, fun h => ?_⟩
  have htop : (50 : Int) ≤ 0 := h.2.1
  exact absurd htop (by decide)

end Figure

end Convnet
