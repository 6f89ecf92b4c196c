import Convnet.Proofs.Line
import Convnet.Proofs.Window

namespace Convnet.Canvas

section Axis

variable {size i : Nat} {v first length last : Int}

theorem period_pos : 0 < period := Nat.two_pow_pos 32

def Hits (v : Int) (i : Nat) : Prop := 0 ≤ v ∧ v % period = i

theorem hits_natCast {n : Nat} : Hits n i ↔ n % period = i := by
  rw [Hits, ← Int.natCast_emod, Nat.cast_inj]
  exact and_iff_right n.cast_nonneg

theorem onAxis_eq_some : onAxis size v = some i ↔ Hits v i ∧ i < size := by
  by_cases hv : v < 0
  · rw [onAxis, if_pos hv]
    exact ⟨nofun, fun h => absurd h.1.1 (not_le.mpr hv)⟩
  · obtain ⟨n, rfl⟩ := Int.eq_ofNat_of_zero_le (not_lt.mp hv)
    rw [onAxis, if_neg hv, hits_natCast, Int.toNat_natCast]
    dsimp only
    by_cases hn : n % period < size
    · rw [if_pos hn, Option.some_inj]
      exact ⟨fun h => ⟨h, h ▸ hn⟩, And.left⟩
    · rw [if_neg hn]
      exact ⟨nofun, fun ⟨h, hi⟩ => absurd (h ▸ hi) hn⟩

theorem Hits.eq_of_lt (h : Hits v i) (hv : v < period) : v = i := by
  rw [← h.2, Int.emod_eq_of_lt h.1 hv]

theorem hits_self (hi : i < period) : Hits i i := hits_natCast.mpr (Nat.mod_eq_of_lt hi)

theorem mod_lt_of_round {n : Nat} (round : Nat) (hlow : round * period ≤ n) (hhigh : n < round * period + size) :
    n % period < size := by
  rcases lt_or_ge size period with hs | hs
  · have hdiv : n / period = round := by
      refine Nat.div_eq_of_lt_le hlow (hhigh.trans ?_)
      rw [Nat.add_mul, Nat.one_mul]
      exact Nat.add_lt_add_left hs _
    have hmod := Nat.div_add_mod n period
    rw [hdiv, Nat.mul_comm] at hmod
    omega
  · exact (Nat.mod_lt n period_pos).trans_le hs

theorem mem_onAxisBetween {n : Nat} :
    n ∈ onAxisBetween size first last ↔ (first ≤ n ∧ n < last) ∧ n % period < size := by
  simp only [onAxisBetween, List.mem_flatMap, List.mem_range'_1]
  constructor
  · rintro ⟨round, -, hlow, hhigh⟩
    exact ⟨⟨by omega, by omega⟩, mod_lt_of_round round (by omega) (by omega)⟩
  · rintro ⟨⟨hfirst, hlast⟩, hs⟩
    have hround := Nat.div_add_mod n period
    rw [Nat.mul_comm] at hround
    have hbelow : first.toNat / period ≤ n / period := Nat.div_le_div_right (by omega)
    have habove : n / period ≤ last.toNat / period := Nat.div_le_div_right (by omega)
    exact ⟨n / period, ⟨hbelow, by omega⟩, by omega, by omega⟩

/-- A stretch of coordinates and its part within a period of those that are not negative fall on the same places. -/
theorem exists_withinPeriod : (∃ v, (first ≤ v ∧ v < first + withinPeriod first length) ∧ Hits v i) ↔
    ∃ v, (first ≤ v ∧ v < first + length) ∧ Hits v i := by
  rw [withinPeriod]
  constructor
  · rintro ⟨v, ⟨hfirst, hlast⟩, hv⟩
    exact ⟨v, ⟨hfirst, hlast.trans_le (Int.add_le_add_left (min_le_left _ _) _)⟩, hv⟩
  · rintro ⟨v, ⟨hfirst, hlast⟩, hv, hi⟩
    -- the first coordinate of the stretch that falls on the same place as `v`
    obtain ⟨d, hd⟩ := Int.eq_ofNat_of_zero_le (sub_nonneg.mpr (max_le hfirst hv))
    have hle := Nat.mod_le d period
    have hlt := Nat.mod_lt d period_pos
    refine ⟨max first 0 + (d % period : Nat), ⟨by omega, by omega⟩, by omega, ?_⟩
    rw [Int.natCast_emod, Int.add_emod_emod, ← hd, add_sub_cancel, hi]

end Axis

/-- A canvas with a colour for each of its pixels. -/
def Framed (c : Canvas) : Prop := c.pixels.size = c.width * c.height

theorem framed_blank (width height : Nat) (background : Colour) : (blank width height background).Framed :=
  Array.size_replicate

def Shown (S : Set (Int × Int)) (i j : Nat) : Prop := ∃ p ∈ S, Hits p.1 i ∧ Hits p.2 j

/-- What colouring a region makes of a canvas. -/
structure Paints (c c' : Canvas) (S : Set (Int × Int)) (k : Colour) : Prop where
  width : c'.width = c.width
  height : c'.height = c.height
  framed : c'.Framed
  shown : ∀ {i j}, i < c.width → j < c.height → Shown S i j → c'.pixel? i j = .ok k
  hidden : ∀ {i j}, i < c.width → j < c.height → ¬ Shown S i j → c'.pixel? i j = c.pixel? i j

section Regions

variable {S T : Set (Int × Int)} {i j : Nat} {c c' c'' : Canvas} {k : Colour} {x y : Int}

theorem shown_union : Shown (S ∪ T) i j ↔ Shown S i j ∨ Shown T i j := by
  simp only [Shown, Set.mem_union, or_and_right, exists_or]

theorem shown_singleton : Shown {(x, y)} i j ↔ Hits x i ∧ Hits y j := by
  simp only [Shown, Set.mem_singleton_iff, exists_eq_left]

theorem shown_exists {β : Type} {bs : List β} {R : β → Set (Int × Int)} :
    Shown {p | ∃ b ∈ bs, p ∈ R b} i j ↔ ∃ b ∈ bs, Shown (R b) i j := by
  constructor
  · rintro ⟨p, ⟨b, hb, hp⟩, hits⟩
    exact ⟨b, hb, p, hp, hits⟩
  · rintro ⟨b, hb, p, hp, hits⟩
    exact ⟨p, ⟨b, hb, hp⟩, hits⟩

theorem shown_iff_mem (hS : ∀ p ∈ S, p.1 < period ∧ p.2 < period) : Shown S i j ↔ ((i : Int), (j : Int)) ∈ S := by
  constructor
  · rintro ⟨p, hp, hx, hy⟩
    obtain ⟨hxp, hyp⟩ := hS p hp
    rwa [← hx.eq_of_lt hxp, ← hy.eq_of_lt hyp]
  · intro hp
    obtain ⟨hi, hj⟩ := hS _ hp
    exact ⟨_, hp, hits_self (Int.ofNat_lt.mp hi), hits_self (Int.ofNat_lt.mp hj)⟩

theorem pixel?_mk {w h : Nat} {ps : Array Colour} (hi : i < w) (hj : j < h) :
    pixel? ⟨w, h, ps⟩ i j = .ok (ps.getD (j * w + i) default) := by
  rw [pixel?, require, if_pos (by simp [hi, hj])]
  rfl

theorem eq_of_pixels (hc : c.Framed) (hc' : c'.Framed) (hw : c'.width = c.width) (hh : c'.height = c.height)
    (h : ∀ i < c.width, ∀ j < c.height, c'.pixel? i j = c.pixel? i j) : c' = c := by
  obtain ⟨w, t, ps'⟩ := c'
  obtain ⟨_, _, ps⟩ := c
  obtain rfl : w = _ := hw
  obtain rfl : t = _ := hh
  congr 1
  apply Array.ext (hc'.trans hc.symm)
  intro n hn' hn
  have hlt : n < w * t := hn.trans_eq hc
  have hi : n % w < w := Nat.mod_lt n (Nat.pos_of_mul_pos_right (Nat.zero_lt_of_lt hlt))
  have hj : n / w < t := Nat.div_lt_of_lt_mul hlt
  have hplace := h _ hi _ hj
  rw [pixel?_mk hi hj, pixel?_mk hi hj, Except.ok.injEq] at hplace
  simpa [Nat.div_add_mod', Array.getD, hn, hn'] using hplace

namespace Paints

theorem congr (h : Paints c c' S k) (hst : ∀ i < c.width, ∀ j < c.height, Shown T i j ↔ Shown S i j) : Paints c c' T k where
  width := h.width
  height := h.height
  framed := h.framed
  shown hi hj ht := h.shown hi hj ((hst _ hi _ hj).mp ht)
  hidden hi hj ht := h.hidden hi hj (mt (hst _ hi _ hj).mpr ht)

theorem nothing (hc : c.Framed) (hS : ∀ i < c.width, ∀ j < c.height, ¬ Shown S i j) : Paints c c S k where
  width := rfl
  height := rfl
  framed := hc
  shown hi hj hs := absurd hs (hS _ hi _ hj)
  hidden _ _ _ := rfl

theorem union (h : Paints c c' S k) (h' : Paints c' c'' T k) : Paints c c'' (S ∪ T) k where
  width := h'.width.trans h.width
  height := h'.height.trans h.height
  framed := h'.framed
  shown {i j} hi hj hst := by
    have hi' := hi.trans_eq h.width.symm
    have hj' := hj.trans_eq h.height.symm
    by_cases ht : Shown T i j
    · exact h'.shown hi' hj' ht
    · rw [h'.hidden hi' hj' ht]
      exact h.shown hi hj ((shown_union.mp hst).resolve_right ht)
  hidden hi hj hst := by
    rw [shown_union, not_or] at hst
    rw [h'.hidden (hi.trans_eq h.width.symm) (hj.trans_eq h.height.symm) hst.2]
    exact h.hidden hi hj hst.1

theorem foldl {β : Type} {f : Canvas → β → Canvas} {R : β → Set (Int × Int)}
    (hf : ∀ (c : Canvas) (b : β), c.Framed → Paints c (f c b) (R b) k) (bs : List β) (hc : c.Framed) :
    Paints c (bs.foldl f c) {p | ∃ b ∈ bs, p ∈ R b} k := by
  induction bs generalizing c with
  | nil => exact nothing hc fun i _ j _ => by simp [Shown]
  | cons b bs ih =>
      have hb := hf c b hc
      refine (hb.union (ih hb.framed)).congr fun i _ j _ => ?_
      rw [shown_union, shown_exists, shown_exists, List.exists_mem_cons_iff]

theorem foldlM {β : Type} {f : Canvas → β → Result Canvas} {R : β → Set (Int × Int)}
    (hf : ∀ (c c' : Canvas) (b : β), c.Framed → f c b = .ok c' → Paints c c' (R b) k) {bs : List β} (hc : c.Framed)
    (h : bs.foldlM f c = .ok c') : Paints c c' {p | ∃ b ∈ bs, p ∈ R b} k := by
  induction bs generalizing c with
  | nil =>
      obtain rfl := Except.ok.inj h
      exact nothing hc fun i _ j _ => by simp [Shown]
  | cons b bs ih =>
      obtain ⟨mid, hmid, h⟩ := bind_eq_ok.mp h
      have hb := hf c mid b hc hmid
      refine (hb.union (ih hb.framed h)).congr fun i _ j _ => ?_
      rw [shown_union, shown_exists, shown_exists, List.exists_mem_cons_iff]

theorem unique (h : Paints c c' S k) (h' : Paints c c'' S k) : c' = c'' := by
  refine eq_of_pixels h'.framed h.framed (h.width.trans h'.width.symm) (h.height.trans h'.height.symm) ?_
  intro i hi j hj
  rw [h'.width] at hi
  rw [h'.height] at hj
  by_cases hs : Shown S i j
  · rw [h.shown hi hj hs, h'.shown hi hj hs]
  · rw [h.hidden hi hj hs, h'.hidden hi hj hs]

end Paints

theorem pixel?_setIfInBounds {i' j' : Nat} (hc : c.Framed) (hi : i < c.width) (hj : j < c.height) (hi' : i' < c.width)
    (hj' : j' < c.height) : { c with pixels := c.pixels.setIfInBounds (j' * c.width + i') k }.pixel? i j =
      if i = i' ∧ j = j' then .ok k else c.pixel? i j := by
  have hlt : j * c.width + i < c.pixels.size := (mul_add_lt hj hi).trans_eq ((Nat.mul_comm _ _).trans hc.symm)
  by_cases hplace : i = i' ∧ j = j'
  · obtain ⟨rfl, rfl⟩ := hplace
    rw [if_pos ⟨rfl, rfl⟩, pixel?_mk hi hj]
    simp [Array.getD, hlt]
  · have hne : j' * c.width + i' ≠ j * c.width + i := fun h =>
      hplace ⟨(mul_add_inj hi' hi h).2.symm, (mul_add_inj hi' hi h).1.symm⟩
    rw [if_neg hplace, pixel?_mk hi hj, pixel?_mk hi hj]
    simp [Array.getD, hlt, hne]

theorem put_paints (hc : c.Framed) (x y : Int) (k : Colour) : Paints c (c.put x y k) {(x, y)} k := by
  have hplace : ∀ i < c.width, ∀ j < c.height, Shown {(x, y)} i j ↔
      onAxis c.width x = some i ∧ onAxis c.height y = some j := fun i hi j hj => by
    rw [shown_singleton, onAxis_eq_some, onAxis_eq_some, and_iff_left hi, and_iff_left hj]
  rw [put]
  split
  case h_1 i' j' hx hy =>
    have hi' := (onAxis_eq_some.mp hx).2
    have hj' := (onAxis_eq_some.mp hy).2
    have hsame : ∀ i < c.width, ∀ j < c.height, Shown {(x, y)} i j ↔ i = i' ∧ j = j' := fun i hi j hj => by
      rw [hplace i hi j hj, hx, hy, Option.some_inj, Option.some_inj, eq_comm, eq_comm (a := j')]
    refine ⟨rfl, rfl, (Array.size_setIfInBounds).trans hc, fun hi hj hs => ?_, fun hi hj hs => ?_⟩
    · rw [pixel?_setIfInBounds hc hi hj hi' hj', if_pos ((hsame _ hi _ hj).mp hs)]
    · rw [pixel?_setIfInBounds hc hi hj hi' hj', if_neg (mt (hsame _ hi _ hj).mpr hs)]
  case h_2 hnone =>
    refine Paints.nothing hc fun i hi j hj hs => ?_
    obtain ⟨hx, hy⟩ := (hplace i hi j hj).mp hs
    exact hnone i j hx hy

def rectangle (x y w h : Int) : Set (Int × Int) := {p | (x ≤ p.1 ∧ p.1 < x + w) ∧ y ≤ p.2 ∧ p.2 < y + h}

def square (thickness : Nat) (p : Int × Int) : Set (Int × Int) :=
  rectangle (p.1 - (thickness / 2 : Nat)) (p.2 - (thickness / 2 : Nat)) (max thickness 1 : Nat) (max thickness 1 : Nat)

variable {w h : Int}

theorem shown_rectangle : Shown (rectangle x y w h) i j ↔
    (∃ u, (x ≤ u ∧ u < x + w) ∧ Hits u i) ∧ ∃ v, (y ≤ v ∧ v < y + h) ∧ Hits v j := by
  constructor
  · rintro ⟨p, ⟨hx, hy⟩, hi, hj⟩
    exact ⟨⟨p.1, hx, hi⟩, p.2, hy, hj⟩
  · rintro ⟨⟨u, hx, hi⟩, v, hy, hj⟩
    exact ⟨(u, v), ⟨hx, hy⟩, hi, hj⟩

theorem place_paints (hc : c.Framed) (holds : Int → Int → Bool) (k : Colour) (m n : Nat) :
    Paints c (if holds m n then c.put m n k else c) {p | holds m n = true ∧ p = ((m : Int), (n : Int))} k := by
  by_cases h : holds m n = true
  · rw [if_pos h]
    exact (put_paints hc m n k).congr fun _ _ _ _ => by simp [Shown, h]
  · rw [if_neg h]
    exact Paints.nothing hc fun _ _ _ _ => by simp [Shown, h]

theorem row_paints (hc : c.Framed) (x w : Int) (holds : Int → Int → Bool) (k : Colour) (n : Nat) :
    Paints c ((onAxisBetween c.width x (x + w)).foldl (fun c (m : Nat) => if holds m n then c.put m n k else c) c)
      {p | (x ≤ p.1 ∧ p.1 < x + w) ∧ p.2 = n ∧ holds p.1 p.2 = true} k := by
  refine (Paints.foldl (fun c m hc => place_paints hc holds k m n) _ hc).congr fun i hi j _ => ?_
  constructor
  · rintro ⟨⟨u, v⟩, ⟨hx, rfl, hholds⟩, hu, hv⟩
    obtain ⟨m, rfl⟩ := Int.eq_ofNat_of_zero_le hu.1
    have hm : m ∈ onAxisBetween c.width x (x + w) := mem_onAxisBetween.mpr ⟨hx, (hits_natCast.mp hu).trans_lt hi⟩
    exact ⟨_, ⟨m, hm, hholds, rfl⟩, hu, hv⟩
  · rintro ⟨_, ⟨m, hm, hholds, rfl⟩, hu, hv⟩
    exact ⟨_, ⟨(mem_onAxisBetween.mp hm).1, rfl, hholds⟩, hu, hv⟩

theorem fillWhere_paints (hc : c.Framed) (x y w h : Int) (holds : Int → Int → Bool) (k : Colour) :
    Paints c (c.fillWhere x y w h holds k) {p | p ∈ rectangle x y w h ∧ holds p.1 p.2 = true} k := by
  rw [fillWhere_eq_foldl]
  refine (Paints.foldl (fun c n hc => row_paints hc x w holds k n) _ hc).congr fun i _ j hj => ?_
  constructor
  · rintro ⟨⟨u, v⟩, ⟨⟨hx, hy⟩, hholds⟩, hu, hv⟩
    obtain ⟨n, rfl⟩ := Int.eq_ofNat_of_zero_le hv.1
    have hn : n ∈ onAxisBetween c.height y (y + h) := mem_onAxisBetween.mpr ⟨hy, (hits_natCast.mp hv).trans_lt hj⟩
    exact ⟨_, ⟨n, hn, hx, rfl, hholds⟩, hu, hv⟩
  · rintro ⟨⟨u, _⟩, ⟨n, hn, hx, rfl, hholds⟩, hu, hv⟩
    exact ⟨_, ⟨⟨hx, (mem_onAxisBetween.mp hn).1⟩, hholds⟩, hu, hv⟩

theorem fill_paints (hc : c.Framed) (hfill : c.fill x y w h k = .ok c') : Paints c c' (rectangle x y w h) k := by
  obtain rfl := pure_eq_ok_iff.mp (require_bind_eq_ok.mp hfill).2
  refine (fillWhere_paints hc x y _ _ _ k).congr fun i _ j _ => ?_
  simp only [and_true, Set.ofPred_mem_eq]
  rw [shown_rectangle, shown_rectangle, exists_withinPeriod, exists_withinPeriod]

theorem signed_bind_eq_ok {β : Type} {v : Int} {f : Int → Result β} {b : β} :
    (signed v >>= f) = .ok b ↔ isSigned v = true ∧ f v = .ok b := by
  rw [signed_bind]
  cases isSigned v <;> simp

theorem fillSquare_paints {side : Nat} (hc : c.Framed) (h : c.fillSquare x y side k = .ok c') :
    Paints c c' (rectangle x y side side) k :=
  fill_paints hc (signed_bind_eq_ok.mp (signed_bind_eq_ok.mp h).2).2

theorem put_eq_fill (hc : c.Framed) (hxy : Bounded x y 1 1) (k : Colour) : c.fill x y 1 1 k = .ok (c.put x y k) := by
  have hsingle : rectangle x y 1 1 = {(x, y)} := by
    ext p
    simp only [rectangle, Set.mem_ofPred_eq, Set.mem_singleton_iff, Prod.ext_iff]
    omega
  obtain ⟨c', hfill⟩ := ((fill_needs x y 1 1 k).answers c).mpr hxy
  have hpaints := fill_paints hc hfill
  rw [hsingle] at hpaints
  rw [hfill, (put_paints hc x y k).unique hpaints]

end Regions

/-- What can be drawn. -/
inductive Drawing where
  | put (x y : Int)
  | fill (x y w h : Int)
  | stroke (x y w h : Int)
  | line (x0 y0 x1 y1 : Int) (thickness : Nat)
  | disc (x y : Int) (radius : Nat)
  | text (x y : Int) (s : String) (scale : Nat)
  | textUpward (x y : Int) (s : String) (scale : Nat)

namespace Drawing

def draw (c : Canvas) (colour : Colour) : Drawing → Result Canvas
  | put x y => .ok (c.put x y colour)
  | fill x y w h => c.fill x y w h colour
  | stroke x y w h => c.stroke x y w h colour
  | line x0 y0 x1 y1 thickness => c.line x0 y0 x1 y1 thickness colour
  | disc x y radius => c.disc x y radius colour
  | text x y s scale => c.text x y s scale colour
  | textUpward x y s scale => c.textUpward x y s scale colour

/-- Whether a drawing counts with signed numbers of 64 bits only. -/
def Bounded : Drawing → Prop
  | put _ _ => True
  | fill x y w h => Canvas.Bounded x y w h
  | stroke x y w h =>
      Canvas.Bounded x y w 1 ∧ ((isSigned (y + h) = true ∧ isSigned (y + h - 1) = true) ∧
        Canvas.Bounded x (y + h - 1) w 1) ∧ Canvas.Bounded x y 1 h ∧
      (isSigned (x + w) = true ∧ isSigned (x + w - 1) = true) ∧ Canvas.Bounded (x + w - 1) y 1 h
  | line x0 y0 x1 y1 thickness => LineBounded x0 y0 x1 y1 thickness
  | disc x y radius => isSigned ((radius : Int) * radius + radius * radius) = true ∧
      (isSigned (x - radius) && isSigned (x + radius) && isSigned (y - radius) && isSigned (y + radius)) = true
  | text x y s scale => (isSigned (textReach s scale) && isSigned (x + textReach s scale)) = true ∧
      ∀ cell ∈ Glyph.textCells s, SquareBounded (x + cell.1 * scale) (y + cell.2 * scale) scale
  | textUpward x y s scale => (isSigned (textReach s scale) && isSigned (y - textReach s scale)) = true ∧
      ∀ cell ∈ Glyph.textCells s, SquareBounded (x + cell.2 * scale) (y - (cell.1 + 1) * scale) scale

/-- The positions that a drawing visits, on the canvas and off it. -/
def region : Drawing → Set (Int × Int)
  | put x y => {(x, y)}
  | fill x y w h => rectangle x y w h
  | stroke x y w h =>
      rectangle x y w 1 ∪ rectangle x (y + h - 1) w 1 ∪ rectangle x y 1 h ∪ rectangle (x + w - 1) y 1 h
  | line x0 y0 x1 y1 thickness => {p | ∃ q ∈ linePositions x0 y0 x1 y1, p ∈ square thickness q}
  | disc x y radius => {p | (p.1 - x) ^ 2 + (p.2 - y) ^ 2 ≤ radius ^ 2}
  | text x y s scale =>
      {p | ∃ cell ∈ Glyph.textCells s, p ∈ rectangle (x + cell.1 * scale) (y + cell.2 * scale) scale scale}
  | textUpward x y s scale =>
      {p | ∃ cell ∈ Glyph.textCells s, p ∈ rectangle (x + cell.2 * scale) (y - (cell.1 + 1) * scale) scale scale}

theorem disc_region (x y : Int) (radius : Nat) : (disc x y radius).region =
    {p | p ∈ rectangle (x - radius) (y - radius) (2 * radius + 1) (2 * radius + 1) ∧ inDisc x y radius p.1 p.2 = true} := by
  have hside : ∀ {u v : Int}, u ^ 2 + v ^ 2 ≤ radius ^ 2 → |u| ≤ radius := fun {u v} h =>
    abs_le_of_sq_le_sq (by nlinarith [sq_nonneg v]) (Int.natCast_nonneg radius)
  ext p
  simp only [region, rectangle, Set.mem_ofPred_eq, inDisc, decide_eq_true_eq, ← sq]
  constructor
  · intro h
    have hx := abs_le.mp (hside h)
    have hy := abs_le.mp (hside (Int.add_comm _ _ ▸ h))
    exact ⟨⟨by omega, by omega⟩, h⟩
  · exact And.right

variable {c : Canvas}

theorem needs_lastOf {f : Int → Canvas → Result Canvas} {v n : Int} {P : Prop} (hf : Needs (f (v + n - 1)) P) :
    Needs (fun c => lastOf v n >>= fun e => f e c) ((isSigned (v + n) = true ∧ isSigned (v + n - 1) = true) ∧ P) := by
  have h : Needs (fun c => signed (v + n) >>= fun s => signed (s - 1) >>= fun e => f e c) _ :=
    .signed (f := fun s c => signed (s - 1) >>= fun e => f e c) (.signed hf)
  simpa only [lastOf, bind_assoc, and_assoc] using h

theorem lastOf_bind_eq_ok {v n : Int} {f : Int → Result Canvas} {c' : Canvas} (h : (lastOf v n >>= f) = .ok c') :
    f (v + n - 1) = .ok c' := by
  rw [lastOf, bind_assoc] at h
  exact (signed_bind_eq_ok.mp (signed_bind_eq_ok.mp h).2).2

/-- A drawing is done just where its numbers have their bits; elsewhere it is a misuse. -/
theorem draw_needs (d : Drawing) (k : Colour) : Needs (fun c : Canvas => d.draw c k) d.Bounded := by
  cases d with
  | put x y => exact needs_ok fun c : Canvas => c.put x y k
  | fill x y w h => exact fill_needs x y w h k
  | stroke x y w h =>
      have hbottom := needs_lastOf (f := fun v (c : Canvas) => c.fill x v w 1 k) (fill_needs x (y + h - 1) w 1 k)
      have hright := needs_lastOf (f := fun v (c : Canvas) => c.fill v y 1 h k) (fill_needs (x + w - 1) y 1 h k)
      have hstroke := (fill_needs x y w 1 k).bind (hbottom.bind ((fill_needs x y 1 h k).bind hright))
      simp only [bind_assoc] at hstroke
      exact hstroke
  | line x0 y0 x1 y1 thickness => exact line_needs x0 y0 x1 y1 thickness k
  | disc x y radius => exact (needs_require _ _).require _
  | text x y s scale => exact (Needs.foldlM (fun cell => fillSquare_needs _ _ scale k) _).require _
  | textUpward x y s scale => exact (Needs.foldlM (fun cell => fillSquare_needs _ _ scale k) _).require _

theorem paints {c' : Canvas} (hc : c.Framed) {k : Colour} {d : Drawing} (h : d.draw c k = .ok c') :
    Paints c c' d.region k := by
  cases d with
  | put x y => exact Except.ok.inj h ▸ put_paints hc x y k
  | fill x y w h => exact fill_paints hc h
  | stroke x y w h =>
      obtain ⟨c₁, htop, h⟩ := bind_eq_ok.mp h
      obtain ⟨c₂, hbottom, h⟩ := bind_eq_ok.mp (lastOf_bind_eq_ok (f := fun e => c₁.fill x e w 1 k >>= _) h)
      obtain ⟨c₃, hleft, h⟩ := bind_eq_ok.mp h
      have htop := fill_paints hc htop
      have hbottom := fill_paints htop.framed hbottom
      have hleft := fill_paints hbottom.framed hleft
      have hright := fill_paints hleft.framed (lastOf_bind_eq_ok h)
      exact ((htop.union hbottom).union hleft).union hright
  | line x0 y0 x1 y1 thickness =>
      exact Paints.foldlM (f := fun c q => c.stamp thickness k q) (fun _ _ _ hc => fillSquare_paints hc) hc
        (foldlM_of_line h)
  | disc x y radius =>
      rw [disc_region]
      obtain rfl := pure_eq_ok_iff.mp (require_bind_eq_ok.mp (require_bind_eq_ok.mp h).2).2
      exact fillWhere_paints hc ..
  | text x y s scale =>
      obtain ⟨-, h⟩ := require_bind_eq_ok.mp h
      exact Paints.foldlM (fun _ _ _ hc hcell => fillSquare_paints hc hcell) hc h
  | textUpward x y s scale =>
      obtain ⟨-, h⟩ := require_bind_eq_ok.mp h
      exact Paints.foldlM (fun _ _ _ hc hcell => fillSquare_paints hc hcell) hc h

/-- A picture is drawn one thing over the other. -/
def picture (c : Canvas) (ds : List (Drawing × Colour)) : Result Canvas := ds.foldlM (fun c d => d.1.draw c d.2) c

variable {i j : Nat} {ds es : List (Drawing × Colour)} {c' : Canvas}

theorem picture_cons {d : Drawing} {k : Colour} :
    picture c ((d, k) :: ds) = d.draw c k >>= fun c => picture c ds := List.foldlM_cons

theorem picture_append : picture c (ds ++ es) = picture c ds >>= fun c => picture c es := List.foldlM_append

theorem picture_needs (ds : List (Drawing × Colour)) : Needs (fun c => picture c ds) (∀ d ∈ ds, d.1.Bounded) :=
  Needs.foldlM (f := fun (c : Canvas) (d : Drawing × Colour) => d.1.draw c d.2) (fun d => d.1.draw_needs d.2) ds

theorem picture_of_hidden (hc : c.Framed) (h : picture c ds = .ok c') (hi : i < c.width) (hj : j < c.height)
    (hds : ∀ d ∈ ds, ¬ Shown d.1.region i j) : c'.pixel? i j = c.pixel? i j := by
  induction ds generalizing c with
  | nil => rw [Except.ok.inj h]
  | cons d ds ih =>
      obtain ⟨hd, hds⟩ := List.forall_mem_cons.mp hds
      obtain ⟨mid, hmid, h⟩ := bind_eq_ok.mp h
      have hp := paints hc hmid
      rw [ih hp.framed h (hi.trans_eq hp.width.symm) (hj.trans_eq hp.height.symm) hds, hp.hidden hi hj hd]

/-- A drawing whose numbers have 64 bits colours the pixels that its region falls on, modulo the period of the axes, and
leaves the others of the canvas as they are; any other one is a misuse. A drawing is clipped when its region stays
within the first period: then exactly its own pixels are coloured, however far it reaches past the edges. -/
theorem draw_clipped (hc : c.Framed) (k : Colour) :
    (∀ d : Drawing, ((∃ c', d.draw c k = .ok c') ↔ d.Bounded) ∧ (¬ d.Bounded → d.draw c k = .error .misuse) ∧
      ∀ c', d.draw c k = .ok c' → Paints c c' d.region k ∧
        ((∀ p ∈ d.region, p.1 < period ∧ p.2 < period) → ∀ i < c.width, ∀ j < c.height,
          (((i : Int), (j : Int)) ∈ d.region → c'.pixel? i j = .ok k) ∧
          (((i : Int), (j : Int)) ∉ d.region → c'.pixel? i j = c.pixel? i j))) ∧
    ∀ x y, Canvas.Bounded x y 1 1 → c.fill x y 1 1 k = .ok (c.put x y k) := by
  refine ⟨fun d => ⟨(d.draw_needs k).answers c, (d.draw_needs k c).2, fun c' h => ?_⟩, fun x y hxy => put_eq_fill hc hxy k⟩
  have hd := paints hc h
  refine ⟨hd, fun hnear i hi j hj => ⟨fun h => ?_, fun h => ?_⟩⟩
  · exact hd.shown hi hj ((shown_iff_mem hnear).mpr h)
  · exact hd.hidden hi hj (mt (shown_iff_mem hnear).mp h)

theorem draw_clipped_left : ∃ c, (blank 4 4 ⟨0, 0, 255⟩).fill (-2) 1 3 1 ⟨1, 7, 254⟩ = .ok c ∧
    c.pixel? 0 1 = .ok ⟨1, 7, 254⟩ ∧ c.pixel? 1 1 = .ok ⟨0, 0, 255⟩ := by
  obtain ⟨hanswers, -, hdrawn⟩ := (draw_clipped (framed_blank 4 4 ⟨0, 0, 255⟩) ⟨1, 7, 254⟩).1 (fill (-2) 1 3 1)
  obtain ⟨c, hfill⟩ := hanswers.mpr ⟨by decide, fun _ => by decide⟩
  have hnear : ∀ p ∈ (fill (-2) 1 3 1).region, p.1 < period ∧ p.2 < period := by
    rintro ⟨u, v⟩ ⟨⟨-, hx⟩, -, hy⟩
    have hperiod : 4 ≤ period := by decide
    exact ⟨by omega, by omega⟩
  have hpixels := (hdrawn c hfill).2 hnear
  refine ⟨c, hfill, (hpixels 0 (by decide) 1 (by decide)).1 ⟨by decide, by decide⟩,
    ((hpixels 1 (by decide) 1 (by decide)).2 ?_).trans rfl⟩
  exact fun h => absurd h.1.2 (by decide)

/-- A pixel that is `2 ^ 32` places to the right of the corner colours the corner. -/
theorem fill_comes_round : ((0 : Int), (0 : Int)) ∉ rectangle (2 ^ 32) 0 1 1 ∧
    (blank 4 4 ⟨0, 0, 255⟩).pixel? 0 0 = .ok ⟨0, 0, 255⟩ ∧
      ∃ c, (blank 4 4 ⟨0, 0, 255⟩).fill (2 ^ 32) 0 1 1 ⟨1, 7, 254⟩ = .ok c ∧ c.pixel? 0 0 = .ok ⟨1, 7, 254⟩ := by
  obtain ⟨c, hfill⟩ := ((fill_needs (2 ^ 32) 0 1 1 ⟨1, 7, 254⟩).answers (blank 4 4 ⟨0, 0, 255⟩)).mpr
    ⟨by decide, fun _ => by decide⟩
  refine ⟨fun h => absurd h.1.1 (by decide), rfl, c, hfill, ?_⟩
  refine (fill_paints (framed_blank 4 4 ⟨0, 0, 255⟩) hfill).shown (by decide) (by decide) ?_
  exact ⟨(2 ^ 32, 0), ⟨by decide, by decide⟩, ⟨by decide, by decide⟩, by decide, by decide⟩

end Drawing

end Convnet.Canvas
