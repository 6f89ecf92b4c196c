import Mathlib.Data.EReal.Inv
import Convnet.Proofs.Correlation
import Convnet.Proofs.Tangent

namespace Convnet

open Finset Buffer

/-- Linearly ordered numbers that add up in any order. A number that is not above the bottom is below all others. -/
class OrderedScalar (R : Type) extends AddCommMonoid R, LinearOrder R, Scalar R where
  le_of_not_above : ∀ {a : R}, Scalar.aboveBottom a = false → ∀ b, a ≤ b

abbrev OrderedScalar.ofField {K : Type} [Field K] [LinearOrder K] [Elementary K] : OrderedScalar K :=
  { (inferInstance : ExactScalar K), (inferInstance : LinearOrder K) with
    le_of_not_above := fun h => Bool.noConfusion (show true = false from h) }

noncomputable instance : OrderedScalar EReal where
  ofScientific m s e := ((OfScientific.ofScientific m s e : ℝ) : EReal)
  beq a b := decide (a = b)
  decLT := inferInstance
  bottom := ⊥
  aboveBottom x := decide (⊥ < x)
  sqrt x := (Real.sqrt x.toReal : ℝ)
  exp x := (Real.exp x.toReal : ℝ)
  ln x := (Real.log x.toReal : ℝ)
  tanh x := (Real.tanh x.toReal : ℝ)
  eulerPow x := (Real.exp x.toReal : ℝ)
  floor x := ⌊x.toReal⌋₊
  round x := round x.toReal
  isFinite x := decide (x ≠ ⊥ ∧ x ≠ ⊤)
  text _ := ""
  fixed _ _ := ""
  le_of_not_above h b := by
    have hbottom := of_decide_eq_false h
    rw [bot_lt_iff_ne_bot, not_not] at hbottom
    exact hbottom ▸ bot_le

namespace Scalar

variable {R : Type} [OrderedScalar R]

theorem foldl_prefer_first {ι : Type} (f : ι → R) (is : List ι) :
    (is.foldl (fun kept i => prefer kept (f i) i) none = none ∧ ∀ i ∈ is, aboveBottom (f i) = false) ∨
      ∃ front i back, is = front ++ i :: back ∧
        is.foldl (fun kept i => prefer kept (f i) i) none = some (f i, i) ∧
        (∀ j ∈ front, f j < f i) ∧ ∀ j ∈ back, f j ≤ f i := by
  induction is using List.reverseRecOn with
  | nil => exact .inl ⟨rfl, fun _ h => absurd h List.not_mem_nil⟩
  | append_singleton is k ih =>
      rw [List.foldl_append, List.foldl_cons, List.foldl_nil]
      rcases ih with ⟨hnone, hlow⟩ | ⟨front, i, back, rfl, hsome, hfront, hback⟩
      · rw [hnone, prefer]
        cases hk : aboveBottom (f k) with
        | false =>
            refine .inl ⟨rfl, fun j hj => ?_⟩
            rcases List.mem_append.mp hj with hj | hj
            · exact hlow j hj
            · rwa [List.mem_singleton.mp hj]
        | true =>
            refine .inr ⟨is, k, [], rfl, rfl, fun j hj => ?_, fun j hj => absurd hj List.not_mem_nil⟩
            have hne : f j ≠ f k := by
              intro heq
              rw [← heq, hlow j hj] at hk
              exact Bool.false_ne_true hk
            exact lt_of_le_of_ne (OrderedScalar.le_of_not_above (hlow j hj) _) hne
      · rw [hsome, prefer]
        right
        by_cases hk : f i < f k
        · rw [if_pos hk]
          refine ⟨front ++ i :: back, k, [], rfl, rfl, fun j hj => ?_, fun j hj => absurd hj List.not_mem_nil⟩
          rcases List.mem_append.mp hj with hj | hj
          · exact (hfront j hj).trans hk
          · rcases List.mem_cons.mp hj with rfl | hj
            · exact hk
            · exact (hback j hj).trans_lt hk
        · rw [if_neg hk]
          refine ⟨front, i, back ++ [k], by simp, rfl, hfront, fun j hj => ?_⟩
          rcases List.mem_append.mp hj with hj | hj
          · exact hback j hj
          · rw [List.mem_singleton.mp hj]
            exact not_lt.mp hk

end Scalar

namespace Buffer

variable {R : Type} [OrderedScalar R]

theorem read_foldl_bump (ps : List (Nat × R)) (a : Array R) {i : Nat} (hi : i < a.size) :
    read (ps.foldl (fun a p => bump a p.1 p.2) a) i =
      read a i + (ps.map fun p => if p.1 = i then p.2 else 0).sum := by
  induction ps generalizing a with
  | nil => exact (add_zero _).symm
  | cons p ps ih =>
      rw [List.foldl_cons, ih (bump a p.1 p.2) (by rwa [size_bump]), read_bump, List.map_cons, List.sum_cons,
        ← add_assoc]
      by_cases hp : p.1 = i
      · rw [if_pos ⟨hp, hi⟩, if_pos hp]
      · rw [if_neg fun h => hp h.1, if_neg hp, add_zero]

end Buffer

namespace Pooling

def place (l : Pooling) (s : Shape) (oy ox c py px : Nat) : Nat :=
  s.index (oy * l.stride + py) (ox * l.stride + px) c

theorem window_eq (l : Pooling) (s : Shape) (oy ox c : Nat) : l.window s oy ox c =
    (List.product (List.range l.poolSize) (List.range l.poolSize)).map fun q => l.place s oy ox c q.1 q.2 := by
  rw [List.product, List.map_flatMap, window]
  simp only [List.map_map]
  rfl

theorem pairwise_cells (p : Nat) : (List.product (List.range p) (List.range p)).Pairwise fun q r =>
    q.1 < r.1 ∨ q.1 = r.1 ∧ q.2 < r.2 := by
  refine List.pairwise_flatMap.mpr ⟨fun py _ => ?_, ?_⟩
  · exact List.pairwise_map.mpr (List.pairwise_lt_range.imp fun h => .inr ⟨rfl, h⟩)
  · refine List.pairwise_lt_range.imp fun h q hq r hr => .inl ?_
    obtain ⟨-, -, rfl⟩ := List.mem_map.mp hq
    obtain ⟨-, -, rfl⟩ := List.mem_map.mp hr
    exact h

theorem windowOf_index (l : Pooling) (s cells : Shape) (oy : Nat) {ox c : Nat} (hx : ox < cells.width)
    (hc : c < cells.channels) : l.windowOf s cells (cells.index oy ox c) = l.window s oy ox c := by
  obtain ⟨hpixel, hchannel⟩ := div_mod_mul_add (oy * cells.width + ox) hc
  obtain ⟨hrow, hcolumn⟩ := div_mod_mul_add oy hx
  rw [windowOf, Shape.index, hpixel, hchannel, hrow, hcolumn]

section Passes

variable {α : Type} [Scalar α]

def under (l : Pooling) (x : Tensor α) (oy ox c py px : Nat) : α := x.get (l.place x.shape oy ox c py px)

theorem forward_eq {l : Pooling} (hs : 0 < l.stride) {x : Tensor α} (hx : x.shape = l.inputShape) (hxs : x.Sized)
    (training : Bool) : l.forward x training = if Buffer.fits l.outputShape.size then
      .ok (l.remember x training, ⟨l.outputShape, l.output x⟩) else .error .misuse := by
  have hstride : (l.stride != 0) = true := bne_iff_ne.mpr (Nat.ne_of_gt hs)
  have hsize : x.data.size = l.inputShape.size := hx ▸ hxs
  split
  case isTrue hf =>
      exact forward_eq_ok.mpr ⟨by simp [countsWindows, hstride, hf, hsize, hx, l.reaches_outputShape], rfl⟩
  case isFalse hf => simp [forward, hf]

theorem backward_eq {l : Pooling} {d : Tensor α} (h : l.RunsBack d) : l.backward d =
    if Buffer.fits l.inputShape.size then .ok (l, ⟨l.inputShape, l.route d⟩) else .error .misuse := by
  split
  case isTrue hf => exact backward_eq_ok.mpr ⟨hf, h, rfl⟩
  case isFalse hf => simp [backward, hf]

theorem at?_output (l : Pooling) (x : Tensor α) {oy ox c : Nat} (hy : oy < l.outputShape.height)
    (hx : ox < l.outputShape.width) (hc : c < l.outputShape.channels) :
    (⟨l.outputShape, l.output x⟩ : Tensor α).at? oy ox c = .ok (match l.kind with
      | .max => (best x.data (l.window x.shape oy ox c)).1
      | .average => l.mean x.data (l.window x.shape oy ox c)) := by
  have hplace := Shape.index_lt hy hx hc
  rw [Tensor.at?_eq (x := ⟨l.outputShape, l.output x⟩) (hplace.trans_eq (l.size_output x).symm),
    ← windowOf_index l _ _ oy hx hc]
  exact congrArg Except.ok (read_output l x hplace)

end Passes

section Maximum

variable {R : Type} [OrderedScalar R] {l : Pooling} {x : Tensor R}

/-- The first of the largest numbers of a window, row by row. -/
structure Winner (l : Pooling) (x : Tensor R) (oy ox c py px : Nat) : Prop where
  row : py < l.poolSize
  column : px < l.poolSize
  largest : ∀ qy < l.poolSize, ∀ qx < l.poolSize, l.under x oy ox c qy qx ≤ l.under x oy ox c py px
  first : ∀ qy < l.poolSize, ∀ qx < l.poolSize, qy < py ∨ qy = py ∧ qx < px →
    l.under x oy ox c qy qx < l.under x oy ox c py px

theorem Winner.unique {oy ox c py px qy qx : Nat} (hp : l.Winner x oy ox c py px) (hq : l.Winner x oy ox c qy qx) :
    py = qy ∧ px = qx := by
  have hbefore : ¬ (py < qy ∨ py = qy ∧ px < qx) := fun h =>
    (hp.largest qy hq.row qx hq.column).not_gt (hq.first py hp.row px hp.column h)
  have hafter : ¬ (qy < py ∨ qy = py ∧ qx < px) := fun h =>
    (hq.largest py hp.row px hp.column).not_gt (hp.first qy hq.row qx hq.column h)
  omega

/-- What maximum pooling gives for an image, and the places that it remembers. -/
structure Picks (l : Pooling) (x y : Tensor R) (winners : Array Nat) : Prop where
  shape : y.shape = l.outputShape
  sized : y.Sized
  length : winners.size = l.outputShape.size
  cell : ∀ oy < l.outputShape.height, ∀ ox < l.outputShape.width, ∀ c < l.outputShape.channels,
    ∃ py px, l.Winner x oy ox c py px ∧ y.at? oy ox c = .ok (l.under x oy ox c py px) ∧
      winners[l.outputShape.index oy ox c]? = some (l.place x.shape oy ox c py px)

/-- Where the numbers of a gradient go: to the places that were remembered, and none of them is lost. -/
structure Routes (l : Pooling) (winners : Array Nat) (d g : Tensor R) : Prop where
  shape : g.shape = l.inputShape
  sized : g.Sized
  cell : ∀ i < l.inputShape.size, g.get i = ∑ o ∈ range l.outputShape.size with winners[o]? = some i, d.get o
  whole : ∑ i ∈ range l.inputShape.size, g.get i = ∑ o ∈ range l.outputShape.size, d.get o

theorem exists_winner {oy ox c : Nat}
    (h : ∃ py < l.poolSize, ∃ px < l.poolSize, Scalar.aboveBottom (l.under x oy ox c py px) = true) :
    ∃ py px, l.Winner x oy ox c py px ∧ best x.data (l.window x.shape oy ox c) =
      (l.under x oy ox c py px, l.place x.shape oy ox c py px) := by
  have hmem : ∀ {qy qx}, qy < l.poolSize → qx < l.poolSize →
      (qy, qx) ∈ List.product (List.range l.poolSize) (List.range l.poolSize) := fun hy hx =>
    List.mem_product.mpr ⟨List.mem_range.mpr hy, List.mem_range.mpr hx⟩
  rw [best, window_eq]
  rcases Scalar.foldl_prefer_first (Buffer.read x.data) ((List.product (List.range l.poolSize)
    (List.range l.poolSize)).map fun q => l.place x.shape oy ox c q.1 q.2) with
    ⟨-, hlow⟩ | ⟨front, i, back, hsplit, hsome, hfront, hback⟩
  · obtain ⟨py, hpy, px, hpx, habove⟩ := h
    have hbelow := hlow _ (List.mem_map_of_mem (hmem hpy hpx))
    exact absurd (habove.symm.trans hbelow) Bool.noConfusion
  · obtain ⟨before, rest, hcells, rfl, hrest⟩ := List.map_eq_append_iff.mp hsplit
    obtain ⟨⟨py, px⟩, after, rfl, rfl, rfl⟩ := List.map_eq_cons_iff.mp hrest
    have hin : (py, px) ∈ List.product (List.range l.poolSize) (List.range l.poolSize) := by
      rw [hcells]
      simp
    obtain ⟨hpy, hpx⟩ := List.mem_product.mp hin
    have hordered := List.pairwise_append.mp (hcells ▸ pairwise_cells l.poolSize)
    have hafter := (List.pairwise_cons.mp hordered.2.1).1
    refine ⟨py, px, ⟨List.mem_range.mp hpy, List.mem_range.mp hpx, ?_, ?_⟩, by rw [hsome]; rfl⟩
    · intro qy hqy qx hqx
      have hq := hmem hqy hqx
      rw [hcells, List.mem_append, List.mem_cons] at hq
      rcases hq with hq | hq | hq
      · exact (hfront _ (List.mem_map_of_mem hq)).le
      · obtain ⟨rfl, rfl⟩ := Prod.mk.inj hq
        exact le_rfl
      · exact hback _ (List.mem_map_of_mem hq)
    · intro qy hqy qx hqx hbefore
      have hq := hmem hqy hqx
      rw [hcells, List.mem_append, List.mem_cons] at hq
      rcases hq with hq | hq | hq
      · exact hfront _ (List.mem_map_of_mem hq)
      · obtain ⟨rfl, rfl⟩ := Prod.mk.inj hq
        omega
      · have hlater := hafter _ hq
        dsimp only at hlater
        omega

/-- Whether every window holds a number that is above the bottom. -/
def Seen (l : Pooling) (x : Tensor R) : Prop :=
  ∀ oy < l.outputShape.height, ∀ ox < l.outputShape.width, ∀ c < l.outputShape.channels,
    ∃ py < l.poolSize, ∃ px < l.poolSize, Scalar.aboveBottom (l.under x oy ox c py px) = true

def winnersOf (l : Pooling) (x : Tensor R) : Array Nat := (l.found x).map (·.2)

theorem getElem?_winnersOf (l : Pooling) (x : Tensor R) {o : Nat} (ho : o < l.outputShape.size) :
    (l.winnersOf x)[o]? = some (best x.data (l.windowOf x.shape l.outputShape o)).2 := by
  simp [winnersOf, found, ho]

theorem Seen.winners_lt (h : l.Seen x) (hx : x.shape = l.inputShape) :
    ∀ i ∈ l.winnersOf x, i < l.inputShape.size := by
  intro i hi
  obtain ⟨o, ho, rfl⟩ := Array.mem_iff_getElem.mp hi
  have ho' : o < l.outputShape.size := by simpa [winnersOf, found] using ho
  obtain ⟨hy, hx', hc⟩ := Shape.split_lt ho'
  obtain ⟨py, px, hw, hbest⟩ := exists_winner (h _ hy _ hx' _ hc)
  have hvalue := l.getElem?_winnersOf x ho'
  rw [Array.getElem?_eq_getElem ho, Option.some.injEq] at hvalue
  rw [hvalue, windowOf, hbest, place, hx]
  exact Shape.index_lt (window_end_le hy hw.row) (window_end_le hx' hw.column) hc

theorem Seen.picks (h : l.Seen x) (hk : l.kind = .max) :
    l.Picks x ⟨l.outputShape, l.output x⟩ (l.winnersOf x) where
  shape := rfl
  sized := l.size_output x
  length := by simp [winnersOf, found]
  cell := by
    intro oy hy ox hx c hc
    obtain ⟨py, px, hw, hbest⟩ := exists_winner (h oy hy ox hx c hc)
    refine ⟨py, px, hw, ?_, ?_⟩
    · rw [at?_output l x hy hx hc, hk]
      exact congrArg (fun b : R × Nat => Except.ok b.1) hbest
    · rw [l.getElem?_winnersOf x (Shape.index_lt hy hx hc), windowOf_index l _ _ oy hx hc, hbest]

theorem read_routeMax {d : Array R} (hd : l.winners.size = d.size) {i : Nat} (hi : i < l.inputShape.size) :
    Buffer.read (l.routeMax d) i = ∑ o ∈ range d.size with l.winners[o]? = some i, Buffer.read d o := by
  have hterms : (l.winners.zip d).toList.map (fun p => if p.1 = i then p.2 else 0) =
      (List.range d.size).map fun o => if l.winners[o]? = some i then Buffer.read d o else 0 := by
    apply List.ext_getElem
    · simp [hd]
    · intro o h₁ h₂
      have ho : o < d.size := by simpa using h₂
      simp [read_of_lt ho, hd ▸ ho]
  rw [routeMax, ← Array.foldl_toList, read_foldl_bump _ _ (by simpa using hi), read_zeros, zero_add, hterms,
    sum_filter]
  rfl

theorem routes_of_winners (hw : l.winners.size = l.outputShape.size) (hin : ∀ i ∈ l.winners, i < l.inputShape.size)
    {d : Tensor R} (hd : d.data.size = l.outputShape.size) :
    l.Routes l.winners d ⟨l.inputShape, l.routeMax d.data⟩ := by
  have hcell : ∀ i < l.inputShape.size, Buffer.read (l.routeMax d.data) i =
      ∑ o ∈ range l.outputShape.size with l.winners[o]? = some i, d.get o := by
    intro i hi
    rw [read_routeMax (hw.trans hd.symm) hi, hd]
    rfl
  refine ⟨rfl, l.size_routeMax d.data, hcell, ?_⟩
  have hmaps : ∀ o ∈ range l.outputShape.size, l.winners.getD o 0 ∈ range l.inputShape.size := by
    intro o ho
    have ho : o < l.winners.size := hw.symm ▸ mem_range.mp ho
    rw [mem_range, Array.getD_eq_getD_getElem?, Array.getElem?_eq_getElem ho]
    exact hin _ (Array.getElem_mem ho)
  have hfiber : ∀ i, {o ∈ range l.outputShape.size | l.winners[o]? = some i} =
      {o ∈ range l.outputShape.size | l.winners.getD o 0 = i} := by
    intro i
    refine filter_congr fun o ho => ?_
    have ho : o < l.winners.size := hw.symm ▸ mem_range.mp ho
    simp [ho]
  refine (sum_congr rfl fun i hi => hcell i (mem_range.mp hi)).trans ?_
  simp only [hfiber]
  exact sum_fiberwise_of_maps_to hmaps d.get

end Maximum

section Average

variable {K : Type} [Field K] [LinearOrder K] [Elementary K] {l : Pooling} {x d : Tensor K}

/-- What average pooling gives for an image. -/
structure Means (l : Pooling) (x y : Tensor K) : Prop where
  shape : y.shape = l.outputShape
  sized : y.Sized
  cell : ∀ oy < l.outputShape.height, ∀ ox < l.outputShape.width, ∀ c < l.outputShape.channels,
    y.at? oy ox c = .ok ((∑ py ∈ range l.poolSize, ∑ px ∈ range l.poolSize, l.under x oy ox c py px) /
      ((l.poolSize * l.poolSize : Nat) : K))

theorem means_output (l : Pooling) (hk : l.kind = .average) (x : Tensor K) :
    l.Means x ⟨l.outputShape, l.output x⟩ where
  shape := rfl
  sized := l.size_output x
  cell := by
    intro oy hy ox hx c hc
    rw [at?_output l x hy hx hc, hk]
    refine congrArg Except.ok ((mean_eq x.data l _).trans ?_)
    rw [window, sum_map_flatMap, sum_map_range]
    refine congrArg (· / l.area) (sum_congr rfl fun py _ => ?_)
    rw [List.map_map, sum_map_range]
    rfl

theorem sum_mean_mul (hk : l.kind = .average) (hx : x.shape = l.inputShape) (hd : d.shape = l.outputShape) :
    ∑ o ∈ range l.outputShape.size, Buffer.read (l.output x) o * d.get o =
      ∑ i ∈ range l.inputShape.size, x.get i * Buffer.read (l.routeAverage d) i := by
  have htotal := total_routeAverage (fun i => AddMonoidHom.mulLeft (x.get i)) (l := l) (g := d) fun o ho i hi => by
    rw [hd] at ho hi
    exact windowOf_lt ho hi
  rw [total, size_routeAverage, hd] at htotal
  refine (sum_congr rfl fun o ho => ?_).trans htotal.symm
  rw [read_output l x (mem_range.mp ho), hk, hx]
  dsimp only
  rw [mean_eq]
  have hshare := List.sum_map_mul_right (l.windowOf l.inputShape l.outputShape o) x.get (d.get o * (1 / l.area))
  refine Eq.trans ?_ hshare.symm
  rw [one_div, mul_comm (d.get o), ← mul_assoc]
  exact congrArg (· * d.get o) (div_eq_mul_inv _ _)

end Average

/-- The windows of pooling lie in the image. Maximum pooling gives the first of the largest numbers of each
window, in training as well as outside, and the pass back sends every number of a gradient to the place that
training remembered for it. Average pooling gives the means of the windows, and its pass back is the adjoint of
that. A pass fails only where no buffer can hold what it gives. -/
theorem windows_routed {R K : Type} [OrderedScalar R] [Field K] [LinearOrder K] [Elementary K] {l : Pooling}
    (hs : 0 < l.stride) (hh : l.poolSize ≤ l.inputShape.height) (hw : l.poolSize ≤ l.inputShape.width) :
    l.outputShape = ⟨(l.inputShape.height - l.poolSize) / l.stride + 1,
      (l.inputShape.width - l.poolSize) / l.stride + 1, l.inputShape.channels⟩ ∧
    (∀ oy < l.outputShape.height, ∀ ox < l.outputShape.width, ∀ py < l.poolSize, ∀ px < l.poolSize,
      oy * l.stride + py < l.inputShape.height ∧ ox * l.stride + px < l.inputShape.width) ∧
    (l.kind = .max → ∀ x : Tensor R, x.shape = l.inputShape → x.Sized → l.Seen x → ∃ y winners,
      l.Picks x y winners ∧
      (∀ training, l.forward x training = if Buffer.fits l.outputShape.size then
        .ok (if training then { l with winners := winners } else l, y) else .error .misuse) ∧
      ∀ d : Tensor R, d.data.size = l.outputShape.size → ∃ g, l.Routes winners d g ∧
        ({ l with winners := winners } : Pooling).backward d = if Buffer.fits l.inputShape.size then
          .ok ({ l with winners := winners }, g) else .error .misuse) ∧
    (l.kind = .average → ∀ x : Tensor K, x.shape = l.inputShape → x.Sized → ∃ y, l.Means x y ∧
      (∀ training, l.forward x training = if Buffer.fits l.outputShape.size then .ok (l, y) else .error .misuse) ∧
      ∀ d : Tensor K, d.shape = l.outputShape → d.Sized → ∃ g : Tensor K, g.shape = l.inputShape ∧ g.Sized ∧
        (l.backward d = if Buffer.fits l.inputShape.size then .ok (l, g) else .error .misuse) ∧
        ∑ o ∈ range l.outputShape.size, y.get o * d.get o =
          ∑ i ∈ range l.inputShape.size, x.get i * g.get i) := by
  refine ⟨?_, ?_, ?_, ?_⟩
  · rw [outputShape, windows, windows, if_neg (Nat.not_lt.mpr hh), if_neg (Nat.not_lt.mpr hw)]
  · intro oy hy ox hx py hpy px hpx
    exact ⟨window_end_le hy hpy, window_end_le hx hpx⟩
  · intro hk x hx hxs hseen
    refine ⟨⟨l.outputShape, l.output x⟩, l.winnersOf x, hseen.picks hk, fun training => ?_, fun d hd => ?_⟩
    · rw [forward_eq hs hx hxs, remember, hk]
      rfl
    · have hsize : (l.winnersOf x).size = l.outputShape.size := (hseen.picks hk).length
      have hin := hseen.winners_lt hx
      obtain ⟨hshape, hsized, hcell, hwhole⟩ :=
        routes_of_winners (l := { l with winners := l.winnersOf x }) hsize hin hd
      have hback : ({ l with winners := l.winnersOf x } : Pooling).RunsBack d := by
        simp only [RunsBack, hk, Bool.and_eq_true, beq_iff_eq, Array.all_eq_true_iff_forall_mem, decide_eq_true_eq]
        exact ⟨hsize.trans hd.symm, hin⟩
      refine ⟨_, ⟨hshape, hsized, hcell, hwhole⟩, ?_⟩
      rw [backward_eq hback, route]
      simp only [hk]
  · intro hk x hx hxs
    refine ⟨⟨l.outputShape, l.output x⟩, l.means_output hk x, fun training => ?_, fun d hd hds => ?_⟩
    · rw [forward_eq hs hx hxs, remember, hk]
    · have hreach : l.reaches l.inputShape d.shape l.inputShape.size = true := hd ▸ l.reaches_outputShape
      have hback : l.RunsBack d := by simp [RunsBack, hk, hds, hreach]
      refine ⟨⟨l.inputShape, l.routeAverage d⟩, rfl, l.size_routeAverage d, ?_, sum_mean_mul hk hx hd⟩
      rw [backward_eq hback, route, hk]

theorem windows_routed_tied : ∃ (l l' : Pooling) (x y d g : Tensor EReal),
    0 < l.stride ∧ l.poolSize ≤ l.inputShape.height ∧ l.poolSize ≤ l.inputShape.width ∧ l.kind = .max ∧
      x.shape = l.inputShape ∧ x.Sized ∧ l.Seen x ∧ x.at? 0 0 0 = .ok ⊥ ∧ l.forward x true = .ok (l', y) ∧
      y.at? 0 0 0 = .ok 1 ∧ l'.winners[0]? = some 1 ∧ l'.backward d = .ok (l', g) ∧
      ∑ i ∈ range 6, g.get i = ∑ o ∈ range 2, d.get o := by
  obtain ⟨l, hl⟩ : ∃ l : Pooling, l = ⟨.max, 2, 1, ⟨2, 3, 1⟩, #[]⟩ := ⟨_, rfl⟩
  obtain ⟨x, hx⟩ : ∃ x : Tensor EReal, x = ⟨⟨2, 3, 1⟩, #[⊥, 1, 0, 0, 1, 1]⟩ := ⟨_, rfl⟩
  obtain ⟨hs, hh, hw, hk, hcells, hout, hin⟩ : 0 < l.stride ∧ l.poolSize ≤ l.inputShape.height ∧
      l.poolSize ≤ l.inputShape.width ∧ l.kind = .max ∧ l.outputShape = ⟨1, 2, 1⟩ ∧
      Buffer.fits l.outputShape.size = true ∧ Buffer.fits l.inputShape.size = true := by
    subst hl
    decide
  have hshape : x.shape = l.inputShape := by
    subst hl hx
    rfl
  have hsized : x.Sized := by
    subst hx
    rfl
  obtain ⟨hpool, hleft, hright, hdown, hboth, hnext⟩ : l.poolSize = 2 ∧ l.under x 0 0 0 0 0 = ⊥ ∧
      l.under x 0 0 0 0 1 = 1 ∧ l.under x 0 0 0 1 0 = 0 ∧ l.under x 0 0 0 1 1 = 1 ∧ l.under x 0 1 0 0 0 = 1 := by
    subst hl hx
    exact ⟨rfl, rfl, rfl, rfl, rfl, rfl⟩
  have hseen : l.Seen x := by
    intro oy hy ox hx c hc
    rw [hcells] at hy hx hc
    obtain rfl : oy = 0 := Nat.lt_one_iff.mp hy
    obtain rfl : c = 0 := Nat.lt_one_iff.mp hc
    have habove : Scalar.aboveBottom (1 : EReal) = true := decide_eq_true (EReal.bot_lt_coe 1)
    rw [hpool]
    rcases Nat.lt_succ_iff_lt_or_eq.mp hx with hx | rfl
    · obtain rfl : ox = 0 := Nat.lt_one_iff.mp hx
      exact ⟨0, by decide, 1, by decide, by rwa [hright]⟩
    · exact ⟨0, by decide, 0, by decide, by rwa [hnext]⟩
  have hwinner : l.Winner x 0 0 0 0 1 := by
    constructor
    · omega
    · omega
    · intro qy hqy qx hqx
      have htwo : ∀ {n : Nat}, n < l.poolSize → n = 0 ∨ n = 1 := by omega
      rcases htwo hqy with rfl | rfl
      · rcases htwo hqx with rfl | rfl
        · exact hleft ▸ bot_le
        · exact le_rfl
      · rcases htwo hqx with rfl | rfl
        · rw [hdown, hright]
          exact zero_le_one
        · rw [hboth, hright]
    · intro qy hqy qx hqx hbefore
      obtain ⟨rfl, rfl⟩ : qy = 0 ∧ qx = 0 := by omega
      rw [hleft, hright]
      exact EReal.bot_lt_coe 1
  obtain ⟨-, -, hmax, -⟩ := windows_routed (R := EReal) (K := ℝ) hs hh hw
  obtain ⟨y, winners, hpicks, hforward, hback⟩ := hmax hk x hshape hsized hseen
  obtain ⟨g, hroutes, hback⟩ := hback ⟨⟨1, 2, 1⟩, #[0, 1]⟩ (by rw [hcells]; rfl)
  obtain ⟨py, px, hwin, hvalue, hplace⟩ := hpicks.cell 0 (by rw [hcells]; decide) 0 (by rw [hcells]; decide) 0
    (by rw [hcells]; decide)
  obtain ⟨rfl, rfl⟩ := hwin.unique hwinner
  have htrain := hforward true
  rw [if_pos hout] at htrain
  rw [if_pos hin] at hback
  have hwhole := hroutes.whole
  rw [hright] at hvalue
  subst hl hx
  exact ⟨_, _, _, y, _, g, hs, hh, hw, hk, hshape, hsized, hseen, rfl, htrain, hvalue, hplace, hback, hwhole⟩

end Pooling

end Convnet
