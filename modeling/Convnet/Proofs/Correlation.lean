import Convnet.Proofs.Real
import Convnet.Proofs.Sums

namespace Convnet

open Finset Buffer

namespace Tensor

variable {R : Type} [ExactScalar R]

/-- The value of a channel at a place of the plane, which is zero beside the image. -/
def onPlane (x : Tensor R) (row column : Int) (c : Nat) : R :=
  if 0 ≤ row ∧ row < x.shape.height ∧ 0 ≤ column ∧ column < x.shape.width then
    x.get (x.index row.toNat column.toNat c)
  else 0

theorem onPlane_inside {x : Tensor R} {row column : Int} {y z : Nat} (hr : (y : Int) = row)
    (hc : (z : Int) = column) (hy : y < x.shape.height) (hz : z < x.shape.width) (c : Nat) :
    x.onPlane row column c = x.get (x.index y z c) := by
  subst hr hc
  rw [onPlane, if_pos (by omega), Int.toNat_natCast, Int.toNat_natCast]

omit [ExactScalar R] in
theorem at?_eq [Scalar R] {x : Tensor R} {y z c : Nat} (h : x.index y z c < x.data.size) :
    x.at? y z c = .ok (x.get (x.index y z c)) := by
  rw [at?, Array.getElem?_eq_getElem h, get, read_of_lt h]

end Tensor

section Sums

variable {M : Type} [AddCommMonoid M]

theorem sum_map_flatMap {β γ : Type} (xs : List β) (f : β → List γ) (g : γ → M) :
    ((xs.flatMap f).map g).sum = (xs.map fun x => ((f x).map g).sum).sum := by
  induction xs with
  | nil => rfl
  | cons x xs ih => rw [List.flatMap_cons, List.map_append, List.sum_append, ih, List.map_cons, List.sum_cons]

theorem sum_map_range (n : Nat) (g : Nat → M) : ((List.range n).map g).sum = ∑ i ∈ range n, g i := rfl

theorem Padding.sum_map_taps {γ : Type} (stride lead limit kernel o : Nat) (f : Nat → Nat → List γ) (g : γ → M) :
    (((List.range' (tapRange stride lead limit kernel o).1 (tapRange stride lead limit kernel o).2).flatMap fun k =>
      match source? stride lead limit o k with
      | none => []
      | some i => f k i).map g).sum =
    ∑ k ∈ range kernel, (source? stride lead limit o k).elim 0 fun i => ((f k i).map g).sum := by
  have hpart : ∀ (a n : Nat) (h : Nat → M), ((List.range' a n).map h).sum = ∑ k ∈ Ico a (a + n), h k := by
    intro a n h
    rw [Nat.Ico_eq_range', Nat.add_sub_cancel_left]
    rfl
  have hterms : ∀ k, ((match source? stride lead limit o k with
      | none => []
      | some i => f k i).map g).sum = (source? stride lead limit o k).elim 0 fun i => ((f k i).map g).sum := by
    intro k
    cases source? stride lead limit o k <;> rfl
  rw [sum_map_flatMap, hpart, sum_congr rfl fun k _ => hterms k]
  apply sum_subset
  · intro k hk
    simp only [tapRange, mem_Ico] at hk
    rw [mem_range]
    omega
  · intro k hk hout
    rw [source?_of_notMem_tapRange (mem_range.mp hk), Option.elim_none]
    rwa [List.mem_range'_1, ← mem_Ico]

end Sums

namespace Convolution

variable {R : Type} [ExactScalar R] {l : Convolution R} {x : Tensor R}

def correlation (l : Convolution R) (x : Tensor R) (leadY leadX oy ox f : Nat) : R :=
  read l.bias f + ∑ ky ∈ range l.kernelSize, ∑ kx ∈ range l.kernelSize, ∑ c ∈ range l.inputShape.channels,
    x.onPlane ((oy * l.stride + ky : Nat) - leadY) ((ox * l.stride + kx : Nat) - leadX) c *
      read l.kernel (l.kernelOffset ky kx c + f)

omit [ExactScalar R] in
theorem out_eq_of_mem_tapsAt {oy ox : Nat} {t : Tap} (h : t ∈ l.tapsAt oy ox) :
    t.out = (oy * l.columns + ox) * l.filters := by
  simp only [tapsAt, List.mem_flatMap] at h
  obtain ⟨ky, -, h⟩ := h
  cases hy : l.sourceRow? oy ky with
  | none => simp [hy] at h
  | some y =>
      simp only [hy, List.mem_flatMap] at h
      obtain ⟨kx, -, h⟩ := h
      cases hx : l.sourceColumn? ox kx with
      | none => simp [hx] at h
      | some z =>
          simp only [hx, List.mem_map] at h
          obtain ⟨c, -, rfl⟩ := h
          rfl

theorem sum_tapsAt (hx : x.shape = l.inputShape) (oy ox f : Nat) :
    ((l.tapsAt oy ox).map fun t => x.get (x.index t.y t.x t.channel) * read l.kernel (t.weight + f)).sum =
      ∑ ky ∈ range l.kernelSize, ∑ kx ∈ range l.kernelSize, ∑ c ∈ range l.inputShape.channels,
        x.onPlane ((oy * l.stride + ky : Nat) - l.leadRows) ((ox * l.stride + kx : Nat) - l.leadColumns) c *
          read l.kernel (l.kernelOffset ky kx c + f) := by
  rw [tapsAt]
  refine (Padding.sum_map_taps _ _ _ _ _ _ _).trans (sum_congr rfl fun ky _ => ?_)
  cases hy : Padding.source? l.stride l.leadRows l.inputShape.height oy ky with
  | none =>
      -- the whole row of the kernel lies beside the image
      have hout := Padding.source?_eq_none_iff.mp hy
      rw [← hx] at hout
      refine (sum_eq_zero fun kx _ => sum_eq_zero fun c _ => ?_).symm
      rw [Tensor.onPlane, if_neg fun h => hout ⟨h.1, h.2.1⟩, zero_mul]
  | some y =>
      obtain ⟨hrow, hyin⟩ := Padding.source?_eq_some_iff.mp hy
      refine (Padding.sum_map_taps _ _ _ _ _ _ _).trans (sum_congr rfl fun kx _ => ?_)
      cases hz : Padding.source? l.stride l.leadColumns l.inputShape.width ox kx with
      | none =>
          have hout := Padding.source?_eq_none_iff.mp hz
          rw [← hx] at hout
          refine (sum_eq_zero fun c _ => ?_).symm
          rw [Tensor.onPlane, if_neg fun h => hout h.2.2, zero_mul]
      | some z =>
          obtain ⟨hcolumn, hzin⟩ := Padding.source?_eq_some_iff.mp hz
          rw [← hx] at hyin hzin
          rw [Option.elim_some, List.map_map, sum_map_range]
          refine sum_congr rfl fun c _ => ?_
          rw [Tensor.onPlane_inside hrow hcolumn hyin hzin]
          rfl

theorem sum_pick_tapsAt {oy ox f py px : Nat} (hox : ox < l.columns) (hpx : px < l.columns) (hf : f < l.filters)
    (v : Tap → Nat → R) : ((l.tapsAt py px).map fun t => ∑ g ∈ range l.filters,
      pick (AddMonoidHom.id R) (l.outputShape.index oy ox f) (t.out + g) (v t g)).sum =
    if py = oy ∧ px = ox then ((l.tapsAt oy ox).map fun t => v t f).sum else 0 := by
  split
  case isTrue h =>
    obtain ⟨rfl, rfl⟩ := h
    refine congrArg List.sum (List.map_congr_left fun t ht => ?_)
    rw [out_eq_of_mem_tapsAt ht]
    exact sum_pick_add _ hf _
  case isFalse h =>
    refine List.sum_eq_zero fun r hr => ?_
    obtain ⟨t, ht, rfl⟩ := List.mem_map.mp hr
    refine sum_eq_zero fun g hg => (pick_apply ..).trans (if_neg fun hplace => h ?_)
    rw [out_eq_of_mem_tapsAt ht] at hplace
    have hpixel : py * l.columns + px = oy * l.columns + ox := (mul_add_inj (mem_range.mp hg) hf hplace).1
    exact mul_add_inj hpx hox hpixel

theorem read_response (hx : x.shape = l.inputShape) (hc : 0 < l.inputShape.channels) {oy ox f : Nat}
    (hoy : oy < l.rows) (hox : ox < l.columns) (hf : f < l.filters) :
    read (l.response x).data (l.outputShape.index oy ox f) = l.correlation x l.leadRows l.leadColumns oy ox f := by
  have hplace : l.outputShape.index oy ox f < l.outputShape.size := Shape.index_lt hoy hox hf
  have hbias : read l.biasMap (l.outputShape.index oy ox f) = read l.bias f := by
    rw [read_of_lt (by simpa using hplace)]
    simp [biasMap, Shape.index, outputShape, Nat.mod_eq_of_lt hf]
  have hrows : l.tapRows = l.rows := if_neg (by omega)
  have htotal := total_response (pick (AddMonoidHom.id R) (l.outputShape.index oy ox f)) l x
  rw [total_pick _ (by simpa using hplace), total_pick _ (by simpa using hplace), hbias, taps, hrows,
    sum_map_flatMap, sum_map_range] at htotal
  rw [correlation, ← sum_tapsAt hx]
  refine htotal.trans (congrArg (read l.bias f + ·) ?_)
  -- of all pixels of the output, those in other rows and columns are nothing to this place
  rw [sum_eq_single oy]
  · rw [sum_map_flatMap, sum_map_range, sum_eq_single ox]
    · exact (sum_pick_tapsAt hox hox hf _).trans (if_pos ⟨rfl, rfl⟩)
    · intro px hpx hne
      exact (sum_pick_tapsAt hox (mem_range.mp hpx) hf _).trans (if_neg fun h => hne h.2)
    · intro h
      exact absurd (mem_range.mpr hox) h
  · intro py _ hne
    rw [sum_map_flatMap, sum_map_range]
    refine sum_eq_zero fun px hpx => ?_
    exact (sum_pick_tapsAt hox (mem_range.mp hpx) hf _).trans (if_neg fun h => hne h.1)
  · intro h
    exact absurd (mem_range.mpr hoy) h

omit [ExactScalar R] in
theorem Sound.resolve (hl : l.Sound) (hi : l.inputShape.isEmpty = false) :
    l.padding.resolve l.inputShape.height l.kernelSize l.stride = .ok (l.rows, l.leadRows) ∧
      l.padding.resolve l.inputShape.width l.kernelSize l.stride = .ok (l.columns, l.leadColumns) := by
  obtain ⟨hh, hw, -⟩ := Shape.pos_of_not_isEmpty hi
  rw [Padding.resolve, Padding.resolve, Padding.counts_of_pos hh hl.stride, Padding.counts_of_pos hw hl.stride]
  exact ⟨rfl, rfl⟩

theorem Sound.forward_eq (hl : l.Sound) (hi : l.inputShape.isEmpty = false) (hx : x.shape = l.inputShape)
    (hs : x.Sized) (training : Bool) : l.forward x training =
      if Buffer.fits l.outputShape.size then
        .ok (l.remember x training, ⟨l.outputShape, l.activation.apply (l.response x).data⟩)
      else .error .misuse := by
  split
  case isTrue hf => exact forward_eq_ok.mpr ⟨hl.runs hi hf hx hs, rfl⟩
  case isFalse hf => simp [forward, hf]

/-- The output of a convolution before its activation is the correlation of the padded image and the kernel, at
every kernel size, stride and padding, and all that is read and written on the way lies in its buffer. -/
theorem forward_correlates (hl : l.Sound) (hi : l.inputShape.isEmpty = false) (hx : x.shape = l.inputShape)
    (hs : x.Sized) (training : Bool) : ∃ rows leadY columns leadX, ∃ z : Tensor R,
      l.padding.resolve l.inputShape.height l.kernelSize l.stride = .ok (rows, leadY) ∧
      l.padding.resolve l.inputShape.width l.kernelSize l.stride = .ok (columns, leadX) ∧
      z.shape = ⟨rows, columns, l.filters⟩ ∧ z.Sized ∧
      (∀ oy < rows, ∀ ox < columns, ∀ f < l.filters,
        z.at? oy ox f = .ok (l.correlation x leadY leadX oy ox f)) ∧
      (l.forward x training = if Buffer.fits z.shape.size then
          .ok (if training then { l with input := some x, preActivation := some z } else l,
            ⟨z.shape, l.activation.apply z.data⟩)
        else .error .misuse) ∧
      (∀ t ∈ l.taps, x.index t.y t.x t.channel < x.data.size ∧ t.weight + l.filters ≤ l.kernel.size ∧
        t.out + l.filters ≤ z.data.size) ∧
      ∀ ky < l.kernelSize, ∀ kx < l.kernelSize, ∀ c < l.inputShape.channels, ∀ f < l.filters,
        l.kernelOffset ky kx c + f < l.kernel.size := by
  obtain ⟨-, -, hc⟩ := Shape.pos_of_not_isEmpty hi
  obtain ⟨hrows, hcolumns⟩ := hl.resolve hi
  refine ⟨_, _, _, _, l.response x, hrows, hcolumns, rfl, l.size_response x, ?_, hl.forward_eq hi hx hs training,
    ?_, ?_⟩
  · intro oy hoy ox hox f hf
    rw [← read_response hx hc hoy hox hf]
    exact Tensor.at?_eq ((Shape.index_lt hoy hox hf).trans_eq (l.size_response x).symm)
  · intro t ht
    obtain ⟨hin, hweight, hout⟩ := tap_bounds ht
    rw [l.size_response, hl.kernel, show x.data.size = x.shape.size from hs, hx]
    exact ⟨by rwa [Tensor.index, hx], hweight, hout⟩
  · intro ky hky kx hkx c hc f hf
    exact (mul_add_lt (mul_add_lt (mul_add_lt hky hkx) hc) hf).trans_eq hl.kernel.symm

theorem forward_correlates_narrow : ∃ (l : Convolution ℝ) (x z : Tensor ℝ),
    l.Sound ∧ l.inputShape.isEmpty = false ∧ x.shape = l.inputShape ∧ x.Sized ∧ l.inputShape = ⟨1, 2, 1⟩ ∧
      l.kernelSize = 3 ∧ l.stride = 2 ∧ z.at? 0 0 0 = .ok 21 ∧
      l.forward x false = .ok (l, ⟨⟨1, 1, 1⟩, Activation.relu.apply z.data⟩) := by
  obtain ⟨l, hl⟩ : ∃ l : Convolution ℝ, l = ⟨1, 3, 2, .same, .relu, ⟨1, 2, 1⟩, #[0, 1, 2, 3, 4, 5, 6, 7, 8], #[1],
    #[], #[], none, none⟩ := ⟨_, rfl⟩
  obtain ⟨x, hx⟩ : ∃ x : Tensor ℝ, x = ⟨⟨1, 2, 1⟩, #[0, 5]⟩ := ⟨_, rfl⟩
  have hsound : l.Sound := by
    subst hl
    exact ⟨by decide, by decide, by decide, rfl, rfl⟩
  have hempty : l.inputShape.isEmpty = false := by
    subst hl
    rfl
  have hshape : x.shape = l.inputShape := by
    subst hl hx
    rfl
  have hsized : x.Sized := by
    subst hx
    rfl
  obtain ⟨rows, leadY, columns, leadX, z, hrows, hcolumns, hz, -, hvalue, hforward, -⟩ :=
    forward_correlates hsound hempty hshape hsized false
  obtain ⟨rfl, rfl⟩ : 1 = rows ∧ 1 = leadY := by
    subst hl
    exact Prod.mk.inj (Except.ok.inj hrows)
  obtain ⟨rfl, rfl⟩ : 1 = columns ∧ 0 = leadX := by
    subst hl
    exact Prod.mk.inj (Except.ok.inj hcolumns)
  have hsum : l.correlation x 1 0 0 0 0 = 21 := by
    subst hl hx
    simp [correlation, sum_range_succ, Tensor.onPlane, Tensor.get, Tensor.index, Shape.index, kernelOffset, Buffer.read]
    norm_num
  subst hl
  rw [hz] at hforward
  exact ⟨_, x, z, hsound, hempty, hshape, hsized, rfl, rfl, rfl,
    (hvalue 0 (by decide) 0 (by decide) 0 (by decide)).trans (congrArg Except.ok hsum), hforward⟩

end Convolution

end Convnet
