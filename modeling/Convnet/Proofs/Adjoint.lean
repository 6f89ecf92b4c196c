import Convnet.Proofs.Correlation

namespace Convnet

open Finset Buffer

namespace Buffer

variable {R : Type} [ExactScalar R]

def pairing (a b : Array R) : R := ∑ i ∈ range a.size, read a i * read b i

theorem pairing_eq_total (a b : Array R) :
    pairing a b = total (fun i => AddMonoidHom.mulRight (read b i)) a := rfl

theorem pairing_comm {a b : Array R} (h : a.size = b.size) : pairing a b = pairing b a := by
  rw [pairing, pairing, h]
  exact sum_congr rfl fun i _ => mul_comm _ _

end Buffer

theorem Shape.index_inj {s : Shape} {y x c y' x' c' : Nat} (hx : x < s.width) (hx' : x' < s.width)
    (hc : c < s.channels) (hc' : c' < s.channels) (h : s.index y x c = s.index y' x' c') :
    y = y' ∧ x = x' ∧ c = c' := by
  obtain ⟨hpixel, hchannel⟩ := mul_add_inj hc hc' h
  obtain ⟨hrow, hcolumn⟩ := mul_add_inj hx hx' hpixel
  exact ⟨hrow, hcolumn, hchannel⟩

namespace Convolution

section Linear

variable {α : Type} [Scalar α]

def unbiased (l : Convolution α) (kernel : Array α) : Convolution α :=
  { l with kernel := kernel, bias := zeros l.filters }

def linearPart (l : Convolution α) (kernel : Array α) (x : Tensor α) : Result (Tensor α) := do
  let (_, z) ← (l.unbiased kernel).forward x false
  return z

def Covers (l : Convolution α) (oy ox y x : Nat) : Prop :=
  ∃ ky < l.kernelSize, ∃ kx < l.kernelSize,
    oy * l.stride + ky = y + l.leadRows ∧ ox * l.stride + kx = x + l.leadColumns

theorem Runs.linearPart {l : Convolution α} {x : Tensor α} (h : l.Runs x) (ha : l.activation = .linear)
    {kernel : Array α} (hk : kernel.size = l.kernelLength) {x' : Tensor α} (hx : x'.shape = l.inputShape)
    (hs : x'.Sized) : l.linearPart kernel x' = .ok ((l.unbiased kernel).response x') := by
  simp only [Runs, Bool.and_eq_true] at h
  obtain ⟨⟨⟨hcounts, hfits⟩, -⟩, -⟩ := h
  have hreaches : (l.unbiased kernel).reaches x' = true := by
    simp [reaches, unbiased, hx, hs, hk, kernelLength]
  have hruns : (l.unbiased kernel).Runs x' := by
    simp only [Runs, Bool.and_eq_true, Bool.or_eq_true, beq_iff_eq]
    exact ⟨⟨⟨hcounts, hfits⟩, .inr (size_zeros _)⟩, hreaches⟩
  have happly : (l.unbiased kernel).activation.apply ((l.unbiased kernel).response x').data =
      ((l.unbiased kernel).response x').data := by
    have hlinear : (l.unbiased kernel).activation = .linear := ha
    rw [hlinear]
    exact Array.map_id _
  rw [Convolution.linearPart, forward_eq_ok.mpr ⟨hruns, rfl⟩, ok_bind, happly]
  rfl

end Linear

variable {R : Type} [ExactScalar R] {l : Convolution R}

theorem total_unbiased {M : Type} [AddCommMonoid M] (φ : Nat → R →+ M) (l : Convolution R) (kernel : Array R)
    (x : Tensor R) : total φ ((l.unbiased kernel).response x).data =
      (l.taps.map fun t => ∑ f ∈ range l.filters, φ (t.out + f)
        (x.get (x.index t.y t.x t.channel) * read kernel (t.weight + f))).sum := by
  have hbias : total φ (l.unbiased kernel).biasMap = 0 := by
    rw [total_biasMap]
    refine sum_eq_zero fun o _ => ?_
    exact (congrArg (φ o) (read_zeros l.filters _)).trans (map_zero (φ o))
  rw [total_response, hbias, zero_add]
  rfl

/-- Each tap weighs the same on both sides: its pixel, its weights and the gradients of its filters. -/
theorem pairing_inputGradient (l : Convolution R) {x : Tensor R} (hx : x.shape = l.inputShape) (hs : x.Sized)
    (delta : Array R) : pairing x.data (l.inputGradient delta).data =
      pairing ((l.unbiased l.kernel).response x).data delta := by
  have hsize : x.data.size = (l.inputGradient delta).data.size := by
    rw [show x.data.size = x.shape.size from hs, hx]
    exact (l.inputGradient_sized delta).symm
  rw [pairing_comm hsize, pairing_eq_total, pairing_eq_total, total_inputGradient, total_unbiased]
  refine congrArg List.sum (List.map_congr_left fun t _ => ?_)
  refine (sum_mul ..).trans (sum_congr rfl fun f _ => ?_)
  rw [AddMonoidHom.coe_mulRight, Tensor.get, Tensor.index, hx]
  ring

theorem sum_kernelGradient (hg : l.kernelGrad.size = l.kernelLength) (x : Tensor R) (delta : Array R)
    (kernel : Array R) :
    ∑ k ∈ range l.kernelLength, read kernel k * (read (l.kernelGradient x delta) k - read l.kernelGrad k) =
      pairing ((l.unbiased kernel).response x).data delta := by
  have hsum := total_kernelGradient (fun k => AddMonoidHom.mulLeft (read kernel k)) hg x delta
  rw [total, total, size_kernelGradient, ← sub_eq_iff_eq_add', ← sum_sub_distrib, hg] at hsum
  rw [pairing_eq_total, total_unbiased]
  refine (sum_congr rfl fun k _ => mul_sub _ _ _).trans (hsum.trans ?_)
  refine congrArg List.sum (List.map_congr_left fun t _ => sum_congr rfl fun f _ => ?_)
  rw [AddMonoidHom.coe_mulLeft, AddMonoidHom.coe_mulRight]
  ring

theorem read_biasGradient (hg : l.biasGrad.size = l.filters) (delta : Array R) {f : Nat} (hf : f < l.filters) :
    read (l.biasGradient delta) f = read l.biasGrad f +
      ∑ oy ∈ range l.rows, ∑ ox ∈ range l.columns, read delta (l.outputShape.index oy ox f) := by
  have htotal := total_biasGradient (pick (AddMonoidHom.id R) f) hg delta
  rw [total_pick _ (by rwa [size_biasGradient, hg]), total_pick _ (hg.symm ▸ hf), sum_range_rows] at htotal
  refine htotal.trans (congrArg (read l.biasGrad f + ·) ?_)
  -- of all filters of a pixel, the others are nothing to this place
  exact sum_congr rfl fun oy _ => sum_congr rfl fun ox _ => sum_pick hf _

theorem read_inputGradient_eq_zero (delta : Array R) {y x c : Nat} (hy : y < l.inputShape.height)
    (hx : x < l.inputShape.width) (hc : c < l.inputShape.channels)
    (h : ∀ oy < l.rows, ∀ ox < l.columns, ¬ l.Covers oy ox y x) :
    read (l.inputGradient delta).data (l.inputShape.index y x c) = 0 := by
  have hplace : l.inputShape.index y x c < (l.inputGradient delta).data.size :=
    (Shape.index_lt hy hx hc).trans_eq (l.inputGradient_sized delta).symm
  have htotal := total_inputGradient (pick (AddMonoidHom.id R) (l.inputShape.index y x c)) l delta
  rw [total_pick _ hplace] at htotal
  refine htotal.trans (List.sum_eq_zero fun r hr => ?_)
  obtain ⟨t, ht, rfl⟩ := List.mem_map.mp hr
  refine (pick_apply ..).trans (if_neg fun hindex => ?_)
  obtain ⟨oy, ox, ky, kx, y', x', c', hoy, hox, hky, hkx, hrow, hcolumn, hc', rfl⟩ := exists_of_mem_taps ht
  obtain ⟨hy', -⟩ := Padding.source?_eq_some_iff.mp hrow
  obtain ⟨hx', hwidth⟩ := Padding.source?_eq_some_iff.mp hcolumn
  have hpixel : y' = y ∧ x' = x ∧ c' = c := Shape.index_inj hwidth hx hc' hc hindex
  exact h oy hoy ox hox ⟨ky, hky, kx, hkx, by omega, by omega⟩

/-- What a pass back on a gradient leaves behind: a gradient of the input and gains of the gradients of kernel and
bias that are the adjoints of the pass forward without bias. -/
structure Adjoint (l : Convolution R) (x d g : Tensor R) (kernelGain biasGain : Nat → R) : Prop where
  shape : g.shape = l.inputShape
  sized : g.Sized
  input : ∀ x' : Tensor R, x'.shape = l.inputShape → x'.Sized → ∃ z, l.linearPart l.kernel x' = .ok z ∧
    z.shape = l.outputShape ∧ z.Sized ∧ pairing x'.data g.data = pairing z.data d.data
  kernel : ∀ k' : Array R, k'.size = l.kernel.size → ∃ z, l.linearPart k' x = .ok z ∧
    z.shape = l.outputShape ∧ z.Sized ∧
    ∑ k ∈ range l.kernel.size, read k' k * kernelGain k = pairing z.data d.data
  bias : ∀ f < l.filters, biasGain f =
    ∑ oy ∈ range l.rows, ∑ ox ∈ range l.columns, read d.data (l.outputShape.index oy ox f)
  uncovered : ∀ row < l.inputShape.height, ∀ column < l.inputShape.width, ∀ c < l.inputShape.channels,
    (∀ oy < l.rows, ∀ ox < l.columns, ¬ l.Covers oy ox row column) → g.at? row column c = .ok 0

theorem Sound.backward_eq (hl : l.Sound) (ha : l.activation = .linear) {x d : Tensor R}
    (hx : x.shape = l.inputShape) (hs : x.Sized) (hd : d.data.size = l.outputShape.size) :
    (l.remember x true).backward d = if Buffer.fits l.inputShape.size then
      .ok ((l.remember x true).gather x d.data, l.inputGradient d.data) else .error .misuse := by
  have hsound : (l.remember x true).Sound := ⟨hl.filters, hl.kernelSize, hl.stride, hl.kernel, hl.bias⟩
  have hdelta : (l.remember x true).activation.backprop d.data (l.response x).data = d.data := by
    rw [show (l.remember x true).activation = .linear from ha]
    rfl
  split
  case isTrue hf =>
      have hruns := hsound.runsBack hf hx hs hd
      have hback := (backward_eq_ok (l := l.remember x true) (g := d) (x := x) (z := l.response x) rfl rfl
        (r := ((l.remember x true).gather x d.data, l.inputGradient d.data))).mpr
      rw [hdelta] at hback
      exact hback ⟨hruns, rfl⟩
  case isFalse hf => simp [backward, remember, ready, hf]

/-- The pass back after a training pass over a layer without activation is the adjoint of the pass forward, at
every kernel size, stride and padding and whatever was gathered before. It fails only where no buffer can hold
the gradient of the input. -/
theorem backward_adjoint {l' : Convolution R} {x y d : Tensor R} (hl : l.Sound) (ha : l.activation = .linear)
    (hx : x.shape = l.inputShape) (hs : x.Sized) (hf : l.forward x true = .ok (l', y))
    (hd : d.data.size = l.outputShape.size) : ∃ (l'' : Convolution R) (g : Tensor R),
      l'.backward d = (if Buffer.fits l.inputShape.size then .ok (l'', g) else .error .misuse) ∧
      l''.kernelGrad.size = l.kernel.size ∧ l''.biasGrad.size = l.filters ∧
      l.Adjoint x d g (fun k => read l''.kernelGrad k - read (sized l.kernelGrad l.kernel.size) k)
        (fun f => read l''.biasGrad f - read (sized l.biasGrad l.bias.size) f) := by
  obtain ⟨hruns, hkept⟩ := forward_eq_ok.mp hf
  obtain ⟨rfl, -⟩ := Prod.mk.inj hkept
  have hkg : l.ready.kernelGrad.size = l.kernelLength := l.size_ready_kernelGrad.trans hl.kernel
  have hbg : l.ready.biasGrad.size = l.filters := l.size_ready_biasGrad.trans hl.bias
  refine ⟨(l.remember x true).gather x d.data, l.inputGradient d.data, ?_, ?_, ?_, rfl,
    l.inputGradient_sized d.data, ?_, ?_, ?_, ?_⟩
  · exact hl.backward_eq ha hx hs hd
  · exact (size_kernelGradient _ _ _).trans l.size_ready_kernelGrad
  · exact (size_biasGradient _ _).trans hbg
  · intro x' hx' hs'
    exact ⟨_, hruns.linearPart ha hl.kernel hx' hs', rfl, size_response _ _, pairing_inputGradient l hx' hs' d.data⟩
  · intro k' hk'
    have hsum := sum_kernelGradient (l := l.ready) hkg x d.data k'
    rw [show l.ready.kernelLength = l.kernel.size from hl.kernel.symm] at hsum
    exact ⟨_, hruns.linearPart ha (hk'.trans hl.kernel) hx hs, rfl, size_response _ _, hsum⟩
  · intro f hf
    exact sub_eq_iff_eq_add'.mpr (read_biasGradient (l := l.ready) hbg d.data hf)
  · intro row hrow column hcolumn c hc hout
    have hplace : l.inputShape.index row column c < (l.inputGradient d.data).data.size :=
      (Shape.index_lt hrow hcolumn hc).trans_eq (l.inputGradient_sized d.data).symm
    exact (Tensor.at?_eq (x := l.inputGradient d.data) hplace).trans
      (congrArg Except.ok (read_inputGradient_eq_zero d.data hrow hcolumn hc hout))

theorem backward_adjoint_apart : ∃ (l l' l'' : Convolution ℝ) (x y d g : Tensor ℝ),
    l.Sound ∧ l.activation = .linear ∧ x.shape = l.inputShape ∧ x.Sized ∧ l.forward x true = .ok (l', y) ∧
      d.data.size = l.outputShape.size ∧ l.kernelSize = 1 ∧ l.stride = 2 ∧ l'.backward d = .ok (l'', g) ∧
      l.Adjoint x d g (fun k => read l''.kernelGrad k - read #[7] k)
        (fun f => read l''.biasGrad f - read (zeros 1) f) ∧
      g.at? 0 1 0 = .ok 0 ∧ read l''.biasGrad 0 = 5 := by
  obtain ⟨l, hl⟩ : ∃ l : Convolution ℝ, l =
    ⟨1, 1, 2, .valid, .linear, ⟨1, 3, 1⟩, #[5], #[1], #[7], #[1, 2], none, none⟩ := ⟨_, rfl⟩
  obtain ⟨x, hx⟩ : ∃ x : Tensor ℝ, x = ⟨⟨1, 3, 1⟩, #[1, 10, 100]⟩ := ⟨_, rfl⟩
  obtain ⟨d, hd⟩ : ∃ d : Tensor ℝ, d = ⟨⟨1, 2, 1⟩, #[2, 3]⟩ := ⟨_, rfl⟩
  have hsound : l.Sound := by
    subst hl
    exact ⟨by decide, by decide, by decide, rfl, rfl⟩
  have hlinear : l.activation = .linear := by
    subst hl
    rfl
  have hshape : x.shape = l.inputShape := by
    subst hl hx
    rfl
  have hsized : x.Sized := by
    subst hx
    rfl
  have hforward := hsound.forward_eq (by subst hl; rfl) hshape hsized true
  rw [if_pos (by subst hl; decide)] at hforward
  have hsize : d.data.size = l.outputShape.size := by
    subst hl hd
    rfl
  obtain ⟨l'', g, hback, -, -, hadj⟩ := backward_adjoint hsound hlinear hshape hsized hforward hsize
  rw [if_pos (by subst hl; decide)] at hback
  have hgap : ∀ oy < l.rows, ∀ ox < l.columns, ¬ l.Covers oy ox 0 1 := by
    subst hl
    rintro oy - ox - ⟨ky, hky, kx, hkx, -, hcolumn⟩
    simp only [leadColumns, Padding.lead] at hky hkx hcolumn
    omega
  have hmiddle : g.at? 0 1 0 = .ok 0 := by
    subst hl
    exact hadj.uncovered 0 (by decide) 1 (by decide) 0 (by decide) hgap
  have hbias : read l''.biasGrad 0 - read (zeros 1) 0 = 2 + 3 := by
    subst hl hd
    refine (hadj.bias 0 (by decide)).trans ?_
    simp [rows, columns, Padding.windows, outputShape, Shape.index, sum_range_succ, Buffer.read]
  rw [read_zeros, sub_zero] at hbias
  subst hl
  exact ⟨_, _, l'', x, _, d, g, hsound, rfl, hshape, hsized, hforward, hsize, rfl, rfl, hback, hadj, hmiddle,
    hbias.trans (by norm_num)⟩

end Convolution

end Convnet
