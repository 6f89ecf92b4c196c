import Convnet.Proofs.Sums
import Convnet.Proofs.Stack

namespace Convnet

open Buffer

section Twins

variable {α : Type}

inductive Layer.Twin : Layer α → Layer α → Prop
  | conv (l : Convolution α) (kernelGrad biasGrad : Array α) (input preActivation : Option (Tensor α)) :
      Twin (.conv l) (.conv { l with
        kernelGrad := kernelGrad, biasGrad := biasGrad, input := input, preActivation := preActivation })
  | pool (l : Pooling) (winners : Array Nat) : Twin (.pool l) (.pool { l with winners := winners })
  | flatten (s : Shape) : Twin (.flatten s) (.flatten s)
  | dense (l : Dense α) (weightsGrad : Matrix α) (biasesGrad inputs preActivation : Array α) :
      Twin (.dense l) (.dense { l with
        weightsGrad := weightsGrad, biasesGrad := biasesGrad, inputs := inputs,
        preActivation := preActivation })
  | dropout (l : Dropout α) (mask : Array α) : Twin (.dropout l) (.dropout { l with mask := mask })
  | pointwise (l : Pointwise α) (preActivation : Array α) :
      Twin (.pointwise l) (.pointwise { l with preActivation := preActivation })

theorem Layer.twin_of_bare {l k : Layer α} (h : k.bare = l.bare) : l.Twin k := by
  cases l with
  | conv l =>
      cases k with
      | conv k =>
          cases k
          cases l
          simp only [bare, conv.injEq, Convolution.mk.injEq] at h
          obtain ⟨rfl, rfl, rfl, rfl, rfl, rfl, rfl, rfl, -⟩ := h
          exact .conv _ _ _ _ _
      | pool | flatten | dense | dropout | pointwise => cases h
  | pool l =>
      cases k with
      | pool k =>
          cases k
          cases l
          simp only [bare, pool.injEq, Pooling.mk.injEq] at h
          obtain ⟨rfl, rfl, rfl, rfl, -⟩ := h
          exact .pool _ _
      | conv | flatten | dense | dropout | pointwise => cases h
  | flatten s =>
      cases k with
      | flatten k =>
          obtain ⟨⟩ := h
          exact .flatten s
      | conv | pool | dense | dropout | pointwise => cases h
  | dense l =>
      cases k with
      | dense k =>
          cases k
          cases l
          simp only [bare, dense.injEq, Dense.mk.injEq] at h
          obtain ⟨rfl, rfl, rfl, -⟩ := h
          exact .dense _ _ _ _ _
      | conv | pool | flatten | dropout | pointwise => cases h
  | dropout l =>
      cases k with
      | dropout k =>
          cases k
          cases l
          simp only [bare, dropout.injEq, Dropout.mk.injEq] at h
          obtain ⟨rfl, rfl, -⟩ := h
          exact .dropout _ _
      | conv | pool | flatten | dense | pointwise => cases h
  | pointwise l =>
      cases k with
      | pointwise k =>
          cases k
          cases l
          simp only [bare, pointwise.injEq, Pointwise.mk.injEq] at h
          obtain ⟨rfl, rfl, -⟩ := h
          exact .pointwise _ _
      | conv | pool | flatten | dense | dropout => cases h

end Twins

section Shares

variable {R : Type} [ExactScalar R]

def Parameter.gain (p p' : Parameter R) : Array R := zipKeep (· - ·) p'.grads p.grads

def gains (ps ps' : List (Parameter R)) : List (Array R) := List.zipWith Parameter.gain ps ps'

theorem gains_append {ps ps' : List (Parameter R)} (h : ps'.length = ps.length)
    (qs qs' : List (Parameter R)) : gains (ps ++ qs) (ps' ++ qs') = gains ps ps' ++ gains qs qs' :=
  List.zipWith_append h.symm

namespace Convolution

variable {l : Convolution R}

/-- The loop over all taps adds to the gradient of the kernel what it would put into zeros. -/
theorem kernelGradient_sub (h : l.kernelGrad.size = l.kernelLength) (x : Tensor R) (delta : Array R) :
    zipKeep (· - ·) (l.kernelGradient x delta) l.kernelGrad =
      { l with kernelGrad := zeros l.kernelLength }.kernelGradient x delta := by
  have hs : (l.kernelGradient x delta).size = l.kernelGrad.size := l.size_kernelGradient x delta
  have hz : { l with kernelGrad := zeros l.kernelLength }.kernelGrad.size =
      { l with kernelGrad := zeros l.kernelLength }.kernelLength := size_zeros _
  refine ext_of_total ?_ fun ψ => ?_
  · rw [size_zipKeep, hs, size_kernelGradient, h, hz]
    rfl
  · rw [total_zipKeep_sub ψ hs, total_kernelGradient ψ h, total_kernelGradient ψ hz, total_zeros,
      add_sub_cancel_left, zero_add]
    rfl

theorem biasGradient_sub (h : l.biasGrad.size = l.filters) (delta : Array R) :
    zipKeep (· - ·) (l.biasGradient delta) l.biasGrad =
      { l with biasGrad := zeros l.filters }.biasGradient delta := by
  have hs : (l.biasGradient delta).size = l.biasGrad.size := l.size_biasGradient delta
  have hz : { l with biasGrad := zeros l.filters }.biasGrad.size = l.filters := size_zeros _
  refine ext_of_total ?_ fun ψ => ?_
  · rw [size_zipKeep, hs, size_biasGradient, h, hz]
  · rw [total_zipKeep_sub ψ hs, total_biasGradient ψ h, total_biasGradient ψ hz, total_zeros,
      add_sub_cancel_left, zero_add]
    rfl

def shares (l : Convolution R) (x : Tensor R) (delta : Array R) : List (Array R) :=
  [{ l with kernelGrad := zeros l.kernelLength }.kernelGradient x delta,
    { l with biasGrad := zeros l.filters }.biasGradient delta]

theorem gains_gather (hk : l.kernel.size = l.kernelLength) (hb : l.bias.size = l.filters)
    (x : Tensor R) (delta : Array R) :
    gains (Layer.conv l).ready.parameters (Layer.conv (l.gather x delta)).ready.parameters =
      l.shares x delta := by
  have hk : l.ready.kernelGrad.size = l.ready.kernelLength := l.size_ready_kernelGrad.trans hk
  have hb : l.ready.biasGrad.size = l.ready.filters := l.size_ready_biasGrad.trans hb
  rw [Layer.ready, Layer.ready, ready_gather]
  exact congrArg₂ (fun a b => [a, b]) (kernelGradient_sub hk x delta) (biasGradient_sub hb delta)

end Convolution

namespace Dense

variable {l : Dense R}

theorem addOuter_sub {m : Matrix R} (h : m.Sized) (x d : Array R) :
    zipKeep (· - ·) (m.addOuter x d).data m.data =
      ((Matrix.zeros m.rows m.cols).addOuter x d).data := by
  have hs : (m.addOuter x d).data.size = m.data.size := (Matrix.addOuter_sized h x d).trans h.symm
  have hz := Matrix.zeros_sized (α := R) m.rows m.cols
  refine ext_of_total ?_ fun ψ => ?_
  · rw [size_zipKeep]
    exact (Matrix.addOuter_sized h x d).trans (Matrix.addOuter_sized hz x d).symm
  · rw [total_zipKeep_sub ψ hs, Matrix.total_addOuter ψ h, Matrix.total_addOuter ψ hz, Matrix.zeros,
      total_zeros, add_sub_cancel_left, zero_add]

theorem biases_sub {b d : Array R} (h : b.size = d.size) :
    zipKeep (· - ·) (zipKeep (· + ·) b d) b = d := by
  refine ext (by simp [h]) fun i hi => ?_
  have hi : i < b.size := by simpa using hi
  rw [read_zipKeep (by simpa using hi) hi, read_zipKeep hi (h ▸ hi)]
  exact add_sub_cancel_left _ _

def shares (l : Dense R) (x delta : Array R) : List (Array R) :=
  [((Matrix.zeros l.weights.rows l.weights.cols).addOuter x delta).data, delta]

theorem gains_gather (hb : l.biases.size = l.weights.cols) (ht : l.weightsGrad.Sized) {delta : Array R}
    (hd : delta.size = l.weights.cols) :
    gains (Layer.dense l).ready.parameters (Layer.dense (l.gather delta)).ready.parameters =
      l.shares l.inputs delta := by
  have hb : l.ready.biasesGrad.size = delta.size :=
    (l.size_ready_biasesGrad.trans hb).trans hd.symm
  have hw := addOuter_sub (ready_sized ht) l.inputs delta
  rw [ready_rows, ready_cols] at hw
  rw [Layer.ready, Layer.ready, ready_gather]
  exact congrArg₂ (fun a b => [a, b]) hw (biases_sub hb)

end Dense

theorem Pooling.remember_inputShape (l : Pooling) (x : Tensor R) :
    (l.remember x true).inputShape = l.inputShape := by
  unfold remember
  split <;> rfl

theorem Pooling.route_remember (l : Pooling) (winners : Array Nat) (x g : Tensor R) :
    (Pooling.remember { l with winners := winners } x true).route g = (l.remember x true).route g := by
  cases hk : l.kind with
  | max =>
      simp only [route, remember, hk]
      rfl
  | average =>
      simp only [route, remember, hk]
      rfl

namespace Layer

variable {σ : Type} [RandomSource σ] {s : σ} {phase phase₂ : Phase σ} {l l' l'' k k' k'' : Layer R}
  {x y y₂ g b b₂ : Tensor R}

/-- Layers that differ in what they have gathered give out the same, pass the same back and add the
same to their gradients. -/
theorem gains_of_bare (h : k.bare = l.bare) (hp : l.Passes x (.train s) l' y phase)
    (hb : l'.PassesBack g l'' b) (hp₂ : k.Passes x (.train s) k' y₂ phase₂)
    (hl : l.Sound) (ht : l.Tidy) (htk : k.Tidy) (hg : g.shape = l.outputShape) (hgs : g.Sized) :
    y₂ = y ∧ phase₂ = phase ∧ ∀ k'' b₂, k'.PassesBack g k'' b₂ → b₂ = b ∧
      gains k.ready.parameters k''.ready.parameters =
        gains l.ready.parameters l''.ready.parameters := by
  have hgsize : g.data.size = l.outputShape.size := hg ▸ hgs
  have hlk := hl.of_bare h
  cases twin_of_bare h with
  | conv l kg bg i z =>
      cases hp
      cases hp₂
      cases hb with
      | conv _ _ x' z' hin hz =>
          obtain ⟨⟩ := Option.some.inj hin
          obtain ⟨⟩ := Option.some.inj hz
          refine ⟨rfl, rfl, fun k'' b₂ hb₂ => ?_⟩
          cases hb₂ with
          | conv _ _ x' z' hin hz =>
              obtain ⟨⟩ := Option.some.inj hin
              obtain ⟨⟩ := Option.some.inj hz
              refine ⟨rfl, ?_⟩
              have hk : l.kernel.size = l.kernelLength := Convolution.Sound.kernel hl.parts
              have hb : l.bias.size = l.filters := Convolution.Sound.bias hl.parts
              have hgain := Convolution.gains_gather (l := l.remember x true) hk hb x
              have hgain₂ := Convolution.gains_gather (l := Convolution.remember { l with
                kernelGrad := kg, biasGrad := bg, input := i, preActivation := z } x true) hk hb x
              exact (hgain₂ _).trans (hgain _).symm
  | pool l w =>
      cases hp
      cases hp₂
      cases hb
      refine ⟨rfl, rfl, fun k'' b₂ hb₂ => ?_⟩
      cases hb₂
      have hi : (Pooling.remember { l with winners := w } x true).inputShape = l.inputShape :=
        Pooling.remember_inputShape _ x
      exact ⟨congrArg₂ Tensor.mk (hi.trans (l.remember_inputShape x).symm)
        (l.route_remember w x g), rfl⟩
  | flatten =>
      cases hp
      cases hp₂
      cases hb
      refine ⟨rfl, rfl, fun k'' b₂ hb₂ => ?_⟩
      cases hb₂
      exact ⟨rfl, rfl⟩
  | dense l wg bg i z =>
      cases hp
      cases hp₂
      cases hb
      refine ⟨rfl, rfl, fun k'' b₂ hb₂ => ?_⟩
      cases hb₂
      refine ⟨rfl, ?_⟩
      have hb : l.biases.size = l.weights.cols := Dense.Sound.biases hl.parts
      have hd : (l.activation.backprop g.data (l.response x.data)).size = l.weights.cols := by
        rw [Activation.size_backprop]
        exact hgsize.trans (Shape.size_flat _)
      have hgain := Dense.gains_gather (l := l.remember x true) hb ht hd
      have hgain₂ := Dense.gains_gather (l := Dense.remember { l with
        weightsGrad := wg, biasesGrad := bg, inputs := i, preActivation := z } x true) hb htk hd
      exact hgain₂.trans hgain.symm
  | dropout l m =>
      cases hp
      cases hp₂
      cases hb
      refine ⟨rfl, rfl, fun k'' b₂ hb₂ => ?_⟩
      cases hb₂
      exact ⟨rfl, rfl⟩
  | pointwise l z =>
      cases hp
      cases hp₂
      cases hb
      refine ⟨rfl, rfl, fun k'' b₂ hb₂ => ?_⟩
      cases hb₂
      exact ⟨rfl, rfl⟩

theorem runs_of_bare (h : k.bare = l.bare) (hp : l.Passes x (.train s) l' y phase)
    (hb : l'.PassesBack g l'' b) (hl : l.Sound) (ht : l.Tidy) (htk : k.Tidy)
    (hx : x.shape = l.inputShape) (hs : x.Sized) (hg : g.shape = l.outputShape) (hgs : g.Sized) :
    ∃ k' k'', k.forward x (.train s) = .ok (k', y, phase) ∧ k'.backward g = .ok (k'', b) ∧
      gains k.ready.parameters k''.ready.parameters =
        gains l.ready.parameters l''.ready.parameters := by
  have hk := hl.of_bare h
  have hroom : k.Roomy := by
    rw [← roomy_bare, h, roomy_bare]
    exact hp.roomy
  have hback : k.RoomyBack := by
    rw [← roomyBack_bare, h, ← hp.bare, roomyBack_bare]
    exact hb.roomyBack
  have hxk : x.shape = k.inputShape := hx.trans (inputShape_eq_of_bare h).symm
  have hgk : g.shape = k.outputShape := hg.trans (outputShape_eq_of_bare h).symm
  obtain ⟨k', y₂, phase₂, hfor⟩ := forward_answers hk hroom hxk hs (.train s)
  have hpk := passes_of_forward hfor
  obtain ⟨k'', b₂, hbk⟩ := backward_answers hpk hk htk hback hxk hs hgk hgs
  obtain ⟨rfl, rfl, hsame⟩ := gains_of_bare h hp hb hpk hl ht htk hg hgs
  obtain ⟨rfl, hgains⟩ := hsame k'' b₂ (passesBack_of_backward hbk)
  exact ⟨k', k'', hfor, hbk, hgains⟩

end Layer

namespace Network

variable {σ : Type} [RandomSource σ] {s : σ} {phase : Phase σ} {sh : Shape}
  {ls ls' ls'' ks : List (Layer R)} {x y g b : Tensor R}

theorem layersRun_of_bare (h : ks.map Layer.bare = ls.map Layer.bare)
    (hfor : forwardLayers ls x (.train s) = .ok (ls', y, phase))
    (hback : backwardLayers ls' g = .ok (ls'', b)) (hc : Chained sh ls) (hck : Chained sh ks)
    (hx : x.shape = sh) (hs : x.Sized) (hg : g.shape = outputFrom sh ls) (hgs : g.Sized) :
    ∃ ks' ks'', forwardLayers ks x (.train s) = .ok (ks', y, phase) ∧
      backwardLayers ks' g = .ok (ks'', b) ∧
      gains (ks.flatMap fun l => l.ready.parameters) (ks''.flatMap fun l => l.ready.parameters) =
        gains (ls.flatMap fun l => l.ready.parameters) (ls''.flatMap fun l => l.ready.parameters) := by
  induction ls generalizing sh x s ks ls' ls'' b with
  | nil =>
      obtain rfl : ks = [] := by simpa using h
      obtain ⟨⟩ := Except.ok.inj hfor
      obtain ⟨⟩ := Except.ok.inj hback
      exact ⟨[], [], rfl, rfl, rfl⟩
  | cons l ls ih =>
      cases ks with
      | nil => simp at h
      | cons k ks =>
          obtain ⟨hbare, hbares⟩ := List.cons.inj h
          obtain ⟨l', x', phase₁, ls₁, hl, hls, rfl⟩ := forwardLayers_cons.mp hfor
          obtain ⟨ls₂, g', l'', hls₂, hl'', rfl⟩ := backwardLayers_cons.mp hback
          obtain ⟨hi, hsound, ht, hc⟩ := hc
          obtain ⟨-, -, htk, hck⟩ := hck
          have hxl : x.shape = l.inputShape := hx.trans hi.symm
          have hp := Layer.passes_of_forward hl
          have hpb := Layer.passesBack_of_backward hl''
          obtain ⟨s', rfl⟩ := hp.train
          rw [Layer.outputShape_eq_of_bare hbare] at hck
          obtain ⟨hb₁, hc₁, -, -, -⟩ := forwardLayers_keeps hls hc (hp.shape hxl) (hp.sized hs)
          obtain ⟨-, -, hg', hgs'⟩ :=
            backwardLayers_keeps hls₂ hc₁ (hg.trans (outputFrom_eq_of_bare hb₁ _).symm) hgs
          obtain ⟨k', k'', hfk, hbk, hgain⟩ :=
            Layer.runs_of_bare hbare hp hpb hsound ht htk hxl hs hg' hgs'
          obtain ⟨ks', ks'', hfks, hbks, hgains⟩ :=
            ih hbares hls hls₂ hc hck (hp.shape hxl) (hp.sized hs) hg
          refine ⟨k' :: ks', k'' :: ks'', forwardLayers_cons.mpr ⟨k', x', _, ks', hfk, hfks, rfl⟩,
            backwardLayers_cons.mpr ⟨ks'', g', k'', hbks, hbk, rfl⟩, ?_⟩
          have hlen := Layer.length_ready_of_bare (hpb.bare.trans hp.bare)
          have hlenk := Layer.length_ready_of_bare
            ((Layer.passesBack_of_backward hbk).bare.trans (Layer.passes_of_forward hfk).bare)
          simp only [List.flatMap_cons]
          rw [gains_append hlen, gains_append hlenk, hgain, hgains]

end Network

end Shares

end Convnet
