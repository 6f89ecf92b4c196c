import Convnet.Proofs.Accumulation
import Convnet.Proofs.Real
import Convnet.Proofs.Shapes
import Convnet.Proofs.Tangent

namespace Convnet

open Finset Convnet.Dual

section Gains

variable {K : Type} [Field K] [LinearOrder K] [Elementary K]

def alongAll (w : Nat → Nat → K) : Nat → List (Array K) → K
  | _, [] => 0
  | slot, a :: as => Buffer.along (w slot) a + alongAll w (slot + 1) as

theorem alongAll_append (w : Nat → Nat → K) (slot : Nat) (as bs : List (Array K)) :
    alongAll w slot (as ++ bs) = alongAll w slot as + alongAll w (slot + as.length) bs := by
  induction as generalizing slot with
  | nil => simp [alongAll]
  | cons a as ih =>
      have hslot : slot + 1 + as.length = slot + (as.length + 1) := by omega
      rw [List.cons_append, alongAll, alongAll, ih, hslot, List.length_cons, add_assoc]

theorem alongAll_gains_append (w : Nat → Nat → K) (slot : Nat) {ps ps' : List (Parameter K)}
    (h : ps'.length = ps.length) (qs qs' : List (Parameter K)) :
    alongAll w slot (gains (ps ++ qs) (ps' ++ qs')) =
      alongAll w slot (gains ps ps') + alongAll w (slot + ps.length) (gains qs qs') := by
  have hlen : (gains ps ps').length = ps.length := by simp [gains, h]
  rw [gains_append h, alongAll_append, hlen]

theorem alongAll_gains_pair (w : Nat → Nat → K) (slot : Nat) {p q r t : Parameter K}
    (hp : r.grads.size = p.grads.size) (hq : t.grads.size = q.grads.size) :
    alongAll w slot (gains [p, q] [r, t]) =
      (Buffer.along (w slot) r.grads - Buffer.along (w slot) p.grads) +
        (Buffer.along (w (slot + 1)) t.grads - Buffer.along (w (slot + 1)) q.grads) := by
  simp only [gains, List.zipWith_cons_cons, List.zipWith_nil_left, alongAll, Parameter.gain, add_zero]
  rw [Buffer.along_sub hp, Buffer.along_sub hq]

end Gains

section Kinds

variable {K : Type} [Field K] [LinearOrder K] [Elementary K] {w : Nat → Nat → K} {slot : Nat}
  {x g : Tensor K} {X : Tensor (DualNumber K)}

theorem Convolution.slope_vary {l : Convolution K} (hl : l.Sound) (hX : X.Follows x)
    (hx : x.shape = l.inputShape) (hg : g.data.size = l.outputShape.size) {delta : Array K}
    (hd : delta = l.activation.backprop g.data (l.response x).data) :
    Buffer.slope g.data (l.activation.beforeSoftmax.apply
        ((l.vary (w slot) (w (slot + 1))).response X).data) =
      Buffer.along (fun i => rate (Buffer.read X.data i)) (l.inputGradient delta).data +
        alongAll w slot (gains (Layer.conv l).ready.parameters
          (Layer.conv (l.gather x delta)).ready.parameters) := by
  have hz := Convolution.response_follows (l := l) hX (w slot) (w (slot + 1))
  have hdsize : g.data.size = (l.response x).data.size := hg.trans (l.size_response x).symm
  have hready : (Layer.conv (l.gather x delta)).ready.parameters =
      [⟨l.kernel, l.ready.kernelGradient x delta⟩, ⟨l.bias, l.ready.biasGradient delta⟩] := by
    rw [Layer.ready, Convolution.ready_gather]
    rfl
  have hslope := Convolution.slope_response (l := l.ready) hl.kernel hl.bias
    (l.size_ready_kernelGrad.trans hl.kernel) (l.size_ready_biasGrad.trans hl.bias) hx hX (w slot)
    (w (slot + 1)) delta
  have hvary : l.ready.vary (w slot) (w (slot + 1)) = l.vary (w slot) (w (slot + 1)) := rfl
  have hback : l.ready.inputGradient delta = l.inputGradient delta := rfl
  have hgains := alongAll_gains_pair w slot (p := ⟨l.kernel, l.ready.kernelGrad⟩)
    (r := ⟨l.kernel, l.ready.kernelGradient x delta⟩) (q := ⟨l.bias, l.ready.biasGrad⟩)
    (t := ⟨l.bias, l.ready.biasGradient delta⟩) (by simp) (by simp)
  rw [Activation.slope_apply _ hz hdsize, ← hd, hready]
  rw [hvary, hback, add_assoc] at hslope
  exact hslope.trans (congrArg _ hgains.symm)

theorem Dense.slope_vary {l : Dense K} (hl : l.Sound) (ht : l.weightsGrad.Sized) (hX : X.Follows x)
    (hg : g.data.size = l.weights.cols) {delta : Array K}
    (hd : delta = l.activation.backprop g.data (l.response x.data)) :
    Buffer.slope g.data (l.activation.beforeSoftmax.apply
        ((l.vary (w slot) (w (slot + 1))).response X.data)) =
      Buffer.along (fun i => rate (Buffer.read X.data i)) (l.weights.mulVec delta) +
        alongAll w slot (gains (Layer.dense l).ready.parameters
          (Layer.dense ((l.remember x true).gather delta)).ready.parameters) := by
  have hz := Dense.response_follows hl.biases hX.data (w slot) (w (slot + 1))
  have hdsize : g.data.size = (l.response x.data).size := hg.trans (l.size_response x.data).symm
  have hdelta : delta.size = l.weights.cols := by rw [hd, Activation.size_backprop, hg]
  have hsized : l.ready.weightsGrad.Sized := Dense.ready_sized ht
  have hready : (Layer.dense ((l.remember x true).gather delta)).ready.parameters =
      [⟨l.weights.data, (l.ready.weightsGrad.addOuter x.data delta).data⟩,
        ⟨l.biases, Buffer.zipKeep (· + ·) l.ready.biasesGrad delta⟩] := by
    rw [Layer.ready, Dense.ready_gather]
    rfl
  have houter : (l.ready.weightsGrad.addOuter x.data delta).data.size =
      l.ready.weightsGrad.data.size :=
    (Matrix.addOuter_sized hsized x.data delta).trans hsized.symm
  have hslope := Dense.slope_response hl hsized l.ready_rows l.ready_cols
    (l.size_ready_biasesGrad.trans hl.biases) hX.data (w slot) (w (slot + 1)) hdelta
  have hgains := alongAll_gains_pair w slot (p := ⟨l.weights.data, l.ready.weightsGrad.data⟩)
    (r := ⟨l.weights.data, (l.ready.weightsGrad.addOuter x.data delta).data⟩)
    (q := ⟨l.biases, l.ready.biasesGrad⟩)
    (t := ⟨l.biases, Buffer.zipKeep (· + ·) l.ready.biasesGrad delta⟩) houter (by simp)
  rw [Activation.slope_apply _ hz hdsize, ← hd, hready, hslope, add_assoc]
  exact congrArg _ hgains.symm

end Kinds

theorem Activation.apply_eq_logits {α : Type} [Scalar α] (a : Activation) (z : Array α) :
    a.apply z = if some a = some .softmax then softmaxVector (a.beforeSoftmax.apply z)
      else a.beforeSoftmax.apply z := by
  cases a with
  | softmax =>
      have hz : linear.apply z = z := Array.map_id z
      rw [if_pos rfl, beforeSoftmax, hz]
      rfl
  | relu | sigmoid | tanh | linear => rfl

namespace Layer

variable {α : Type}

def beforeSoftmax : Layer α → Layer α
  | conv l => conv { l with activation := l.activation.beforeSoftmax }
  | dense l => dense { l with activation := l.activation.beforeSoftmax }
  | pointwise l => pointwise { l with activation := l.activation.beforeSoftmax }
  | l => l

def activation? : Layer α → Option Activation
  | conv l => some l.activation
  | dense l => some l.activation
  | pointwise l => some l.activation
  | _ => none

theorem Realizes.activation {spec : LayerSpec α} {s : Shape} {l : Layer α} (h : l.Realizes spec s) :
    l.activation? = spec.activation? := by
  cases h <;> rfl

theorem beforeSoftmax_of_ne {l : Layer α} (h : l.activation? ≠ some .softmax) :
    l.beforeSoftmax = l := by
  have hkeep : ∀ a : Activation, some a ≠ some .softmax → a.beforeSoftmax = a := by
    intro a ha
    cases a with
    | softmax => exact absurd rfl ha
    | relu | sigmoid | tanh | linear => rfl
  cases l with
  | conv l => rw [beforeSoftmax, hkeep _ h]
  | dense l => rw [beforeSoftmax, hkeep _ h]
  | pointwise l => rw [beforeSoftmax, hkeep _ h]
  | pool | flatten | dropout => rfl

theorem beforeSoftmax_inputShape (l : Layer α) : l.beforeSoftmax.inputShape = l.inputShape := by
  cases l <;> rfl

theorem beforeSoftmax_outputShape (l : Layer α) : l.beforeSoftmax.outputShape = l.outputShape := by
  cases l <;> rfl

theorem length_parameters_beforeSoftmax (l : Layer α) :
    l.beforeSoftmax.parameters.length = l.parameters.length := by
  cases l <;> rfl

theorem Sound.beforeSoftmax {l : Layer α} (h : l.Sound) : l.beforeSoftmax.Sound where
  parts := by
    have hp := h.parts
    cases l with
    | conv l => exact ⟨hp.filters, hp.kernelSize, hp.stride, hp.kernel, hp.bias⟩
    | dense l => exact ⟨hp.weights, hp.biases⟩
    | pool | flatten | dropout | pointwise => exact hp
  input := (beforeSoftmax_inputShape l).symm ▸ h.input
  output := (beforeSoftmax_outputShape l).symm ▸ h.output

theorem Tidy.beforeSoftmax {l : Layer α} (h : l.Tidy) : l.beforeSoftmax.Tidy := by
  cases l <;> exact h

theorem Roomy.beforeSoftmax {l : Layer α} (h : l.Roomy) : l.beforeSoftmax.Roomy := by
  cases l <;> exact h

theorem Passes.beforeSoftmax [Scalar α] {σ : Type} [RandomSource σ] {l l' : Layer α} {x y : Tensor α}
    {phase phase' : Phase σ} (h : l.Passes x phase l' y phase') :
    ∃ l₀ y₀, l.beforeSoftmax.Passes x phase l₀ y₀ phase' ∧
      y.data = if l.activation? = some .softmax then Activation.softmaxVector y₀.data else y₀.data := by
  cases h with
  | conv l x phase hf => exact ⟨_, _, .conv _ x phase hf, l.activation.apply_eq_logits _⟩
  | pool l x phase hf => exact ⟨_, _, .pool l x phase hf, rfl⟩
  | flatten s x phase hs => exact ⟨_, _, .flatten s x phase hs, rfl⟩
  | dense l x phase hs hf => exact ⟨_, _, .dense _ x phase hs hf, l.activation.apply_eq_logits _⟩
  | keep l x => exact ⟨_, _, .keep l x, rfl⟩
  | drop l x s => exact ⟨_, _, .drop l x s, rfl⟩
  | pointwise l x phase hs => exact ⟨_, _, .pointwise _ x phase hs, l.activation.apply_eq_logits _⟩

variable {K : Type} [Field K]

/-- The layer with parameters that change in a direction; `slot` numbers the first of them. -/
def vary (w : Nat → Nat → K) (slot : Nat) : Layer K → Layer (DualNumber K)
  | conv l => conv (l.vary (w slot) (w (slot + 1)))
  | pool l => pool l
  | flatten s => flatten s
  | dense l => dense (l.vary (w slot) (w (slot + 1)))
  | dropout l => dropout l.still
  | pointwise l => pointwise ⟨l.activation, l.shape, #[]⟩

variable {w : Nat → Nat → K} {slot : Nat}

theorem vary_inputShape (l : Layer K) : (l.vary w slot).inputShape = l.inputShape := by
  cases l <;> rfl

theorem vary_outputShape (l : Layer K) : (l.vary w slot).outputShape = l.outputShape := by
  cases l <;> rfl

theorem Sound.vary {l : Layer K} (h : l.Sound) : (l.vary w slot).Sound where
  parts := by
    have hp := h.parts
    cases l with
    | conv l =>
        exact ⟨hp.filters, hp.kernelSize, hp.stride, (Buffer.size_vary _ _).trans hp.kernel,
          (Buffer.size_vary _ _).trans hp.bias⟩
    | dense l => exact ⟨(Buffer.size_vary _ _).trans hp.weights, (Buffer.size_vary _ _).trans hp.biases⟩
    | pool | flatten | dropout | pointwise => exact hp
  input := (vary_inputShape l).symm ▸ h.input
  output := (vary_outputShape l).symm ▸ h.output

theorem vary_tidy (l : Layer K) : (l.vary w slot).Tidy := by
  cases l with
  | dense l => exact (Nat.zero_mul _).symm
  | conv | pool | flatten | dropout | pointwise => trivial

theorem Roomy.vary {l : Layer K} (h : l.Roomy) : (l.vary w slot).Roomy := by
  cases l <;> exact h

section Passes

variable [LinearOrder K] [Elementary K] {σ : Type} [RandomSource σ] {s : σ} {phase phase' : Phase σ}
  {l l' l'' : Layer K} {L : Layer (DualNumber K)} {x y g b : Tensor K} {X Y : Tensor (DualNumber K)}

theorem vary_phase (hp : l.Passes x (.train s) l' y phase)
    (hP : (l.beforeSoftmax.vary w slot).Passes X (.train s) L Y phase') (hX : X.Follows x) :
    phase' = phase := by
  cases hp with
  | drop l =>
      cases hP with
      | drop =>
          rw [hX.data.size]
          exact congrArg (fun r => Phase.train r.2) (Dropout.drawMask_dual l.rate x.data.size s)
  | conv | pool | flatten | dense | pointwise =>
      cases hP
      rfl

/-- The run over dual numbers computes the numbers of the run over plain numbers. -/
theorem vary_follows (hp : l.beforeSoftmax.Passes x (.train s) l' y phase)
    (hP : (l.beforeSoftmax.vary w slot).Passes X (.train s) L Y phase') (hl : l.Sound)
    (hX : X.Follows x) : Y.Follows y := by
  cases l with
  | conv l =>
      cases hp
      cases hP
      exact ⟨rfl, Activation.apply_follows _ (Convolution.response_follows hX _ _)⟩
  | pool l =>
      cases hp
      cases hP
      exact ⟨rfl, Pooling.output_follows hl.parts hX⟩
  | flatten =>
      cases hp
      cases hP
      exact ⟨rfl, hX.data⟩
  | dense l =>
      cases hp
      cases hP
      have hb : l.biases.size = l.weights.cols := Dense.Sound.biases hl.parts
      have hout := Activation.apply_follows l.activation (Dense.response_follows hb hX.data (w slot)
        (w (slot + 1)))
      exact ⟨congrArg Shape.flat hout.size, hout⟩
  | dropout l =>
      cases hp with
      | drop =>
          cases hP with
          | drop =>
              have hmask := Dropout.drawMask_dual l.rate x.data.size s
              refine ⟨hX.shape, ?_⟩
              rw [hX.data.size, Dropout.still, hmask]
              exact Dropout.scaled_follows hX.data (Dropout.size_drawMask _ _ _)
  | pointwise l =>
      cases hp
      cases hP
      exact ⟨hX.shape, Activation.apply_follows _ hX.data⟩

/-- What a gradient weighs behind a layer, what is passed back weighs in front of it together with
what was added to the gradients of the parameters. -/
theorem slope_vary (hp : l.Passes x (.train s) l' y phase) (hb : l'.PassesBack g l'' b)
    (hP : (l.beforeSoftmax.vary w slot).Passes X (.train s) L Y phase') (hl : l.Sound)
    (ht : l.Tidy) (hX : X.Follows x) (hx : x.shape = l.inputShape) (hs : x.Sized)
    (hg : g.shape = l.outputShape) (hgs : g.Sized) : Buffer.slope g.data Y.data =
      Buffer.along (fun i => rate (Buffer.read X.data i)) b.data +
        alongAll w slot (gains l.ready.parameters l''.ready.parameters) := by
  have hsize : x.data.size = l.inputShape.size := hx ▸ hs
  have hgsize : g.data.size = l.outputShape.size := hg ▸ hgs
  cases hp with
  | conv l =>
      cases hb with
      | conv _ _ x' z hin hz =>
          obtain ⟨⟩ := Option.some.inj hin
          obtain ⟨⟩ := Option.some.inj hz
          cases hP
          exact Convolution.slope_vary hl.parts hX hx hgsize rfl
  | pool l =>
      cases hb with
      | pool _ _ hr =>
          cases hP
          rw [Pooling.slope_output hl.parts hX hx hg hgs hr]
          exact (add_zero _).symm
  | flatten =>
      cases hb
      cases hP
      have hgx : x.data.size = g.data.size := hsize.trans (hgsize.trans (Shape.size_flat _)).symm
      rw [Buffer.slope_eq_along (hX.data.size.trans hgx)]
      exact (add_zero _).symm
  | dense l =>
      cases hb
      cases hP
      exact Dense.slope_vary hl.parts ht hX (hgsize.trans (Shape.size_flat _)) rfl
  | drop l =>
      cases hb
      cases hP with
      | drop =>
          have hgx : x.data.size = g.data.size := hsize.trans hgsize.symm
          have hmask := Dropout.drawMask_dual l.rate x.data.size s
          have hmsize := Dropout.size_drawMask l.rate x.data.size s
          rw [hX.data.size, Dropout.still, hmask,
            Dropout.slope_scaled (hX.data.size.trans hgx) (hmsize.trans hgx)]
          exact (add_zero _).symm
  | pointwise l =>
      cases hb
      cases hP
      have hdsize : g.data.size = x.data.size := hgsize.trans hsize.symm
      rw [Activation.slope_apply _ hX.data hdsize, Buffer.slope_eq_along]
      · exact (add_zero _).symm
      · rw [Activation.size_backprop, hdsize, hX.data.size]

end Passes

end Layer

namespace Network

section Vary

variable {α : Type}

def beforeSoftmax (net : Network α) : Network α := { net with layers := net.layers.map Layer.beforeSoftmax }

variable {K : Type} [Field K] {w : Nat → Nat → K}

def varyLayers (w : Nat → Nat → K) : Nat → List (Layer K) → List (Layer (DualNumber K))
  | _, [] => []
  | slot, l :: ls => l.vary w slot :: varyLayers w (slot + l.parameters.length) ls

/-- The network with parameters that change in the direction `w`, a rate for each place of each slot. -/
def vary (w : Nat → Nat → K) (net : Network K) : Network (DualNumber K) :=
  ⟨net.inputShape, varyLayers w 0 net.layers, net.loss, none⟩

theorem Chained.beforeSoftmax {s : Shape} {ls : List (Layer α)} (h : Chained s ls) :
    Chained s (ls.map Layer.beforeSoftmax) := by
  induction ls generalizing s with
  | nil => trivial
  | cons l ls ih =>
      obtain ⟨hi, hl, ht, hc⟩ := h
      refine ⟨(Layer.beforeSoftmax_inputShape l).trans hi, hl.beforeSoftmax, ht.beforeSoftmax, ?_⟩
      rw [Layer.beforeSoftmax_outputShape]
      exact ih hc

theorem Chained.vary {s : Shape} {ls : List (Layer K)} (h : Chained s ls) (slot : Nat) :
    Chained s (varyLayers w slot ls) := by
  induction ls generalizing s slot with
  | nil => trivial
  | cons l ls ih =>
      obtain ⟨hi, hl, ht, hc⟩ := h
      refine ⟨(Layer.vary_inputShape l).trans hi, hl.vary, Layer.vary_tidy l, ?_⟩
      rw [Layer.vary_outputShape]
      exact ih hc _

theorem roomy_vary {ls : List (Layer K)} (h : ∀ l ∈ ls, l.Roomy) (slot : Nat) :
    ∀ l ∈ varyLayers w slot ls, l.Roomy := by
  induction ls generalizing slot with
  | nil => simp [varyLayers]
  | cons l ls ih =>
      intro k hk
      rcases List.mem_cons.mp hk with rfl | hk
      · exact (h l (by simp)).vary
      · exact ih (fun r hr => h r (by simp [hr])) _ k hk

/-- Whether a softmax stands nowhere but at the end. -/
def SoftmaxLast (ls : List (Layer α)) : Prop := ∀ l ∈ ls.dropLast, l.beforeSoftmax = l

theorem SoftmaxLast.tail {l : Layer α} {ls : List (Layer α)} (h : SoftmaxLast (l :: ls)) :
    SoftmaxLast ls := by
  cases ls with
  | nil => exact fun k hk => absurd hk List.not_mem_nil
  | cons k ls => exact fun r hr => h r (List.mem_cons_of_mem l hr)

theorem SoftmaxLast.head {l : Layer α} {ls : List (Layer α)} (h : SoftmaxLast (l :: ls))
    (hne : ls ≠ []) : l.beforeSoftmax = l := by
  refine h l ?_
  rw [List.dropLast_cons_of_ne_nil hne]
  exact List.mem_cons_self

theorem LayersRealize.softmaxLast [Scalar α] {last i : Nat} {s : Shape} {specs : List (LayerSpec α)}
    {shapes : List Shape} {ls : List (Layer α)}
    (hv : ModelSpec.validateLayers last i s specs = .ok shapes) (hn : i + specs.length ≤ last + 1)
    (h : LayersRealize s specs ls) : SoftmaxLast ls := by
  induction ls generalizing i s specs shapes with
  | nil => exact fun k hk => absurd hk List.not_mem_nil
  | cons l ls ih =>
      cases specs with
      | nil => exact h.elim
      | cons spec specs =>
          obtain ⟨-, hinner, s', rest, ho, hrest, rfl⟩ := ModelSpec.validateLayers_cons.mp hv
          obtain ⟨hr, -, hls⟩ := h
          obtain rfl := hr.outputShape (LayerSpec.turns_of_outputShape ho).1
          rw [List.length_cons] at hn
          intro k hk
          cases ls with
          | nil => exact absurd hk List.not_mem_nil
          | cons l' ls =>
              have hspecs : specs ≠ [] := fun hnil => by
                subst hnil
                exact hls.elim
              have hpos := List.length_pos_iff.mpr hspecs
              rcases List.mem_cons.mp hk with rfl | hk
              · refine Layer.beforeSoftmax_of_ne fun ha => hinner ⟨?_, by omega⟩
                rw [← hr.activation, ha]
              · exact ih hrest (by omega) hls k hk

theorem LayersRealize.activation_getLast {s : Shape} {specs : List (LayerSpec α)}
    {ls : List (Layer α)} (h : LayersRealize s specs ls) :
    ls.getLast?.bind Layer.activation? = specs.getLast?.bind LayerSpec.activation? := by
  induction ls generalizing s specs with
  | nil =>
      cases specs with
      | nil => rfl
      | cons spec specs => exact h.elim
  | cons l ls ih =>
      cases specs with
      | nil => exact h.elim
      | cons spec specs =>
          obtain ⟨hr, -, hls⟩ := h
          cases ls with
          | nil =>
              cases specs with
              | nil => exact hr.activation
              | cons spec' specs => exact hls.elim
          | cons l' ls =>
              cases specs with
              | nil => exact hls.elim
              | cons spec' specs =>
                  rw [List.getLast?_cons_cons, List.getLast?_cons_cons]
                  exact ih hls

end Vary

section Stack

variable {K : Type} [Field K] [LinearOrder K] [Elementary K] {σ : Type} [RandomSource σ]
  {w : Nat → Nat → K} {slot : Nat} {sh : Shape} {ls ls' ls'' : List (Layer K)}
  {LS : List (Layer (DualNumber K))} {x y g b : Tensor K} {X Y : Tensor (DualNumber K)} {s : σ}
  {phase phase' : Phase σ}

theorem forwardLayers_vary (h : forwardLayers ls x (.train s) = .ok (ls', y, phase))
    (hP : forwardLayers (varyLayers w slot (ls.map Layer.beforeSoftmax)) X (.train s) =
      .ok (LS, Y, phase'))
    (hc : Chained sh ls) (hlast : SoftmaxLast ls) (hX : X.Follows x) :
    phase' = phase ∧ y.data = if ls.getLast?.bind Layer.activation? = some .softmax then
      Activation.softmaxVector (Y.data.map value) else Y.data.map value := by
  induction ls generalizing sh x X s slot ls' LS with
  | nil =>
      obtain ⟨⟩ := Except.ok.inj h
      obtain ⟨⟩ := Except.ok.inj hP
      exact ⟨rfl, hX.data.symm⟩
  | cons l ls ih =>
      obtain ⟨l', x', phase₁, ls₁, hl, hls, rfl⟩ := forwardLayers_cons.mp h
      obtain ⟨L, X', phase₁', LS₁, hL, hLS, rfl⟩ := forwardLayers_cons.mp hP
      obtain ⟨-, hsound, -, hc⟩ := hc
      have hp := Layer.passes_of_forward hl
      have hdual := Layer.passes_of_forward hL
      obtain ⟨l₀, y₀, hp₀, hy⟩ := hp.beforeSoftmax
      have hfollows := Layer.vary_follows hp₀ hdual hsound hX
      obtain rfl := Layer.vary_phase hp hdual hX
      obtain ⟨s', rfl⟩ := hp.train
      cases ls with
      | nil =>
          obtain ⟨⟩ := Except.ok.inj hls
          obtain ⟨⟩ := Except.ok.inj hLS
          refine ⟨rfl, ?_⟩
          rw [hy, ← hfollows.data]
          rfl
      | cons k ls =>
          have hplain := hlast.head (List.cons_ne_nil k ls)
          have hX' : X'.Follows x' := Layer.vary_follows (hplain.symm ▸ hp) hdual hsound hX
          exact ih hls hLS hc hlast.tail hX'

theorem slope_varyLayers (h : forwardLayers ls x (.train s) = .ok (ls', y, phase))
    (hb : backwardLayers ls' g = .ok (ls'', b))
    (hP : forwardLayers (varyLayers w slot (ls.map Layer.beforeSoftmax)) X (.train s) =
      .ok (LS, Y, phase'))
    (hc : Chained sh ls) (hlast : SoftmaxLast ls) (hx : x.shape = sh) (hs : x.Sized)
    (hXh : X.shape = sh) (hXs : X.Sized) (hX : ls ≠ [] → X.Follows x)
    (hg : g.shape = outputFrom sh ls) (hgs : g.Sized) : Buffer.slope g.data Y.data =
      Buffer.along (fun i => rate (Buffer.read X.data i)) b.data +
        alongAll w slot (gains (ls.flatMap fun l => l.ready.parameters)
          (ls''.flatMap fun l => l.ready.parameters)) := by
  -- from the front: the other layers hand back the gradient that the first one receives
  induction ls generalizing sh x X s slot ls' LS ls'' b with
  | nil =>
      obtain ⟨⟩ := Except.ok.inj h
      obtain ⟨⟩ := Except.ok.inj hP
      obtain ⟨⟩ := Except.ok.inj hb
      have hgsize : g.data.size = sh.size := Eq.trans hgs (congrArg Shape.size hg)
      have hYsize : Y.data.size = sh.size := Eq.trans hXs (congrArg Shape.size hXh)
      rw [Buffer.slope_eq_along (hYsize.trans hgsize.symm)]
      exact (add_zero _).symm
  | cons l ls ih =>
      obtain ⟨l', x', phase₁, ls₁, hl, hls, rfl⟩ := forwardLayers_cons.mp h
      obtain ⟨L, X', phase₁', LS₁, hL, hLS, rfl⟩ := forwardLayers_cons.mp hP
      obtain ⟨ls₂, g', l'', hls₂, hl'', rfl⟩ := backwardLayers_cons.mp hb
      obtain ⟨hi, hsound, ht, hc⟩ := hc
      have hX := hX (List.cons_ne_nil l ls)
      have hxl : x.shape = l.inputShape := hx.trans hi.symm
      have hp := Layer.passes_of_forward hl
      have hback := Layer.passesBack_of_backward hl''
      have hdual := Layer.passes_of_forward hL
      obtain rfl := Layer.vary_phase hp hdual hX
      obtain ⟨s', rfl⟩ := hp.train
      obtain ⟨hbare, hc₁, -, -, -⟩ := forwardLayers_keeps hls hc (hp.shape hxl) (hp.sized hs)
      obtain ⟨-, -, hg', hgs'⟩ :=
        backwardLayers_keeps hls₂ hc₁ (hg.trans (outputFrom_eq_of_bare hbare _).symm) hgs
      have hXl : X.shape = (l.beforeSoftmax.vary w slot).inputShape := by
        rw [Layer.vary_inputShape, Layer.beforeSoftmax_inputShape, hX.shape, hxl]
      have hXh' := hdual.shape hXl
      rw [Layer.vary_outputShape, Layer.beforeSoftmax_outputShape] at hXh'
      have hXs' := hdual.sized hXs
      have hX' : ls ≠ [] → X'.Follows x' := fun hne =>
        Layer.vary_follows ((hlast.head hne).symm ▸ hp) hdual hsound hX
      have hstack := ih hls hls₂ hLS hc hlast.tail (hp.shape hxl) (hp.sized hs) hXh' hXs' hX' hg
      have hlayer := Layer.slope_vary hp hback hdual hsound ht hX hxl hs hg' hgs'
      have hsize : X'.data.size = g'.data.size := by
        rw [hXs', hgs', hXh', hg']
      rw [← Buffer.slope_eq_along hsize, hlayer, Layer.length_parameters_beforeSoftmax] at hstack
      have hlen := Layer.length_ready_of_bare (hback.bare.trans hp.bare)
      rw [hstack, List.flatMap_cons, List.flatMap_cons, alongAll_gains_append w slot hlen,
        Layer.length_parameters_ready, add_assoc]

end Stack

end Network

variable {K : Type} [Field K]

def Tensor.still (x : Tensor K) : Tensor (DualNumber K) := ⟨x.shape, x.data.map Dual.const⟩

theorem Tensor.still_follows (x : Tensor K) : x.still.Follows x := by
  refine ⟨rfl, ?_⟩
  rw [Buffer.Follows, still, Array.map_map]
  exact Array.map_id x.data

variable [LinearOrder K] [Elementary K] {σ : Type} [RandomSource σ]

theorem Tensor.rate_still (x : Tensor K) (i : Nat) : rate (Buffer.read x.still.data i) = 0 := by
  by_cases hi : i < x.still.data.size
  · rw [Buffer.read_of_lt hi]
    simp only [still, Array.getElem_map, rate_const]
  · rw [Buffer.read_of_le (by omega), map_zero]

/-- Back-propagation computes the derivative. Over an ordered field, for a network that a checked
description describes, whatever its parameters are, and an input of its input shape: the passes in both
directions run as long as there is room for their buffers. After a training pass and a pass back from `d`,
the sum of what was added to the gradients, each number times its rate in a direction `w`, is the rate at
which the sum of the outputs weighed by `d` changes when the same passes are run with parameters that
move in the direction `w`. Where the last layer has a softmax, the outputs are its logits. -/
theorem Network.backward_derivative {m : ModelSpec K} {shapes : List Shape}
    (hval : m.validate = .ok shapes) {net : Network K} (hr : net.Realizes m) {x : Tensor K}
    (hx : x.shape = m.inputShape) (hs : x.Sized) (s : σ) :
    (m.Storable shapes → ∃ net' out phase, net.forward x (.train s) = .ok (net', out, phase) ∧
      ∀ d : Array K, d.size = out.size → ∃ net'', net'.backward d = .ok net'') ∧
    ∀ net' out phase d net'', net.forward x (.train s) = .ok (net', out, phase) → d.size = out.size →
      net'.backward d = .ok net'' → ∀ w : Nat → Nat → K, ∃ Net O,
        (net.beforeSoftmax.vary w).forward x.still (.train s) = .ok (Net, O, phase) ∧
        (out = if m.outputsSoftmax then Activation.softmaxVector (O.map value) else O.map value) ∧
        alongAll w 0 (gains net.parameters net''.parameters) =
          ∑ j ∈ range d.size, Buffer.read d j * rate (Buffer.read O j) := by
  have hv := ModelSpec.valid_of_validate hval
  obtain ⟨hc, -⟩ := hr.chained hv
  constructor
  · intro hf
    obtain ⟨net', out, phase, h⟩ := (hr.runsForward hv hf hx hs (.train s)).runs
    obtain ⟨hout, -⟩ := hr.size_output hv hx hs h
    exact ⟨net', out, phase, h, fun d hd => (hr.runsBack hv hf hx hs h (hd ▸ hout)).runs⟩
  · intro net' out phase d net'' h hd hback w
    obtain ⟨-, hflat⟩ := hr.size_output hv hx hs h
    obtain ⟨ls, y, hfor, rfl, rfl⟩ := forward_eq_ok.mp h
    obtain ⟨ls'', b, hb, rfl⟩ := backward_eq_ok.mp hback
    have hlast : SoftmaxLast net.layers := hr.layers.softmaxLast hv.chain (by omega)
    have hfollows := x.still_follows
    have hXs : x.still.Sized := hfollows.data.size.trans hs
    have hroomy : ∀ l ∈ varyLayers w 0 (net.layers.map Layer.beforeSoftmax), l.Roomy := by
      refine roomy_vary ?_ 0
      intro l hl
      obtain ⟨k, hk, rfl⟩ := List.mem_map.mp hl
      exact (forwardLayers_roomy hfor k hk).beforeSoftmax
    obtain ⟨LS, Y, phase', hP⟩ :=
      forwardLayers_answers (hc.beforeSoftmax.vary 0) hroomy (x := x.still) hx hXs (.train s)
    obtain ⟨rfl, hout⟩ := forwardLayers_vary hfor hP hc hlast hfollows
    have hg : (Tensor.flat d).shape = outputFrom m.inputShape net.layers := by
      rw [hflat, ← hd]
      rfl
    have hslope := slope_varyLayers hfor hb hP hc hlast hx hs hx hXs (fun _ => hfollows) hg
      (Shape.size_flat _).symm
    have hstill : Buffer.along (fun i => rate (Buffer.read x.still.data i)) b.data = 0 := by
      rw [Buffer.along_eq_sum]
      exact sum_eq_zero fun i _ => by rw [x.rate_still, mul_zero]
    have hsize : Y.data.size = d.size := by
      rw [hd, hout]
      split <;> simp [Activation.softmaxVector]
    refine ⟨_, Y.data, forward_eq_ok.mpr ⟨LS, Y, hP, rfl, rfl⟩, ?_, ?_⟩
    · rw [hout, hr.layers.activation_getLast]
      simp only [ModelSpec.outputsSoftmax, beq_iff_eq]
    · rw [hstill, zero_add, Buffer.slope_eq_sum, hsize] at hslope
      exact hslope.symm

theorem Network.backward_derivative_real : ∃ (net net' net'' : Network ℝ) (out : Array ℝ)
    (phase : Phase Stream) (Net : Network (DualNumber ℝ)) (O : Array (DualNumber ℝ)),
    net.forward ⟨⟨4, 4, 1⟩, Buffer.zeros 16⟩ (.train (.ofSeed 0)) = .ok (net', out, phase) ∧
    net'.backward (Array.replicate out.size 1) = .ok net'' ∧
    (net.beforeSoftmax.vary fun _ _ => 1).forward
      (Tensor.still ⟨⟨4, 4, 1⟩, Buffer.zeros 16⟩) (.train (.ofSeed 0)) = .ok (Net, O, phase) ∧
    out = Activation.softmaxVector (O.map value) ∧
    alongAll (fun _ _ => 1) 0 (gains net.parameters net''.parameters) =
      ∑ j ∈ range out.size, Buffer.read (Array.replicate out.size 1) j * rate (Buffer.read O j) := by
  obtain ⟨m, hm⟩ : ∃ m : ModelSpec ℝ, m = ⟨⟨4, 4, 1⟩, [.conv 2 3 1 .same .relu, .pool .max 2 none,
    .flatten, .dense 2 .softmax], .categoricalCrossentropy⟩ := ⟨_, rfl⟩
  have hval : m.validate = .ok [⟨4, 4, 2⟩, ⟨2, 2, 2⟩, .flat 8, .flat 2] := by
    subst hm
    rfl
  have hf : m.Storable [⟨4, 4, 2⟩, ⟨2, 2, 2⟩, .flat 8, .flat 2] := by
    subst hm
    exact ⟨by decide, by decide⟩
  obtain ⟨net, s', hbuild⟩ := Network.build_answers Initializer.draws_ones hval hf (Stream.ofSeed 0)
  have hr := Network.build_realizes Initializer.draws_ones hbuild
  have hx : (⟨4, 4, 1⟩ : Shape) = m.inputShape := by rw [hm]
  have hsoft : m.outputsSoftmax = true := by
    subst hm
    rfl
  obtain ⟨hruns, hder⟩ := Network.backward_derivative hval hr (x := ⟨⟨4, 4, 1⟩, Buffer.zeros 16⟩) hx
    (Buffer.size_zeros 16) (Stream.ofSeed 0)
  obtain ⟨net', out, phase, hfor, hback⟩ := hruns hf
  obtain ⟨net'', hb⟩ := hback (Array.replicate out.size 1) Array.size_replicate
  obtain ⟨Net, O, hP, hout, hsum⟩ := hder net' out phase _ net'' hfor Array.size_replicate hb fun _ _ => 1
  rw [hsoft, if_pos rfl] at hout
  rw [Array.size_replicate] at hsum
  exact ⟨net, net', net'', out, phase, Net, O, hfor, hb, hP, hout, hsum⟩

end Convnet
