import Convnet.Proofs.Accumulation
import Convnet.Proofs.Shapes
import Convnet.Proofs.Update
import Convnet.Training.Batch

namespace Convnet

section Definitions

variable {α : Type} [Scalar α]

/-- A dataset of whole images and of classes that there are, which the network can be trained on. -/
structure Dataset.Suits (d : Dataset α) (net : Network α) : Prop where
  compatible : net.checkCompatible d = .ok ()
  labels : d.labels.size = d.images.size
  images : ∀ x ∈ d.images, x.shape = d.shape ∧ x.Sized
  classes : ∀ c ∈ d.labels, c < d.numClasses

namespace Network

def gradient (net : Network α) (slot : Nat) : Array α := (net.parameters.map (·.grads)).getD slot #[]

def Cleared (net : Network α) : Prop := ∀ p ∈ net.parameters, p = Parameter.cleared p.values

/-- The samples at some places, each trained on by itself: every pass starts from the same network, and
only the draws go on. -/
inductive Apart {σ : Type} [RandomSource σ] (net : Network α) (d : Dataset α) :
    List Nat → σ → List (Network α × Tally α) → σ → Prop
  | nil (s : σ) : Apart net d [] s [] s
  | cons {i label : Nat} {is : List Nat} {s s₁ s' : σ} {target : Array α} {image : Tensor α}
      {one : Network α} {t : Tally α} {runs : List (Network α × Tally α)}
      (hlabel : d.labels[i]? = some label) (htarget : d.target label = .ok target)
      (himage : d.images[i]? = some image) (hone : net.trainSample image label target s = .ok (one, s₁, t))
      (hrest : Apart net d is s₁ runs s') : Apart net d (i :: is) s ((one, t) :: runs) s'

end Network

end Definitions

section Parameters

variable {α : Type} [Scalar α]

theorem Layer.ready_matched {l : Layer α} (h : l.Sound) (ht : l.Tidy) :
    ∀ p ∈ l.ready.parameters, p.Matched := by
  intro p hp
  cases l with
  | conv l =>
      simp only [ready, parameters, List.mem_cons, List.not_mem_nil, or_false] at hp
      rcases hp with rfl | rfl
      · exact l.size_ready_kernelGrad
      · exact l.size_ready_biasGrad
  | dense l =>
      simp only [ready, parameters, List.mem_cons, List.not_mem_nil, or_false] at hp
      rcases hp with rfl | rfl
      · have hg : l.ready.weightsGrad.data.size =
            l.ready.weightsGrad.rows * l.ready.weightsGrad.cols := Dense.ready_sized ht
        have hw : l.weights.data.size = l.weights.rows * l.weights.cols := Dense.Sound.weights h.parts
        rw [Dense.ready_rows, Dense.ready_cols] at hg
        exact hg.trans hw.symm
      · exact l.size_ready_biasesGrad
  | pool | flatten | dropout | pointwise => exact absurd hp List.not_mem_nil

theorem Layer.values_of_bare {l k : Layer α} (h : k.bare = l.bare) :
    k.ready.parameters.map (·.values) = l.ready.parameters.map (·.values) := by
  cases twin_of_bare h <;> rfl

namespace Network

variable {net net' : Network α} {m : ModelSpec α} {shapes : List Shape}

theorem Chained.matched {s : Shape} {ls : List (Layer α)} (h : Chained s ls) :
    ∀ p ∈ ls.flatMap fun l => l.ready.parameters, p.Matched := by
  induction ls generalizing s with
  | nil => simp
  | cons l ls ih =>
      obtain ⟨-, hl, ht, hc⟩ := h
      intro p hp
      rcases List.mem_append.mp hp with hp | hp
      · exact Layer.ready_matched hl ht p hp
      · exact ih hc p hp

theorem Realizes.matched (hr : net.Realizes m) (hv : m.Valid shapes) :
    ∀ p ∈ net.parameters, p.Matched :=
  (hr.chained hv).1.matched

theorem values_of_bare {ls ks : List (Layer α)} (h : ks.map Layer.bare = ls.map Layer.bare) :
    (ks.flatMap fun l => l.ready.parameters).map (·.values) =
      (ls.flatMap fun l => l.ready.parameters).map (·.values) := by
  induction ls generalizing ks with
  | nil =>
      obtain rfl : ks = [] := by simpa using h
      rfl
  | cons l ls ih =>
      cases ks with
      | nil => simp at h
      | cons k ks =>
          obtain ⟨hl, hls⟩ := List.cons.inj h
          rw [List.flatMap_cons, List.flatMap_cons, List.map_append, List.map_append,
            Layer.values_of_bare hl, ih hls]

section Build

variable {σ : Type} {draw : Initializer α σ} {s s' : σ}

theorem buildLayer_cleared (hd : Initializer.Draws draw) {spec : LayerSpec α} {input : Shape} {l : Layer α}
    (h : spec.build draw input s = .ok (l, s')) :
    ∀ p ∈ l.ready.parameters, p = Parameter.cleared p.values := by
  cases spec with
  | conv f k t p a =>
      obtain ⟨⟨kernel, s₁⟩, hk, h⟩ := bind_eq_ok.mp (require_bind_eq_ok.mp h).2
      obtain ⟨⟩ := pure_eq_ok_iff.mp h
      intro q hq
      simp only [Layer.ready, Layer.parameters, Convolution.ready, hd.size hk, Buffer.size_zeros,
        Buffer.sized_of_size, List.mem_cons, List.not_mem_nil, or_false] at hq
      rcases hq with rfl | rfl
      · simp [Parameter.cleared, hd.size hk]
      · simp [Parameter.cleared]
  | dense u a =>
      obtain ⟨⟨weights, s₁⟩, hw, h⟩ := bind_eq_ok.mp (require_bind_eq_ok.mp h).2
      obtain ⟨w, hm, h⟩ := bind_eq_ok.mp h
      obtain ⟨⟩ := pure_eq_ok_iff.mp h
      obtain ⟨hsize, h⟩ := require_bind_eq_ok.mp hm
      obtain ⟨⟩ := pure_eq_ok_iff.mp h
      intro q hq
      simp only [Layer.ready, Layer.parameters, Dense.ready, Matrix.zeros, Buffer.size_zeros,
        Buffer.sized_of_size, and_self, if_true, List.mem_cons, List.not_mem_nil, or_false] at hq
      rcases hq with rfl | rfl
      · simp [Parameter.cleared, hd.size hw]
      · simp [Parameter.cleared]
  | pool | flatten | dropout | pointwise =>
      obtain ⟨⟩ := pure_eq_ok_iff.mp h
      simp [Layer.ready, Layer.parameters]

theorem buildLayers_cleared (hd : Initializer.Draws draw) {specs : List (LayerSpec α)} {input : Shape}
    {ls : List (Layer α)} (h : buildLayers draw input s specs = .ok (ls, s')) :
    ∀ p ∈ ls.flatMap fun l => l.ready.parameters, p = Parameter.cleared p.values := by
  induction specs generalizing input s ls with
  | nil =>
      obtain ⟨⟩ := Except.ok.inj h
      simp
  | cons spec specs ih =>
      obtain ⟨l, s₁, shape, ks, hl, -, hks, rfl⟩ := buildLayers_cons.mp h
      intro p hp
      rcases List.mem_append.mp hp with hp | hp
      · exact buildLayer_cleared hd hl p hp
      · exact ih hks p hp

theorem build_cleared (hd : Initializer.Draws draw) (h : build draw m s = .ok (net, s')) :
    net.Cleared := by
  obtain ⟨-, ls, -, hls, rfl⟩ := build_eq_ok.mp h
  exact buildLayers_cleared hd hls

end Build

/-- Networks that differ in what their layers have gathered at most. -/
structure Twins (net net' : Network α) : Prop where
  inputShape : net'.inputShape = net.inputShape
  loss : net'.loss = net.loss
  bare : net'.layers.map Layer.bare = net.layers.map Layer.bare

omit [Scalar α] in
theorem Twins.refl (net : Network α) : Twins net net := ⟨rfl, rfl, rfl⟩

omit [Scalar α] in
theorem Twins.trans {net'' : Network α} (h : Twins net net') (h' : Twins net' net'') :
    Twins net net'' :=
  ⟨h'.inputShape.trans h.inputShape, h'.loss.trans h.loss, h'.bare.trans h.bare⟩

omit [Scalar α] in
theorem Twins.symm (h : Twins net net') : Twins net' net :=
  ⟨h.inputShape.symm, h.loss.symm, h.bare.symm⟩

omit [Scalar α] in
theorem Twins.realizes {s : Shape} (h : Twins net net') (hr : net.Realizes m)
    (hc : Chained s net'.layers) : net'.Realizes m :=
  ⟨h.inputShape.trans hr.inputShape, h.loss.trans hr.loss, hr.layers.of_bare h.bare hc.tidy⟩

theorem Twins.values (h : Twins net net') :
    net'.parameters.map (·.values) = net.parameters.map (·.values) :=
  values_of_bare h.bare

theorem Realizes.outputSize (hr : net.Realizes m) (hv : m.Valid shapes) :
    net.outputSize = .ok (shapes.getLastD m.inputShape).size := by
  obtain ⟨n, hn, hsize⟩ := hr.outputFlat hv
  rw [outputFrom_eq_getLastD, ← (hr.chained hv).2] at hn
  rw [hsize, hn, Shape.size_flat]

theorem Realizes.outputSize_eq (hr : net.Realizes m) (hr' : net'.Realizes m) (hv : m.Valid shapes) :
    net'.outputSize = net.outputSize :=
  (hr'.outputSize hv).trans (hr.outputSize hv).symm

section Sample

variable {σ : Type} [RandomSource σ] {s s' : σ} {image : Tensor α} {label : Nat} {target : Array α}
  {t : Tally α}

theorem trainSample_eq_ok : net.trainSample image label target s = .ok (net', s', t) ↔
    ∃ mid out phase, net.forward image (.train s) = .ok (mid, out, phase) ∧
      mid.backward (mid.loss.derivative out target) = .ok net' ∧ s' = sourceAfter s phase ∧
      t = ⟨mid.loss.value out target, if argmax out = label then 1 else 0, 1⟩ := by
  rw [trainSample, bind_eq_ok]
  constructor
  · rintro ⟨⟨mid, out, phase⟩, hfor, h⟩
    obtain ⟨net'', hback, h⟩ := bind_eq_ok.mp h
    obtain ⟨⟩ := pure_eq_ok_iff.mp h
    exact ⟨mid, out, phase, hfor, hback, rfl, rfl⟩
  · rintro ⟨mid, out, phase, hfor, hback, rfl, rfl⟩
    exact ⟨_, hfor, bind_eq_ok.mpr ⟨_, hback, rfl⟩⟩

theorem size_derivative (l : Loss) {out target : Array α} (h : out.size = target.size) :
    (l.derivative out target).size = out.size := by
  cases l <;> simp [Loss.derivative, h]

theorem trainSample_keeps (hr : net.Realizes m) (hv : m.Valid shapes)
    (hx : image.shape = m.inputShape) (hs : image.Sized) (hout : net.outputSize = .ok target.size)
    (h : net.trainSample image label target s = .ok (net', s', t)) :
    Twins net net' ∧ net'.Realizes m := by
  obtain ⟨mid, out, phase, hfor, hback, -, -⟩ := trainSample_eq_ok.mp h
  obtain ⟨hsize, hflat⟩ := hr.size_output hv hx hs hfor
  have hot : out.size = target.size := Except.ok.inj (hsize.symm.trans hout)
  obtain ⟨hc, -⟩ := hr.chained hv
  obtain ⟨ls, y, hls, rfl, rfl⟩ := forward_eq_ok.mp hfor
  obtain ⟨ls', b, hls', rfl⟩ := backward_eq_ok.mp hback
  obtain ⟨hb, hc₁, -, -, -⟩ := forwardLayers_keeps hls hc hx hs
  have hg : (Tensor.flat (net.loss.derivative y.data target)).shape = outputFrom m.inputShape ls := by
    rw [outputFrom_eq_of_bare hb, hflat, Tensor.flat, size_derivative _ hot]
  obtain ⟨hb', hc₂, -, -⟩ := backwardLayers_keeps hls' hc₁ hg (Shape.size_flat _).symm
  have htwins : Twins net { net with layers := ls' } := ⟨rfl, rfl, hb'.trans hb⟩
  exact ⟨htwins, htwins.realizes hr hc₂⟩

theorem trainSamples_cons {d : Dataset α} {i : Nat} {is : List Nat} {t' : Tally α} :
    trainSamples d (i :: is) net s t = .ok (net', s', t') ↔ ∃ label target image net₁ s₁ one,
      d.labels[i]? = some label ∧ d.target label = .ok target ∧ d.images[i]? = some image ∧
      net.trainSample image label target s = .ok (net₁, s₁, one) ∧
      trainSamples d is net₁ s₁ (t.add one) = .ok (net', s', t') := by
  rw [trainSamples]
  constructor
  · intro h
    cases hl : d.labels[i]? with
    | none => simp [hl] at h
    | some label =>
        simp only [hl] at h
        obtain ⟨target, ht, h⟩ := bind_eq_ok.mp h
        cases hi : d.images[i]? with
        | none => simp [hi] at h
        | some image =>
            simp only [hi] at h
            obtain ⟨⟨net₁, s₁, one⟩, hone, h⟩ := bind_eq_ok.mp h
            exact ⟨label, target, image, net₁, s₁, one, rfl, ht, rfl, hone, h⟩
  · rintro ⟨label, target, image, net₁, s₁, one, hl, ht, hi, hone, h⟩
    simp only [hl, hi]
    exact bind_eq_ok.mpr ⟨target, ht, bind_eq_ok.mpr ⟨_, hone, h⟩⟩

end Sample

section Data

variable {d : Dataset α}

omit [Scalar α] in
theorem checkCompatible_eq_ok {net : Network α} : net.checkCompatible d = .ok () ↔
    d.shape = net.inputShape ∧ net.outputSize = .ok d.numClasses := by
  rw [checkCompatible, checkInput]
  by_cases hs : d.shape = net.inputShape
  · cases hn : net.outputSize with
    | error e => simp [hs]
    | ok n =>
        by_cases hc : n = d.numClasses
        · simp [hs, hc]
        · simp [hs, hc]
  · simp [hs]

theorem size_target {label : Nat} {target : Array α} (h : d.target label = .ok target) :
    target.size = d.numClasses := by
  obtain ⟨-, h⟩ := require_bind_eq_ok.mp h
  obtain ⟨⟩ := pure_eq_ok_iff.mp h
  simp

theorem Realizes.suits (hr : net.Realizes m) (hr' : net'.Realizes m) (hv : m.Valid shapes)
    (hd : d.Suits net) : d.Suits net' := by
  obtain ⟨hin, hout⟩ := checkCompatible_eq_ok.mp hd.compatible
  have hin' : net.inputShape = net'.inputShape := hr.inputShape.trans hr'.inputShape.symm
  have hcompatible : net'.checkCompatible d = .ok () :=
    checkCompatible_eq_ok.mpr ⟨hin.trans hin', (hr.outputSize_eq hr' hv).trans hout⟩
  exact ⟨hcompatible, hd.labels, hd.images, hd.classes⟩

omit [Scalar α] in
theorem Realizes.image {i : Nat} {image : Tensor α} (hr : net.Realizes m) (hd : d.Suits net)
    (h : d.images[i]? = some image) : image.shape = m.inputShape ∧ image.Sized := by
  obtain ⟨hshape, hsized⟩ := hd.images image (Array.mem_of_getElem? h)
  obtain ⟨hin, -⟩ := checkCompatible_eq_ok.mp hd.compatible
  exact ⟨hshape.trans (hin.trans hr.inputShape), hsized⟩

theorem outputSize_target {label : Nat} {target : Array α} (hd : d.Suits net)
    (h : d.target label = .ok target) : net.outputSize = .ok target.size := by
  obtain ⟨-, hout⟩ := checkCompatible_eq_ok.mp hd.compatible
  rw [hout, size_target h]

end Data

section Answers

variable {σ : Type} [RandomSource σ] {d : Dataset α} {is : List Nat} {o o' : Optimizer α} {s s' : σ}
  {t t' : Tally α}

theorem Realizes.target_answers (hr : net.Realizes m) (hv : m.Valid shapes) (hf : m.Storable shapes)
    (hd : d.Suits net) {label : Nat} (hl : label < d.numClasses) : ∃ target, d.target label = .ok target := by
  obtain ⟨-, hout⟩ := checkCompatible_eq_ok.mp hd.compatible
  have hclasses : d.numClasses = (shapes.getLastD m.inputShape).size :=
    Except.ok.inj (hout.symm.trans (hr.outputSize hv))
  have hroom : Buffer.fits d.numClasses = true := by
    rw [hclasses]
    exact hf.maps _ List.getLastD_mem_cons
  exact ⟨_, require_bind_eq_ok.mpr ⟨by simp [hl, hroom], rfl⟩⟩

theorem trainSample_answers (hr : net.Realizes m) (hv : m.Valid shapes) (hf : m.Storable shapes)
    {image : Tensor α} (hx : image.shape = m.inputShape) (hs : image.Sized) {target : Array α}
    (hout : net.outputSize = .ok target.size) (label : Nat) (s : σ) :
    ∃ r, net.trainSample image label target s = .ok r := by
  obtain ⟨mid, out, phase, hfor⟩ := (hr.runsForward hv hf hx hs (.train s)).runs
  obtain ⟨hsize, -⟩ := hr.size_output hv hx hs hfor
  have hot : out.size = target.size := Except.ok.inj (hsize.symm.trans hout)
  have hd := size_derivative mid.loss hot
  obtain ⟨net', hback⟩ := (hr.runsBack hv hf hx hs hfor (hd.symm ▸ hsize)).runs
  exact ⟨_, trainSample_eq_ok.mpr ⟨mid, out, phase, hfor, hback, rfl, rfl⟩⟩

theorem trainSamples_answers (hr : net.Realizes m) (hv : m.Valid shapes) (hf : m.Storable shapes)
    (hd : d.Suits net) (hi : ∀ i ∈ is, i < d.size) (s : σ) (t : Tally α) :
    ∃ r, trainSamples d is net s t = .ok r := by
  induction is generalizing net s t with
  | nil => exact ⟨_, rfl⟩
  | cons i is ih =>
      have hi₀ : i < d.images.size := hi i (by simp)
      have himage : d.images[i]? = some d.images[i] := Array.getElem?_eq_getElem hi₀
      have hi₁ : i < d.labels.size := hd.labels.symm ▸ hi₀
      have hlabel : d.labels[i]? = some d.labels[i] := Array.getElem?_eq_getElem hi₁
      obtain ⟨target, htarget⟩ :=
        hr.target_answers hv hf hd (hd.classes _ (Array.mem_of_getElem? hlabel))
      obtain ⟨hx, hs⟩ := hr.image hd himage
      have hout := outputSize_target hd htarget
      obtain ⟨⟨net₁, s₁, one⟩, hone⟩ := trainSample_answers hr hv hf hx hs hout d.labels[i] s
      obtain ⟨-, hr₁⟩ := trainSample_keeps hr hv hx hs hout hone
      obtain ⟨⟨net₂, s₂, t₂⟩, hrest⟩ :=
        ih hr₁ (hr.suits hr₁ hv hd) (fun j hj => hi j (by simp [hj])) s₁ (t.add one)
      exact ⟨_, trainSamples_cons.mpr ⟨_, _, _, net₁, s₁, one, hlabel, htarget, himage, hone, hrest⟩⟩

theorem trainSamples_keeps (hr : net.Realizes m) (hv : m.Valid shapes) (hd : d.Suits net)
    (h : trainSamples d is net s t = .ok (net', s', t')) : Twins net net' ∧ net'.Realizes m := by
  induction is generalizing net s t with
  | nil =>
      obtain ⟨⟩ := Except.ok.inj h
      exact ⟨Twins.refl net', hr⟩
  | cons i is ih =>
      obtain ⟨label, target, image, net₁, s₁, one, hl, ht, hi, hone, hrest⟩ := trainSamples_cons.mp h
      obtain ⟨hx, hs⟩ := hr.image hd hi
      obtain ⟨htw₁, hr₁⟩ := trainSample_keeps hr hv hx hs (outputSize_target hd ht) hone
      obtain ⟨htw, hr'⟩ := ih hr₁ (hr.suits hr₁ hv hd) hrest
      exact ⟨htw₁.trans htw, hr'⟩

theorem trainBatch_eq_ok : net.trainBatch d is o s = .ok (net', o', s', t) ↔
    is ≠ [] ∧ ∃ mid, trainSamples d is net s .zero = .ok (mid, s', t) ∧
      mid.applyGradients o (1 / (is.length : α)) = .ok (net', o') := by
  rw [trainBatch, require_bind_eq_ok, Bool.not_eq_true', List.isEmpty_eq_false_iff, bind_eq_ok]
  refine and_congr_right fun _ => ?_
  constructor
  · rintro ⟨⟨mid, s₁, t₁⟩, hrun, h⟩
    obtain ⟨⟨net₁, o₁⟩, hstep, h⟩ := bind_eq_ok.mp h
    obtain ⟨⟩ := pure_eq_ok_iff.mp h
    exact ⟨mid, hrun, hstep⟩
  · rintro ⟨mid, hrun, hstep⟩
    exact ⟨_, hrun, bind_eq_ok.mpr ⟨_, hstep, rfl⟩⟩

theorem trainBatch_answers (hr : net.Realizes m) (hv : m.Valid shapes) (hf : m.Storable shapes)
    (hd : d.Suits net) (hne : is ≠ []) (hi : ∀ i ∈ is, i < d.size) (o : Optimizer α) (s : σ)
    (hroom : Optimizer.rowBytes * net.parameters.length < Nat.pow 2 63) :
    ∃ r, net.trainBatch d is o s = .ok r := by
  obtain ⟨⟨mid, s', t⟩, hrun⟩ := trainSamples_answers hr hv hf hd hi s .zero
  obtain ⟨htw, hmid⟩ := trainSamples_keeps hr hv hd hrun
  have hlen : mid.parameters.length = net.parameters.length := by
    simpa using congrArg List.length htw.values
  obtain ⟨⟨net', o'⟩, hstep⟩ :=
    applyGradients_answers (1 / (is.length : α)) o (hmid.matched hv) (hlen.symm ▸ hroom)
  exact ⟨_, trainBatch_eq_ok.mpr ⟨hne, mid, hrun, hstep⟩⟩

theorem trainBatch_keeps (hr : net.Realizes m) (hv : m.Valid shapes) (hd : d.Suits net)
    (h : net.trainBatch d is o s = .ok (net', o', s', t)) :
    net'.Realizes m ∧ net'.parameters.length = net.parameters.length := by
  obtain ⟨-, mid, hrun, hstep⟩ := trainBatch_eq_ok.mp h
  obtain ⟨htw, hmid⟩ := trainSamples_keeps hr hv hd hrun
  obtain ⟨values, hup, hpars, hr'⟩ := hmid.applyGradients (hmid.matched hv) hstep
  have hlen : mid.parameters.length = net.parameters.length := by
    simpa using congrArg List.length htw.values
  refine ⟨hr', ?_⟩
  rw [hpars, List.length_map, hup.length, List.length_map, hlen]

end Answers

end Network

end Parameters

section Exact

variable {R : Type} [ExactScalar R] {σ : Type} [RandomSource σ]

theorem read_gains {ps ps' : List (Parameter R)} (hv : ps'.map (·.values) = ps.map (·.values))
    (hm : ∀ p ∈ ps, p.Matched) (hm' : ∀ p ∈ ps', p.Matched) (slot i : Nat) :
    Buffer.read ((gains ps ps').getD slot #[]) i =
      Buffer.read ((ps'.map (·.grads)).getD slot #[]) i - Buffer.read ((ps.map (·.grads)).getD slot #[]) i := by
  induction ps generalizing ps' slot with
  | nil =>
      obtain rfl : ps' = [] := by simpa using hv
      exact (sub_self _).symm
  | cons p ps ih =>
      cases ps' with
      | nil => simp at hv
      | cons p' ps' =>
          obtain ⟨hp, hps⟩ := List.cons.inj hv
          cases slot with
          | zero =>
              have hpm : p.grads.size = p.values.size := hm p (by simp)
              have hpm' : p'.grads.size = p'.values.size := hm' p' (by simp)
              have hsize : p'.grads.size = p.grads.size := by
                rw [hpm, hpm']
                exact congrArg Array.size hp
              show Buffer.read (p.gain p') i = Buffer.read p'.grads i - Buffer.read p.grads i
              by_cases hi : i < p'.grads.size
              · exact Buffer.read_zipKeep hi (hsize ▸ hi)
              · rw [Buffer.read_of_le (by simpa [Parameter.gain] using hi), Buffer.read_of_le (by omega),
                  Buffer.read_of_le (by omega), sub_zero]
          | succ slot =>
              exact ih hps (fun q hq => hm q (by simp [hq])) (fun q hq => hm' q (by simp [hq])) slot

namespace Network

variable {net net' net₂ : Network R} {m : ModelSpec R} {shapes : List Shape} {s s' : σ}
  {image : Tensor R} {label : Nat} {target : Array R} {t : Tally R}

theorem Twins.trainSample (htw : Twins net net₂) (hr : net.Realizes m) (hr₂ : net₂.Realizes m)
    (hv : m.Valid shapes) (hx : image.shape = m.inputShape) (hs : image.Sized)
    (hout : net.outputSize = .ok target.size)
    (h : net.trainSample image label target s = .ok (net', s', t)) :
    ∃ net₂', net₂.trainSample image label target s = .ok (net₂', s', t) ∧
      gains net₂.parameters net₂'.parameters = gains net.parameters net'.parameters := by
  obtain ⟨mid, out, phase, hfor, hback, rfl, rfl⟩ := trainSample_eq_ok.mp h
  obtain ⟨hsize, hflat⟩ := hr.size_output hv hx hs hfor
  have hot : out.size = target.size := Except.ok.inj (hsize.symm.trans hout)
  obtain ⟨hc, -⟩ := hr.chained hv
  obtain ⟨hc₂, -⟩ := hr₂.chained hv
  obtain ⟨ls, y, hls, rfl, rfl⟩ := forward_eq_ok.mp hfor
  obtain ⟨ls', b, hls', rfl⟩ := backward_eq_ok.mp hback
  have hg : (Tensor.flat (net.loss.derivative y.data target)).shape =
      outputFrom m.inputShape net.layers := by
    rw [hflat, Tensor.flat, size_derivative _ hot]
  obtain ⟨ks, ks', hks, hks', hgains⟩ := layersRun_of_bare htw.bare hls hls' hc hc₂ hx hs hg
    (Shape.size_flat _).symm
  refine ⟨{ net₂ with layers := ks' }, trainSample_eq_ok.mpr
    ⟨{ net₂ with layers := ks }, y.data, phase, forward_eq_ok.mpr ⟨ks, y, hks, rfl, rfl⟩,
      backward_eq_ok.mpr ⟨ks', b, ?_, rfl⟩, rfl, ?_⟩, hgains⟩
  · dsimp only
    rw [htw.loss]
    exact hks'
  · rw [htw.loss]

theorem Twins.read_gains (htw : Twins net net') (hr : net.Realizes m) (hr' : net'.Realizes m)
    (hv : m.Valid shapes) (slot i : Nat) :
    Buffer.read ((gains net.parameters net'.parameters).getD slot #[]) i =
      Buffer.read (net'.gradient slot) i - Buffer.read (net.gradient slot) i :=
  Convnet.read_gains htw.values (hr.matched hv) (hr'.matched hv) slot i

theorem Cleared.read_gradient (h : net.Cleared) (slot i : Nat) : Buffer.read (net.gradient slot) i = 0 := by
  unfold gradient
  rw [List.getD_eq_getElem?_getD, List.getElem?_map]
  cases hp : net.parameters[slot]? with
  | none => rfl
  | some p =>
      have hp := h p (List.mem_of_getElem? hp)
      rw [Option.map_some, Option.getD_some, hp]
      exact Buffer.read_zeros _ _

variable {net A A' : Network R} {d : Dataset R} {is : List Nat} {t t' : Tally R}

/-- What the samples of a batch sum up, each of them leaves alone in the cleared network. -/
theorem trainSamples_apart (hr : net.Realizes m) (hv : m.Valid shapes) (hz : net.Cleared)
    (hd : d.Suits net) (htw : Twins net A) (hA : A.Realizes m)
    (h : trainSamples d is A s t = .ok (A', s', t')) :
    ∃ runs, Apart net d is s runs s' ∧ Twins net A' ∧ A'.Realizes m ∧
      (∀ slot i, Buffer.read (A'.gradient slot) i = Buffer.read (A.gradient slot) i +
        (runs.map fun run => Buffer.read (run.1.gradient slot) i).sum) ∧
      t' = runs.foldl (fun t run => t.add run.2) t := by
  induction is generalizing A s t with
  | nil =>
      obtain ⟨⟩ := Except.ok.inj h
      exact ⟨[], .nil s', htw, hA, fun slot i => (add_zero _).symm, rfl⟩
  | cons i is ih =>
      obtain ⟨label, target, image, A₁, s₁, one, hl, ht, hi, hone, hrest⟩ := trainSamples_cons.mp h
      obtain ⟨hx, hs⟩ := hr.image hd hi
      have hout := outputSize_target hd ht
      have houtA := (hr.outputSize_eq hA hv).trans hout
      obtain ⟨htwA, hA₁⟩ := trainSample_keeps hA hv hx hs houtA hone
      obtain ⟨net₁, hone', hgains⟩ := htw.symm.trainSample hA hr hv hx hs houtA hone
      obtain ⟨htw₁, hr₁⟩ := trainSample_keeps hr hv hx hs hout hone'
      obtain ⟨runs, hapart, htw', hA', hsum, rfl⟩ := ih (htw.trans htwA) hA₁ hrest
      refine ⟨(net₁, one) :: runs, .cons hl ht hi hone' hapart, htw', hA', fun slot j => ?_, rfl⟩
      have hadd : Buffer.read (net₁.gradient slot) j =
          Buffer.read (A₁.gradient slot) j - Buffer.read (A.gradient slot) j := by
        rw [← htwA.read_gains hA hA₁ hv, ← hgains, htw₁.read_gains hr hr₁ hv, hz.read_gradient, sub_zero]
      rw [hsum, List.map_cons, List.sum_cons, ← add_assoc, hadd, add_sub_cancel]

/-- Where each sample runs alone, the batch runs. -/
theorem trainSamples_of_apart {runs : List (Network R × Tally R)} (hr : net.Realizes m)
    (hv : m.Valid shapes) (hd : d.Suits net) (h : Apart net d is s runs s') (htw : Twins net A)
    (hA : A.Realizes m) (t : Tally R) : ∃ A' t', trainSamples d is A s t = .ok (A', s', t') := by
  induction h generalizing A t with
  | nil s => exact ⟨A, t, rfl⟩
  | cons hl ht hi hone hrest ih =>
      obtain ⟨hx, hs⟩ := hr.image hd hi
      have hout := outputSize_target hd ht
      obtain ⟨A₁, honeA, -⟩ := htw.trainSample hr hA hv hx hs hout hone
      have houtA := (hr.outputSize_eq hA hv).trans hout
      obtain ⟨htwA, hA₁⟩ := trainSample_keeps hA hv hx hs houtA honeA
      obtain ⟨A', t', hrun⟩ := ih (htw.trans htwA) hA₁ (t.add _)
      exact ⟨A', t', trainSamples_cons.mpr ⟨_, _, _, A₁, _, _, hl, ht, hi, honeA, hrun⟩⟩

end Network

end Exact

end Convnet
