import Convnet.Proofs.Batch
import Convnet.Proofs.Fit
import Convnet.Proofs.Real

namespace Convnet

section Still

variable {α : Type} [Scalar α] {σ : Type} [RandomSource σ] {net net' : Network α} {m : ModelSpec α}
  {d : Dataset α} {s s' : σ}

/-- Whether nothing is drawn in training. -/
def ModelSpec.Still (m : ModelSpec α) : Prop := ∀ rate, LayerSpec.dropout rate ∉ m.layers

namespace Network

theorem forwardLayers_still {ls ls' : List (Layer α)} {x y : Tensor α} {phase : Phase σ}
    (hn : ∀ l, Layer.dropout l ∉ ls) (h : forwardLayers ls x (.train s) = .ok (ls', y, phase)) :
    phase = .train s := by
  induction ls generalizing x ls' with
  | nil =>
      obtain ⟨⟩ := Except.ok.inj h
      rfl
  | cons l ls ih =>
      obtain ⟨l', x', phase₁, ls₁, hl, hls, rfl⟩ := forwardLayers_cons.mp h
      have hphase : phase₁ = .train s := by
        cases Layer.passes_of_forward hl with
        | drop k => exact absurd List.mem_cons_self (hn k)
        | conv | pool | flatten | dense | pointwise => rfl
      subst hphase
      exact ih (fun k hk => hn k (List.mem_cons_of_mem l hk)) hls

omit [Scalar α] in
theorem LayersRealize.still {sh : Shape} {specs : List (LayerSpec α)} {ls : List (Layer α)}
    (h : LayersRealize sh specs ls) (hm : ∀ rate, LayerSpec.dropout rate ∉ specs) (l : Dropout α) :
    Layer.dropout l ∉ ls := by
  induction ls generalizing sh specs with
  | nil => exact List.not_mem_nil
  | cons k ls ih =>
      cases specs with
      | nil => exact h.elim
      | cons spec specs =>
          obtain ⟨hr, -, hls⟩ := h
          intro hl
          rcases List.mem_cons.mp hl with rfl | hl
          · cases hr
            exact hm _ List.mem_cons_self
          · exact ih hls (fun rate hrate => hm rate (List.mem_cons_of_mem spec hrate)) hl

theorem Realizes.source_trainSample (hr : net.Realizes m) (hm : m.Still) {image : Tensor α}
    {label : Nat} {target : Array α} {t : Tally α}
    (h : net.trainSample image label target s = .ok (net', s', t)) : s' = s := by
  obtain ⟨mid, out, phase, hfor, -, rfl, -⟩ := trainSample_eq_ok.mp h
  obtain ⟨ls, y, hls, -, -⟩ := forward_eq_ok.mp hfor
  rw [forwardLayers_still (hr.layers.still hm) hls]
  rfl

def Alone (net : Network α) (d : Dataset α) (s : σ) (i : Nat) (run : Network α × Tally α) : Prop :=
  Apart net d [i] s [run] s

theorem apart_iff_alone (hr : net.Realizes m) (hm : m.Still) {is : List Nat}
    {runs : List (Network α × Tally α)} :
    Apart net d is s runs s' ↔ List.Forall₂ (Alone net d s) is runs ∧ s' = s := by
  constructor
  · intro h
    induction h with
    | nil s => exact ⟨.nil, rfl⟩
    | cons hl ht hi hone hrest ih =>
        obtain rfl := hr.source_trainSample hm hone
        exact ⟨.cons (.cons hl ht hi hone (.nil _)) ih.1, ih.2⟩
  · rintro ⟨h, rfl⟩
    induction h with
    | nil => exact .nil _
    | cons hone hrest ih =>
        cases hone with
        | cons hl ht hi hone hnil =>
            obtain rfl := hr.source_trainSample hm hone
            exact .cons hl ht hi hone ih

theorem alone_rightUnique (net : Network α) (d : Dataset α) (s : σ) :
    Relator.RightUnique (Alone net d s) := by
  intro i run run' h h'
  cases h with
  | cons hl ht hi hone _ =>
      cases h' with
      | cons hl' ht' hi' hone' _ =>
          obtain rfl := Option.some.inj (hl.symm.trans hl')
          obtain rfl := Except.ok.inj (ht.symm.trans ht')
          obtain rfl := Option.some.inj (hi.symm.trans hi')
          obtain ⟨⟩ := Except.ok.inj (hone.symm.trans hone')
          rfl

end Network

end Still

section Sums

variable {R : Type} [ExactScalar R] {σ : Type} [RandomSource σ] {net net' mid : Network R}
  {m : ModelSpec R} {shapes : List Shape} {d : Dataset R} {is : List Nat} {s s' : σ} {o o' : Optimizer R}
  {t : Tally R} {runs : List (Network R × Tally R)}

theorem parameters_ext {ps ps' : List (Parameter R)} (hv : ps'.map (·.values) = ps.map (·.values))
    (hm : ∀ p ∈ ps, p.Matched) (hm' : ∀ p ∈ ps', p.Matched)
    (h : ∀ slot i, Buffer.read ((ps'.map (·.grads)).getD slot #[]) i =
      Buffer.read ((ps.map (·.grads)).getD slot #[]) i) : ps' = ps := by
  induction ps generalizing ps' with
  | nil => simpa using hv
  | cons p ps ih =>
      cases ps' with
      | nil => simp at hv
      | cons p' ps' =>
          obtain ⟨hp, hps⟩ := List.cons.inj hv
          have hpm : p.grads.size = p.values.size := hm p (by simp)
          have hpm' : p'.grads.size = p'.values.size := hm' p' (by simp)
          have hsize : p'.grads.size = p.grads.size := by
            rw [hpm, hpm']
            exact congrArg Array.size hp
          have hgrads : p'.grads = p.grads := Buffer.ext hsize fun i _ => h 0 i
          have hrest := ih hps (fun q hq => hm q (by simp [hq])) (fun q hq => hm' q (by simp [hq]))
            fun slot i => h (slot + 1) i
          obtain ⟨values, grads⟩ := p
          obtain ⟨values', grads'⟩ := p'
          obtain rfl : values' = values := hp
          obtain rfl : grads' = grads := hgrads
          rw [hrest]

theorem Tally.foldl_add (t₀ : Tally R) : runs.foldl (fun t run => t.add run.2) t₀ =
    ⟨t₀.lossSum + (runs.map (·.2.lossSum)).sum, t₀.correct + (runs.map (·.2.correct)).sum,
      t₀.samples + (runs.map (·.2.samples)).sum⟩ := by
  induction runs generalizing t₀ with
  | nil => simp
  | cons run runs ih =>
      rw [List.foldl_cons, ih]
      simp only [add, List.map_cons, List.sum_cons, add_assoc]

namespace Network

theorem Apart.samples (h : Apart net d is s runs s') : (runs.map (·.2.samples)).sum = is.length := by
  induction h with
  | nil => rfl
  | cons _ _ _ hone _ ih =>
      obtain ⟨mid, out, phase, -, -, -, rfl⟩ := trainSample_eq_ok.mp hone
      rw [List.map_cons, List.sum_cons, ih, List.length_cons, Nat.add_comm]

theorem read_scaled (scale : R) (net : Network R) {slot : Nat} {p : Parameter R}
    (h : (net.parameters.map (·.scaled scale))[slot]? = some p) (i : Nat) :
    Buffer.read p.grads i = Buffer.read (net.gradient slot) i * scale := by
  rw [List.getElem?_map, Option.map_eq_some_iff] at h
  obtain ⟨q, hq, rfl⟩ := h
  have hgrad : net.gradient slot = q.grads := by
    rw [gradient, List.getD_eq_getElem?_getD, List.getElem?_map, hq]
    rfl
  rw [hgrad]
  have hsize : (q.scaled scale).grads.size = q.grads.size := Array.size_map
  by_cases hi : i < q.grads.size
  · rw [Buffer.read_of_lt hi, Buffer.read_of_lt (hsize.symm ▸ hi)]
    simp only [Parameter.scaled, Array.getElem_map]
  · rw [Buffer.read_of_le (by omega), Buffer.read_of_le (by omega), zero_mul]

theorem scaled_matched (scale : R) {ps : List (Parameter R)} (hm : ∀ p ∈ ps, p.Matched) :
    ∀ p ∈ ps.map (·.scaled scale), p.Matched := by
  intro p hp
  obtain ⟨q, hq, rfl⟩ := List.mem_map.mp hp
  exact Array.size_map.trans (hm q hq)

/-- A batch is one step of the optimizer with the scaled sums of what its samples leave one by one. -/
theorem trainBatch_steps (hr : net.Realizes m) (hv : m.Valid shapes) (hz : net.Cleared)
    (hd : d.Suits net) (h : net.trainBatch d is o s = .ok (net', o', s', t)) :
    ∃ runs handed values, Apart net d is s runs s' ∧
      handed.map (·.values) = net.parameters.map (·.values) ∧
      (∀ slot p, handed[slot]? = some p → p.Matched ∧ ∀ i, Buffer.read p.grads i =
        (runs.map fun run => Buffer.read (run.1.gradient slot) i).sum * (1 / (is.length : R))) ∧
      Updates 0 handed o.beginStep values o' ∧ net'.parameters = values.map Parameter.cleared ∧
      net'.Realizes m ∧
      t = ⟨(runs.map (·.2.lossSum)).sum, (runs.map (·.2.correct)).sum, is.length⟩ := by
  obtain ⟨-, mid, hrun, hstep⟩ := trainBatch_eq_ok.mp h
  obtain ⟨runs, hapart, htw, hmid, hsum, rfl⟩ :=
    trainSamples_apart hr hv hz hd (Twins.refl net) hr hrun
  have hm := hmid.matched hv
  obtain ⟨values, hup, hpars, hr'⟩ := hmid.applyGradients hm hstep
  refine ⟨runs, _, values, hapart, ?_, fun slot p hp => ⟨?_, fun i => ?_⟩, hup, hpars, hr', ?_⟩
  · rw [← htw.values, List.map_map]
    rfl
  · exact scaled_matched _ hm p (List.mem_of_getElem? hp)
  · rw [read_scaled _ mid hp, hsum, hz.read_gradient, zero_add]
  · rw [Tally.foldl_add, hapart.samples]
    simp [Tally.zero]

theorem cleared_of_parameters {values : List (Array R)} (h : net.parameters = values.map Parameter.cleared) :
    net.Cleared := by
  intro p hp
  rw [h] at hp
  obtain ⟨v, -, rfl⟩ := List.mem_map.mp hp
  rfl

theorem trainBatch_perm {js : List Nat} (hr : net.Realizes m) (hv : m.Valid shapes) (hz : net.Cleared)
    (hd : d.Suits net) (hm : m.Still) (hp : js.Perm is)
    (h : net.trainBatch d is o s = .ok (net', o', s', t)) :
    ∃ net'', net.trainBatch d js o s = .ok (net'', o', s', t) ∧
      net''.parameters = net'.parameters := by
  obtain ⟨hne, mid, hrun, hstep⟩ := trainBatch_eq_ok.mp h
  obtain ⟨runs, hapart, htw, hmid, hsum, rfl⟩ :=
    trainSamples_apart hr hv hz hd (Twins.refl net) hr hrun
  obtain ⟨hall, rfl⟩ := (apart_iff_alone hr hm).mp hapart
  obtain ⟨runs₂, hall₂, hperm⟩ := List.perm_comp_forall₂ hp hall
  obtain ⟨mid₂, t₂, hrun₂⟩ := trainSamples_of_apart hr hv hd ((apart_iff_alone hr hm).mpr ⟨hall₂, rfl⟩)
    (Twins.refl net) hr .zero
  obtain ⟨runs₃, hapart₃, htw₂, hmid₂, hsum₂, rfl⟩ :=
    trainSamples_apart hr hv hz hd (Twins.refl net) hr hrun₂
  have hperm₃ : runs₃.Perm runs :=
    List.rel_perm_imp (alone_rightUnique net d s') ((apart_iff_alone hr hm).mp hapart₃).1 hall hp
  have hread : ∀ slot i, Buffer.read (mid₂.gradient slot) i = Buffer.read (mid.gradient slot) i := by
    intro slot i
    rw [hsum₂, hsum, (hperm₃.map _).sum_eq]
  have hpars : mid₂.parameters = mid.parameters :=
    parameters_ext (htw₂.values.trans htw.values.symm) (hmid.matched hv) (hmid₂.matched hv) hread
  obtain ⟨net'', hstep₂, hpars'⟩ := hmid.applyGradients_congr hmid₂ (hmid.matched hv) hpars hstep
  have htally : runs₃.foldl (fun (t : Tally R) run => t.add run.2) Tally.zero =
      runs.foldl (fun t run => t.add run.2) Tally.zero := by
    rw [Tally.foldl_add, Tally.foldl_add, (hperm₃.map _).sum_eq, (hperm₃.map _).sum_eq,
      (hperm₃.map _).sum_eq]
  rw [htally] at hrun₂
  rw [← hp.length_eq] at hstep₂
  have hjs : js ≠ [] := fun hnil => hne (List.perm_nil.mp (hnil ▸ hp.symm))
  exact ⟨net'', trainBatch_eq_ok.mpr ⟨hjs, mid₂, hrun₂, hstep₂⟩, hpars'⟩

end Network

end Sums

/-- Over an ordered field, a batch of samples of a suitable dataset runs on a cleared network as long as
there is room. The optimizer begins one step and updates every parameter once, in slots from zero on, with
the mean of the gradients that the samples leave one by one in the cleared network. Afterwards the network
is cleared again. Where nothing is drawn, the order of the samples does not matter. In a training run all
batches start from cleared networks. -/
theorem Network.trainBatch_mean {K : Type} [Field K] [LinearOrder K] [Elementary K] {σ τ : Type}
    [RandomSource σ] {m : ModelSpec K} {shapes : List Shape} (hval : m.validate = .ok shapes)
    {net : Network K} (hr : net.Realizes m) (hz : net.Cleared) {d : Dataset K} (hd : d.Suits net)
    (is : List Nat) (o : Optimizer K) (s : σ) :
    (is ≠ [] → (∀ i ∈ is, i < d.size) → m.Storable shapes →
      Optimizer.rowBytes * net.parameters.length < Nat.pow 2 63 →
      ∃ r, net.trainBatch d is o s = .ok r) ∧
    (∀ net' o' s' t, net.trainBatch d is o s = .ok (net', o', s', t) →
      (∃ runs handed values, Apart net d is s runs s' ∧
        handed.map (·.values) = net.parameters.map (·.values) ∧
        (∀ slot p, handed[slot]? = some p → p.Matched ∧ ∀ i, Buffer.read p.grads i =
          1 / (is.length : K) * (runs.map fun run => Buffer.read (run.1.gradient slot) i).sum) ∧
        Updates 0 handed o.beginStep values o' ∧ net'.parameters = values.map Parameter.cleared ∧
        t = ⟨(runs.map (·.2.lossSum)).sum, (runs.map (·.2.correct)).sum, is.length⟩) ∧
      net'.Realizes m ∧ net'.Cleared ∧
      (m.Still → ∀ js, js.Perm is → ∃ net'', net.trainBatch d js o s = .ok (net'', o', s', t) ∧
        net''.parameters = net'.parameters)) ∧
    ∀ validation schedule (send : Receiver K τ) receiver,
      ∀ q ∈ net.fitStarts d validation o schedule s send receiver,
        q.network.Realizes m ∧ q.network.Cleared := by
  have hv := ModelSpec.valid_of_validate hval
  refine ⟨fun hne hi hf hroom => ?_, fun net' o' s' t h => ?_, fun validation schedule send receiver => ?_⟩
  · exact trainBatch_answers hr hv hf hd hne hi o s hroom
  · obtain ⟨runs, handed, values, hapart, hvals, hmean, hup, hpars, hr', ht⟩ :=
      trainBatch_steps hr hv hz hd h
    refine ⟨⟨runs, handed, values, hapart, hvals, fun slot p hp => ?_, hup, hpars, ht⟩, hr',
      cleared_of_parameters hpars, fun hm js hp => trainBatch_perm hr hv hz hd hm hp h⟩
    obtain ⟨hpm, hread⟩ := hmean slot p hp
    exact ⟨hpm, fun i => (hread i).trans (mul_comm _ _)⟩
  · have hkept : Kept σ d fun net => net.Realizes m ∧ net.Cleared ∧ d.Suits net := by
      rintro net net' is o o' s s' t ⟨hr, hz, hd⟩ h
      obtain ⟨-, -, values, -, -, -, -, hpars, hr', -⟩ := trainBatch_steps hr hv hz hd h
      exact ⟨hr', cleared_of_parameters hpars, hr.suits hr' hv hd⟩
    intro q hq
    obtain ⟨hq, hz, -⟩ :=
      fitStarts_invariant hkept ⟨hr, hz, hd⟩ validation o schedule s send receiver q hq
    exact ⟨hq, hz⟩

theorem Network.trainBatch_mean_real : ∃ (m : ModelSpec ℝ) (d : Dataset ℝ) (net : Network ℝ)
    (s : Stream), net.Realizes m ∧ d.Suits net ∧
    (∃ net₁ net₂ o s' t runs, net.trainBatch d [0, 1, 1] ⟨.sgd 1 0, 0, #[]⟩ s = .ok (net₁, o, s', t) ∧
      net.trainBatch d [1, 0, 1] ⟨.sgd 1 0, 0, #[]⟩ s = .ok (net₂, o, s', t) ∧
      Apart net d [0, 1, 1] s runs s' ∧ net₁.Cleared ∧ net₂.parameters = net₁.parameters ∧
      t = ⟨(runs.map (·.2.lossSum)).sum, (runs.map (·.2.correct)).sum, 3⟩) ∧
    ∀ q ∈ net.fitStarts d none ⟨.sgd 1 0, 0, #[]⟩ ⟨2, 1, 1, fun _ => 0⟩ s
      (fun _ n => (true, n + 1)) 0, q.network.Cleared := by
  obtain ⟨m, hm⟩ : ∃ m : ModelSpec ℝ, m = ⟨⟨4, 4, 1⟩, [.conv 2 3 1 .same .relu, .pool .max 2 none,
    .flatten, .dense 2 .softmax], .categoricalCrossentropy⟩ := ⟨_, rfl⟩
  have hval : m.validate = .ok [⟨4, 4, 2⟩, ⟨2, 2, 2⟩, .flat 8, .flat 2] := by
    subst hm
    rfl
  have hf : m.Storable [⟨4, 4, 2⟩, ⟨2, 2, 2⟩, .flat 8, .flat 2] := by
    subst hm
    exact ⟨by decide, by decide⟩
  obtain ⟨net, s', hbuild⟩ := Network.build_answers Initializer.draws_ones hval hf (Stream.ofSeed 0)
  have hr := Network.build_realizes Initializer.draws_ones hbuild
  have hz := Network.build_cleared Initializer.draws_ones hbuild
  have hlen : net.parameters.length = 4 := by
    subst hm
    obtain ⟨⟩ := Except.ok.inj hbuild
    rfl
  have hstill : m.Still := by
    subst hm
    simp [ModelSpec.Still]
  obtain ⟨d, hd⟩ : ∃ d : Dataset ℝ, d = ⟨⟨4, 4, 1⟩, #[⟨⟨4, 4, 1⟩, Buffer.zeros 16⟩,
    ⟨⟨4, 4, 1⟩, Array.replicate 16 1⟩], #[0, 1], 2, none⟩ := ⟨_, rfl⟩
  have hsuits : d.Suits net := by
    have hin : net.inputShape = ⟨4, 4, 1⟩ := by rw [hr.inputShape, hm]
    have hout := hr.outputSize (ModelSpec.valid_of_validate hval)
    subst hd
    refine ⟨checkCompatible_eq_ok.mpr ⟨hin.symm, hout⟩, rfl, ?_, by simp⟩
    simp [Tensor.Sized, Buffer.zeros, Shape.size]
  obtain ⟨hruns, hmean, hstarts⟩ := @Network.trainBatch_mean ℝ _ _ _ Stream Nat _ m _ hval net hr hz d
    hsuits [0, 1, 1] ⟨.sgd 1 0, 0, #[]⟩ s'
  obtain ⟨⟨net₁, o, s₁, t⟩, h⟩ := hruns (by simp) (by simp [hd, Dataset.size]) hf
    (by rw [hlen]; decide)
  obtain ⟨⟨runs, handed, values, hapart, -, -, -, -, ht⟩, hr₁, hz₁, hperm⟩ := hmean net₁ o s₁ t h
  obtain ⟨net₂, h₂, hpars⟩ := hperm hstill [1, 0, 1] (.swap 0 1 [1])
  exact ⟨m, d, net, s', hr, hsuits, ⟨net₁, net₂, o, s₁, t, runs, h, h₂, hapart, hz₁, hpars, ht⟩,
    fun q hq => (hstarts none ⟨2, 1, 1, fun _ => 0⟩ (fun _ n => (true, n + 1)) 0 q hq).2⟩

end Convnet
