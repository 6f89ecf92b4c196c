import Convnet.Proofs.Trial

namespace Convnet

section Sizes

variable {α : Type}

theorem Shape.counted_of_fits {s : Shape} (hne : s.isEmpty = false) (h : Buffer.fits s.size = true) : s.Counted := by
  obtain ⟨height, width, channels⟩ := s
  have hpos : 0 < height * width * channels := Nat.pos_of_ne_zero (by simpa [isEmpty, size] using hne)
  have hlt : 8 * (height * width * channels) < Nat.pow 2 63 := of_decide_eq_true h
  have hbound : height * width * channels < Nat.pow 2 64 := lt_of_le_of_lt (by omega) (hlt.trans (by decide))
  have hpair : 0 < height * width := Nat.pos_of_mul_pos_right hpos
  have hheight : height ≤ height * width := Nat.le_mul_of_pos_right _ (Nat.pos_of_mul_pos_left hpair)
  have hwidth : width ≤ height * width := Nat.le_mul_of_pos_left _ (Nat.pos_of_mul_pos_right hpair)
  have hside : height * width ≤ height * width * channels :=
    Nat.le_mul_of_pos_right _ (Nat.pos_of_mul_pos_left hpos)
  have hchannels : channels ≤ height * width * channels := Nat.le_mul_of_pos_left _ hpair
  exact ⟨(hheight.trans hside).trans_lt hbound, (hwidth.trans hside).trans_lt hbound, hchannels.trans_lt hbound⟩

theorem Layer.Roomy.fits {l : Layer α} (h : l.Roomy) (hin : Buffer.fits l.inputShape.size = true) :
    Buffer.fits l.outputShape.size = true := by
  cases l with
  | conv | pool => exact h
  | dense l => exact (Shape.size_flat _).symm ▸ h
  | flatten s => exact (Shape.size_flat s.size).symm ▸ hin
  | dropout | pointwise => exact hin

theorem Layer.Realizes.counted {l : Layer α} {spec : LayerSpec α} {s : Shape} (h : l.Realizes spec s)
    (hspec : spec.Counted) (hs : s.Counted) : l.Counted := by
  cases h with
  | conv => exact ⟨hspec.1, hspec.2.1, hspec.2.2, hs⟩
  | pool l t ht =>
      refine ⟨hspec.1, ?_, hs⟩
      rw [ht]
      cases t with
      | none => exact hspec.1
      | some n => exact hspec.2 n rfl
  | flatten => exact hs
  | dense => exact ⟨hs.channels, hspec⟩
  | dropout | pointwise => exact hs

theorem Network.LayersRealize.counted {s : Shape} {specs : List (LayerSpec α)} {ls : List (Layer α)}
    (h : LayersRealize s specs ls) (hc : Chained s ls) (hspecs : ∀ spec ∈ specs, spec.Counted)
    (hs : Buffer.fits s.size = true) (hroom : ∀ l ∈ ls, l.Roomy) : ∀ l ∈ ls, l.Counted := by
  induction ls generalizing s specs with
  | nil => simp
  | cons l ls ih =>
      cases specs with
      | nil => exact h.elim
      | cons spec specs =>
          obtain ⟨hr, -, hrest⟩ := h
          obtain ⟨rfl, hsound, -, hchain⟩ := hc
          rw [List.forall_mem_cons] at hspecs hroom ⊢
          exact ⟨hr.counted hspecs.1 (Shape.counted_of_fits hsound.input hs),
            ih hrest hchain hspecs.2 (hroom.1.fits hs) hroom.2⟩

end Sizes

section Starts

variable {α : Type} {d d' : Dataset α}

theorem Dataset.Front.refl (d : Dataset α) : d.Front d := ⟨fun _ _ h => h, fun _ _ h => h, rfl⟩

theorem Dataset.Front.scaled [Scalar α] (h : d'.Front d) (s : Scaling α) : (s.apply d').Front (s.apply d) where
  images i x hx := by
    obtain ⟨y, hy, rfl⟩ := Option.map_eq_some_iff.mp (Array.getElem?_map.symm.trans hx)
    exact Array.getElem?_map.trans (Option.map_eq_some_iff.mpr ⟨y, h.images i y hy, rfl⟩)
  labels := h.labels
  names := h.names

theorem Dataset.Front.limit (h : d'.Front d) (n : Option Nat) : (Experiment.limit n d').Front d := by
  cases n with
  | none => exact h
  | some n => exact h.take n

theorem Dataset.withClassNames_self {names : List String} (h : d.classNames = some names) :
    d.withClassNames names = d := by
  rw [withClassNames, ← h]

theorem Scaling.apply_identity (d : Dataset Float) : Scaling.identity.apply d = d := by
  have hone : (Scaling.identity : Scaling Float).isIdentity = true := by decide
  have htensor : ∀ x : Tensor Float, Scaling.identity.applyTensor x = x := fun x => by
    rw [Scaling.applyTensor, if_pos hone]
  rw [Scaling.apply, funext htensor, Array.map_id']

end Starts

section Descriptions

theorem InputType.counted_ofShape (s : Shape) : (ofShape s).Counted := by
  have hword : ∀ n, n % Nat.pow 2 32 < Nat.pow 2 32 := fun n => Nat.mod_lt n (by decide)
  rw [ofShape]
  split
  · trivial
  · split
    · exact ⟨hword _, hword _⟩
    · split
      · exact ⟨hword _, hword _⟩
      · trivial

theorem Benchmark.counted_inputShape (k : Benchmark) : k.inputShape.Counted := by
  cases k <;> exact ⟨by decide, by decide, by decide⟩

theorem Benchmark.fits_inputShape (k : Benchmark) : Buffer.fits k.inputShape.size = true := by
  cases k <;> decide

theorem Experiment.metadata_counted {α : Type} [Scalar α] (c : RunConfig α) (scaling : Scaling α) :
    (metadata c scaling).Counted := by
  rintro t ht
  obtain rfl := Option.some.inj ht
  exact InputType.counted_ofShape _

end Descriptions

theorem Network.fit_one {α σ τ : Type} [Scalar α] [RandomSource σ] {net : Network α} {train : Dataset α}
    {validation : Option (Dataset α)} {o : Optimizer α} {schedule : Schedule} {source : σ} {send : Receiver α τ}
    {receiver : τ} {r : Run α σ τ} (he : schedule.epochs = 1) (hn : train.size = 1)
    (h : net.fit train validation o schedule source send receiver = .ok r) :
    ∃ o' s' t, net.trainBatch train [0] o source = .ok (r.network, o', s', t) := by
  obtain ⟨checked, hcheck, hrun⟩ := bind_eq_ok.mp h
  rw [he] at hrun
  obtain ⟨r₁, hepoch, hlast⟩ := Run.epochs_succ.mp hrun
  obtain rfl : r = r₁ := by
    split at hlast
    · exact hlast
    · exact (Except.ok.inj hlast).symm
  obtain ⟨r₂, tally, hbatches, hclose⟩ := Run.epoch_eq_ok.mp hepoch
  have hnetwork : r.network = r₂.network := by
    split at hclose
    · rw [hclose]
    · obtain ⟨measured, -, rfl⟩ := Run.close_eq_ok.mp hclose
      rfl
  have hshuffled : (Run.start net o source train receiver).shuffled = Run.start net o source train receiver := by
    simp [Run.shuffled, Run.start, RandomSource.shuffle, hn, RandomSource.shuffleFrom]
  have hparts : (Run.start net o source train receiver).parts schedule = [[0]] := by
    simp [Run.parts, Run.start, hn, pieces]
  rw [hshuffled, hparts] at hbatches
  obtain ⟨r₃, tally₃, hbatch, hrest⟩ := Run.batches_cons.mp hbatches
  obtain rfl : r₂ = r₃ := by
    split at hrest
    · exact hrest.1
    · exact (congrArg Prod.fst (Except.ok.inj hrest)).symm
  obtain ⟨net', o', s', one, htrain, -, hr⟩ := Run.batch_eq_ok.mp hbatch
  refine ⟨o', s', one, ?_⟩
  have htrained : r₂.network = net' := by
    rw [hr]
    split <;> rfl
  rw [hnetwork, htrained]
  exact htrain

namespace Experiment

section Steps

variable {α σ ω : Type} [Scalar α] [RandomSource σ] [Writer ω] {world : Surroundings α σ} {c : RunConfig α}
  {p : Prepared α} {network : Network α} {history : History α} {d : Dataset α} {s s' : Session ω}

/-- Whether this is the network that a run has trained. -/
def Trains (world : Surroundings α σ) (c : RunConfig α) (s : Session ω) (network : Network α) : Prop :=
  ∃ p s₁ history s₂, (prepare world c).on s = (.ok p, s₁) ∧
    (Experiment.train world c p).on s₁ = (.ok (network, history), s₂)

omit [RandomSource σ] in
theorem of_prepare (h : (prepare world c).on s = (.ok p, s')) :
    c.validate = .ok () ∧ (∃ train test, c.data.kind.load s.disk c.data.directory = .ok (train, test) ∧
      prepareData world c train test = .ok p) ∧ s'.disk = s.disk := by
  obtain ⟨_, s₁, hcheck, h₁⟩ := Action.bind_on_eq_ok.mp h
  obtain ⟨hval, rfl⟩ := Action.lift_on_eq_ok.mp hcheck
  obtain ⟨⟨train, test⟩, s₂, hread, h₂⟩ := Action.bind_on_eq_ok.mp h₁
  obtain ⟨hload, rfl⟩ := Action.reading_on_eq_ok.mp hread
  obtain ⟨p', s₃, hready, h₃⟩ := Action.bind_on_eq_ok.mp h₂
  obtain ⟨hp, rfl⟩ := Action.lift_on_eq_ok.mp hready
  obtain ⟨summary, s₄, hs, h₄⟩ := Action.bind_on_eq_ok.mp h₃
  obtain ⟨-, rfl⟩ := Action.lift_on_eq_ok.mp hs
  obtain ⟨_, s₅, hsay, h₅⟩ := Action.bind_on_eq_ok.mp h₄
  obtain ⟨rfl, rfl⟩ := Action.pure_on_eq_ok.mp h₅
  exact ⟨hval, ⟨train, test, hload, hp⟩, (Action.meets_sayLines _).leaves.disk hsay⟩

theorem of_trial {train test : Dataset α} {evaluation : Option (Evaluation α)}
    (h : (trial world c train test).on s = (.ok (p, network, history, evaluation), s')) :
    prepareData world c train test = .ok p := by
  obtain ⟨p', s₁, hp, h⟩ := Action.bind_on_eq_ok.mp h
  obtain ⟨_, s₂, -, h⟩ := Action.bind_on_eq_ok.mp h
  obtain ⟨_, s₃, -, h⟩ := Action.bind_on_eq_ok.mp h
  obtain ⟨⟨network', history'⟩, s₄, -, h⟩ := Action.bind_on_eq_ok.mp h
  obtain ⟨_, s₅, -, h⟩ := Action.bind_on_eq_ok.mp h
  obtain ⟨hr, -⟩ := Action.pure_on_eq_ok.mp h
  obtain rfl := congrArg Prod.fst hr
  exact (Action.lift_on_eq_ok.mp hp).1

theorem of_train (h : (Experiment.train world c p).on s = (.ok (network, history), s')) :
    (∃ run, fitted world c p ⟨s.out, false⟩ = .ok run ∧ run.network = network) ∧ s'.disk = s.disk := by
  rw [train_on] at h
  cases hfit : fitted world c p ⟨s.out, false⟩ with
  | error e =>
      rw [hfit] at h
      cases h
  | ok run =>
      rw [hfit] at h
      dsimp only at h
      split at h
      · cases h
      · cases h
        exact ⟨⟨run, rfl, rfl⟩, rfl⟩

theorem of_keep {path before : String} {save : Action ω Unit} {kept : Option String}
    (h : (keep true path before save).on s = (.ok kept, s')) :
    ∃ s₁, save.on s = (.ok (), s₁) ∧ s'.disk = s₁.disk := by
  obtain ⟨_, s₁, hsave, h⟩ := Action.bind_on_eq_ok.mp h
  obtain ⟨_, s₂, hsay, h⟩ := Action.bind_on_eq_ok.mp h
  obtain ⟨-, rfl⟩ := Action.pure_on_eq_ok.mp h
  exact ⟨s₁, hsave, (Action.leaves_sayLine _).disk hsay⟩

theorem of_saySamples {count : Nat} {samples : List (SamplePrediction α)}
    (h : (saySamples network d count).on s = (.ok samples, s')) :
    network.samplePredictions d count = .ok samples ∧ s'.disk = s.disk := by
  obtain ⟨_, s₁, hone, h₁⟩ := Action.bind_on_eq_ok.mp h
  obtain ⟨hsamples, rfl⟩ := Action.lift_on_eq_ok.mp hone
  obtain ⟨_, s₂, hsay, h₂⟩ := Action.bind_on_eq_ok.mp h₁
  obtain ⟨rfl, rfl⟩ := Action.pure_on_eq_ok.mp h₂
  exact ⟨hsamples, (Action.meets_sayLines _).leaves.disk hsay⟩

theorem saySamples_answers {count : Nat} {samples : List (SamplePrediction α)} (hout : Action.Takes ω)
    (h : network.samplePredictions d count = .ok samples) (s : Session ω) :
    ∃ out, (saySamples network d count).on s = (.ok samples, { s with out := out }) := by
  obtain ⟨out, hsay⟩ := Action.sayLines_answers hout (Report.samplesLines samples) s
  refine ⟨out, Action.bind_on_eq_ok.mpr ⟨samples, s, Action.lift_on_eq_ok.mpr ⟨h, rfl⟩, ?_⟩⟩
  exact Action.bind_on_eq_ok.mpr ⟨(), _, hsay, rfl⟩

variable [JsonNumber α]

/-- A run that keeps its model has it in a file when it ends, and has shown what the model says. -/
theorem of_finish {report : RunReport α} (hsave : c.output.saveModel = true)
    (h : (finish c network history d).on s = (.ok report, s')) :
    s'.disk.locate c.output.modelPath = .file network.toJson.pretty.toUTF8 ∧
      network.samplePredictions d c.output.samples = .ok report.samples := by
  obtain ⟨evaluation, s₁, -, h⟩ := Action.bind_on_eq_ok.mp h
  obtain ⟨plot, s₂, -, h⟩ := Action.bind_on_eq_ok.mp h
  obtain ⟨kept, s₃, -, h⟩ := Action.bind_on_eq_ok.mp h
  obtain ⟨model, s₄, hmodel, h⟩ := Action.bind_on_eq_ok.mp h
  obtain ⟨samples, s₅, hshow, h⟩ := Action.bind_on_eq_ok.mp h
  obtain ⟨_, s₆, hdone, h⟩ := Action.bind_on_eq_ok.mp h
  obtain ⟨rfl, rfl⟩ := Action.pure_on_eq_ok.mp h
  rw [hsave] at hmodel
  obtain ⟨_, hkept, hdisk⟩ := of_keep hmodel
  obtain ⟨disk, hwrite, rfl⟩ := Action.save_on_eq_ok.mp hkept
  obtain ⟨hsamples, hdisk'⟩ := of_saySamples hshow
  refine ⟨?_, hsamples⟩
  rw [(Action.leaves_sayLine _).disk hdone, hdisk', hdisk]
  exact Disk.locate_write hwrite

end Steps

section Reading

variable {α : Type} [Scalar α] {c : RunConfig α} {scaling : Scaling α} {test : Dataset α} {d : Disk}

theorem testImages_metadata (h : c.data.kind.loadSplit d c.data.directory .test = .ok test) (m : Nat) :
    testImages (metadata c scaling) c.data.directory none m d = .ok (scaling.apply (test.take m)) := by
  have hnames : (scaling.apply (test.take m)).classNames = some c.data.kind.classNames :=
    (Benchmark.loadSplit_raw h).2.2.2
  have hsame := Dataset.withClassNames_self hnames
  refine bind_eq_ok.mpr ⟨test, h, bind_eq_ok.mpr ⟨scaling, rfl, ?_⟩⟩
  exact congrArg Except.ok hsame

variable [JsonNumber α]

theorem predict_on {τ : Type} [Writer τ] (hout : Action.Takes τ) {path directory : String} {kind : Option Benchmark}
    {m : Nat} {v : Json} {net : Network α} {samples : List (SamplePrediction α)} (hread : d.readJson path = .ok v)
    (hnet : Network.ofDocument v = .ok net) (htest : testImages (net.metadata.getD .empty) directory kind m d = .ok test)
    (hsamples : net.samplePredictions test m = .ok samples) (out : τ) :
    ∃ out', (predict path directory kind m).on ⟨d, out⟩ = (.ok samples, ⟨d, out'⟩) := by
  obtain ⟨out', hsay⟩ := saySamples_answers hout hsamples ⟨d, out⟩
  refine ⟨out', Action.bind_on_eq_ok.mpr ⟨net, ⟨d, out⟩, Action.reading_on_eq_ok.mpr ⟨?_, rfl⟩, ?_⟩⟩
  · exact bind_eq_ok.mpr ⟨v, hread, hnet⟩
  · exact Action.bind_on_eq_ok.mpr ⟨test, ⟨d, out⟩, Action.reading_on_eq_ok.mpr ⟨htest, rfl⟩, hsay⟩

end Reading

section Models

structure Trained {α : Type} [Scalar α] (c : RunConfig α) (scaling : Scaling α) (net : Network α) : Prop where
  settled : net.Settled c.modelSpec
  known : net.metadata = some (metadata c scaling)
  roomy : ∀ l ∈ net.layers, l.Roomy

theorem trained_of_fitted {α σ ω : Type} [Scalar α] [RandomSource σ] [Writer ω] {world : Surroundings α σ}
    (hdraw : Initializer.Draws world.draw) {c : RunConfig α} (hc : c.Accepted) {train test : Dataset α} {p : Prepared α}
    (hp : prepareData world c train test = .ok p) {report : Report.Reporter ω} {run : Run α σ (Report.Reporter ω)}
    (hfit : fitted world c p report = .ok run) :
    ∃ scaling, c.data.preprocessing.fit (limit c.data.limitTrain train) = .ok scaling ∧
      p.test = scaling.apply (limit c.data.limitTest test) ∧ Trained c scaling run.network := by
  obtain ⟨shapes, hval, -⟩ := ModelSpec.outputSize_eq_ok.mp hc.outputs
  have hv := ModelSpec.valid_of_validate hval
  obtain ⟨scaling, kept, rest, net, s', hscaling, -, hbuild, rfl⟩ := prepareData_eq_ok.mp hp
  have hn : net.Settled c.modelSpec := ⟨Network.build_realizes hdraw hbuild, Network.build_cleared hdraw hbuild⟩
  obtain ⟨hknown, hroomy⟩ := Network.fit_retains hc.epochs hfit
  exact ⟨scaling, hscaling, rfl, (hn.told _).fit hv hfit, hknown, hroomy⟩

variable {c : RunConfig Float} {scaling : Scaling Float} {net : Network Float}

theorem Trained.counted (h : Trained c scaling net) (hc : c.Accepted)
    (hcount : ∀ spec ∈ c.modelSpec.layers, spec.Counted) : net.Counted where
  input := by
    rw [h.settled.realizes.inputShape, hc.input]
    exact c.data.kind.counted_inputShape
  layers := by
    obtain ⟨shapes, hval, -⟩ := ModelSpec.outputSize_eq_ok.mp hc.outputs
    have hchain := (h.settled.realizes.chained (ModelSpec.valid_of_validate hval)).1
    refine h.settled.realizes.layers.counted hchain hcount ?_ h.roomy
    rw [hc.input]
    exact c.data.kind.fits_inputShape
  metadata k hk := by
    obtain rfl := Option.some.inj (h.known.symm.trans hk)
    exact metadata_counted c scaling

theorem Trained.finite (h : Trained c scaling net) (hs : scaling.Finite)
    (hf : ∀ q ∈ net.parameters, ∀ x ∈ q.values, x.isFinite = true) : net.Finite where
  parameters := hf
  metadata k hk x hx := by
    obtain rfl := Option.some.inj (h.known.symm.trans hk)
    have hnumbers : x = scaling.offset ∨ x = scaling.scale := by simpa [metadata, Metadata.numbers] using hx
    rcases hnumbers with rfl | rfl
    · exact hs.1
    · exact hs.2

end Models

/-- A saved model reproduces what its run has predicted. After a run that keeps its model, as long as the file of the
model and those of the test images stay as they are, the model says something of as many first test images as are asked
for and are there, and it says of each what the run has said of it. -/
theorem predict_reproduces {σ ω τ : Type} [RandomSource σ] [Writer ω] [Writer τ] (hout : Action.Takes τ)
    {world : Surroundings Float σ} (hdraw : Initializer.Draws world.draw) {c : RunConfig Float}
    (hcount : ∀ spec ∈ c.modelSpec.layers, spec.Counted) (hsave : c.output.saveModel = true) {s s' : Session ω}
    {report : RunReport Float} (hrun : (run world c).on s = (.ok report, s'))
    (hfinite : ∀ net, Trains world c s net → ∀ q ∈ net.parameters, ∀ x ∈ q.values, x.isFinite = true) {d : Disk}
    (hmodel : d.locate c.output.modelPath = s'.disk.locate c.output.modelPath)
    (hdata : ∀ path ∈ c.data.kind.places c.data.directory .test, Disk.Alike d s.disk path) (m : Nat) (out : τ) :
    ∃ (test : Dataset Float) (samples : List (SamplePrediction Float)) (t : Session τ),
      c.data.kind.loadSplit s.disk c.data.directory .test = .ok test ∧
      (predict c.output.modelPath c.data.directory none m).on ⟨d, out⟩ = (.ok samples, t) ∧
      samples.length = min m test.size ∧
      ∀ i, i < samples.length → i < report.samples.length → samples[i]? = report.samples[i]? := by
  obtain ⟨p, s₁, hprepare, h₁⟩ := Action.bind_on_eq_ok.mp hrun
  obtain ⟨⟨network, history⟩, s₂, htrain, h₂⟩ := Action.bind_on_eq_ok.mp h₁
  have hpars := hfinite network ⟨p, s₁, history, s₂, hprepare, htrain⟩
  obtain ⟨hval, ⟨train, test, hload, hp⟩, -⟩ := of_prepare hprepare
  obtain ⟨⟨result, hfit, rfl⟩, -⟩ := of_train htrain
  obtain ⟨hfile, hsaid⟩ := of_finish hsave h₂
  have hc := RunConfig.accepted_of_validate hval
  obtain ⟨scaling, hscaling, htest, hn⟩ := trained_of_fitted hdraw hc hp hfit
  obtain ⟨⟨hraw, -⟩, -, hof⟩ := Benchmark.load_of hload
  obtain ⟨shapes, hvalid, -⟩ := ModelSpec.outputSize_eq_ok.mp hc.outputs
  have hv := ModelSpec.valid_of_validate hvalid
  -- what is read back of the model
  have hread := Disk.readJson_of_locate (hmodel.trans hfile) (Json.ofBytes?_write true result.network.toJson)
  have hdocument := hn.settled.ofDocument hv (hn.counted hc hcount)
    (hn.finite (Preprocessing.fit_finite (hraw.limit _) hscaling) hpars)
  have hpeer := hn.settled.peer hv
  -- what it is shown
  obtain ⟨-, hsplit⟩ := Benchmark.load_eq_ok.mp hload
  have himages : testImages (metadata c scaling) c.data.directory none m d = .ok (scaling.apply (test.take m)) :=
    testImages_metadata ((Benchmark.loadSplit_congr hdata).trans hsplit) m
  have hshown := (hof.take m).scaled scaling
  -- what it says
  obtain ⟨samples, hsamples⟩ := (hc.infers hn.settled.realizes hn.roomy).samplePredictions_answers hshown.whole
    (hshown.shape.trans (hc.input.symm.trans hn.settled.realizes.inputShape.symm)) m
  obtain ⟨out', hpredict⟩ := predict_on hout hread hdocument (by rw [hn.known]; exact himages)
    ((hpeer.samplePredictions m).trans hsamples) out
  refine ⟨test, samples, _, hsplit, hpredict, ?_, fun i hi hi' => ?_⟩
  · rw [Network.length_samplePredictions hshown.whole.labels hsamples, Scaling.size_apply]
    simp [Dataset.size, Dataset.take]
  · rw [htest] at hsaid
    exact Network.samplePredictions_agree (((Dataset.Front.refl test).take m).scaled scaling)
      (((Dataset.Front.refl test).limit _).scaled scaling) hsamples hsaid hi hi'

section Narrow

def narrow : RunConfig Float where
  data := { directory := "", preprocessing := .none }
  model := some ⟨⟨28, 28, 1⟩, [.pool .max 1 (some 28), .flatten, .dense 10 .relu], .mse⟩
  optimizer := .sgd 1 0
  training := ⟨1, 1, 0, 0, 0⟩
  output := { modelPath := "m", evaluate := false, savePlot := false, saveHistory := false }

def still : Surroundings Float Stream := ⟨Stream.ofSeed, fun _ _ n s => .ok (Array.replicate n 1, s), fun _ => 0⟩

def narrowNetwork : Network Float where
  inputShape := ⟨28, 28, 1⟩
  layers := [.pool ⟨.max, 1, 28, ⟨28, 28, 1⟩, #[]⟩, .flatten ⟨1, 1, 1⟩,
    .dense ⟨⟨1, 10, Array.replicate 10 1⟩, Buffer.zeros 10, .relu, .zeros 1 10, Buffer.zeros 10, #[], #[]⟩]
  loss := .mse
  metadata := some (metadata narrow .identity)

theorem prepareData_narrow : prepareData still narrow (Benchmark.blank 1) (Benchmark.blank 1) =
    .ok ⟨narrowNetwork, Benchmark.blank 1, (Benchmark.blank 1).drop 1, Benchmark.blank 1⟩ := by
  have happly := Scaling.apply_identity (Benchmark.blank 1)
  have hfit : narrow.data.preprocessing.fit (limit narrow.data.limitTrain (Benchmark.blank 1 : Dataset Float)) =
      .ok .identity := rfl
  have hsplit : (Scaling.identity.apply (limit narrow.data.limitTrain (Benchmark.blank 1))).splitValidation
      narrow.training.validationSplit = .ok (Benchmark.blank 1, (Benchmark.blank 1).drop 1) := by
    rw [narrow, limit, happly]
    rfl
  have hbuild : Network.build (fun _ _ n s => .ok (Array.replicate n 1, s)) narrow.modelSpec (Stream.ofSeed 0) =
      .ok ({ narrowNetwork with metadata := none }, Stream.ofSeed 0) := rfl
  refine prepareData_eq_ok.mpr ⟨.identity, _, _, _, _, hfit, hsplit, hbuild, ?_⟩
  rw [narrow, limit, happly]
  rfl

theorem trainBatch_narrow {net : Network Float} {o : Optimizer Float} {s : Stream} {t : Tally Float}
    (h : narrowNetwork.trainBatch (Benchmark.blank 1) [0] (.ofRule narrow.optimizer) (Stream.ofSeed 0) =
      .ok (net, o, s, t)) :
    ∀ q ∈ net.parameters, ∀ x ∈ q.values, x.isFinite = true := by
  have hall : (match narrowNetwork.trainBatch (Benchmark.blank 1) [0] (.ofRule narrow.optimizer) (Stream.ofSeed 0) with
      | .ok r => r.1.parameters.all fun q => q.values.all (·.isFinite)
      | .error _ => false) = true := by
    decide +kernel
  rw [h] at hall
  intro q hq
  exact Array.all_eq_true_iff_forall_mem.mp (List.all_eq_true.mp hall q hq)

theorem trains_narrow {ω : Type} [Writer ω] {s : Session ω}
    (hload : narrow.data.kind.load s.disk narrow.data.directory =
      .ok ((Benchmark.blank 1 : Dataset Float), Benchmark.blank 1))
    {net : Network Float} (h : Trains still narrow s net) : ∀ q ∈ net.parameters, ∀ x ∈ q.values, x.isFinite = true := by
  obtain ⟨p, s₁, history, s₂, hprepare, htrain⟩ := h
  obtain ⟨-, ⟨train, test, hload', hp⟩, -⟩ := of_prepare hprepare
  obtain ⟨⟩ := Except.ok.inj (hload.symm.trans hload')
  obtain rfl := Except.ok.inj (prepareData_narrow.symm.trans hp)
  obtain ⟨⟨run, hfit, rfl⟩, -⟩ := of_train htrain
  obtain ⟨o', s', t, hbatch⟩ := Network.fit_one rfl rfl hfit
  exact trainBatch_narrow hbatch

/-- The run ends, says something of one test image, and leaves alone every other file of its working directory. -/
theorem run_narrow {s : Session String}
    (hload : narrow.data.kind.load s.disk narrow.data.directory =
      .ok ((Benchmark.blank 1 : Dataset Float), Benchmark.blank 1))
    (hfree : s.disk.entry? (s.disk.workingDirectory ++ ["m"]) = none) :
    ∃ report s', (run still narrow).on s = (.ok report, s') ∧ report.samples.length = 1 ∧
      ∀ name, Disk.Plain name → name ≠ "m" → Disk.Alike s'.disk s.disk name := by
  have hdraw : Initializer.Draws still.draw := Initializer.draws_ones
  have hvalid : narrow.validate = .ok () := rfl
  have hc := RunConfig.accepted_of_validate hvalid
  have hroom : narrow.Roomy := by
    refine ⟨fun shapes hval => ?_, by decide⟩
    have hshapes : narrow.modelSpec.validate = .ok [⟨1, 1, 1⟩, .flat 1, .flat 10] := rfl
    obtain rfl := Except.ok.inj (hshapes.symm.trans hval)
    exact ⟨by decide, by decide⟩
  have hheld : (Benchmark.blank 1 : Dataset Float).Held := by
    rw [Dataset.Held]
    decide
  obtain ⟨⟨hraw, hof⟩, -⟩ := Benchmark.load_of hload
  have hbatch : (Benchmark.blank 1 : Dataset Float).size + narrow.training.batchSize < 2 ^ 64 := by decide
  have hmeets := trial_meets (ω := String) hdraw hc hroom hbatch hraw hheld hof hof
  obtain ⟨⟨p, network, history, evaluation⟩, s₁, htrial⟩ :
      ∃ r s₁, (trial still narrow (Benchmark.blank 1) (Benchmark.blank 1)).on s = (.ok r, s₁) := by
    cases h : (trial still narrow (Benchmark.blank 1) (Benchmark.blank 1)).on s with
    | mk r s₁ =>
        cases r with
        | ok r => exact ⟨r, s₁, rfl⟩
        | error e =>
            cases hmeets.fails s e s₁ h with
            | unprinted hout => exact absurd Action.takes_string hout
            | flat hkind => cases hkind
            | nothing hp hempty =>
                obtain rfl := Except.ok.inj (prepareData_narrow.symm.trans hp)
                cases hempty
  have hdisk := hmeets.leaves.disk htrial
  obtain ⟨said, hsaid⟩ := hmeets.answers s _ s₁ htrial narrow.output.samples
  rw [← hdisk] at hfree
  have hplain : Disk.Plain "m" := by decide
  have hwrite := Disk.write_plain hplain hfree network.toJson.pretty.toUTF8
  obtain ⟨out, hline⟩ := Action.sayLine_answers Action.takes_string "\nModel saved as m"
    ⟨s₁.disk.put (s₁.disk.workingDirectory ++ ["m"]) (.file network.toJson.pretty.toUTF8), s₁.out⟩
  obtain ⟨out', hsamples⟩ := saySamples_answers Action.takes_string hsaid ⟨_, out⟩
  obtain ⟨out'', hend⟩ := Action.sayLine_answers Action.takes_string "\n✓ Model training and evaluation complete!"
    ⟨_, out'⟩
  have hkeep : (keep true "m" "\nModel saved as " (Action.save "m" network.toJson)).on s₁ =
      (.ok (some "m"), ⟨_, out⟩) :=
    Action.bind_on_eq_ok.mpr ⟨(), _, Action.save_on_eq_ok.mpr ⟨_, hwrite, rfl⟩,
      Action.bind_on_eq_ok.mpr ⟨(), _, hline, rfl⟩⟩
  have hconclude : (conclude narrow network history p.test evaluation).on s₁ =
      (.ok ⟨history, evaluation, some "m", none, none, said⟩, ⟨_, out''⟩) :=
    Action.bind_on_eq_ok.mpr ⟨none, s₁, rfl, Action.bind_on_eq_ok.mpr ⟨none, s₁, rfl,
      Action.bind_on_eq_ok.mpr ⟨some "m", _, hkeep, Action.bind_on_eq_ok.mpr ⟨said, _, hsamples,
        Action.bind_on_eq_ok.mpr ⟨(), _, hend, rfl⟩⟩⟩⟩⟩
  have hrun := (run_on still hvalid hload).trans (Action.bind_on_eq_ok.mpr ⟨_, s₁, htrial, hconclude⟩)
  obtain rfl := Except.ok.inj (prepareData_narrow.symm.trans (of_trial htrial))
  refine ⟨_, _, hrun, Network.length_samplePredictions rfl hsaid, fun name hname hne => ?_⟩
  rw [← hdisk]
  exact Disk.alike_put hname (by rw [hfree]; simp) (by simpa using hne)

theorem predict_reproduces_narrow : ∃ (c : RunConfig Float) (s s' t : Session String) (report : RunReport Float)
    (samples : List (SamplePrediction Float)),
    (run still c).on s = (.ok report, s') ∧
    (predict c.output.modelPath c.data.directory none 1).on s' = (.ok samples, t) ∧
    samples.length = 1 ∧ report.samples.length = 1 ∧ samples[0]? = report.samples[0]? := by
  obtain ⟨pixels, classes, hload⟩ := Benchmark.load_blank (α := Float) (n := 1) (by decide)
  have hdraw : Initializer.Draws still.draw := Initializer.draws_ones
  obtain ⟨s, hs⟩ : ∃ s : Session String, s = ⟨Benchmark.diskOf pixels classes, ""⟩ := ⟨_, rfl⟩
  have hfree : s.disk.entry? (s.disk.workingDirectory ++ ["m"]) = none := by
    subst hs
    rfl
  replace hload : narrow.data.kind.load s.disk narrow.data.directory =
      .ok ((Benchmark.blank 1 : Dataset Float), Benchmark.blank 1) := by
    subst hs
    exact hload
  obtain ⟨report, s', hrun, hsaid, halike⟩ := run_narrow hload hfree
  have hcount : ∀ spec ∈ narrow.modelSpec.layers, spec.Counted := by
    have hspecs : narrow.modelSpec.layers = [.pool .max 1 (some 28), .flatten, .dense 10 .relu] := rfl
    rw [hspecs]
    simp [LayerSpec.Counted]
  have hkept : ∀ path ∈ narrow.data.kind.places narrow.data.directory .test,
      Disk.Alike s'.disk s.disk path := by
    have hplain : ∀ path ∈ narrow.data.kind.places narrow.data.directory .test, Disk.Plain path := by decide
    have hother : "m" ∉ narrow.data.kind.places narrow.data.directory .test := by decide
    exact fun path hpath => halike path (hplain path hpath) fun h => hother (h ▸ hpath)
  obtain ⟨test, samples, t, hsplit, hpredict, hlength, hsame⟩ := predict_reproduces Action.takes_string hdraw hcount rfl
    hrun (fun net h => trains_narrow hload h) rfl hkept 1 s'.out
  obtain rfl := Except.ok.inj ((Benchmark.load_eq_ok.mp hload).2.symm.trans hsplit)
  exact ⟨narrow, s, s', t, report, samples, hrun, hpredict, hlength, hsaid,
    hsame 0 (by rw [hlength]; decide) (by rw [hsaid]; decide)⟩

end Narrow

end Experiment

end Convnet
