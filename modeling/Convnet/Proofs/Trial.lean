import Convnet.Proofs.Curves
import Convnet.Proofs.Preparing
import Convnet.Proofs.Refusals
import Convnet.Proofs.Session

namespace Convnet

namespace Action

variable {ω β γ : Type} {P P' : Error → Prop} {Q : β → Prop} {R : γ → Prop}

/-- A step that leaves all files as they are, answers in some way, and fails in some way only. -/
structure Meets (Q : β → Prop) (P : Error → Prop) (a : Action ω β) : Prop where
  leaves : a.Leaves
  answers : ∀ s b s', a.on s = (.ok b, s') → Q b
  fails : ∀ s e s', a.on s = (.error e, s') → P e

theorem meets_pure {b : β} (h : Q b) : (pure b : Action ω β).Meets Q P where
  leaves := leaves_pure b
  answers _ _ _ hb := by
    obtain ⟨rfl, -⟩ := pure_on_eq_ok.mp hb
    exact h
  fails _ _ _ he := by simp [on_pure] at he

theorem meets_lift {r : Result β} (hQ : ∀ b, r = .ok b → Q b) (hP : ∀ e, r = .error e → P e) :
    (liftM r : Action ω β).Meets Q P where
  leaves := leaves_lift r
  answers _ b _ h := hQ b (lift_on_eq_ok.mp h).1
  fails _ e _ h := hP e (congrArg Prod.fst h)

theorem Meets.mono {a : Action ω β} {Q' : β → Prop} (h : a.Meets Q P) (hQ : ∀ b, Q b → Q' b) (hP : ∀ e, P e → P' e) :
    a.Meets Q' P' :=
  ⟨h.leaves, fun s b s' hb => hQ b (h.answers s b s' hb), fun s e s' he => hP e (h.fails s e s' he)⟩

theorem on_bind_cases (a : Action ω β) (f : β → Action ω γ) (s : Session ω) :
    (∃ e s', a.on s = (.error e, s') ∧ (a >>= f).on s = (.error e, s')) ∨
      ∃ b s', a.on s = (.ok b, s') ∧ (a >>= f).on s = (f b).on s' := by
  rw [on_bind]
  cases h : a.on s with
  | mk r s' =>
      cases r with
      | error e => exact .inl ⟨e, s', rfl, rfl⟩
      | ok b => exact .inr ⟨b, s', rfl, rfl⟩

theorem Meets.bind {a : Action ω β} {f : β → Action ω γ} (ha : a.Meets Q P) (hf : ∀ b, Q b → (f b).Meets R P) :
    (a >>= f).Meets R P := by
  constructor
  · intro s
    rcases on_bind_cases a f s with ⟨e, s', h, hbind⟩ | ⟨b, s', h, hbind⟩
    · rw [hbind]
      exact ha.leaves.disk h
    · rw [hbind]
      exact ((hf b (ha.answers s b s' h)).leaves s').trans (ha.leaves.disk h)
  · intro s c s'' hc
    obtain ⟨b, s', h, hb⟩ := bind_on_eq_ok.mp hc
    exact (hf b (ha.answers s b s' h)).answers s' c s'' hb
  · intro s e s'' he
    rcases on_bind_cases a f s with ⟨e', s', h, hbind⟩ | ⟨b, s', h, hbind⟩
    · rw [hbind] at he
      obtain ⟨⟩ := he
      exact ha.fails s e s'' h
    · rw [hbind] at he
      exact (hf b (ha.answers s b s' h)).fails s' e s'' he

variable [Writer ω]

structure Unprinted (ω : Type) [Writer ω] (e : Error) : Prop where
  error : e = .io
  refused : ¬ Takes ω

theorem meets_sayLine (text : String) : (sayLine text : Action ω Unit).Meets (fun _ => True) (Unprinted ω) where
  leaves := leaves_sayLine text
  answers _ _ _ _ := trivial
  fails s e s' h := by
    rw [sayLine, say, on_bind, on_get] at h
    dsimp only at h
    split at h
    · cases h
    case h_2 hnone =>
      cases h
      refine ⟨rfl, fun htakes => ?_⟩
      obtain ⟨out, hout⟩ := htakes s.out (text ++ "\n")
      rw [hnone] at hout
      cases hout

theorem meets_sayLines (lines : List String) :
    (Report.sayLines lines : Action ω Unit).Meets (fun _ => True) (Unprinted ω) := by
  induction lines with
  | nil => exact meets_pure trivial
  | cons line lines ih => exact (meets_sayLine line).bind fun _ _ => ih

theorem sayLines_answers (h : Takes ω) (lines : List String) (s : Session ω) :
    ∃ out, (Report.sayLines lines).on s = (.ok (), { s with out := out }) := by
  induction lines generalizing s with
  | nil => exact ⟨s.out, rfl⟩
  | cons line lines ih =>
      obtain ⟨mid, hline⟩ := sayLine_answers h line s
      obtain ⟨out, hlines⟩ := ih { s with out := mid }
      exact ⟨out, bind_on_eq_ok.mpr ⟨(), _, hline, hlines⟩⟩

end Action

namespace Experiment

section Steps

variable {α : Type} [Scalar α] {σ : Type} [RandomSource σ] {ω : Type} [Writer ω]

/-- The part of a run from the loaded data to the measures of the test set. -/
def trial (world : Surroundings α σ) (c : RunConfig α) (train test : Dataset α) :
    Action ω (Prepared α × Network α × History α × Option (Evaluation α)) := do
  let p ← prepareData world c train test
  Report.sayLines (Report.summaryLines (← Summary.ofNetwork p.network))
  let (network, history) ← Experiment.train world c p
  let evaluation ← evaluateTest c network p.test
  return (p, network, history, evaluation)

/-- The rest of a run: what is wanted of it is saved, and some predictions are shown. -/
def conclude [JsonNumber α] (c : RunConfig α) (network : Network α) (history : History α) (test : Dataset α)
    (evaluation : Option (Evaluation α)) : Action ω (RunReport α) := do
  let o := c.output
  let plot ← keep o.savePlot o.plotPath "\nTraining history plot saved as "
    (savePlot o.plotPath history)
  let kept ← keep o.saveHistory o.historyPath "Training history saved as "
    (Action.save o.historyPath history.toJson)
  let model ← keep o.saveModel o.modelPath "\nModel saved as "
    (Action.save o.modelPath network.toJson)
  let samples ← saySamples network test o.samples
  Action.sayLine "\n✓ Model training and evaluation complete!"
  return ⟨history, evaluation, model, plot, kept, samples⟩

variable {world : Surroundings α σ} {c : RunConfig α} {train test : Dataset α} {s : Session ω}

/-- A run with checked settings and loaded data is its trial and what follows it. -/
theorem run_on [JsonNumber α] (world : Surroundings α σ) (hc : c.validate = .ok ())
    (hload : c.data.kind.load s.disk c.data.directory = .ok (train, test)) :
    (run world c : Action ω (RunReport α)).on s =
      (trial world c train test >>= fun r => conclude c r.2.1 r.2.2.1 r.1.test r.2.2.2).on s := by
  have hrun : (run world c : Action ω (RunReport α)) = ((liftM c.validate : Action ω Unit) >>= fun _ =>
      (Action.reading fun d => c.data.kind.load d c.data.directory) >>= fun data =>
        trial world c data.1 data.2 >>= fun r => conclude c r.2.1 r.2.2.1 r.1.test r.2.2.2) := by
    simp only [run, prepare, trial, finish, conclude, bind_assoc, pure_bind]
  rw [hrun, Action.on_bind, hc, Action.on_lift]
  dsimp only
  rw [Action.on_bind, Action.on_reading, hload]

def fitted (world : Surroundings α σ) (c : RunConfig α) (p : Prepared α) (report : Report.Reporter ω) :
    Result (Run α σ (Report.Reporter ω)) :=
  p.network.fit p.train (if p.validation.isEmpty then none else some p.validation) (.ofRule c.optimizer)
    (schedule world c) (world.source c.training.seed) Report.receive report

theorem train_on (world : Surroundings α σ) (c : RunConfig α) (p : Prepared α) (s : Session ω) :
    (Experiment.train world c p : Action ω (Network α × History α)).on s =
      match fitted world c p ⟨s.out, false⟩ with
      | .error e => (.error e, s)
      | .ok run => (if run.receiver.failed then .error .io else .ok (run.network, run.history),
          { s with out := run.receiver.out }) := by
  rw [Experiment.train, Action.on_bind, Action.on_get]
  dsimp only
  rw [Action.on_bind, Action.on_lift, fitted]
  generalize Network.fit (σ := σ) (τ := Report.Reporter ω) p.network p.train _ _ _ _ _ _ = result
  cases result with
  | error e => rfl
  | ok run =>
      dsimp only
      rw [Action.on_bind, Action.on_set]
      dsimp only
      cases run.receiver.failed <;> rfl

omit [RandomSource σ] in
theorem failed_after (h : Action.Takes ω) (report : Report.Reporter ω) (events : List (TrainEvent α)) :
    (Receiver.after Report.receive report events).failed = report.failed := by
  induction events generalizing report with
  | nil => rfl
  | cons e events ih =>
      obtain ⟨out, hout⟩ := h report.out (Report.eventText e)
      have hone : (Report.receive e report).2.failed = report.failed := by
        rw [Report.receive, hout]
      exact (ih _).trans hone

theorem unfailed_of_fitted (h : Action.Takes ω) {p : Prepared α} {out : ω} {run : Run α σ (Report.Reporter ω)}
    (hfit : fitted world c p ⟨out, false⟩ = .ok run) : run.receiver.failed = false := by
  obtain ⟨checked, hcheck, hrun⟩ := bind_eq_ok.mp hfit
  have halive : (Report.receive : Receiver α (Report.Reporter ω)).Alive := by
    intro e report
    obtain ⟨out, hout⟩ := h report.out (Report.eventText e)
    rw [Report.receive, hout]
  obtain ⟨es, -, hes⟩ := Run.epochs_complete halive (Network.checkFit_eq_ok hcheck).2.1 rfl
    (Run.start_permutes _ _ _ _ _) _ _ hrun
  rw [hes.receiver]
  exact failed_after h _ _

end Steps

section Stopped

variable {σ : Type} [RandomSource σ] {ω : Type} [Writer ω] {world : Surroundings Float σ} {c : RunConfig Float}
  {train test : Dataset Float} {p : Prepared Float}

theorem fitted_cases (world : Surroundings Float σ) (hc : c.Accepted) (hroom : c.Roomy) (hp : Ready c p)
    (hcounts : (schedule world c).counts p.train.size = true) (report : Report.Reporter ω) :
    (fitted world c p report = .error (.dataset .noTrainingSamples) ∧ p.train.isEmpty = true) ∨
      ∃ run, fitted world c p report = .ok run ∧ run.network.Settled c.modelSpec := by
  obtain ⟨shapes, hval, -⟩ := ModelSpec.outputSize_eq_ok.mp hc.outputs
  have hv := ModelSpec.valid_of_validate hval
  have hr := hp.network.realizes
  cases hempty : p.train.isEmpty with
  | true => exact .inl ⟨by simp [fitted, Network.fit, Network.checkFit, hempty], rfl⟩
  | false =>
      have hsuits := hc.suits hr hp.train
      have hfit : ¬ p.network.Unfit p.train (if p.validation.isEmpty then none else some p.validation)
          (schedule world c) := by
        rintro (h | h | h | ⟨v, hv, -, h⟩)
        · simp [hempty] at h
        · exact hc.batchSize h
        · exact h (Network.checkCompatible_eq_ok.mp hsuits.compatible)
        · split at hv
          · cases hv
          · obtain rfl := Option.some.inj hv
            exact h (Network.checkCompatible_eq_ok.mp (hc.suits hr hp.validation).compatible)
      obtain ⟨checked, hcheck, -⟩ := Network.checkFit_answers hfit hcounts
      obtain ⟨-, -, hchecked⟩ := Network.checkFit_eq_ok hcheck
      have hmany : Optimizer.rowBytes * p.network.parameters.length < Nat.pow 2 63 := by
        have hle := Network.length_parameters_le p.network
        rw [hr.layers.length] at hle
        exact (Nat.mul_le_mul_left _ hle).trans_lt hroom.optimizer
      obtain ⟨run, hrun⟩ := Network.fit_answers hv hr (hroom.model shapes hval) hmany hsuits (fun v hmem => by
        obtain ⟨hv, hne⟩ := hchecked v hmem
        refine ⟨?_, hne⟩
        split at hv
        · cases hv
        · obtain rfl := Option.some.inj hv
          exact hc.suits hr hp.validation) (.ofRule c.optimizer) (world.source c.training.seed) report
      have hresult : fitted world c p report = .ok run := by
        rw [fitted, Network.fit_eq hcheck]
        exact hrun
      exact .inr ⟨run, hresult, hp.network.fit hv hresult⟩

theorem train_meets (hc : c.Accepted) (hroom : c.Roomy) (hp : Ready c p)
    (hcounts : (schedule world c).counts p.train.size = true) :
    (Experiment.train world c p : Action ω (Network Float × History Float)).Meets
      (fun r => r.1.Settled c.modelSpec)
      (fun e => Action.Unprinted ω e ∨ e = .dataset .noTrainingSamples ∧ p.train.isEmpty = true) := by
  constructor
  · intro s
    rw [train_on]
    cases fitted world c p ⟨s.out, false⟩ <;> rfl
  · intro s b s' h
    rw [train_on] at h
    rcases fitted_cases world hc hroom hp hcounts ⟨s.out, false⟩ with ⟨hfit, -⟩ | ⟨run, hfit, hn⟩
    · rw [hfit] at h
      cases h
    · rw [hfit] at h
      dsimp only at h
      split at h
      · cases h
      · cases h
        exact hn
  · intro s e s' h
    rw [train_on] at h
    rcases fitted_cases world hc hroom hp hcounts ⟨s.out, false⟩ with ⟨hfit, hempty⟩ | ⟨run, hfit, hn⟩
    · rw [hfit] at h
      cases h
      exact .inr ⟨rfl, hempty⟩
    · rw [hfit] at h
      dsimp only at h
      split at h
      case isTrue hfailed =>
        cases h
        refine .inl ⟨rfl, fun htakes => ?_⟩
        rw [unfailed_of_fitted htakes hfit] at hfailed
        cases hfailed
      case isFalse => cases h

omit [RandomSource σ] in
theorem evaluateTest_meets (hc : c.Accepted) (hroom : c.Roomy) {net : Network Float} (hn : net.Realizes c.modelSpec)
    (htest : test.Of c.data.kind) :
    (evaluateTest c net test : Action ω (Option (Evaluation Float))).Meets (fun _ => True) (Action.Unprinted ω) := by
  unfold evaluateTest
  cases hskip : !c.output.evaluate || test.isEmpty with
  | true => exact Action.meets_pure trivial
  | false =>
      obtain ⟨-, hempty⟩ := Bool.or_eq_false_iff.mp hskip
      obtain ⟨shapes, hval, -⟩ := ModelSpec.outputSize_eq_ok.mp hc.outputs
      obtain ⟨e, he⟩ := Network.evaluate_answers hn (ModelSpec.valid_of_validate hval) (hroom.model shapes hval)
        (hc.suits hn htest) hempty
      refine (Action.meets_sayLine _).bind fun _ _ => ?_
      refine (Action.meets_lift (Q := fun _ => True) (fun _ _ => trivial) fun e' he' => ?_).bind fun e _ => ?_
      · rw [he] at he'
        cases he'
      · exact (Action.meets_sayLines _).bind fun _ _ => Action.meets_pure trivial

/-- What can stop a trial: a report that cannot be printed, pixels that cannot be standardized since they are all
equal, if there are any, and a split that leaves no sample to train on. -/
inductive Stops (ω : Type) [Writer ω] (world : Surroundings Float σ) (c : RunConfig Float)
    (train test : Dataset Float) : Error → Prop
  | unprinted (h : ¬ Action.Takes ω) : Stops ω world c train test .io
  | flat (hkind : c.data.preprocessing = .standardize)
      (hsame : ∀ v ∈ Preprocessing.pixels (limit c.data.limitTrain train),
        ∀ w ∈ Preprocessing.pixels (limit c.data.limitTrain train), v = w) :
      Stops ω world c train test (.dataset .zeroVariance)
  | nothing {p : Prepared Float} (hp : prepareData world c train test = .ok p) (hempty : p.train.isEmpty = true) :
      Stops ω world c train test (.dataset .noTrainingSamples)

theorem trial_meets (hdraw : Initializer.Draws world.draw) (hc : c.Accepted) (hroom : c.Roomy)
    (hbatch : train.size + c.training.batchSize < 2 ^ 64) (hraw : train.Raw) (hheld : train.Held) (htrain : train.Of c.data.kind) (htest : test.Of c.data.kind) :
    (trial world c train test : Action ω _).Meets
      (fun r => ∀ count, ∃ samples, r.2.1.samplePredictions r.1.test count = .ok samples)
      (Stops ω world c train test) := by
  have hprinted : ∀ e, Action.Unprinted ω e → Stops ω world c train test e := by
    rintro _ ⟨rfl, h⟩
    exact .unprinted h
  have hprepared := prepareData_cases hdraw hc hroom hraw hheld htrain htest
  refine (Action.meets_lift (Q := fun p => prepareData world c train test = .ok p ∧ Ready c p) (fun p hp => ?_)
    fun e he => ?_).bind fun p hp => ?_
  · rcases hprepared with ⟨h, -⟩ | ⟨p', h, hready⟩
    · rw [h] at hp
      cases hp
    · obtain rfl := Except.ok.inj (h.symm.trans hp)
      exact ⟨h, hready⟩
  · rcases hprepared with ⟨h, hkind, hsame⟩ | ⟨p', h, -⟩
    · obtain rfl := Except.error.inj (h.symm.trans he)
      exact .flat hkind hsame
    · rw [h] at he
      cases he
  obtain ⟨hp, hready⟩ := hp
  have hcounts : (schedule world c).counts p.train.size = true :=
    isUnsigned_iff.mpr ((Nat.add_le_add_right (size_of_prepareData hp) _).trans_lt hbatch)
  obtain ⟨shapes, hval, -⟩ := ModelSpec.outputSize_eq_ok.mp hc.outputs
  obtain ⟨summary, hsummary⟩ := Summary.ofNetwork_answers hready.network.realizes (ModelSpec.valid_of_validate hval)
  refine (Action.meets_lift (Q := fun _ => True) (fun _ _ => trivial) fun e he => ?_).bind fun _ _ => ?_
  · rw [hsummary] at he
    cases he
  refine ((Action.meets_sayLines _).mono (fun _ h => h) hprinted).bind fun _ _ => ?_
  refine ((train_meets hc hroom hready hcounts).mono (fun _ h => h) ?_).bind fun r hr => ?_
  · rintro e (he | ⟨rfl, hempty⟩)
    · exact hprinted e he
    · exact .nothing hp hempty
  refine ((evaluateTest_meets hc hroom hr.realizes hready.test).mono (fun _ h => h) hprinted).bind fun _ _ => ?_
  refine Action.meets_pure fun count => ?_
  exact (hc.infers hr.realizes (hroom.layers hc hr.realizes)).samplePredictions_answers hready.test.whole
    (hready.test.shape.trans (hc.input.symm.trans hr.realizes.inputShape.symm)) count

end Stopped

/-- Checked settings are enough. A run whose settings pass their check and whose data loads, as long as memory has
room for its buffers and the batches can be counted, is stopped before its end only by a report that cannot be
printed, by equal pixels that cannot be standardized, and by a split that leaves no sample to train on, and then it
has written no file. Otherwise its network says something of as many test images as are asked for. -/
theorem run_stops {σ ω : Type} [RandomSource σ] [Writer ω] {world : Surroundings Float σ}
    (hdraw : Initializer.Draws world.draw) {c : RunConfig Float} (hc : c.validate = .ok ()) (hroom : c.Roomy)
    {s : Session ω} {train test : Dataset Float}
    (hload : c.data.kind.load s.disk c.data.directory = .ok (train, test)) (hheld : train.Held)
    (hbatch : train.size + c.training.batchSize < 2 ^ 64) :
    (∀ e s', (trial world c train test).on s = (.error e, s') →
      Stops ω world c train test e ∧ s'.disk = s.disk ∧ (run world c).on s = (.error e, s')) ∧
    ∀ p network history evaluation s',
      (trial world c train test).on s = (.ok (p, network, history, evaluation), s') →
      s'.disk = s.disk ∧ (∀ count, ∃ samples, network.samplePredictions p.test count = .ok samples) ∧
        (run world c).on s = (conclude c network history p.test evaluation).on s' := by
  have ha := RunConfig.accepted_of_validate hc
  obtain ⟨⟨hraw, htrain⟩, -, htest⟩ := Benchmark.load_of hload
  have hmeets := trial_meets (ω := ω) hdraw ha hroom hbatch hraw hheld htrain htest
  have hrun := run_on world hc hload
  constructor
  · intro e s' h
    refine ⟨hmeets.fails s e s' h, hmeets.leaves.disk h, ?_⟩
    rw [hrun, Action.on_bind, h]
  · intro p network history evaluation s' h
    refine ⟨hmeets.leaves.disk h, hmeets.answers s _ s' h, ?_⟩
    rw [hrun, Action.on_bind, h]

section Nothing

variable {σ : Type} [RandomSource σ] {world : Surroundings Float σ} {c : RunConfig Float} {train test : Dataset Float}

theorem trial_nothing {p : Prepared Float} (hp : prepareData world c train test = .ok p)
    (hn : p.network.Settled c.modelSpec) (hempty : p.train.isEmpty = true) (hc : c.Accepted) (s : Session String) :
    ∃ s', (trial world c train test).on s = (.error (.dataset .noTrainingSamples), s') := by
  obtain ⟨shapes, hval, -⟩ := ModelSpec.outputSize_eq_ok.mp hc.outputs
  obtain ⟨summary, hsummary⟩ := Summary.ofNetwork_answers hn.realizes (ModelSpec.valid_of_validate hval)
  obtain ⟨out, hs⟩ := Action.sayLines_answers Action.takes_string (Report.summaryLines summary) s
  have hfit : fitted world c p ⟨out, false⟩ = .error (.dataset .noTrainingSamples) := by
    simp [fitted, Network.fit, Network.checkFit, hempty]
  refine ⟨{ s with out := out }, ?_⟩
  rw [trial, Action.on_bind, Action.on_lift, hp]
  dsimp only
  rw [Action.on_bind, Action.on_lift, hsummary]
  dsimp only
  rw [Action.on_bind, hs]
  dsimp only
  rw [Action.on_bind, train_on, hfit]

theorem load_nothing : ∃ (d : Disk) (data : Dataset Float),
    Benchmark.mnist.load d "" = .ok (data, data) ∧ data.size = 0 := by
  obtain ⟨pixels, classes, hload⟩ := Benchmark.load_blank (α := Float) (n := 0) (by decide)
  exact ⟨_, _, hload, rfl⟩

theorem run_stops_nothing : ∃ (c : RunConfig Float) (s s' : Session String) (train test : Dataset Float),
    c.validate = .ok () ∧ c.data.kind.load s.disk c.data.directory = .ok (train, test) ∧
      (run (⟨Stream.ofSeed, Weights.glorotUniform, fun _ => 0⟩ : Surroundings Float Stream) c).on s =
        (.error (.dataset .noTrainingSamples), s') ∧ s'.disk = s.disk := by
  obtain ⟨d, data, hload, hnone⟩ := load_nothing
  obtain ⟨world, hworld⟩ : ∃ world : Surroundings Float Stream,
    world = ⟨Stream.ofSeed, Weights.glorotUniform, fun _ => 0⟩ := ⟨_, rfl⟩
  have hdraw : Initializer.Draws world.draw := hworld ▸ Weights.glorotUniform_draws
  obtain ⟨c, hc⟩ : ∃ c : RunConfig Float, c = { RunConfig.standard with data := { directory := "" } } := ⟨_, rfl⟩
  have hvalid : c.validate = .ok () := by
    subst hc
    rfl
  have hroom : c.Roomy := by
    refine ⟨fun shapes hval => ?_, by subst hc; decide⟩
    have hshapes : c.modelSpec.validate = .ok [⟨28, 28, 32⟩, ⟨14, 14, 32⟩, ⟨14, 14, 64⟩, ⟨7, 7, 64⟩, .flat 3136,
        .flat 128, .flat 128, .flat 10] := by
      subst hc
      rfl
    obtain rfl := Except.ok.inj (hshapes.symm.trans hval)
    subst hc
    exact ⟨by decide, by decide⟩
  have hload' : c.data.kind.load (⟨d, ""⟩ : Session String).disk c.data.directory = .ok (data, data) := by
    subst hc
    exact hload
  have hheld : data.Held := by rw [Dataset.Held, hnone, Nat.zero_mul]; decide
  have ha := RunConfig.accepted_of_validate hvalid
  obtain ⟨⟨hraw, hof⟩, -⟩ := Benchmark.load_of hload'
  obtain ⟨p, hp, hready⟩ := (prepareData_cases hdraw ha hroom hraw hheld hof hof).resolve_left fun h => by
    subst hc
    cases h.2.1
  have hempty : p.train.isEmpty = true := by
    have hzero := Nat.le_zero.mp ((size_of_prepareData hp).trans hnone.le)
    exact Array.isEmpty_iff_size_eq_zero.mpr hzero
  obtain ⟨s', htrial⟩ := trial_nothing hp hready.network hempty ha ⟨d, ""⟩
  have hbatch : data.size + c.training.batchSize < 2 ^ 64 := by
    rw [hnone, hc]
    decide
  obtain ⟨-, hdisk, hrun⟩ := (run_stops hdraw hvalid hroom hload' hheld hbatch).1 _ s' htrial
  refine ⟨c, _, s', data, data, hvalid, hload', ?_, hdisk⟩
  rw [← hworld]
  exact hrun

/-- The check of the settings does not look at the room for a model: no buffer holds the weights of a layer with
`2 ^ 52` units over an image, and a run with it ends in a misuse. -/
theorem run_without_room : ∃ (c : RunConfig Float) (s : Session String) (train test : Dataset Float),
    c.validate = .ok () ∧ c.data.kind.load s.disk c.data.directory = .ok (train, test) ∧
      (run (⟨Stream.ofSeed, Weights.glorotUniform, fun _ => 0⟩ : Surroundings Float Stream) c).on s =
        (.error .misuse, s) := by
  obtain ⟨d, data, hload, hnone⟩ := load_nothing
  obtain ⟨world, hworld⟩ : ∃ world : Surroundings Float Stream,
    world = ⟨Stream.ofSeed, Weights.glorotUniform, fun _ => 0⟩ := ⟨_, rfl⟩
  obtain ⟨c, hc⟩ : ∃ c : RunConfig Float, c = { RunConfig.standard with
    data := { directory := "" }
    model := some ⟨⟨28, 28, 1⟩, [.flatten, .dense (2 ^ 52) .linear, .dense 10 .softmax],
      .categoricalCrossentropy⟩ } := ⟨_, rfl⟩
  have hvalid : c.validate = .ok () := by
    subst hc
    rfl
  have hload' : c.data.kind.load (⟨d, ""⟩ : Session String).disk c.data.directory = .ok (data, data) := by
    subst hc
    exact hload
  have hbuild : ∀ seed, Network.build Weights.glorotUniform c.modelSpec seed = .error .misuse := by
    intro seed
    have hroom : Buffer.fits ((Shape.flat 784).size * 2 ^ 52) = false := by decide
    have hval : c.modelSpec.validate = .ok [.flat 784, .flat (2 ^ 52), .flat 10] := by
      subst hc
      rfl
    have hflatten : (⟨28, 28, 1⟩ : Shape).size = 784 := by decide
    rw [Network.build, hval, ok_bind]
    subst hc
    simp only [RunConfig.modelSpec, Option.getD_some, Network.buildLayers, LayerSpec.build, ok_bind, pure_eq_ok,
      Layer.outputShape?, hflatten, hroom, require_false, error_bind]
  have hdata : prepareData world c data data = .error .misuse := by
    obtain ⟨scaling, hfit⟩ : ∃ scaling, c.data.preprocessing.fit (limit c.data.limitTrain data) = .ok scaling := by
      subst hc
      exact ⟨_, rfl⟩
    have hfew : (scaling.apply (limit c.data.limitTrain data)).size < 2 ^ 53 := by
      rw [Scaling.size_apply]
      exact ((Dataset.size_limit_le _ _).trans hnone.le).trans_lt (by decide)
    obtain ⟨kept, hsplit⟩ := Dataset.splitValidation_eq hfew (RunConfig.accepted_of_validate hvalid).split
    have hnet : build world c = .error .misuse := by
      rw [build, hworld, hbuild]
      rfl
    rw [prepareData, Preprocessing.apply, hfit]
    simp only [ok_bind, pure_eq_ok, hsplit, hnet, error_bind]
  refine ⟨c, ⟨d, ""⟩, data, data, hvalid, hload', ?_⟩
  rw [← hworld, run_on world hvalid hload', Action.on_bind, trial, Action.on_bind, Action.on_lift, hdata]

end Nothing

end Experiment

end Convnet
