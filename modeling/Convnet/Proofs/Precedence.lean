import Convnet.CommandLine.Command
import Convnet.Proofs.Settings

namespace Convnet

inductive Setting
  | dataset | directory | preprocessing | limitTrain | limitTest
  | model
  | optimizer | learningRate | beta1 | beta2 | epsilon | momentum
  | epochs | batchSize | validationSplit | seed | progressEvery
  | modelPath | plotPath | historyPath | evaluate | saveModel | savePlot | saveHistory | samples
  deriving DecidableEq, Repr

namespace Setting

abbrev Value (α : Type) : Setting → Type
  | dataset => Benchmark
  | preprocessing => Preprocessing
  | limitTrain | limitTest => Option Nat
  | model => Option (ModelSpec α)
  | learningRate | validationSplit => α
  | beta1 | beta2 | epsilon | momentum => Option α
  | epochs | batchSize | seed | progressEvery | samples => Nat
  | directory | optimizer | modelPath | plotPath | historyPath => String
  | evaluate | saveModel | savePlot | saveHistory => Bool

def Inner : Setting → Prop
  | beta1 | beta2 | epsilon | momentum => True
  | _ => False

end Setting

namespace OptimizerRule

variable {α : Type}

def number? : OptimizerRule α → Setting → Option α
  | adam _ b _ _, .beta1 => some b
  | adam _ _ b _, .beta2 => some b
  | adam _ _ _ e, .epsilon => some e
  | sgd _ m, .momentum => some m
  | _, _ => none

theorem name_withLearningRate (rate : α) (o : OptimizerRule α) : (o.withLearningRate rate).name = o.name := by
  cases o <;> rfl

theorem learningRate_withLearningRate (rate : α) (o : OptimizerRule α) :
    (o.withLearningRate rate).learningRate = rate := by
  cases o <;> rfl

theorem withLearningRate_self (o : OptimizerRule α) : o.withLearningRate o.learningRate = o := by
  cases o <;> rfl

theorem number?_withLearningRate (rate : α) (o : OptimizerRule α) (k : Setting) :
    (o.withLearningRate rate).number? k = o.number? k := by
  cases o <;> cases k <;> rfl

theorem eq_of_number? {o o' : OptimizerRule α} (hrate : o.learningRate = o'.learningRate)
    (h : ∀ k, o.number? k = o'.number? k) : o = o' := by
  cases o with
  | adam r b₁ b₂ e =>
      cases o' with
      | adam r' b₁' b₂' e' =>
          obtain rfl := Option.some.inj (h .beta1)
          obtain rfl := Option.some.inj (h .beta2)
          obtain rfl := Option.some.inj (h .epsilon)
          exact congrArg (adam · b₁ b₂ e) hrate
      | sgd | rmsprop => cases h .beta1
  | sgd r m =>
      cases o' with
      | sgd r' m' =>
          obtain rfl := Option.some.inj (h .momentum)
          exact congrArg (sgd · m) hrate
      | adam | rmsprop => cases h .momentum
  | rmsprop r =>
      cases o' with
      | rmsprop r' => exact congrArg rmsprop hrate
      | adam => cases h .beta1
      | sgd => cases h .momentum

variable [Scalar α]

theorem named?_eq_some {name : String} {rate : α} {o : OptimizerRule α} (h : named? name rate = some o) :
    o.name = String.ofList (name.toList.map Char.toLower) ∧ o.learningRate = rate := by
  rw [named?] at h
  split at h <;> cases h <;> exact ⟨(‹_ = _› : _ = _).symm, rfl⟩

end OptimizerRule

namespace RunConfig

variable {α : Type}

def get (c : RunConfig α) : (k : Setting) → k.Value α
  | .dataset => c.data.kind
  | .directory => c.data.directory
  | .preprocessing => c.data.preprocessing
  | .limitTrain => c.data.limitTrain
  | .limitTest => c.data.limitTest
  | .model => c.model
  | .optimizer => c.optimizer.name
  | .learningRate => c.optimizer.learningRate
  | .beta1 => c.optimizer.number? .beta1
  | .beta2 => c.optimizer.number? .beta2
  | .epsilon => c.optimizer.number? .epsilon
  | .momentum => c.optimizer.number? .momentum
  | .epochs => c.training.epochs
  | .batchSize => c.training.batchSize
  | .validationSplit => c.training.validationSplit
  | .seed => c.training.seed
  | .progressEvery => c.training.progressEvery
  | .modelPath => c.output.modelPath
  | .plotPath => c.output.plotPath
  | .historyPath => c.output.historyPath
  | .evaluate => c.output.evaluate
  | .saveModel => c.output.saveModel
  | .savePlot => c.output.savePlot
  | .saveHistory => c.output.saveHistory
  | .samples => c.output.samples

theorem eq_of_get {c c' : RunConfig α} (h : ∀ k, c.get k = c'.get k) : c = c' := by
  obtain ⟨data, model, optimizer, training, output⟩ := c
  obtain ⟨data', model', optimizer', training', output'⟩ := c'
  have hdata : data = data' := by
    cases data
    cases data'
    rw [DataSettings.mk.injEq]
    exact ⟨h .dataset, h .directory, h .preprocessing, h .limitTrain, h .limitTest⟩
  have hoptimizer : optimizer = optimizer' := by
    refine OptimizerRule.eq_of_number? (h .learningRate) fun k => ?_
    cases k
    case beta1 => exact h .beta1
    case beta2 => exact h .beta2
    case epsilon => exact h .epsilon
    case momentum => exact h .momentum
    all_goals cases optimizer <;> cases optimizer' <;> rfl
  have htraining : training = training' := by
    cases training
    cases training'
    rw [TrainingSettings.mk.injEq]
    exact ⟨h .epochs, h .batchSize, h .validationSplit, h .seed, h .progressEvery⟩
  have houtput : output = output' := by
    cases output
    cases output'
    rw [OutputSettings.mk.injEq]
    exact ⟨h .modelPath, h .plotPath, h .historyPath, h .evaluate, h .saveModel, h .savePlot, h .saveHistory,
      h .samples⟩
  rw [RunConfig.mk.injEq]
  exact ⟨hdata, h .model, hoptimizer, htraining, houtput⟩

theorem ofJson?_toJson [Scalar α] [JsonNumber α] {c : RunConfig α} (hc : c.Counted)
    (hn : ∀ x ∈ c.numbers, JsonNumber.Returns x) : ofJson? c.toJson.reread = some c := by
  have hnothing : ∀ D, Json.Places.Within (fun _ => false) D := fun _ _ _ h => absurd h Bool.false_ne_true
  have hwhole := ofJson?_prune hc hn (hnothing _)
  rwa [fill_none, Json.prune_eq_self (hnothing _)] at hwhole

end RunConfig

namespace TrainFlags

variable {α : Type} [Scalar α] [JsonNumber α]

/-- The value that the flags name for a setting, if they do. A model is named by its file, and an optimizer in
upper or lower case. -/
def given (f : TrainFlags α) (d : Disk) : (k : Setting) → Option (k.Value α)
  | .dataset => f.config.dataset
  | .directory => f.config.directory
  | .preprocessing => f.preprocessing
  | .limitTrain => f.limitTrain.map some
  | .limitTest => f.limitTest.map some
  | .model => f.config.modelSpec.bind fun path => (ModelSpec.load d path).toOption.map some
  | .optimizer => f.optimizer.map fun name => String.ofList (name.toList.map Char.toLower)
  | .learningRate => f.learningRate
  | .epochs => f.epochs
  | .batchSize => f.batchSize
  | .validationSplit => f.validationSplit
  | .seed => f.seed
  | .modelPath => f.modelPath
  | .plotPath => f.plotPath
  | .historyPath => f.historyPath
  | .evaluate => if f.noEval then some false else none
  | .saveModel => if f.noSaveModel then some false else none
  | .savePlot => if f.noPlot then some false else none
  | .samples => f.samples
  | .beta1 | .beta2 | .epsilon | .momentum | .progressEvery | .saveHistory => none

/-- What the flags make of the settings `c`: those that they name are theirs, and the others stay. Where they name
an optimizer, it has its default numbers. -/
structure Heeds (f : TrainFlags α) (d : Disk) (c r : RunConfig α) : Prop where
  named : ∀ k v, f.given d k = some v → r.get k = v
  kept : ∀ k, f.given d k = none → (k.Inner → f.optimizer = none) → r.get k = c.get k
  reset : ∀ name, f.optimizer = some name → OptimizerRule.named? name r.optimizer.learningRate = some r.optimizer

variable {f : TrainFlags α} {d : Disk} {c r : RunConfig α}

theorem Heeds.eq_of_given (h : f.Heeds d c r) (hf : ∀ k, f.given d k = none) : r = c := by
  have hoptimizer : f.optimizer = none := Option.map_eq_none_iff.mp (hf .optimizer)
  exact RunConfig.eq_of_get fun k => h.kept k (hf k) fun _ => hoptimizer

omit [JsonNumber α] in
/-- An optimizer has the name and the learning rate of the flags, if there are any, and the other numbers of the
old one or, by a new name, their defaults. -/
theorem applyOptimizer_eq_ok {o o' : OptimizerRule α} (h : f.applyOptimizer o = .ok o') :
    o'.name = (f.optimizer.map fun name => String.ofList (name.toList.map Char.toLower)).getD o.name ∧
      o'.learningRate = f.learningRate.getD o.learningRate ∧
      (f.optimizer = none → ∀ k, o'.number? k = o.number? k) ∧
      ∀ name, f.optimizer = some name → OptimizerRule.named? name o'.learningRate = some o' := by
  rw [applyOptimizer] at h
  cases hf : f.optimizer with
  | none =>
      rw [hf] at h
      obtain rfl := Except.ok.inj h
      exact ⟨o.name_withLearningRate _, o.learningRate_withLearningRate _, fun _ k => o.number?_withLearningRate _ k,
        nofun⟩
  | some name =>
      rw [hf] at h
      dsimp only at h
      split at h
      case h_1 o₁ ho =>
        obtain rfl := Except.ok.inj h
        obtain ⟨hname, hrate⟩ := OptimizerRule.named?_eq_some ho
        refine ⟨hname, hrate, nofun, ?_⟩
        rintro _ ⟨⟩
        rw [hrate, ho]
      case h_2 => cases h

theorem config_resolve_eq_ok (h : f.config.resolve d = .ok r) : ∃ c, f.config.base d = .ok c ∧
    r = { c with data := f.config.applyData c.data, model := (f.given d .model).getD c.model } := by
  obtain ⟨c, hc, h⟩ := bind_eq_ok.mp h
  refine ⟨c, hc, ?_⟩
  dsimp only at h
  split at h
  case h_1 path hpath =>
    obtain ⟨spec, hspec, h⟩ := bind_eq_ok.mp h
    obtain ⟨⟩ := pure_eq_ok_iff.mp h
    simp [given, hpath, hspec, Except.toOption]
  case h_2 hpath =>
    obtain ⟨⟩ := pure_eq_ok_iff.mp h
    simp [given, hpath]

theorem resolve_eq_ok (h : f.resolve d = .ok r) : ∃ c o, f.config.base d = .ok c ∧
    f.applyOptimizer c.optimizer = .ok o ∧ r = ⟨f.applyData (f.config.applyData c.data),
      (f.given d .model).getD c.model, o, f.applyTraining c.training, f.applyOutput c.output⟩ := by
  obtain ⟨c₁, hc₁, h⟩ := bind_eq_ok.mp h
  obtain ⟨c, hc, rfl⟩ := config_resolve_eq_ok hc₁
  obtain ⟨o, ho, h⟩ := bind_eq_ok.mp h
  obtain ⟨⟩ := pure_eq_ok_iff.mp h
  exact ⟨c, o, hc, ho, rfl⟩

theorem resolve_of_base {o : OptimizerRule α} (hc : f.config.base d = .ok c) (hm : f.config.modelSpec = none)
    (ho : f.applyOptimizer c.optimizer = .ok o) : f.resolve d = .ok ⟨f.applyData (f.config.applyData c.data), c.model,
      o, f.applyTraining c.training, f.applyOutput c.output⟩ := by
  have hconfig : f.config.resolve d = .ok { c with data := f.config.applyData c.data } := by
    rw [ConfigFlags.resolve, hc, hm]
    rfl
  rw [resolve, hconfig, ok_bind, apply, ho]
  rfl

theorem get_resolve (h : f.resolve d = .ok r) : ∃ c, f.config.base d = .ok c ∧
    (∀ k : Setting, (k.Inner → f.optimizer = none) → r.get k = (f.given d k).getD (c.get k)) ∧
    ∀ name, f.optimizer = some name → OptimizerRule.named? name r.optimizer.learningRate = some r.optimizer := by
  obtain ⟨c, o, hc, ho, rfl⟩ := resolve_eq_ok h
  obtain ⟨hname, hrate, hnumbers, hreset⟩ := applyOptimizer_eq_ok ho
  have hlimit : ∀ n m : Option Nat, (n <|> m) = (n.map some).getD m := by
    intro n m
    cases n <;> rfl
  have hswitch : ∀ b off : Bool, (b && !off) = (if off then some false else none : Option Bool).getD b := by
    decide
  refine ⟨c, hc, fun k hk => ?_, hreset⟩
  cases k with
  | optimizer => exact hname
  | learningRate => exact hrate
  | limitTrain | limitTest => exact hlimit _ _
  | evaluate | saveModel | savePlot => exact hswitch _ _
  | beta1 | beta2 | epsilon | momentum => exact hnumbers (hk trivial) _
  | _ => rfl

theorem heeds_of_resolve (h : f.resolve d = .ok r) : ∃ c, f.config.base d = .ok c ∧ f.Heeds d c r := by
  obtain ⟨c, hc, hget, hreset⟩ := get_resolve h
  refine ⟨c, hc, fun k v hv => ?_, fun k hk hinner => ?_, hreset⟩
  · have hinner : k.Inner → f.optimizer = none := by
      cases k with
      | beta1 | beta2 | epsilon | momentum => cases hv
      | _ => exact False.elim
    rw [hget k hinner, hv, Option.getD_some]
  · rw [hget k hinner, hk, Option.getD_none]

theorem resolve_config (g : ConfigFlags) (d : Disk) :
    ({ config := g } : TrainFlags α).resolve d = g.resolve d := by
  have hkeeps : ∀ c : RunConfig α, ({ config := g } : TrainFlags α).apply c = .ok c := by
    intro c
    have hrule : ({ config := g } : TrainFlags α).applyOptimizer c.optimizer = .ok c.optimizer :=
      congrArg Except.ok c.optimizer.withLearningRate_self
    rw [apply, hrule, ok_bind]
    simp [applyData, applyTraining, applyOutput]
  rw [resolve, funext hkeeps]
  cases g.resolve (α := α) d <;> rfl

end TrainFlags

/-- The flags come first, then the file, and then the defaults. Each setting that a flag names has its value, and
each one that none names stays what it is in the file, or without a file the default, but for the numbers of the
optimizer under a flag that names an optimizer. Flags that name nothing change nothing. -/
theorem TrainFlags.resolve_precedence {α : Type} [Scalar α] [JsonNumber α] {d : Disk} {r : RunConfig α} :
    (∀ f : TrainFlags α, f.resolve d = .ok r → ∃ c, f.config.base d = .ok c ∧ f.Heeds d c r ∧
      ((∀ k, f.given d k = none) → r = c)) ∧
      ∀ g : ConfigFlags, g.resolve d = .ok r →
        ∃ c, g.base d = .ok c ∧ ({ config := g } : TrainFlags α).Heeds d c r := by
  refine ⟨fun f h => ?_, fun g h => ?_⟩
  · obtain ⟨c, hc, hheeds⟩ := heeds_of_resolve h
    exact ⟨c, hc, hheeds, hheeds.eq_of_given⟩
  · rw [← resolve_config] at h
    exact heeds_of_resolve h

theorem TrainFlags.resolve_precedence_twoFlags : ∃ (f : TrainFlags Float) (r : RunConfig Float),
    f.epochs = some 7 ∧ f.optimizer = some "SGD" ∧ f.resolve (.empty []) = .ok r ∧ r.get .epochs = 7 ∧
      r.get .optimizer = "sgd" ∧ r.get .learningRate = OptimizerRule.learningRate .standard ∧ r.get .batchSize = 32 ∧
      OptimizerRule.named? "SGD" r.optimizer.learningRate = some r.optimizer := by
  obtain ⟨f, hf⟩ : ∃ f : TrainFlags Float, f = { epochs := some 7, optimizer := some "SGD" } := ⟨_, rfl⟩
  have hlower : String.ofList ("SGD".toList.map Char.toLower) = "sgd" := by decide
  have hbase : f.config.base (.empty []) = .ok (RunConfig.standard : RunConfig Float) := by
    subst hf
    rfl
  have hrule : f.applyOptimizer .standard = .ok (.sgd (OptimizerRule.learningRate .standard) 0) := by
    subst hf
    simp only [applyOptimizer, OptimizerRule.named?, hlower]
    rfl
  have hresolve := resolve_of_base hbase (by rw [hf]) hrule
  obtain ⟨c, hc, ⟨hnamed, hkept, hreset⟩, -⟩ := TrainFlags.resolve_precedence.1 f hresolve
  obtain rfl := Except.ok.inj (hbase.symm.trans hc)
  have hoptimizer : f.given (.empty []) .optimizer = some "sgd" := by
    subst hf
    exact congrArg some hlower
  have hgiven : f.given (.empty []) .epochs = some 7 ∧ f.given (.empty []) .learningRate = none ∧
      f.given (.empty []) .batchSize = none := by
    subst hf
    exact ⟨rfl, rfl, rfl⟩
  exact ⟨f, _, by rw [hf], by rw [hf], hresolve, hnamed .epochs 7 hgiven.1, hnamed .optimizer _ hoptimizer,
    hkept .learningRate hgiven.2.1 nofun, hkept .batchSize hgiven.2.2 nofun, hreset "SGD" (by rw [hf])⟩

/-- The file asks for Adam with a number of its own. The flag that asks for Adam puts it back. -/
theorem TrainFlags.resolve_resets : ∃ (f : TrainFlags Float) (d : Disk) (c r : RunConfig Float),
    f.config.base d = .ok c ∧ f.resolve d = .ok r ∧ f.optimizer = some c.optimizer.name ∧
      f.given d .beta1 = none ∧ r.get .beta1 ≠ c.get .beta1 := by
  obtain ⟨c, hc⟩ : ∃ c : RunConfig Float, c = { RunConfig.standard with optimizer := .adam 0.01 0.8 0.9 1 } := ⟨_, rfl⟩
  have hcounted : c.Counted := by
    subst hc
    exact ⟨⟨nofun, nofun⟩, nofun, ⟨by decide, by decide, by decide, by decide⟩, by decide⟩
  have hfinite : ∀ x ∈ c.numbers, x.isFinite = true := by
    subst hc
    decide
  have hread := RunConfig.ofJson?_toJson hcounted fun x hx => JsonNumber.returns_of_isFinite (hfinite x hx)
  have hwrite := Disk.write_plain (d := .empty []) (by decide : Disk.Plain "m") rfl c.toJson.pretty.toUTF8
  obtain ⟨d, hload⟩ : ∃ d, RunConfig.load d "m" = .ok c :=
    ⟨_, RunConfig.load_eq_ok (Disk.readJson_write hwrite (Json.ofBytes?_write true c.toJson)) hread⟩
  obtain ⟨f, hf⟩ : ∃ f : TrainFlags Float, f = { config := { config := some "m" }, optimizer := some "adam" } :=
    ⟨_, rfl⟩
  have hlower : String.ofList ("adam".toList.map Char.toLower) = "adam" := by decide
  have hrule : f.applyOptimizer c.optimizer = .ok (.adamOf c.optimizer.learningRate) := by
    subst hf
    simp only [applyOptimizer, OptimizerRule.named?, hlower]
    rfl
  have hbase : f.config.base d = .ok c := by
    subst hf
    exact hload
  have hname : f.optimizer = some c.optimizer.name := by
    subst hf hc
    rfl
  refine ⟨f, d, c, _, hbase, resolve_of_base hbase (by rw [hf]) hrule, hname, rfl, ?_⟩
  have hne : some (OptimizerRule.defaultBeta1 : Float) ≠ some 0.8 := by decide
  subst hc
  exact hne

end Convnet
