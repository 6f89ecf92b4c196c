import Convnet.Proofs.Doubles
import Convnet.Proofs.Files
import Convnet.Proofs.Omission
import Convnet.Proofs.Session
import Convnet.Run.Config

namespace Convnet

open Json (Places Step prune)
open JsonNumber (Returns)

namespace LayerSpec

variable {α : Type}

def defaulted : LayerSpec α → List String
  | conv .. => ["strides", "padding", "activation"]
  | pool .. => ["strides"]
  | dense .. => ["activation"]
  | flatten | dropout _ | pointwise _ => []

def numbers : LayerSpec α → List α
  | dropout rate => [rate]
  | _ => []

/-- The layer with the defaults of what is left out. -/
def fill (gone : Places) : LayerSpec α → LayerSpec α
  | conv f k s p a => conv f k (gone.choose "strides" 1 s) (gone.choose "padding" .valid p)
      (gone.choose "activation" .linear a)
  | pool k p s => pool k p (gone.choose "strides" none s)
  | flatten => flatten
  | dense u a => dense u (gone.choose "activation" .linear a)
  | dropout r => dropout r
  | pointwise a => pointwise a

theorem fill_none (l : LayerSpec α) : l.fill (fun _ => false) = l := by
  cases l <;> rfl

variable [JsonNumber α] {l : LayerSpec α}

theorem keepable_toJson (hc : l.Counted) (hn : ∀ x ∈ l.numbers, Returns x) (room : Nat) :
    Json.keepable (room + 1) l.toJson.reread = true := by
  cases l with
  | conv f k s p a =>
      obtain ⟨hf, hk, hs⟩ := hc
      rw [toJson, Json.reread_record]
      refine Json.keepable_record ?_
      simp [Padding.toJson, Activation.toJson, Json.keepable_ofString, Json.keepable_ofNat hf, Json.keepable_ofNat hk,
        Json.keepable_ofNat hs]
  | pool k p s =>
      obtain ⟨hp, hs⟩ := hc
      have hstrides : Json.keepable room (Json.ofOption .ofNat s).reread = true := by
        cases s with
        | none => rfl
        | some n => exact Json.keepable_ofNat (hs n rfl) room
      rw [toJson, Json.reread_record]
      refine Json.keepable_record ?_
      simp [Json.keepable_ofString, Json.keepable_ofNat hp, hstrides]
  | flatten =>
      rw [toJson, Json.reread_record]
      refine Json.keepable_record ?_
      simp [Json.keepable_ofString]
  | dense u a =>
      rw [toJson, Json.reread_record]
      refine Json.keepable_record ?_
      simp [Activation.toJson, Json.keepable_ofString, Json.keepable_ofNat hc]
  | dropout r =>
      have hrate : Json.keepable room (Json.ofNumber r).reread = true :=
        Json.keepable_of_zero (hn r (by simp [numbers])).keepable _
      rw [toJson, Json.reread_record]
      refine Json.keepable_record ?_
      simp [Json.keepable_ofString, hrate]
  | pointwise a =>
      rw [toJson, Json.reread_record]
      refine Json.keepable_record ?_
      simp [Activation.toJson, Json.keepable_ofString]

variable {gone : Places}

theorem ofJson?_prune (hc : l.Counted) (hn : ∀ x ∈ l.numbers, Returns x)
    (hg : gone.Within (Json.Members l.defaulted)) : ofJson? 3 (prune gone l.toJson.reread) = some (l.fill gone) := by
  -- In a file of settings the layers lie three levels deep.
  have hk : Json.keepable (Json.nestingLimit - 3) l.toJson.reread = true := keepable_toJson hc hn 123
  have hplain := hg.prune_inside
  have htype : gone [.member "type"] = false := hg.kept (by cases l <;> simp [defaulted])
  cases l with
  | conv f k s p a =>
      have hfilters : gone [.member "filters"] = false := hg.kept (by simp [defaulted])
      have hsize : gone [.member "kernel_size"] = false := hg.kept (by simp [defaulted])
      rw [toJson] at hk ⊢
      rw [ofJson?, Json.tagged_prune hk (by simp) htype, Option.bind_eq_bind, Option.bind_some]
      simp [Places.required_slot hfilters, Places.required_slot hsize, hplain,
        Json.size?_ofNat hc.1, Json.size?_ofNat hc.2.1, Json.size?_ofNat hc.2.2, fill]
  | pool k p s =>
      have hpool : gone [.member "pool_size"] = false := hg.kept (by simp [defaulted])
      rw [toJson] at hk ⊢
      cases k with
      | max | average =>
          rw [PoolKind.layerName] at hk ⊢
          rw [ofJson?, Json.tagged_prune hk (by simp) htype, Option.bind_eq_bind, Option.bind_some]
          simp [ofJson?.pooling, Places.required_slot hpool, hplain, Json.size?_ofNat hc.1,
            Json.option?_ofNat hc.2, fill]
  | flatten =>
      rw [toJson] at hk ⊢
      rw [ofJson?, Json.tagged_prune hk (by simp) htype, Option.bind_eq_bind, Option.bind_some]
      simp [fill]
  | dense u a =>
      have hunits : gone [.member "units"] = false := hg.kept (by simp [defaulted])
      rw [toJson] at hk ⊢
      rw [ofJson?, Json.tagged_prune hk (by simp) htype, Option.bind_eq_bind, Option.bind_some]
      simp [Places.required_slot hunits, hplain, Json.size?_ofNat hc, fill]
  | dropout r =>
      have hrate : gone [.member "rate"] = false := hg.kept (by simp [defaulted])
      rw [toJson] at hk ⊢
      rw [ofJson?, Json.tagged_prune hk (by simp) htype, Option.bind_eq_bind, Option.bind_some]
      simp [Places.required_slot hrate, hplain, (hn r (by simp [numbers])).reads, fill]
  | pointwise a =>
      have hactivation : gone [.member "activation"] = false := hg.kept (by simp [defaulted])
      rw [toJson] at hk ⊢
      rw [ofJson?, Json.tagged_prune hk (by simp) htype, Option.bind_eq_bind, Option.bind_some]
      simp [Places.required_slot hactivation, hplain, fill]

end LayerSpec

namespace ModelSpec

variable {α : Type}

structure Counted (m : ModelSpec α) : Prop where
  input : m.inputShape.Counted
  layers : ∀ l ∈ m.layers, l.Counted

def numbers (m : ModelSpec α) : List α := m.layers.flatMap LayerSpec.numbers

/-- The places of the members that have defaults. -/
def Defaulted (m : ModelSpec α) : List Step → Prop
  | [.member "loss"] => True
  | [.member "layers", .item i, .member name] => ∃ l, m.layers[i]? = some l ∧ name ∈ l.defaulted
  | _ => False

def fill (gone : Places) (m : ModelSpec α) : ModelSpec α where
  inputShape := m.inputShape
  layers := m.layers.mapIdx fun i l => l.fill ((gone.inside (.member "layers")).inside (.item i))
  loss := gone.choose "loss" .categoricalCrossentropy m.loss

theorem fill_none (m : ModelSpec α) : m.fill (fun _ => false) = m := by
  have hlayers : m.layers.mapIdx (fun _ l => l.fill fun _ => false) = m.layers := by
    rw [List.mapIdx_eq_zipIdx_map]
    simp only [LayerSpec.fill_none]
    exact List.zipIdx_map_fst 0 m.layers
  exact congrArg (fun ls => ModelSpec.mk m.inputShape ls m.loss) hlayers

variable {m : ModelSpec α} {gone : Places}

theorem within_layer (h : gone.Within m.Defaulted) {i : Nat} {l : LayerSpec α} (hl : m.layers[i]? = some l) :
    ((gone.inside (.member "layers")).inside (.item i)).Within (Json.Members l.defaulted) := by
  intro s p hgone
  have hp := h _ _ hgone
  match s, p, hp with
  | .member name, [], hp =>
    obtain ⟨l', hl', hn⟩ := hp
    cases hl.symm.trans hl'
    exact ⟨name, hn, rfl⟩

variable [JsonNumber α]

theorem ofJson?_prune (hc : m.Counted) (hn : ∀ x ∈ m.numbers, Returns x) (hg : gone.Within m.Defaulted) :
    ofJson? 1 (prune gone m.toJson.reread) = some (m.fill gone) := by
  have hinput : gone [.member "input_shape"] = false := Bool.eq_false_iff.mpr (hg (.member "input_shape") [])
  have hlayers : gone [.member "layers"] = false := Bool.eq_false_iff.mpr (hg (.member "layers") [])
  have hshape : prune (gone.inside (.member "input_shape")) m.inputShape.toJson.reread = m.inputShape.toJson.reread :=
    Json.prune_eq_self (fun s p hgone => hg (.member "input_shape") (s :: p) hgone) _
  have hitems : Json.list? (LayerSpec.ofJson? 3)
      (prune (gone.inside (.member "layers")) (.array (m.layers.map (Json.reread ∘ LayerSpec.toJson)))) =
      some (m.fill gone).layers := by
    rw [prune, Json.pruneItems_eq, List.zipIdx_map, List.map_map, fill, List.mapIdx_eq_zipIdx_map]
    refine Json.list?_array fun l hl => ?_
    have hat : m.layers[l.2]? = some l.1 := List.mem_zipIdx_iff_getElem?.mp hl
    have hmem := List.mem_of_getElem? hat
    exact LayerSpec.ofJson?_prune (hc.layers l.1 hmem) (fun x hx => hn x (List.mem_flatMap_of_mem hmem hx))
      (within_layer hg hat)
  have hloss : Loss.ofJson? (prune (gone.inside (.member "loss")) m.loss.toJson.reread) = some m.loss :=
    Loss.ofJson?_toJson m.loss
  rw [toJson, ofJson?]
  simp [Places.required_slot hinput, Places.required_slot hlayers, hshape, hitems, Shape.ofJson?_toJson hc.input,
    hloss]
  rfl

end ModelSpec

namespace OptimizerRule

variable {α : Type}

def defaulted : OptimizerRule α → List String
  | adam .. => ["beta1", "beta2", "epsilon"]
  | sgd .. => ["momentum"]
  | rmsprop _ => []

def numbers : OptimizerRule α → List α
  | adam r b1 b2 e => [r, b1, b2, e]
  | sgd r m => [r, m]
  | rmsprop r => [r]

section Filling

variable [Scalar α]

def fill (gone : Places) : OptimizerRule α → OptimizerRule α
  | adam r b1 b2 e => adam r (gone.choose "beta1" defaultBeta1 b1) (gone.choose "beta2" defaultBeta2 b2)
      (gone.choose "epsilon" defaultEpsilon e)
  | sgd r m => sgd r (gone.choose "momentum" 0 m)
  | rmsprop r => rmsprop r

theorem fill_none (o : OptimizerRule α) : o.fill (fun _ => false) = o := by
  cases o <;> rfl

end Filling

variable [JsonNumber α] {o : OptimizerRule α}

theorem keepable_toJson (hn : ∀ x ∈ o.numbers, Returns x) (room : Nat) :
    Json.keepable (room + 1) o.toJson.reread = true := by
  have hnumber : ∀ x ∈ o.numbers, Json.keepable room (Json.ofNumber x).reread = true :=
    fun x hx => Json.keepable_of_zero (hn x hx).keepable room
  cases o with
  | adam | sgd | rmsprop =>
      rw [toJson, Json.reread_record]
      refine Json.keepable_record ?_
      simpa [numbers, Json.keepable_ofString] using hnumber

variable [Scalar α] {gone : Places}

theorem ofJson?_prune (hn : ∀ x ∈ o.numbers, Returns x) (hg : gone.Within (Json.Members o.defaulted)) :
    ofJson? 1 (prune gone o.toJson.reread) = some (o.fill gone) := by
  have hk : Json.keepable (Json.nestingLimit - 1) o.toJson.reread = true := keepable_toJson hn 125
  have hplain := hg.prune_inside
  have hname : gone [.member "name"] = false := hg.kept (by cases o <;> simp [defaulted])
  have hrate : gone [.member "learning_rate"] = false := hg.kept (by cases o <;> simp [defaulted])
  have hreads : ∀ x ∈ o.numbers, Json.number? (Json.ofNumber x).reread = some x := fun x hx => (hn x hx).reads
  cases o with
  | adam | sgd | rmsprop =>
      simp only [numbers, List.forall_mem_cons] at hreads
      rw [toJson] at hk ⊢
      rw [ofJson?, Json.tagged_prune hk (by simp) hname, Option.bind_eq_bind, Option.bind_some]
      simp [Places.required_slot hrate, hplain, hreads, fill]

end OptimizerRule

namespace DataSettings

def members : List String := ["kind", "data_dir", "preprocessing", "limit_train", "limit_test"]

structure Counted (s : DataSettings) : Prop where
  train : ∀ n ∈ s.limitTrain, n < Nat.pow 2 64
  test : ∀ n ∈ s.limitTest, n < Nat.pow 2 64

def fill (gone : Places) (s : DataSettings) : DataSettings :=
  let standard : DataSettings := {}
  { kind := gone.choose "kind" standard.kind s.kind
    directory := gone.choose "data_dir" standard.directory s.directory
    preprocessing := gone.choose "preprocessing" standard.preprocessing s.preprocessing
    limitTrain := gone.choose "limit_train" standard.limitTrain s.limitTrain
    limitTest := gone.choose "limit_test" standard.limitTest s.limitTest }

variable {s : DataSettings} {gone : Places}

theorem ofJson?_prune (hc : s.Counted) (hg : gone.Within (Json.Members members)) :
    ofJson? (prune gone s.toJson.reread) = some (s.fill gone) := by
  have hplain := hg.prune_inside
  rw [toJson, ofJson?]
  simp [hplain, Benchmark.ofJson?_toJson, Preprocessing.ofJson?_toJson, Json.option?_ofNat hc.train,
    Json.option?_ofNat hc.test, fill]

end DataSettings

namespace TrainingSettings

variable {α : Type}

def members : List String := ["epochs", "batch_size", "validation_split", "seed", "progress_every"]

structure Counted (s : TrainingSettings α) : Prop where
  epochs : s.epochs < Nat.pow 2 64
  batchSize : s.batchSize < Nat.pow 2 64
  seed : s.seed < Nat.pow 2 64
  progressEvery : s.progressEvery < Nat.pow 2 64

variable [Scalar α]

def fill (gone : Places) (s : TrainingSettings α) : TrainingSettings α :=
  let standard : TrainingSettings α := standard
  { epochs := gone.choose "epochs" standard.epochs s.epochs
    batchSize := gone.choose "batch_size" standard.batchSize s.batchSize
    validationSplit := gone.choose "validation_split" standard.validationSplit s.validationSplit
    seed := gone.choose "seed" standard.seed s.seed
    progressEvery := gone.choose "progress_every" standard.progressEvery s.progressEvery }

variable [JsonNumber α] {s : TrainingSettings α} {gone : Places}

theorem ofJson?_prune (hc : s.Counted) (hn : Returns s.validationSplit) (hg : gone.Within (Json.Members members)) :
    ofJson? (prune gone s.toJson.reread) = some (s.fill gone) := by
  have hplain := hg.prune_inside
  rw [toJson, ofJson?]
  simp [hplain, Json.size?_ofNat hc.epochs, Json.size?_ofNat hc.batchSize, hn.reads, Json.size?_ofNat hc.seed,
    Json.size?_ofNat hc.progressEvery, fill]

end TrainingSettings

namespace OutputSettings

def members : List String := ["model_path", "plot_path", "history_path", "evaluate_on_test_set", "save_model",
  "save_plot", "save_history", "sample_predictions"]

def fill (gone : Places) (s : OutputSettings) : OutputSettings :=
  let standard : OutputSettings := {}
  { modelPath := gone.choose "model_path" standard.modelPath s.modelPath
    plotPath := gone.choose "plot_path" standard.plotPath s.plotPath
    historyPath := gone.choose "history_path" standard.historyPath s.historyPath
    evaluate := gone.choose "evaluate_on_test_set" standard.evaluate s.evaluate
    saveModel := gone.choose "save_model" standard.saveModel s.saveModel
    savePlot := gone.choose "save_plot" standard.savePlot s.savePlot
    saveHistory := gone.choose "save_history" standard.saveHistory s.saveHistory
    samples := gone.choose "sample_predictions" standard.samples s.samples }

variable {s : OutputSettings} {gone : Places}

theorem ofJson?_prune (hc : s.samples < Nat.pow 2 64) (hg : gone.Within (Json.Members members)) :
    ofJson? (prune gone s.toJson.reread) = some (s.fill gone) := by
  have hplain := hg.prune_inside
  rw [toJson, ofJson?]
  simp [hplain, Json.size?_ofNat hc, fill]

end OutputSettings

namespace RunConfig

variable {α : Type}

def members : List String := ["dataset", "model", "optimizer", "training", "output"]

structure Counted (c : RunConfig α) : Prop where
  data : c.data.Counted
  model : ∀ m ∈ c.model, m.Counted
  training : c.training.Counted
  samples : c.output.samples < Nat.pow 2 64

def numbers (c : RunConfig α) : List α :=
  (c.model.map ModelSpec.numbers).getD [] ++ c.optimizer.numbers ++ [c.training.validationSplit]

/-- The places of the members that have defaults. -/
def Defaulted (c : RunConfig α) : List Step → Prop
  | [.member name] => name ∈ members
  | .member "dataset" :: p => Json.Members DataSettings.members p
  | .member "model" :: p => ∃ m ∈ c.model, m.Defaulted p
  | .member "optimizer" :: p => Json.Members c.optimizer.defaulted p
  | .member "training" :: p => Json.Members TrainingSettings.members p
  | .member "output" :: p => Json.Members OutputSettings.members p
  | _ => False

variable [Scalar α]

/-- The settings with the defaults of what is left out. What lies in a part that is left out itself makes no
difference. -/
def fill (gone : Places) (c : RunConfig α) : RunConfig α where
  data := gone.choose "dataset" {} (c.data.fill (gone.inside (.member "dataset")))
  model := gone.choose "model" none (c.model.map (ModelSpec.fill (gone.inside (.member "model"))))
  optimizer := gone.choose "optimizer" .standard (c.optimizer.fill (gone.inside (.member "optimizer")))
  training := gone.choose "training" .standard (c.training.fill (gone.inside (.member "training")))
  output := gone.choose "output" {} (c.output.fill (gone.inside (.member "output")))

theorem fill_none (c : RunConfig α) : c.fill (fun _ => false) = c := by
  obtain ⟨data, model, optimizer, training, output⟩ := c
  have hmodel : model.map (ModelSpec.fill fun _ => false) = model := by
    rw [funext ModelSpec.fill_none, Option.map_id']
  exact congrArg₂ (fun m o => RunConfig.mk data m o training output) hmodel optimizer.fill_none

variable [JsonNumber α] {c : RunConfig α} {gone : Places}

theorem ofJson?_prune (hc : c.Counted) (hn : ∀ x ∈ c.numbers, Returns x) (hg : gone.Within c.Defaulted) :
    ofJson? (prune gone c.toJson.reread) = some (c.fill gone) := by
  have hdata : (gone.inside (.member "dataset")).Within (Json.Members DataSettings.members) :=
    fun s p hgone => hg (.member "dataset") (s :: p) hgone
  have hoptimizer : (gone.inside (.member "optimizer")).Within (Json.Members c.optimizer.defaulted) :=
    fun s p hgone => hg (.member "optimizer") (s :: p) hgone
  have htraining : (gone.inside (.member "training")).Within (Json.Members TrainingSettings.members) :=
    fun s p hgone => hg (.member "training") (s :: p) hgone
  have houtput : (gone.inside (.member "output")).Within (Json.Members OutputSettings.members) :=
    fun s p hgone => hg (.member "output") (s :: p) hgone
  have hmodel : Json.option? (ModelSpec.ofJson? 1)
      (prune (gone.inside (.member "model")) (Json.ofOption ModelSpec.toJson c.model).reread) =
      some (c.model.map (ModelSpec.fill (gone.inside (.member "model")))) := by
    cases hm : c.model with
    | none => rfl
    | some m =>
        have hwithin : (gone.inside (.member "model")).Within m.Defaulted := by
          intro s p hgone
          obtain ⟨m', hm', hp⟩ := hg (.member "model") (s :: p) hgone
          cases hm.symm.trans hm'
          exact hp
        have hread := ModelSpec.ofJson?_prune (hc.model m hm) (fun x hx => hn x (by simp [numbers, hm, hx]))
          hwithin
        rw [Json.ofOption, Json.option?, hread]
        · rfl
        · rw [ModelSpec.toJson, Json.reread_record, Json.prune_record]
          exact Json.record_ne_null _
  have hrule := OptimizerRule.ofJson?_prune (fun x hx => hn x (by simp [numbers, hx])) hoptimizer
  have hschedule := TrainingSettings.ofJson?_prune hc.training (hn _ (by simp [numbers])) htraining
  rw [toJson, ofJson?]
  simp [DataSettings.ofJson?_prune hc.data hdata, hmodel, hrule, hschedule,
    OutputSettings.ofJson?_prune hc.samples houtput, fill]

theorem load_eq_ok {d : Disk} {path : String} {v : Json} (h : d.readJson path = .ok v) (hv : ofJson? v = some c) :
    load d path = .ok c := by
  rw [load]
  cases hl : d.locate path with
  | file bytes => simp [h, hv]
  | directory | missing | free | notDirectory | nameTooLong | malformed => simp [Disk.readJson, hl] at h

end RunConfig

section Doubles

variable {ω : Type}

/-- Settings are loaded as they were saved, and from a file without some of their members as they were saved
but for the defaults of those. -/
theorem RunConfig.load_saved {c : RunConfig Float} (hc : c.Counted) (hf : ∀ x ∈ c.numbers, x.isFinite = true)
    {path : String} {s s' : Session ω} (hs : (Action.save path c.toJson).on s = (.ok (), s')) :
    load s'.disk path = .ok c ∧ ∃ v, s'.disk.readJson path = .ok v ∧
      ∀ gone : Places, gone.Within c.Defaulted → ∀ (d : Disk) (place : String),
        d.readJson place = .ok (prune gone v) → load d place = .ok (c.fill gone) := by
  obtain ⟨d, hwrite, rfl⟩ := Action.save_on_eq_ok.mp hs
  have hread : d.readJson path = .ok c.toJson.reread :=
    Disk.readJson_write hwrite (Json.ofBytes?_write true c.toJson)
  have hn : ∀ x ∈ c.numbers, Returns x := fun x hx => JsonNumber.returns_of_isFinite (hf x hx)
  have hnothing : ∀ D, Places.Within (fun _ => false) D := fun _ _ _ h => absurd h Bool.false_ne_true
  have hwhole := ofJson?_prune hc hn (hnothing _)
  rw [fill_none, Json.prune_eq_self (hnothing _)] at hwhole
  exact ⟨load_eq_ok hread hwhole, _, hread, fun gone hg d place hp => load_eq_ok hp (ofJson?_prune hc hn hg)⟩

theorem RunConfig.load_saved_shortened : ∃ (c : RunConfig Float) (s t : Session String),
    (Action.save "m" c.toJson).on ⟨.empty [], ""⟩ = (.ok (), s) ∧ load s.disk "m" = .ok c ∧
      c.optimizer = .sgd 0.01 0.9 ∧ c.output.samples = 2 ∧
      c.model = some ⟨⟨4, 4, 1⟩, [.conv 2 3 2 .same .relu, .flatten, .dropout 0.5, .dense 10 .sigmoid], .mse⟩ ∧
    (Action.save "m" (prune (.ofList [[.member "optimizer", .member "momentum"], [.member "output"],
        [.member "model", .member "layers", .item 0, .member "strides"], [.member "model", .member "loss"]])
      c.toJson)).on ⟨.empty [], ""⟩ = (.ok (), t) ∧
      load t.disk "m" = .ok { c with
        optimizer := .sgd 0.01 0
        output := {}
        model := some ⟨⟨4, 4, 1⟩, [.conv 2 3 1 .same .relu, .flatten, .dropout 0.5, .dense 10 .sigmoid],
          .categoricalCrossentropy⟩ } := by
  obtain ⟨c, hc⟩ : ∃ c : RunConfig Float, c = ⟨{ kind := .cifar10, limitTrain := some 3 },
      some ⟨⟨4, 4, 1⟩, [.conv 2 3 2 .same .relu, .flatten, .dropout 0.5, .dense 10 .sigmoid], .mse⟩,
      .sgd 0.01 0.9, ⟨3, 4, 0.25, 5, 6⟩, { samples := 2 }⟩ := ⟨_, rfl⟩
  have hwords : c.Counted := by
    subst hc
    refine ⟨⟨by simp, by simp⟩, ?_, ⟨by decide, by decide, by decide, by decide⟩, by decide⟩
    rintro m ⟨⟩
    exact ⟨⟨by decide, by decide, by decide⟩, by simp [LayerSpec.Counted]⟩
  have hfinite : ∀ x ∈ c.numbers, x.isFinite = true := by
    subst hc
    decide
  have hsaves : ∀ v : Json, ∃ d, (Action.save "m" v).on (⟨.empty [], ""⟩ : Session String) = (.ok (), ⟨d, ""⟩) ∧
      d.readJson "m" = .ok v.reread := by
    intro v
    have hwrite := Disk.write_plain (d := .empty []) (by decide : Disk.Plain "m") rfl v.pretty.toUTF8
    exact ⟨_, Action.save_on_eq_ok.mpr ⟨_, hwrite, rfl⟩, Disk.readJson_write hwrite (Json.ofBytes?_write true v)⟩
  obtain ⟨d, hs, hd⟩ := hsaves c.toJson
  obtain ⟨hload, v, hv, hshort⟩ := RunConfig.load_saved hwords hfinite hs
  obtain rfl := Except.ok.inj (hd.symm.trans hv)
  obtain ⟨d', hs', hd'⟩ := hsaves (prune (.ofList [[.member "optimizer", .member "momentum"], [.member "output"],
    [.member "model", .member "layers", .item 0, .member "strides"], [.member "model", .member "loss"]]) c.toJson)
  rw [Json.reread_prune] at hd'
  have hfilled := hshort _ (Places.within_ofList ?_) d' "m" hd'
  · subst hc
    exact ⟨_, _, _, hs, hload, rfl, rfl, rfl, hs', hfilled⟩
  · subst hc
    simp [RunConfig.Defaulted, RunConfig.members, Json.Members, ModelSpec.Defaulted, LayerSpec.defaulted,
      OptimizerRule.defaulted]

end Doubles

end Convnet
