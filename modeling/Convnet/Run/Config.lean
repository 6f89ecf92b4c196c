import Convnet.Disk
import Convnet.Model.Metadata
import Convnet.Model.Spec
import Convnet.Optimizer

namespace Convnet

structure DataSettings where
  kind : Benchmark := .mnist
  directory : String := "data"
  preprocessing : Preprocessing := .normalize
  limitTrain : Option Nat := none
  limitTest : Option Nat := none
  deriving DecidableEq, Repr, Inhabited

structure TrainingSettings (α : Type) where
  epochs : Nat
  batchSize : Nat
  validationSplit : α
  seed : Nat
  progressEvery : Nat
  deriving DecidableEq, Repr, Inhabited

structure OutputSettings where
  modelPath : String := "my_model.json"
  plotPath : String := "training_history.png"
  historyPath : String := "training_history.json"
  evaluate : Bool := true
  saveModel : Bool := true
  savePlot : Bool := true
  saveHistory : Bool := true
  samples : Nat := 5
  deriving DecidableEq, Repr, Inhabited

structure RunConfig (α : Type) where
  data : DataSettings
  model : Option (ModelSpec α)
  optimizer : OptimizerRule α
  training : TrainingSettings α
  output : OutputSettings
  deriving DecidableEq, Repr, Inhabited

namespace TrainingSettings

def standard {α : Type} [Scalar α] : TrainingSettings α := ⟨10, 32, 0.2, 42, 100⟩

end TrainingSettings

namespace RunConfig

variable {α : Type} [Scalar α]

def standard : RunConfig α := ⟨{}, none, .standard, .standard, {}⟩

/-- The model that is trained. -/
def modelSpec (c : RunConfig α) : ModelSpec α :=
  c.model.getD (.smallCnn c.data.kind.inputShape c.data.kind.numClasses)

def checkTraining (c : RunConfig α) : Result Unit := do
  if c.training.epochs = 0 then throw (.config .epochs)
  if c.training.batchSize = 0 then throw (.config .batchSize)
  if !Scalar.inUnit c.training.validationSplit then
    throw (.config (.validationSplit (Scalar.text c.training.validationSplit)))
  let rate := c.optimizer.learningRate
  if !(0 < rate && Scalar.isFinite rate) then
    throw (.config (.learningRate (Scalar.text rate)))

def checkModel (c : RunConfig α) : Result Unit := do
  let spec := c.modelSpec
  let kind := c.data.kind
  if spec.inputShape ≠ kind.inputShape then
    throw (.config (.inputShape spec.inputShape kind.title kind.inputShape))
  let outputs ← spec.outputSize
  if outputs ≠ kind.numClasses then
    throw (.config (.outputs outputs kind.title kind.numClasses))

/-- Checks all settings before anything is read or written. -/
def validate (c : RunConfig α) : Result Unit := do
  c.checkTraining
  c.checkModel

end RunConfig

namespace DataSettings

def toJson (s : DataSettings) : Json :=
  .record [("kind", s.kind.toJson), ("data_dir", .ofString s.directory),
    ("preprocessing", s.preprocessing.toJson), ("limit_train", .ofOption .ofNat s.limitTrain),
    ("limit_test", .ofOption .ofNat s.limitTest)]

def ofJson? (v : Json) : Option DataSettings := do
  let [k, d, p, n, m] ← v.slots ["kind", "data_dir", "preprocessing", "limit_train", "limit_test"]
    | none
  let standard : DataSettings := {}
  return ⟨← k.withDefault Benchmark.ofJson? standard.kind,
    ← d.withDefault Json.string? standard.directory,
    ← p.withDefault Preprocessing.ofJson? standard.preprocessing,
    ← n.optionalAnywhere Json.size?, ← m.optionalAnywhere Json.size?⟩

end DataSettings

namespace OutputSettings

def toJson (s : OutputSettings) : Json :=
  .record [("model_path", .ofString s.modelPath), ("plot_path", .ofString s.plotPath),
    ("history_path", .ofString s.historyPath), ("evaluate_on_test_set", .bool s.evaluate),
    ("save_model", .bool s.saveModel), ("save_plot", .bool s.savePlot),
    ("save_history", .bool s.saveHistory), ("sample_predictions", .ofNat s.samples)]

def ofJson? (v : Json) : Option OutputSettings := do
  let [mp, pp, hp, e, m, p, h, n] ← v.slots ["model_path", "plot_path", "history_path",
    "evaluate_on_test_set", "save_model", "save_plot", "save_history", "sample_predictions"] | none
  let standard : OutputSettings := {}
  return ⟨← mp.withDefault Json.string? standard.modelPath,
    ← pp.withDefault Json.string? standard.plotPath,
    ← hp.withDefault Json.string? standard.historyPath,
    ← e.withDefault Json.bool? standard.evaluate, ← m.withDefault Json.bool? standard.saveModel,
    ← p.withDefault Json.bool? standard.savePlot, ← h.withDefault Json.bool? standard.saveHistory,
    ← n.withDefault Json.size? standard.samples⟩

end OutputSettings

namespace TrainingSettings

variable {α : Type} [JsonNumber α]

def toJson (s : TrainingSettings α) : Json :=
  .record [("epochs", .ofNat s.epochs), ("batch_size", .ofNat s.batchSize),
    ("validation_split", .ofNumber s.validationSplit), ("seed", .ofNat s.seed),
    ("progress_every", .ofNat s.progressEvery)]

def ofJson? [Scalar α] (v : Json) : Option (TrainingSettings α) := do
  let [e, b, f, s, p] ← v.slots ["epochs", "batch_size", "validation_split", "seed",
    "progress_every"] | none
  let standard : TrainingSettings α := standard
  return ⟨← e.withDefault Json.size? standard.epochs,
    ← b.withDefault Json.size? standard.batchSize,
    ← f.withDefault Json.number? standard.validationSplit,
    ← s.withDefault Json.size? standard.seed,
    ← p.withDefault Json.size? standard.progressEvery⟩

end TrainingSettings

namespace RunConfig

variable {α : Type} [JsonNumber α]

def toJson (c : RunConfig α) : Json :=
  .record [("dataset", c.data.toJson), ("model", .ofOption ModelSpec.toJson c.model),
    ("optimizer", c.optimizer.toJson), ("training", c.training.toJson),
    ("output", c.output.toJson)]

variable [Scalar α]

def ofJson? (v : Json) : Option (RunConfig α) := do
  let [d, m, o, t, r] ← v.slots ["dataset", "model", "optimizer", "training", "output"] | none
  return ⟨← d.withDefault DataSettings.ofJson? {}, ← m.optionalAnywhere (ModelSpec.ofJson? 1),
    ← o.withDefault (OptimizerRule.ofJson? 1) .standard,
    ← t.withDefault TrainingSettings.ofJson? .standard,
    ← r.withDefault OutputSettings.ofJson? {}⟩

/-- The settings in a file. A file that cannot be opened is told with its path. -/
def load (d : Disk) (path : String) : Result (RunConfig α) := do
  let unreadable (reason : String) : Error := .config (.unreadable path reason)
  match d.locate path with
  | .missing | .free _ => throw (unreadable "No such file or directory (os error 2)")
  | .notDirectory => throw (unreadable "Not a directory (os error 20)")
  | .nameTooLong => throw (unreadable "File name too long (os error 36)")
  | .malformed => throw (unreadable "file name contained an unexpected NUL byte")
  | .file _ | .directory =>
    match ofJson? (← d.readJson path) with
    | some c => return c
    | none => throw .json

end RunConfig

namespace ModelSpec

variable {α : Type} [JsonNumber α]

/-- The description in a file. -/
def load (d : Disk) (path : String) : Result (ModelSpec α) := do
  match ofJson? 0 (← d.readJson path) with
  | some spec => return spec
  | none => throw .json

end ModelSpec
end Convnet
