import Convnet.CommandLine.Reading
import Convnet.Run.Config

namespace Convnet

/-- The flags of every command that works from the settings of a run. -/
structure ConfigFlags where
  config : Option String := none
  dataset : Option Benchmark := none
  directory : Option String := none
  modelSpec : Option String := none
  deriving DecidableEq, Repr, Inhabited

structure TrainFlags (α : Type) where
  config : ConfigFlags := {}
  preprocessing : Option Preprocessing := none
  epochs : Option Nat := none
  batchSize : Option Nat := none
  validationSplit : Option α := none
  seed : Option Nat := none
  optimizer : Option String := none
  learningRate : Option α := none
  limitTrain : Option Nat := none
  limitTest : Option Nat := none
  modelPath : Option String := none
  plotPath : Option String := none
  historyPath : Option String := none
  samples : Option Nat := none
  noEval : Bool := false
  noSaveModel : Bool := false
  noPlot : Bool := false
  deriving DecidableEq, Repr, Inhabited

structure PredictFlags where
  model : Option String := none
  dataset : Option Benchmark := none
  directory : Option String := none
  samples : Option Nat := none
  deriving DecidableEq, Repr, Inhabited

inductive Command (α : Type)
  | train (flags : TrainFlags α)
  | summary (flags : ConfigFlags)
  | predict (flags : PredictFlags)
  deriving DecidableEq, Repr, Inhabited

namespace ConfigFlags

variable {α : Type}

def applyData (f : ConfigFlags) (s : DataSettings) : DataSettings :=
  { s with kind := f.dataset.getD s.kind, directory := f.directory.getD s.directory }

variable [Scalar α] [JsonNumber α]

def base (f : ConfigFlags) (d : Disk) : Result (RunConfig α) :=
  match f.config with
  | some path => RunConfig.load d path
  | none => .ok .standard

def resolve (f : ConfigFlags) (d : Disk) : Result (RunConfig α) := do
  let c ← f.base d
  let model ← match f.modelSpec with
    | some path => do
      let spec ← ModelSpec.load d path
      pure (some spec)
    | none => pure c.model
  return { c with data := f.applyData c.data, model := model }

end ConfigFlags

namespace TrainFlags

variable {α : Type}

def applyData (f : TrainFlags α) (s : DataSettings) : DataSettings :=
  { s with
    preprocessing := f.preprocessing.getD s.preprocessing
    limitTrain := f.limitTrain <|> s.limitTrain
    limitTest := f.limitTest <|> s.limitTest }

def applyTraining (f : TrainFlags α) (s : TrainingSettings α) : TrainingSettings α :=
  { s with
    epochs := f.epochs.getD s.epochs
    batchSize := f.batchSize.getD s.batchSize
    validationSplit := f.validationSplit.getD s.validationSplit
    seed := f.seed.getD s.seed }

def applyOutput (f : TrainFlags α) (s : OutputSettings) : OutputSettings :=
  { s with
    modelPath := f.modelPath.getD s.modelPath
    plotPath := f.plotPath.getD s.plotPath
    historyPath := f.historyPath.getD s.historyPath
    samples := f.samples.getD s.samples
    evaluate := s.evaluate && !f.noEval
    saveModel := s.saveModel && !f.noSaveModel
    savePlot := s.savePlot && !f.noPlot }

variable [Scalar α]

/-- A named optimizer replaces the whole rule, and takes over the learning rate unless one is given. A
learning rate alone leaves the rest of the rule. -/
def applyOptimizer (f : TrainFlags α) (rule : OptimizerRule α) : Result (OptimizerRule α) :=
  let rate := f.learningRate.getD rule.learningRate
  match f.optimizer with
  | none => .ok (rule.withLearningRate rate)
  | some name =>
    match OptimizerRule.named? name rate with
    | some rule => .ok rule
    | none => .error (.config (.optimizer name))

def apply (f : TrainFlags α) (c : RunConfig α) : Result (RunConfig α) := do
  let optimizer ← f.applyOptimizer c.optimizer
  return { c with
    data := f.applyData c.data
    optimizer := optimizer
    training := f.applyTraining c.training
    output := f.applyOutput c.output }

variable [JsonNumber α]

def resolve (f : TrainFlags α) (d : Disk) : Result (RunConfig α) := do
  f.apply (← f.config.resolve d)

end TrainFlags

namespace PredictFlags

def modelPath (f : PredictFlags) : String := f.model.getD "my_model.json"

def dataDirectory (f : PredictFlags) : String := f.directory.getD "data"

def count (f : PredictFlags) : Nat := f.samples.getD 5

end PredictFlags
end Convnet
