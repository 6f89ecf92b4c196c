import Convnet.Plot.Figure
import Convnet.Plot.Png
import Convnet.Run.Config
import Convnet.Run.Report

namespace Convnet

/-- What a run draws on beside its settings. -/
structure Surroundings (α σ : Type) where
  source : Nat → σ
  draw : Initializer α σ
  elapsed : Nat → Nat

structure Prepared (α : Type) where
  network : Network α
  train : Dataset α
  validation : Dataset α
  test : Dataset α
  deriving Inhabited

/-- What a run has made. A path is kept only of what was saved. -/
structure RunReport (α : Type) where
  history : History α
  test : Option (Evaluation α)
  modelPath : Option String
  plotPath : Option String
  historyPath : Option String
  samples : List (SamplePrediction α)
  deriving Inhabited

namespace Experiment

variable {α : Type} [Scalar α] {σ : Type} [RandomSource σ] {ω : Type} [Writer ω]

def limit (n : Option Nat) (d : Dataset α) : Dataset α :=
  match n with
  | some n => d.take n
  | none => d

def metadata (c : RunConfig α) (scaling : Scaling α) : Metadata α where
  description := some ("CNN classifier trained on " ++ c.data.kind.title)
  inputType := some (.ofShape c.modelSpec.inputShape)
  outputLabels := some c.data.kind.classNames
  dataset := some c.data.kind
  scaling := some scaling

def build (world : Surroundings α σ) (c : RunConfig α) : Result (Network α) := do
  let (network, _) ← Network.build world.draw c.modelSpec (world.source c.training.seed)
  return network

def prepareData (world : Surroundings α σ) (c : RunConfig α) (train test : Dataset α) :
    Result (Prepared α) := do
  let (scaling, train, test) ←
    c.data.preprocessing.apply (limit c.data.limitTrain train) (limit c.data.limitTest test)
  let (train, validation) ← train.splitValidation c.training.validationSplit
  let network ← build world c
  return ⟨{ network with metadata := some (metadata c scaling) }, train, validation, test⟩

def prepare (world : Surroundings α σ) (c : RunConfig α) : Action ω (Prepared α) := do
  c.validate
  let (train, test) ← Action.reading fun d => c.data.kind.load d c.data.directory
  let p ← prepareData world c train test
  Report.sayLines (Report.summaryLines (← Summary.ofNetwork p.network))
  return p

def schedule (world : Surroundings α σ) (c : RunConfig α) : Schedule :=
  ⟨c.training.epochs, c.training.batchSize, c.training.progressEvery, world.elapsed⟩

/-- Trains the network and reports on every event. A failed write ends the training. -/
@[specialize] def train (world : Surroundings α σ) (c : RunConfig α) (p : Prepared α) :
    Action ω (Network α × History α) := do
  let session ← get
  let validation := if p.validation.isEmpty then none else some p.validation
  let run ← p.network.fit p.train validation (.ofRule c.optimizer) (schedule world c)
    (world.source c.training.seed) Report.receive ⟨session.out, false⟩
  set { session with out := run.receiver.out }
  if run.receiver.failed then throw .io
  return (run.network, run.history)

@[specialize] def evaluateTest (c : RunConfig α) (network : Network α) (test : Dataset α) :
    Action ω (Option (Evaluation α)) := do
  if !c.output.evaluate || test.isEmpty then return none
  Action.sayLine "\nEvaluating model on test set..."
  let e ← network.evaluate test
  Report.sayLines (Report.evaluationLines e)
  return some e

def keep (wanted : Bool) (path before : String) (save : Action ω Unit) :
    Action ω (Option String) := do
  if !wanted then return none
  save
  Action.sayLine (before ++ path)
  return some path

def savePlot (path : String) (history : History α) : Action ω Unit := do
  let figure ← Figure.ofHistory history
  figure.save path

@[specialize] def saySamples (network : Network α) (d : Dataset α) (count : Nat) :
    Action ω (List (SamplePrediction α)) := do
  let samples ← network.samplePredictions d count
  Report.sayLines (Report.samplesLines samples)
  return samples

variable [JsonNumber α]

@[specialize]
def finish (c : RunConfig α) (network : Network α) (history : History α) (test : Dataset α) :
    Action ω (RunReport α) := do
  let o := c.output
  let evaluation ← evaluateTest c network test
  let plot ← keep o.savePlot o.plotPath "\nTraining history plot saved as "
    (savePlot o.plotPath history)
  let kept ← keep o.saveHistory o.historyPath "Training history saved as "
    (Action.save o.historyPath history.toJson)
  let model ← keep o.saveModel o.modelPath "\nModel saved as "
    (Action.save o.modelPath network.toJson)
  let samples ← saySamples network test o.samples
  Action.sayLine "\n✓ Model training and evaluation complete!"
  return ⟨history, evaluation, model, plot, kept, samples⟩

@[specialize] def run (world : Surroundings α σ) (c : RunConfig α) : Action ω (RunReport α) := do
  let p ← prepare world c
  let (network, history) ← train world c p
  finish c network history p.test

def summarize (world : Surroundings α σ) (c : RunConfig α) : Action ω (Network α) := do
  c.validate
  let network ← build world c
  Report.sayLines (Report.summaryLines (← Summary.ofNetwork network))
  return network

/-- The first test images, as the network of a saved model is to see them. The model says which
dataset they are taken from, unless one is given, and how they are scaled. -/
def testImages (m : Metadata α) (directory : String) (kind : Option Benchmark) (count : Nat)
    (d : Disk) : Result (Dataset α) := do
  let kind := (kind <|> m.dataset).getD .mnist
  let test ← kind.loadSplit d directory .test
  let test := test.take count
  let scaling ← match m.scaling with
    | some s => pure s
    | none => Preprocessing.normalize.fit test
  let test := scaling.apply test
  return match m.outputLabels with
    | some labels => test.withClassNames labels
    | none => test

@[specialize] def predict (modelPath directory : String) (kind : Option Benchmark) (count : Nat) :
    Action ω (List (SamplePrediction α)) := do
  let network : Network α ← Action.reading fun d => do Network.ofDocument (← d.readJson modelPath)
  let test ← Action.reading (testImages (network.metadata.getD .empty) directory kind count)
  saySamples network test count

end Experiment
end Convnet
