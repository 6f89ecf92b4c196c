import Convnet.Model.Summary
import Convnet.Session
import Convnet.Training.Fit

namespace Convnet.Report

def rule : String := Summary.rule '=' 50

variable {α : Type} [Scalar α]

def value (x : α) : String := Scalar.fixed 4 x

def measures (mark : String) (loss accuracy : α) : String :=
  " - " ++ mark ++ "loss: " ++ value loss ++ " - " ++ mark ++ "accuracy: " ++ value accuracy

def seconds (milliseconds : Nat) : String :=
  (Scalar.fixed 1 ((milliseconds : α) / ((1000 : Nat) : α))) ++ "s"

def epochLine (s : EpochStats α) : String :=
  s!"Epoch {s.epoch}/{s.totalEpochs} - " ++ seconds (α := α) s.elapsedMs ++
    measures "" s.loss s.accuracy ++
    match s.valLoss, s.valAccuracy with
    | some l, some a => measures "val_" l a
    | _, _ => ""

/-- What is printed for an event, over what was printed for the one before. -/
def eventText : TrainEvent α → String
  | .batch epoch batch total loss accuracy =>
    s!"\rEpoch {epoch} - {batch}/{total}" ++ measures "" loss accuracy
  | .epoch stats => "\r" ++ epochLine stats ++ "\n"

def sampleLines (s : SamplePrediction α) : List String :=
  [s!"Sample {s.index + 1}:", s!"  Predicted: {s.predictedLabel}, Actual: {s.actualLabel}",
    s!"  Confidence: {value s.confidence}"]

def samplesLines (ss : List (SamplePrediction α)) : List String :=
  if ss.isEmpty then [] else ["\nSample Predictions:", rule] ++ ss.flatMap sampleLines ++ [rule]

def summaryLines (s : Summary) : List String :=
  ["\n" ++ rule, "MODEL SUMMARY", rule, s.text, rule ++ "\n"]

def evaluationLines (e : Evaluation α) : List String :=
  [s!"\nTest Accuracy: {value e.accuracy} ({Scalar.fixed 2 (e.accuracy * ((100 : Nat) : α))}%)",
    s!"Test Loss: {value e.loss}"]

variable {ω : Type} [Writer ω]

def sayLines (lines : List String) : Action ω Unit := lines.forM Action.sayLine

structure Reporter (ω : Type) where
  out : ω
  failed : Bool

def receive : Receiver α (Reporter ω) := fun e r =>
  match Writer.write r.out (eventText e) with
  | some out => (true, { r with out := out })
  | none => (false, { r with failed := true })

end Convnet.Report
