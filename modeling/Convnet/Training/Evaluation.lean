import Convnet.Model.Network

namespace Convnet

structure Evaluation (α : Type) where
  loss : α
  accuracy : α
  deriving DecidableEq, Repr, Inhabited

structure SamplePrediction (α : Type) where
  index : Nat
  predicted : Nat
  actual : Nat
  confidence : α
  predictedLabel : String
  actualLabel : String
  deriving DecidableEq, Repr, Inhabited

@[specialize] def argmax {α : Type} [Scalar α] (v : Array α) : Nat :=
  match v.zipIdx.foldl (fun kept (x, i) => Scalar.prefer kept x i) none with
  | none => 0
  | some (_, i) => i

namespace Network

variable {α : Type}

def checkCompatible (net : Network α) (d : Dataset α) : Result Unit := do
  net.checkInput d.shape
  let n ← net.outputSize
  if n ≠ d.numClasses then
    throw (.shapeMismatch (.outputs d.numClasses) (.outputs n))

variable [Scalar α]

def samplesOf (d : Dataset α) : List (Tensor α × Nat) := (d.images.zip d.labels).toList

@[specialize] def measureSample (net : Network α) (d : Dataset α) (sums : α × Nat)
    (sample : Tensor α × Nat) : Result (α × Nat) := do
  let out ← net.infer sample.1
  let target ← d.target sample.2
  return (sums.1 + net.loss.value out target, if argmax out = sample.2 then sums.2 + 1 else sums.2)

@[specialize] def evaluate (net : Network α) (d : Dataset α) : Result (Evaluation α) := do
  net.checkCompatible d
  if d.isEmpty then throw (.dataset .nothingToEvaluate)
  let (loss, correct) ← (samplesOf d).foldlM (net.measureSample d) ((0 : α), 0)
  return ⟨loss / (d.size : α), (correct : α) / (d.size : α)⟩

@[specialize]
def predictMany (net : Network α) (images : List (Tensor α)) : Result (List (Array α)) :=
  images.mapM net.predict

def countAt (table : Array (Array Nat)) (i j : Nat) : Result (Array (Array Nat)) := do
  require (j < (table.getD i #[]).size)
  return table.modify i (·.modify j (· + 1))

/-- Whether there can be a square table with `n` rows: the places of all rows have to fit into one
buffer, and take up more of it than the numbers of a row. -/
def fitsTable (n : Nat) : Bool := Optimizer.rowBytes * n < Nat.pow 2 63

/-- How often each actual class, by row, was taken for each class, by column. -/
@[specialize]
def confusionMatrix (net : Network α) (d : Dataset α) : Result (Array (Array Nat)) := do
  net.checkCompatible d
  require (fitsTable d.numClasses)
  (samplesOf d).foldlM (fun table (image, label) => do
    let out ← net.infer image
    countAt table label (argmax out))
    (Array.replicate d.numClasses (Array.replicate d.numClasses 0))

@[specialize] def samplePredictions (net : Network α) (d : Dataset α) (count : Nat) :
    Result (List (SamplePrediction α)) :=
  ((samplesOf (d.take count)).zipIdx).mapM fun ((image, actual), index) => do
    let out ← net.predict image
    let predicted := argmax out
    match out[predicted]? with
    | none => throw .misuse
    | some confidence =>
      return ⟨index, predicted, actual, confidence, d.className predicted, d.className actual⟩

end Network

namespace Evaluation

variable {α : Type} [JsonNumber α]

def toJson (e : Evaluation α) : Json :=
  .record [("loss", .ofNumber e.loss), ("accuracy", .ofNumber e.accuracy)]

def ofJson? (v : Json) : Option (Evaluation α) := do
  let [l, a] ← v.slots ["loss", "accuracy"] | none
  return ⟨← l.required Json.number?, ← a.required Json.number?⟩

end Evaluation
end Convnet
