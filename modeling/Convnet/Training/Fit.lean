import Convnet.Training.Batch
import Convnet.Training.History
import Convnet.Word

namespace Convnet

structure Schedule where
  epochs : Nat
  batchSize : Nat
  /-- A batch event is due after this many batches, and after the last batch; never if zero. -/
  progressEvery : Nat
  elapsed : Nat → Nat

def Schedule.batchCount (schedule : Schedule) (n : Nat) : Nat :=
  (n + schedule.batchSize - 1) / schedule.batchSize

def Schedule.counts (schedule : Schedule) (n : Nat) : Bool := isUnsigned (n + schedule.batchSize)

/-- Takes one event; `false` when it was not taken. -/
abbrev Receiver (α τ : Type) := TrainEvent α → τ → Bool × τ

structure Run (α σ τ : Type) where
  network : Network α
  optimizer : Optimizer α
  source : σ
  order : Array Nat
  history : History α
  receiver : τ
  stopped : Bool

def pieces {β : Type} (n : Nat) : List β → List (List β)
  | [] => []
  | x :: xs => (x :: xs.take (n - 1)) :: pieces n (xs.drop (n - 1))
termination_by xs => xs.length
decreasing_by
  simp only [List.length_drop, List.length_cons]
  omega

namespace Run

variable {α : Type} [Scalar α] {σ τ : Type} [RandomSource σ]

def start (network : Network α) (optimizer : Optimizer α) (source : σ) (train : Dataset α)
    (receiver : τ) : Run α σ τ :=
  ⟨network, optimizer, source, Array.range train.size, .empty, receiver, false⟩

def batchDue (every j total : Nat) : Bool := 0 < every && (j % every == 0 || j == total)

@[specialize] def tell (send : Receiver α τ) (r : Run α σ τ) (e : TrainEvent α) : Run α σ τ :=
  let (taken, t) := send e r.receiver
  { r with receiver := t, stopped := !taken }

@[specialize]
def batch (schedule : Schedule) (send : Receiver α τ) (train : Dataset α) (epoch total j : Nat)
    (indices : List Nat) (r : Run α σ τ) (tally : Tally α) : Result (Run α σ τ × Tally α) := do
  let (network, optimizer, source, one) ← r.network.trainBatch train indices r.optimizer r.source
  let tally := tally.add one
  let r := { r with network := network, optimizer := optimizer, source := source }
  if batchDue schedule.progressEvery j total then
    return (r.tell send (.batch epoch j total tally.meanLoss tally.accuracy), tally)
  return (r, tally)

@[specialize]
def batches (schedule : Schedule) (send : Receiver α τ) (train : Dataset α) (epoch total : Nat) :
    Nat → List (List Nat) → Run α σ τ → Tally α → Result (Run α σ τ × Tally α)
  | _, [], r, tally => .ok (r, tally)
  | j, indices :: rest, r, tally => do
    let (r, tally) ← r.batch schedule send train epoch total j indices tally
    if r.stopped then return (r, tally)
    batches schedule send train epoch total (j + 1) rest r tally

def shuffled (r : Run α σ τ) : Run α σ τ :=
  let (order, source) := RandomSource.shuffle r.order r.source
  { r with order := order, source := source }

def parts (schedule : Schedule) (r : Run α σ τ) : List (List Nat) :=
  pieces schedule.batchSize r.order.toList

/-- Ends an epoch: measures the validation set, adds to the history and sends the event of the epoch. -/
@[specialize]
def close (schedule : Schedule) (send : Receiver α τ) (validation : Option (Dataset α))
    (number : Nat) (r : Run α σ τ) (tally : Tally α) : Result (Run α σ τ) := do
  let measured ← match validation with
    | none => pure none
    | some v => do
      let e ← r.network.evaluate v
      pure (some e)
  let stats : EpochStats α := {
    epoch := number
    totalEpochs := schedule.epochs
    loss := tally.meanLoss
    accuracy := tally.accuracy
    valLoss := measured.map (·.loss)
    valAccuracy := measured.map (·.accuracy)
    elapsedMs := schedule.elapsed number }
  return { r with history := r.history.push stats }.tell send (.epoch stats)

@[specialize] def epoch (schedule : Schedule) (send : Receiver α τ) (train : Dataset α)
    (validation : Option (Dataset α)) (number : Nat) (r : Run α σ τ) : Result (Run α σ τ) := do
  let r := r.shuffled
  let total := schedule.batchCount train.size
  let (r, tally) ← batches schedule send train number total 1 (r.parts schedule) r .zero
  if r.stopped then return r
  r.close schedule send validation number tally

@[specialize] def epochs (schedule : Schedule) (send : Receiver α τ) (train : Dataset α)
    (validation : Option (Dataset α)) : Nat → Nat → Run α σ τ → Result (Run α σ τ)
  | 0, _, r => .ok r
  | n + 1, k, r => do
    let r ← r.epoch schedule send train validation k
    if r.stopped then return r
    epochs schedule send train validation n (k + 1) r

end Run

namespace Network

variable {α : Type} [Scalar α] {σ τ : Type} [RandomSource σ]

def checkValidation (net : Network α) : Option (Dataset α) → Result (Option (Dataset α))
  | none => .ok none
  | some v => do
    if v.isEmpty then return none
    net.checkCompatible v
    return some v

def checkFit (net : Network α) (train : Dataset α) (validation : Option (Dataset α))
    (schedule : Schedule) : Result (Option (Dataset α)) := do
  if train.isEmpty then throw (.dataset .noTrainingSamples)
  if schedule.batchSize = 0 then throw (.config .batchSize)
  net.checkCompatible train
  let validation ← net.checkValidation validation
  require (schedule.counts train.size)
  return validation

/-- Trains a network. The run that it answers holds the trained network, the optimizer, the history
and what became of the receiver. -/
@[specialize]
def fit (net : Network α) (train : Dataset α) (validation : Option (Dataset α)) (o : Optimizer α)
    (schedule : Schedule) (source : σ) (send : Receiver α τ) (receiver : τ) :
    Result (Run α σ τ) := do
  let validation ← net.checkFit train validation schedule
  Run.epochs schedule send train validation schedule.epochs 1
    (.start net o source train receiver)

end Network
end Convnet
