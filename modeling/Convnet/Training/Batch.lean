import Convnet.Training.Evaluation

namespace Convnet

structure Tally (α : Type) where
  lossSum : α
  correct : Nat
  samples : Nat
  deriving DecidableEq, Repr, Inhabited

namespace Tally

variable {α : Type} [Scalar α]

def zero : Tally α := ⟨0, 0, 0⟩

@[specialize] def add (a b : Tally α) : Tally α :=
  ⟨a.lossSum + b.lossSum, a.correct + b.correct, a.samples + b.samples⟩

@[specialize] def meanLoss (t : Tally α) : α := t.lossSum / (t.samples : α)

@[specialize] def accuracy (t : Tally α) : α := (t.correct : α) / (t.samples : α)

end Tally

namespace Network

variable {α : Type} [Scalar α] {σ : Type} [RandomSource σ]

def sourceAfter (s : σ) : Phase σ → σ
  | .train s => s
  | .infer => s

@[specialize]
def trainSample (net : Network α) (image : Tensor α) (label : Nat) (target : Array α) (s : σ) :
    Result (Network α × σ × Tally α) := do
  let (net, out, phase) ← net.forward image (.train s)
  let net' ← net.backward (net.loss.derivative out target)
  return (net', sourceAfter s phase,
    ⟨net.loss.value out target, if argmax out = label then 1 else 0, 1⟩)

@[specialize] def trainSamples (d : Dataset α) : List Nat → Network α → σ → Tally α →
    Result (Network α × σ × Tally α)
  | [], net, s, t => .ok (net, s, t)
  | i :: is, net, s, t => do
    let some label := d.labels[i]? | throw .misuse
    let target ← d.target label
    let some image := d.images[i]? | throw .misuse
    let (net, s, one) ← net.trainSample image label target s
    trainSamples d is net s (t.add one)

/-- Trains on the samples at some places of a dataset. A batch has at least one. -/
@[specialize]
def trainBatch (net : Network α) (d : Dataset α) (indices : List Nat) (o : Optimizer α) (s : σ) :
    Result (Network α × Optimizer α × σ × Tally α) := do
  require (!indices.isEmpty)
  let (net, s, tally) ← trainSamples d indices net s .zero
  let (net, o) ← net.applyGradients o (1 / (indices.length : α))
  return (net, o, s, tally)

end Network
end Convnet
