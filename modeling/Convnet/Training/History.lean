import Convnet.Json.Number

namespace Convnet

structure EpochStats (α : Type) where
  epoch : Nat
  totalEpochs : Nat
  loss : α
  accuracy : α
  valLoss : Option α
  valAccuracy : Option α
  elapsedMs : Nat
  deriving DecidableEq, Repr, Inhabited

inductive TrainEvent (α : Type)
  | batch (epoch batch totalBatches : Nat) (loss accuracy : α)
  | epoch (stats : EpochStats α)
  deriving DecidableEq, Repr, Inhabited

/-- One entry for each epoch in every curve; the validation curves are empty without a validation
set. -/
structure History (α : Type) where
  loss : Array α
  accuracy : Array α
  valLoss : Array α
  valAccuracy : Array α
  deriving DecidableEq, Repr, Inhabited

namespace History

variable {α : Type}

def empty : History α := ⟨#[], #[], #[], #[]⟩

def pushOption (xs : Array α) : Option α → Array α
  | none => xs
  | some x => xs.push x

def push (h : History α) (s : EpochStats α) : History α :=
  ⟨h.loss.push s.loss, h.accuracy.push s.accuracy, pushOption h.valLoss s.valLoss,
    pushOption h.valAccuracy s.valAccuracy⟩

def ofStats (stats : List (EpochStats α)) : History α := stats.foldl push empty

def size (h : History α) : Nat := h.loss.size

def isEmpty (h : History α) : Bool := h.loss.isEmpty

def hasValidation (h : History α) : Bool := !h.valLoss.isEmpty

variable [JsonNumber α]

def toJson (h : History α) : Json :=
  .record [("loss", .ofNumbers h.loss), ("accuracy", .ofNumbers h.accuracy),
    ("val_loss", .ofNumbers h.valLoss), ("val_accuracy", .ofNumbers h.valAccuracy)]

def ofJson? (v : Json) : Option (History α) := do
  let curve := Json.numbers?
  let [l, a, vl, va] ← v.slots ["loss", "accuracy", "val_loss", "val_accuracy"] | none
  return ⟨← l.required curve, ← a.required curve, ← vl.withDefault curve #[],
    ← va.withDefault curve #[]⟩

end History

namespace EpochStats

variable {α : Type} [JsonNumber α]

def members (s : EpochStats α) : List (String × Json) :=
  [("epoch", .ofNat s.epoch), ("total_epochs", .ofNat s.totalEpochs), ("loss", .ofNumber s.loss),
    ("accuracy", .ofNumber s.accuracy), ("val_loss", .ofOption .ofNumber s.valLoss),
    ("val_accuracy", .ofOption .ofNumber s.valAccuracy), ("elapsed_ms", .ofNat s.elapsedMs)]

def toJson (s : EpochStats α) : Json := .record s.members

def ofJson? (v : Json) : Option (EpochStats α) := do
  let [e, t, l, a, vl, va, ms] ← v.slots ["epoch", "total_epochs", "loss", "accuracy", "val_loss",
    "val_accuracy", "elapsed_ms"] | none
  return ⟨← e.required Json.size?, ← t.required Json.size?, ← l.required Json.number?,
    ← a.required Json.number?, ← vl.optional Json.number?, ← va.optional Json.number?,
    ← ms.required Json.size?⟩

end EpochStats

namespace TrainEvent

variable {α : Type} [JsonNumber α]

def toJson : TrainEvent α → Json
  | batch e b t l a => .record [("event", .ofString "batch"), ("epoch", .ofNat e), ("batch", .ofNat b),
      ("total_batches", .ofNat t), ("loss", .ofNumber l), ("accuracy", .ofNumber a)]
  | epoch s => .record (("event", .ofString "epoch") :: s.members)

def ofJson? (level : Nat) (v : Json) : Option (TrainEvent α) := do
  match ← v.tagged level "event" with
  | ("batch", v) =>
    let [e, b, t, l, a] ← v.slots ["epoch", "batch", "total_batches", "loss", "accuracy"] | none
    return batch (← e.required Json.size?) (← b.required Json.size?) (← t.required Json.size?)
      (← l.required Json.number?) (← a.required Json.number?)
  | ("epoch", v) => return epoch (← EpochStats.ofJson? v)
  | _ => none

end TrainEvent
end Convnet
