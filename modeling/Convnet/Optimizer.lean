import Convnet.Error
import Convnet.Json.Number

namespace Convnet

inductive OptimizerRule (α : Type)
  | adam (learningRate beta1 beta2 epsilon : α)
  | sgd (learningRate momentum : α)
  | rmsprop (learningRate : α)
  deriving DecidableEq, Repr, Inhabited

structure Moments (α : Type) where
  first : α
  second : α
  deriving DecidableEq, Repr, Inhabited

namespace OptimizerRule

variable {α : Type}

def name : OptimizerRule α → String
  | adam .. => "adam"
  | sgd .. => "sgd"
  | rmsprop .. => "rmsprop"

def learningRate : OptimizerRule α → α
  | adam r .. | sgd r _ | rmsprop r => r

def withLearningRate (rate : α) : OptimizerRule α → OptimizerRule α
  | adam _ b1 b2 e => adam rate b1 b2 e
  | sgd _ m => sgd rate m
  | rmsprop _ => rmsprop rate

/-- Whether the rule refuses fewer gradients than weights; the others leave the rest alone. -/
def needsAllGradients : OptimizerRule α → Bool
  | adam .. => true
  | _ => false

variable [Scalar α]

def defaultBeta1 : α := 0.9

def defaultBeta2 : α := 0.999

def defaultEpsilon : α := 1e-7

def decay : α := 0.9

def adamOf (rate : α) : OptimizerRule α := adam rate defaultBeta1 defaultBeta2 defaultEpsilon

def standard : OptimizerRule α := adamOf 0.001

def named? (name : String) (rate : α) : Option (OptimizerRule α) :=
  match String.ofList (name.toList.map Char.toLower) with
  | "adam" => some (standard.withLearningRate rate)
  | "sgd" => some (sgd rate 0)
  | "rmsprop" => some (rmsprop rate)
  | _ => none

def keepsMoments : OptimizerRule α → Bool
  | sgd _ momentum => !(momentum == 0)
  | _ => true

/-- The exponent of the bias corrections: the step count, at least one, as a signed 32-bit number. -/
def stepExponent (steps : Nat) : Int := Int.bmod (max steps 1) (Nat.pow 2 32)

/-- What the running means of a step are divided by: one less the weight that the zeros they started
from still have. -/
@[specialize] def corrections (steps : Nat) : OptimizerRule α → α × α
  | adam _ b1 b2 _ =>
    (1 - Scalar.power b1 (stepExponent steps), 1 - Scalar.power b2 (stepExponent steps))
  | _ => (1, 1)

@[specialize] def move (rule : OptimizerRule α) (corrections : α × α) (w g : α) (s : Moments α) :
    α × Moments α :=
  match rule with
  | adam rate b1 b2 e =>
    let m := b1 * s.first + (1 - b1) * g
    let v := b2 * s.second + (1 - b2) * g * g
    let mean := m / corrections.1
    let spread := v / corrections.2
    (w - rate * mean / (Scalar.sqrt spread + e), ⟨m, v⟩)
  | sgd rate momentum =>
    if momentum == 0 then (w - rate * g, s)
    else
      let v := momentum * s.first - rate * g
      (w + v, ⟨v, s.second⟩)
  | rmsprop rate =>
    let v := decay * s.second + (1 - decay) * g * g
    (w - rate * g / (Scalar.sqrt v + defaultEpsilon), ⟨s.first, v⟩)

end OptimizerRule

/-- A rule at work: the number of steps begun, and the moments of each parameter buffer. -/
structure Optimizer (α : Type) where
  rule : OptimizerRule α
  steps : Nat
  slots : Array (Array (Moments α))
  deriving DecidableEq, Inhabited

namespace Optimizer

variable {α : Type}

def ofRule (rule : OptimizerRule α) : Optimizer α := ⟨rule, 0, #[]⟩

def beginStep (o : Optimizer α) : Optimizer α := { o with steps := o.steps + 1 }

def rowBytes : Nat := 24

def hasPlace (rows : Array (Array (Moments α))) (i : Nat) : Bool :=
  i < rows.size || rowBytes * (i + 1) < Nat.pow 2 63

def putRow (rows : Array (Array (Moments α))) (i : Nat) (row : Array (Moments α)) :
    Array (Array (Moments α)) :=
  if i < rows.size then rows.setIfInBounds i row
  else (rows ++ Array.replicate (i - rows.size) #[]).push row

variable [Scalar α]

/-- The moments of a buffer of `n` weights: those kept for it, or zeros if there are none of that
number. -/
@[specialize] def momentsOf (o : Optimizer α) (slot n : Nat) : Array (Moments α) :=
  let kept := o.slots.getD slot #[]
  if kept.size = n then kept else Array.replicate n ⟨0, 0⟩

@[specialize] def moveAll (rule : OptimizerRule α) (corrections : α × α) (values grads : Array α)
    (moments : Array (Moments α)) : Array α × Array (Moments α) :=
  values.size.fold (fun i _ (ws, ss) =>
    let w := Buffer.read values i
    let s := moments.getD i ⟨0, 0⟩
    if h : i < grads.size then
      let (w, s) := rule.move corrections w grads[i] s
      (ws.push w, ss.push s)
    else (ws.push w, ss.push s)) (.emptyWithCapacity values.size, .emptyWithCapacity values.size)

@[specialize] def update (o : Optimizer α) (slot : Nat) (values grads : Array α) :
    Array α × Optimizer α :=
  let (ws, ss) := moveAll o.rule (o.rule.corrections o.steps) values grads
    (o.momentsOf slot values.size)
  (ws, { o with slots := if o.rule.keepsMoments then putRow o.slots slot ss else o.slots })

@[specialize] def update? (o : Optimizer α) (slot : Nat) (values grads : Array α) :
    Result (Array α × Optimizer α) := do
  require (!o.rule.keepsMoments || hasPlace o.slots slot)
  require (!o.rule.needsAllGradients || values.size ≤ grads.size)
  return o.update slot values grads

end Optimizer

namespace OptimizerRule

variable {α : Type} [JsonNumber α]

def toJson : OptimizerRule α → Json
  | adam r b1 b2 e => .record [("name", .ofString "adam"), ("learning_rate", .ofNumber r),
      ("beta1", .ofNumber b1), ("beta2", .ofNumber b2), ("epsilon", .ofNumber e)]
  | sgd r m => .record [("name", .ofString "sgd"), ("learning_rate", .ofNumber r),
      ("momentum", .ofNumber m)]
  | rmsprop r => .record [("name", .ofString "rmsprop"), ("learning_rate", .ofNumber r)]

def ofJson? [Scalar α] (level : Nat) (v : Json) : Option (OptimizerRule α) := do
  match ← v.tagged level "name" with
  | ("adam", v) =>
    let [r, b1, b2, e] ← v.slots ["learning_rate", "beta1", "beta2", "epsilon"] | none
    return adam (← r.required Json.number?) (← b1.withDefault Json.number? defaultBeta1)
      (← b2.withDefault Json.number? defaultBeta2) (← e.withDefault Json.number? defaultEpsilon)
  | ("sgd", v) =>
    let [r, m] ← v.slots ["learning_rate", "momentum"] | none
    return sgd (← r.required Json.number?) (← m.withDefault Json.number? 0)
  | ("rmsprop", v) =>
    let [r] ← v.slots ["learning_rate"] | none
    return rmsprop (← r.required Json.number?)
  | _ => none

end OptimizerRule
end Convnet
