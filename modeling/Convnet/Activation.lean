import Convnet.Json.Decode
import Convnet.Scalar.Float

namespace Convnet

inductive Activation
  | relu
  | sigmoid
  | tanh
  | softmax
  | linear
  deriving DecidableEq, Repr, Inhabited

namespace Activation

def name : Activation → String
  | relu => "relu"
  | sigmoid => "sigmoid"
  | tanh => "tanh"
  | softmax => "softmax"
  | linear => "linear"

def table : List (String × Activation) :=
  [relu, sigmoid, tanh, softmax, linear].map fun a => (a.name, a)

def toJson (a : Activation) : Json := .ofString a.name

def ofJson? (v : Json) : Option Activation := v.name? table

def ofKept? (v : Json) : Option Activation := v.keptName? table

variable {α : Type} [Scalar α]

@[specialize] def logistic (x : α) : α := 1 / (1 + Scalar.eulerPow (-x))

@[specialize] def function? (a : Activation) (x : α) : Option α :=
  match a with
  | relu => some (if 0 < x then x else 0)
  | sigmoid => some (logistic x)
  | tanh => some (Scalar.tanh x)
  | linear => some x
  | softmax => none

/-- The derivative at the number `x`. The derivative of `softmax` is taken together with the loss
behind it, so that its own share is one. -/
@[specialize] def derivative (a : Activation) (x : α) : α :=
  match a with
  | relu => if 0 < x then 1 else 0
  | sigmoid =>
    let y := logistic x
    y * (1 - y)
  | tanh =>
    let y := Scalar.tanh x
    1 - y * y
  | linear | softmax => 1

@[specialize] def largest (z : Array α) : α :=
  match z.foldl (fun kept x => Scalar.prefer kept x ()) none with
  | none => Scalar.bottom
  | some (x, _) => x

/-- Exponentials divided by their sum, with the largest entry moved to zero first. -/
@[specialize] def softmaxVector (z : Array α) : Array α :=
  let top := largest z
  let powers := z.map fun x => Scalar.exp (x - top)
  let total := Buffer.sum powers
  powers.map (· / total)

@[specialize] def apply (a : Activation) (z : Array α) : Array α :=
  match a with
  | softmax => softmaxVector z
  | a => z.map fun x => (a.function? x).getD x

@[specialize] def backprop (a : Activation) (gradient z : Array α) : Array α :=
  match a with
  | linear | softmax => gradient
  | a => Buffer.zipKeep (fun g x => g * a.derivative x) gradient z

end Activation
end Convnet
