import Convnet.Json.Decode
import Convnet.Scalar.Float

namespace Convnet

inductive Loss
  | categoricalCrossentropy
  | mse
  deriving DecidableEq, Repr, Inhabited

namespace Loss

def name : Loss → String
  | categoricalCrossentropy => "categorical_crossentropy"
  | mse => "mse"

def toJson (l : Loss) : Json := .ofString l.name

def ofJson? (v : Json) : Option Loss :=
  v.name? ([categoricalCrossentropy, mse].map fun l => (l.name, l))

variable {α : Type} [Scalar α]

@[specialize] def margin : α := 1e-7

@[specialize] def value (l : Loss) (predicted expected : Array α) : α :=
  match l with
  | categoricalCrossentropy =>
    Buffer.sum (Array.zipWith
      (fun p e => -e * Scalar.ln (Scalar.clamp margin (1 - margin) p)) predicted expected)
  | mse =>
    Buffer.sum (Array.zipWith (fun p e => Scalar.square (p - e)) predicted expected) /
      (predicted.size : α)

/-- The gradient with respect to the output. For cross-entropy it is the gradient with respect to the
logits of the softmax in front of it. -/
@[specialize] def derivative (l : Loss) (predicted expected : Array α) : Array α :=
  match l with
  | categoricalCrossentropy => Array.zipWith (fun p e => p - e) predicted expected
  | mse => Array.zipWith (fun p e => ((2 : Nat) : α) * (p - e) / (predicted.size : α)) predicted expected

end Loss
end Convnet
