import Convnet.Model.Network

namespace Convnet

structure SummaryRow where
  name : String
  kind : String
  outputShape : Shape
  params : Nat
  deriving DecidableEq, Repr, Inhabited

structure Summary where
  rows : List SummaryRow
  totalParams : Nat
  deriving DecidableEq, Repr, Inhabited

namespace Summary

def snakeLetters : List Char → List Char
  | [] => []
  | c :: cs => c.toLower :: cs.flatMap fun c => if c.isUpper then ['_', c.toLower] else [c]

/-- A dimension stays one word: `2d` in the place of every `2_d`. -/
def joinDimension : List Char → List Char
  | '2' :: '_' :: 'd' :: cs => '2' :: 'd' :: joinDimension cs
  | c :: cs => c :: joinDimension cs
  | [] => []

def snakeCase (kind : String) : String := String.ofList (joinDimension (snakeLetters kind.toList))

def rowName (kind : String) (n : Nat) : String :=
  if n = 0 then snakeCase kind else s!"{snakeCase kind}_{n}"

/-- Rows for layers, given the kinds of those before them. -/
def rowsFrom {α : Type} (before : List String) : List (Layer α) → Result (List SummaryRow)
  | [] => .ok []
  | l :: ls => do
    let shape ← l.outputShape?
    let rows ← rowsFrom (l.kind :: before) ls
    return ⟨rowName l.kind (before.count l.kind), l.kind, shape, l.parameterCount⟩ :: rows

def ofNetwork {α : Type} (net : Network α) : Result Summary := do
  let rows ← rowsFrom [] net.layers
  return ⟨rows, rows.foldl (fun n r => n + r.params) 0⟩

def groupDigits : List Char → List Char
  | [] => []
  | c :: cs => if cs.length % 3 = 0 ∧ cs ≠ [] then c :: ',' :: groupDigits cs else c :: groupDigits cs

def grouped (n : Nat) : String := String.ofList (groupDigits (Decimal.digits n).toList)

def padRight (width : Nat) (s : String) : String :=
  s ++ String.ofList (List.replicate (width - s.length) ' ')

def padLeft (width : Nat) (s : String) : String :=
  String.ofList (List.replicate (width - s.length) ' ') ++ s

def rule (c : Char) (width : Nat) : String := String.ofList (List.replicate width c)

def line (label shape params : String) : String :=
  padRight 29 label ++ padRight 26 shape ++ padLeft 10 params ++ "\n"

def rowLine (r : SummaryRow) : String :=
  line s!"{r.name} ({r.kind})" r.outputShape.text (Decimal.digits r.params)

def text (s : Summary) : String :=
  "Model: \"sequential\"\n" ++ rule '_' 65 ++ "\n" ++
    line "Layer (type)" "Output Shape" "Param #" ++ rule '=' 65 ++ "\n" ++
    "\n".intercalate (s.rows.map rowLine) ++ rule '=' 65 ++ "\n" ++
    s!"Total params: {grouped s.totalParams}\n" ++
    s!"Trainable params: {grouped s.totalParams}\n" ++
    "Non-trainable params: 0\n" ++ rule '_' 65

end Summary
end Convnet
