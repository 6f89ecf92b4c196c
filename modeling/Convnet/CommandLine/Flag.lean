import Convnet.Decimal.Reader

namespace Convnet.CommandLine

inductive Stop
  | help (command : Option String)
  | version
  | nothing
  | noCommand
  | unknownCommand
  | unknownArgument
  | repeated
  | invalidValue
  | unreadableNumber
  | surplusValue
  deriving DecidableEq, Repr

abbrev Parsed (β : Type) := Except Stop β

/-- What giving a flag does to the record of a command. -/
inductive Effect (φ : Type)
  | count
  | stop (why : Stop)
  | switch (given : φ → Bool) (set : φ → φ)
  | value (given : φ → Bool) (set : String → φ → Parsed φ)

structure Flag (φ : Type) where
  long : String
  short : Option Char
  stand : Option String
  about : String
  effect : Effect φ

def readPath (s : String) : Parsed String := if s.isEmpty then .error .invalidValue else .ok s

def readText (s : String) : Parsed String := .ok s

def readSize (s : String) : Parsed Nat :=
  match Decimal.readNat? s with
  | some n => .ok n
  | none => .error .unreadableNumber

def readNumber (s : String) : Parsed Float :=
  match Decimal.readFloat? s with
  | some x => .ok x
  | none => .error .unreadableNumber

def readChoice {β : Type} (table : List (String × β)) (s : String) : Parsed β :=
  match table.lookup s with
  | some b => .ok b
  | none => .error .invalidValue

namespace Flag

variable {φ ψ β : Type}

def field (long : String) (read : String → Parsed β) (get : φ → Option β)
    (set : Option β → φ → φ) : Flag φ :=
  ⟨long, none, none, "", .value (fun f => (get f).isSome) fun s f => do return set (some (← read s)) f⟩

def switch (long : String) (get : φ → Bool) (set : Bool → φ → φ) : Flag φ :=
  ⟨long, none, none, "", .switch get (set true)⟩

def withShort (p : Flag φ) (c : Char) : Flag φ := { p with short := some c }

def withVariable (p : Flag φ) (name : String) : Flag φ := { p with stand := some name }

def withAbout (p : Flag φ) (text : String) : Flag φ := { p with about := text }

/-- The same flag for a record that holds the record of this flag in one of its fields. -/
def within (get : ψ → φ) (set : φ → ψ → ψ) (p : Flag φ) : Flag ψ :=
  ⟨p.long, p.short, p.stand, p.about,
    match p.effect with
    | .count => .count
    | .stop why => .stop why
    | .switch given act => .switch (fun f => given (get f)) fun f => set (act (get f)) f
    | .value given act => .value (fun f => given (get f)) fun s f => do return set (← act s (get f)) f⟩

def takesValue (p : Flag φ) : Bool :=
  match p.effect with
  | .value .. => true
  | _ => false

end Flag
end Convnet.CommandLine
