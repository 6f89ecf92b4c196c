import Convnet.CommandLine.Flag

namespace Convnet.CommandLine

inductive Argument
  | separator
  | long (name : String) (value : Option String)
  | short (cluster : List Char)
  | plain (text : String)
  deriving DecidableEq, Repr

def splitEquals (cs : List Char) : String × Option String :=
  let name := String.ofList (cs.takeWhile (· != '='))
  match cs.dropWhile (· != '=') with
  | [] => (name, none)
  | _ :: value => (name, some (String.ofList value))

def Argument.ofText (s : String) : Argument :=
  match s.toList with
  | ['-', '-'] => .separator
  | '-' :: '-' :: cs =>
    let (name, value) := splitEquals cs
    .long name value
  | ['-'] => .plain s
  | '-' :: cs => .short cs
  | _ => .plain s

structure Reading (φ : Type) where
  flags : φ
  verbosity : Nat
  pending : Option (Flag φ × Option String)

namespace Reading

variable {φ : Type}

def start (flags : φ) : Reading φ := ⟨flags, 0, none⟩

def maxVerbosity : Nat := 255

def accept (r : Reading φ) (p : Flag φ) (value : Option String) : Parsed (Reading φ) :=
  match p.effect, value with
  | .count, _ => .ok { r with verbosity := min maxVerbosity (r.verbosity + 1) }
  | .stop why, _ => .error why
  | .switch given set, _ =>
    if given r.flags then .error .repeated else .ok { r with flags := set r.flags }
  | .value _ _, none => .error .invalidValue
  | .value given set, some s => do
    if given r.flags then throw .repeated
    return { r with flags := ← set s r.flags }

def settle (r : Reading φ) : Parsed (Reading φ) :=
  match r.pending with
  | none => .ok r
  | some (p, value) => { r with pending := none }.accept p value

def meet (r : Reading φ) (p : Flag φ) (attached : Option String) : Parsed (Reading φ) := do
  let r ← r.settle
  if p.takesValue && attached.isNone then return { r with pending := some (p, none) }
  r.accept p attached

def long (table : List (Flag φ)) (r : Reading φ) (name : String) (value : Option String) :
    Parsed (Reading φ) :=
  match table.find? (·.long == name) with
  | none => .error .unknownArgument
  | some p => if value.isSome && !p.takesValue then .error .surplusValue else r.meet p value

/-- A cluster of letters. A flag that takes a value takes the rest of the cluster, if there is
any, with or without an equals sign before it. -/
def short (table : List (Flag φ)) (r : Reading φ) : List Char → Parsed (Reading φ)
  | [] => .ok r
  | c :: cs =>
    match table.find? (·.short == some c) with
    | none => .error .unknownArgument
    | some p =>
      if p.takesValue then
        match cs with
        | [] => r.meet p none
        | '=' :: cs => r.meet p (some (String.ofList cs))
        | cs => r.meet p (some (String.ofList cs))
      else do short table (← r.meet p none) cs

def plain (r : Reading φ) (text : String) : Parsed (Reading φ) :=
  match r.pending with
  | some (p, none) => .ok { r with pending := some (p, some text) }
  | _ => .error .unknownArgument

/-- All arguments of a command. A separator may only end them, as no command takes free arguments. -/
def all (table : List (Flag φ)) (r : Reading φ) : List String → Parsed (Reading φ)
  | [] => r.settle
  | s :: rest =>
    match Argument.ofText s with
    | .separator => if rest.isEmpty then r.settle else .error .unknownArgument
    | .long name value => do all table (← r.long table name value) rest
    | .short cluster => do all table (← r.short table cluster) rest
    | .plain text => do all table (← r.plain text) rest

def standIn (environment : String → Option String) (r : Reading φ) (p : Flag φ) :
    Parsed (Reading φ) :=
  match p.effect, p.stand.bind environment with
  | .value given set, some s =>
    if given r.flags then .ok r else do return { r with flags := ← set s r.flags }
  | _, _ => .ok r

def complete (table : List (Flag φ)) (environment : String → Option String) (flags : φ)
    (arguments : List String) : Parsed (Reading φ) := do
  let r ← (start flags).all table arguments
  table.foldlM (standIn environment) r

end Reading
end Convnet.CommandLine
