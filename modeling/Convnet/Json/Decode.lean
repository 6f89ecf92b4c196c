import Convnet.Json

namespace Convnet.Json

def nestingLimit : Nat := 127

def float? : Json → Option Float
  | .number n => n.toFloat?
  | _ => none

def nat? (bound : Nat) : Json → Option Nat
  | .number n => n.toNat? bound
  | _ => none

def size? : Json → Option Nat := nat? (Nat.pow 2 64)

def bool? : Json → Option Bool
  | .bool b => some b
  | _ => none

def string? : Json → Option String
  | .string s => s
  | _ => none

def option? {β : Type} (f : Json → Option β) : Json → Option (Option β)
  | .null => some none
  | v => (f v).map some

def collect {β : Type} (f : Json → Option β) : List Json → Array β → Option (Array β)
  | [], acc => some acc
  | v :: vs, acc =>
    match f v with
    | none => none
    | some b => collect f vs (acc.push b)

def array? {β : Type} (f : Json → Option β) : Json → Option (Array β)
  | .array vs => collect f vs #[]
  | _ => none

def list? {β : Type} (f : Json → Option β) (v : Json) : Option (List β) := (array? f v).map (·.toList)

def name? {β : Type} (table : List (String × β)) : Json → Option β
  | .string (some s) => table.lookup s
  | .object [(some s, .null)] => table.lookup s
  | _ => none

def keptName? {β : Type} (table : List (String × β)) : Json → Option β
  | .object [(some s, .object [])] => table.lookup s
  | v => name? table v

inductive Slot
  | given (v : Json)
  | noMember
  | noItem

namespace Slot

def required {β : Type} (f : Json → Option β) : Slot → Option β
  | .given v => f v
  | _ => none

def withDefault {β : Type} (f : Json → Option β) (b : β) : Slot → Option β
  | .given v => f v
  | _ => some b

def optional {β : Type} (f : Json → Option β) : Slot → Option (Option β)
  | .given v => option? f v
  | .noMember => some none
  | .noItem => none

def optionalAnywhere {β : Type} (f : Json → Option β) : Slot → Option (Option β)
  | .given v => option? f v
  | _ => some none

end Slot

/-- The value of a member that may occur once; the outer `none` is a repetition. -/
def once (name : String) (members : List (Option String × Json)) : Option Slot :=
  match members.filter fun m => m.1 == some name with
  | [] => some .noMember
  | [(_, v)] => some (.given v)
  | _ => none

def slots (names : List String) : Json → Option (List Slot)
  | .object ms => if ms.all (·.1.isSome) then names.mapM (once · ms) else none
  | .array vs =>
    if vs.length ≤ names.length then
      some (vs.map .given ++ List.replicate (names.length - vs.length) .noItem)
    else none
  | _ => none

mutual

/-- Whether a value can be kept: all text stands for characters, all numbers have a double, and it
nests no deeper than `room` levels. -/
def keepable (room : Nat) : Json → Bool
  | .null | .bool _ => true
  | .number n => n.isRepresentable
  | .string s => s.isSome
  | .array vs => room != 0 && keepableAll (room - 1) vs
  | .object ms => room != 0 && keepableMembers (room - 1) ms

def keepableAll (room : Nat) : List Json → Bool
  | [] => true
  | v :: vs => keepable room v && keepableAll room vs

def keepableMembers (room : Nat) : List (Option String × Json) → Bool
  | [] => true
  | (k, v) :: ms => k.isSome && keepable room v && keepableMembers room ms

end

/-- The alternative that a marked value names, with the value less the mark. `level` is the number of
containers around the value; the value is kept whole until its alternative is known. -/
def tagged (level : Nat) (tag : String) (v : Json) : Option (String × Json) :=
  if keepable (nestingLimit - level) v then
    match v with
    | .object ms =>
      match once tag ms with
      | some (.given (.string (some s))) => some (s, .object (ms.filter fun m => m.1 != some tag))
      | _ => none
    | .array (.string (some s) :: vs) => some (s, .array vs)
    | _ => none
  else none

end Convnet.Json
