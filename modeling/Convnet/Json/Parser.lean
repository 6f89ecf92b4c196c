import Convnet.Json

namespace Convnet

namespace JsonText

open Decimal (natOfDigits)

def isBlank (c : Char) : Bool := c == ' ' || c == '\n' || c == '\t' || c == '\r'

def skipBlanks (cs : List Char) : List Char := cs.dropWhile isBlank

def hexValue? (c : Char) : Option Nat :=
  if '0' ≤ c ∧ c ≤ '9' then some (c.toNat - 48)
  else if 'a' ≤ c ∧ c ≤ 'f' then some (c.toNat - 87)
  else if 'A' ≤ c ∧ c ≤ 'F' then some (c.toNat - 55)
  else none

def hexQuad? (a b c d : Char) : Option Nat := do
  let a ← hexValue? a
  let b ← hexValue? b
  let c ← hexValue? c
  let d ← hexValue? d
  return ((a * 16 + b) * 16 + c) * 16 + d

def isHighHalf (u : Nat) : Bool := 0xD800 ≤ u && u < 0xDC00

def isLowHalf (u : Nat) : Bool := 0xDC00 ≤ u && u < 0xE000

def simpleEscape? : Char → Option Char
  | '"' => some '"'
  | '\\' => some '\\'
  | '/' => some '/'
  | 'b' => some (Char.ofNat 8)
  | 'f' => some (Char.ofNat 12)
  | 'n' => some '\n'
  | 'r' => some '\r'
  | 't' => some '\t'
  | _ => none

def pushChar (acc : ByteArray) (point : Nat) : ByteArray :=
  (String.utf8EncodeChar (Char.ofNat point)).foldl ByteArray.push acc

/-- The text after an opening quotation mark. `acc` holds its bytes so far, and is `none` once half a
surrogate pair was met. -/
def stringBytes (acc : Option ByteArray) : List Char → Option (Option ByteArray × List Char)
  | [] => none
  | '"' :: r => some (acc, r)
  | '\\' :: 'u' :: a :: b :: c :: d :: r =>
    match hexQuad? a b c d with
    | none => none
    | some u =>
      if isHighHalf u then
        match r with
        | '\\' :: 'u' :: a :: b :: c :: d :: r' =>
          match hexQuad? a b c d with
          | none => none
          | some v =>
            if isLowHalf v then
              let point := 0x10000 + (u - 0xD800) * 1024 + (v - 0xDC00)
              stringBytes (acc.map (pushChar · point)) r'
            else stringBytes none ('\\' :: 'u' :: a :: b :: c :: d :: r')
        | r => stringBytes none r
      else if isLowHalf u then stringBytes none r
      else stringBytes (acc.map (pushChar · u)) r
  | '\\' :: c :: r =>
    match simpleEscape? c with
    | none => none
    | some c => stringBytes (acc.map (pushChar · c.toNat)) r
  | c :: r =>
    if c.toNat < 32 then none else stringBytes (acc.map (·.push (UInt8.ofNat c.toNat))) r
termination_by cs => cs.length

def stringBody (cs : List Char) : Option (Option String × List Char) :=
  (stringBytes (some .empty) cs).map fun (bytes, r) => (bytes.bind String.fromUTF8?, r)

def fraction (cs : List Char) : Option (List Char × List Char) :=
  match cs with
  | '.' :: r =>
    let ds := r.takeWhile Char.isDigit
    if ds.isEmpty then none else some (ds, r.dropWhile Char.isDigit)
  | cs => some ([], cs)

def exponent (cs : List Char) : Option (Option Int × List Char) :=
  let unsigned (negative : Bool) (r : List Char) : Option (Option Int × List Char) :=
    let ds := r.takeWhile Char.isDigit
    if ds.isEmpty then none
    else
      let n : Int := natOfDigits ds
      some (some (if negative then -n else n), r.dropWhile Char.isDigit)
  match cs with
  | 'e' :: '-' :: r | 'E' :: '-' :: r => unsigned true r
  | 'e' :: '+' :: r | 'E' :: '+' :: r => unsigned false r
  | 'e' :: r | 'E' :: r => unsigned false r
  | cs => some (none, cs)

def number (cs : List Char) : Option (Numeral × List Char) := do
  let (negative, cs) := match cs with
    | '-' :: r => (true, r)
    | cs => (false, cs)
  let whole := cs.takeWhile Char.isDigit
  if whole.isEmpty || (whole.head? == some '0' && whole.length > 1) then failure
  let (part, r) ← fraction (cs.dropWhile Char.isDigit)
  let (e, r) ← exponent r
  if part.isEmpty && e.isNone then
    return (.integer negative (natOfDigits whole), r)
  return (.decimal negative (natOfDigits (whole ++ part)) (e.getD 0 - part.length), r)

mutual

/-- One value, and what follows it. A value takes at least one character, so a fuel of twice the
length never runs out. -/
def value : Nat → List Char → Option (Json × List Char)
  | 0, _ => none
  | fuel + 1, cs =>
    match skipBlanks cs with
    | 'n' :: 'u' :: 'l' :: 'l' :: r => some (.null, r)
    | 't' :: 'r' :: 'u' :: 'e' :: r => some (.bool true, r)
    | 'f' :: 'a' :: 'l' :: 's' :: 'e' :: r => some (.bool false, r)
    | '"' :: r =>
      match stringBody r with
      | none => none
      | some (s, r) => some (.string s, r)
    | '[' :: r =>
      match skipBlanks r with
      | ']' :: r => some (.array [], r)
      | r => items fuel [] r
    | '{' :: r =>
      match skipBlanks r with
      | '}' :: r => some (.object [], r)
      | r => members fuel [] r
    | cs =>
      match number cs with
      | none => none
      | some (n, r) => some (.number n, r)

def items : Nat → List Json → List Char → Option (Json × List Char)
  | 0, _, _ => none
  | fuel + 1, acc, cs =>
    match value fuel cs with
    | none => none
    | some (v, r) =>
      match skipBlanks r with
      | ',' :: r => items fuel (v :: acc) r
      | ']' :: r => some (.array (v :: acc).reverse, r)
      | _ => none

def members : Nat → List (Option String × Json) → List Char → Option (Json × List Char)
  | 0, _, _ => none
  | fuel + 1, acc, cs =>
    match skipBlanks cs with
    | '"' :: r =>
      match stringBody r with
      | none => none
      | some (k, r) =>
        match skipBlanks r with
        | ':' :: r =>
          match value fuel r with
          | none => none
          | some (v, r) =>
            match skipBlanks r with
            | ',' :: r => members fuel ((k, v) :: acc) r
            | '}' :: r => some (.object ((k, v) :: acc).reverse, r)
            | _ => none
        | _ => none
    | _ => none

end

end JsonText

def Json.ofBytes? (bytes : ByteArray) : Option Json :=
  let cs := bytes.size.foldRev (fun i h cs => Char.ofNat bytes[i].toNat :: cs) []
  match JsonText.value (2 * cs.length + 2) cs with
  | some (v, r) => if (JsonText.skipBlanks r).isEmpty then some v else none
  | none => none

def Json.parse? (s : String) : Option Json := ofBytes? s.toUTF8

end Convnet
