import Convnet.Json

namespace Convnet.Json

def hexDigit (n : Nat) : Char := Char.ofNat (if n < 10 then 48 + n else 87 + n)

/-- A character inside quotation marks. Only quotation marks, backslashes and control characters
are escaped. -/
def escape (c : Char) : String :=
  if c = '"' then "\\\""
  else if c = '\\' then "\\\\"
  else if c = '\n' then "\\n"
  else if c = '\r' then "\\r"
  else if c = '\t' then "\\t"
  else if c = Char.ofNat 8 then "\\b"
  else if c = Char.ofNat 12 then "\\f"
  else if c.toNat < 32 then
    "\\u00" ++ String.ofList [hexDigit (c.toNat / 16), hexDigit (c.toNat % 16)]
  else c.toString

def quote (s : String) : String :=
  (s.toList.foldl (fun out c => out ++ escape c) "\"").push '"'

def lineBreak (pretty : Bool) (level : Nat) (out : String) : String :=
  if pretty then level.fold (fun _ _ out => out ++ "  ") (out.push '\n') else out

mutual

def write (pretty : Bool) (level : Nat) (out : String) : Json → String
  | .null => out ++ "null"
  | .bool b => out ++ (if b then "true" else "false")
  | .number n => out ++ n.text
  | .string s => out ++ quote (s.getD "")
  | .array [] => out ++ "[]"
  | .array (v :: vs) =>
    let out := write pretty (level + 1) (lineBreak pretty (level + 1) (out.push '[')) v
    (lineBreak pretty level (writeItems pretty (level + 1) out vs)).push ']'
  | .object [] => out ++ "{}"
  | .object (m :: ms) =>
    let out := writeMember pretty (level + 1) (lineBreak pretty (level + 1) (out.push '{')) m
    (lineBreak pretty level (writeMembers pretty (level + 1) out ms)).push '}'

def writeItems (pretty : Bool) (level : Nat) (out : String) : List Json → String
  | [] => out
  | v :: vs =>
    writeItems pretty level (write pretty level (lineBreak pretty level (out.push ',')) v) vs

def writeMember (pretty : Bool) (level : Nat) (out : String) : Option String × Json → String
  | (k, v) => write pretty level (out ++ quote (k.getD "") ++ (if pretty then ": " else ":")) v

def writeMembers (pretty : Bool) (level : Nat) (out : String) : List (Option String × Json) → String
  | [] => out
  | m :: ms =>
    writeMembers pretty level (writeMember pretty level (lineBreak pretty level (out.push ',')) m) ms

end

def compact (v : Json) : String := write false 0 "" v

def pretty (v : Json) : String := write true 0 "" v

end Convnet.Json
