import Convnet.CommandLine.Table

namespace Convnet.CommandLine

def programName : String := "ferrite-cnn"

def versionText : String := programName ++ " 0.1.0\n"

def spaces (n : Nat) : String := String.ofList (List.replicate n ' ')

def columns (rows : List (String × String)) : List String :=
  let width := rows.foldl (fun w r => max w r.1.length) 0
  rows.map fun (left, right) =>
    if right.isEmpty then "  " ++ left else "  " ++ left ++ spaces (width - left.length) ++ "  " ++ right

namespace Flag

variable {φ : Type}

def valueName (p : Flag φ) : String :=
  String.ofList (p.long.toList.map fun c => if c = '-' then '_' else c.toUpper)

def usage (p : Flag φ) : String :=
  let short := match p.short with
    | some c => String.ofList ['-', c, ',', ' ']
    | none => spaces 4
  let value := match p.effect with
    | .count => "..."
    | .value .. => " <" ++ p.valueName ++ ">"
    | _ => ""
  short ++ "--" ++ p.long ++ value

def helpRow (p : Flag φ) : String × String :=
  (p.usage, match p.stand with
    | none => p.about
    | some name => p.about ++ (if p.about.isEmpty then "" else " ") ++ "[env: " ++ name ++ "]")

end Flag

variable {φ : Type}

def optionLines (table : List (Flag φ)) : List String :=
  "Options:" :: columns (table.map Flag.helpRow)

def programHelp : List String :=
  ["Train and run small convolutional image classifiers", "",
    "Usage: " ++ programName ++ " [OPTIONS] <COMMAND>", "", "Commands:"] ++
  columns (commandNames ++ [(helpName, "Print this message or the help of the given subcommand(s)")]) ++
  [""] ++ optionLines programFlags

def commandHelp (name : String) : List String :=
  let about := (commandNames.lookup name).getD "Print the help of the given subcommand"
  let usage := ["Usage: " ++ programName ++ " " ++ name ++ " [OPTIONS]", ""]
  [about, ""] ++ usage ++
  match name with
  | "train" => optionLines (withCommon name trainFlags)
  | "summary" => optionLines (withCommon name configFlags)
  | "predict" => optionLines (withCommon name predictFlags)
  | _ => optionLines (commonFlags (φ := Unit) (some name))

def helpText (command : Option String) : String :=
  "\n".intercalate (command.elim programHelp commandHelp) ++ "\n"

namespace Stop

def answer : Stop → String
  | help command => helpText command
  | version => versionText
  | _ => ""

def complaint : Stop → String
  | help _ | version => ""
  | nothing => helpText none
  | noCommand => "error: a subcommand is required\n"
  | unknownCommand => "error: unrecognized subcommand\n"
  | unknownArgument => "error: unexpected argument found\n"
  | repeated => "error: an argument cannot be used multiple times\n"
  | invalidValue => "error: a value is missing or is not one of the possible values\n"
  | unreadableNumber => "error: a value is not a valid number\n"
  | surplusValue => "error: a flag was given a value\n"

/-- Help and the version are answers; everything else is misuse of the command line. -/
def exitCode : Stop → Nat
  | help _ | version => 0
  | _ => 2

end Stop
end Convnet.CommandLine
