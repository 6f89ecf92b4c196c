import Convnet.Error
import Convnet.Json.Parser

namespace Convnet

inductive Entry
  | file (bytes : ByteArray)
  | directory
  deriving Inhabited

structure Disk where
  entries : List (List String × Entry)
  /-- The names on the way to the working directory, which is there, as is every directory around
  it. -/
  workingDirectory : List String
  deriving Inhabited

/-- Where a path leads. -/
inductive Place
  | file (bytes : ByteArray)
  | directory
  | free (names : List String)
  | missing
  | notDirectory
  | nameTooLong
  | malformed

namespace Disk

def empty (workingDirectory : List String) : Disk := ⟨[], workingDirectory⟩

def entry? (d : Disk) (names : List String) : Option Entry :=
  if names.isPrefixOf d.workingDirectory then some .directory else d.entries.lookup names

def put (d : Disk) (names : List String) (e : Entry) : Disk :=
  if (d.entries.lookup names).isSome then
    { d with entries := d.entries.map fun (k, old) => if k == names then (k, e) else (k, old) }
  else { d with entries := d.entries ++ [(names, e)] }

def files (d : Disk) : List (String × ByteArray) :=
  d.entries.filterMap fun
    | (names, .file bytes) =>
      if d.workingDirectory.isPrefixOf names then
        some ("/".intercalate (names.drop d.workingDirectory.length), bytes)
      else none
    | _ => none

def filesSince (d before : Disk) : List (List String × ByteArray) :=
  d.entries.filterMap fun
    | (names, .file bytes) =>
      match before.entries.lookup names with
      | some (.file old) => if old.data = bytes.data then none else some (names, bytes)
      | _ => some (names, bytes)
    | _ => none

def parts (path : String) : List String := path.splitOn "/"

def start (d : Disk) (path : String) : List String :=
  if path.startsWith "/" then [] else d.workingDirectory

/-- Follows the parts of a path from a directory. An empty part is a doubled or a final slash; the
root is its own parent. -/
def follow (d : Disk) (here : List String) : List String → Place
  | [] => .directory
  | "" :: rest | "." :: rest => follow d here rest
  | ".." :: rest => follow d here.dropLast rest
  | name :: rest =>
    if 255 < name.utf8ByteSize then .nameTooLong
    else
      let names := here ++ [name]
      match d.entry? names with
      | some .directory => follow d names rest
      | some (.file bytes) => if rest.isEmpty then .file bytes else .notDirectory
      | none => if rest.isEmpty then .free names else .missing

def locate (d : Disk) (path : String) : Place :=
  if path.contains (Char.ofNat 0) then .malformed
  else if path.isEmpty then .missing
  else if 4096 ≤ path.utf8ByteSize then .nameTooLong
  else d.follow (d.start path) (parts path)

def isFile (d : Disk) (path : String) : Bool :=
  match d.locate path with
  | .file _ => true
  | _ => false

def read (d : Disk) (path : String) : Result ByteArray :=
  match d.locate path with
  | .file bytes => .ok bytes
  | _ => .error .io

def readJson (d : Disk) (path : String) : Result Json :=
  match d.locate path with
  | .file bytes =>
    match Json.ofBytes? bytes with
    | none => .error .json
    | some v => .ok v
  | .directory => .error .json
  | _ => .error .io

def settle (here : List String) : List String → List String
  | [] => here
  | "" :: rest | "." :: rest => settle here rest
  | ".." :: rest => settle here.dropLast rest
  | name :: rest => settle (here ++ [name]) rest

def writable? (d : Disk) (path : String) : Option (List String) :=
  match d.locate path with
  | .free names => some names
  | .file _ => some (settle (d.start path) (parts path))
  | _ => none

def write (d : Disk) (path : String) (bytes : ByteArray) : Result Disk :=
  match d.writable? path with
  | some names => .ok (d.put names (.file bytes))
  | none => .error .io

inductive Making
  | made (d : Disk)
  | present
  | homeless
  | refused

def makeDirectory (d : Disk) (path : String) : Making :=
  match d.locate path with
  | .free names => .made (d.put names .directory)
  | .directory => .present
  | .missing => .homeless
  | .file _ | .notDirectory | .nameTooLong | .malformed => .refused

/-- Makes the first of some directories, each of which lies in the one after it. When one on the way is
missing, those after the first are made before. What was made stays when the rest is refused; the
answer says whether the first one is there. -/
def makeDirectories (d : Disk) : List String → Disk × Bool
  | [] => (d, true)
  | path :: outer =>
    match d.makeDirectory path with
    | .made d => (d, true)
    | .present => (d, true)
    | .refused => (d, false)
    | .homeless =>
      let (d, ready) := makeDirectories d outer
      if ready then
        match d.makeDirectory path with
        | .made d => (d, true)
        | .present => (d, true)
        | .homeless | .refused => (d, false)
      else (d, false)

/-- The texts of a path up to each entry that it names, the shortest first. An empty part, and a part
that stays where it is, names no entry. -/
def stages : String → List String → List String
  | _, [] => []
  | before, part :: rest =>
    let here := before ++ part
    if part = "" ∨ part = "." then stages (here ++ "/") rest else here :: stages (here ++ "/") rest

def parents (path : String) : List String := (stages "" (parts path)).dropLast.reverse

def makeParent (d : Disk) (path : String) : Disk × Bool := d.makeDirectories (parents path)

def join (directory name : String) : String :=
  if directory.isEmpty then name
  else if directory.endsWith "/" then directory ++ name
  else directory ++ "/" ++ name

end Disk
end Convnet
