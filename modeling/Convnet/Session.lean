import Convnet.Disk
import Convnet.Json.Printer

namespace Convnet

/-- Where a report goes. Text is added at its end; `none` is a write that failed. -/
class Writer (ω : Type) where
  write : ω → String → Option ω

instance : Writer String := ⟨fun out s => some (out ++ s)⟩

structure Session (ω : Type) where
  disk : Disk
  out : ω
  deriving Inhabited

abbrev Action (ω : Type) := ExceptT Error (StateM (Session ω))

namespace Action

variable {ω β : Type}

def say [Writer ω] (s : String) : Action ω Unit := do
  let session ← get
  match Writer.write session.out s with
  | some out => set { session with out := out }
  | none => throw .io

def sayLine [Writer ω] (s : String) : Action ω Unit := say (s ++ "\n")

def reading (f : Disk → Result β) : Action ω β := do
  let session ← get
  f session.disk

def changing (f : Disk → Result Disk) : Action ω Unit := do
  let session ← get
  let disk ← f session.disk
  set { session with disk := disk }

/-- Makes the directory for the entry that a path names. What was made of it stays in a failure. -/
def makeParent (path : String) : Action ω Unit := do
  let session ← get
  let (disk, ready) := session.disk.makeParent path
  set { session with disk := disk }
  if !ready then throw .io

def save (path : String) (v : Json) : Action ω Unit :=
  changing fun d => d.write path v.pretty.toUTF8

def on (a : Action ω β) (s : Session ω) : Result β × Session ω := (a.run).run s

end Action
end Convnet
