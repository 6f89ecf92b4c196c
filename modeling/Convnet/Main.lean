import Convnet.CommandLine.Program

namespace Convnet.CommandLine

abbrev Work := ExceptT Error IO

variable {β : Type}

inductive LogLevel
  | info
  | debug
  | trace

def LogLevel.verbosity : LogLevel → Nat
  | info => 0
  | debug => 1
  | trace => 2

def LogLevel.name : LogLevel → String
  | info => "INFO"
  | debug => "DEBUG"
  | trace => "TRACE"

def log (verbosity : Nat) (level : LogLevel) (text : String) : IO Unit :=
  if level.verbosity ≤ verbosity then IO.eprintln (level.name ++ " " ++ text) else pure ()

def display (text : String) : IO Unit := do
  let out ← IO.getStdout
  out.putStr text
  out.flush

def currentDisk : IO Disk := do
  let here ← IO.currentDir
  return .empty ((Disk.parts (toString here)).filter (· != ""))

def visit (d : Disk) (path : String) : IO Disk := do
  match ← (IO.FS.readBinFile path).toBaseIO with
  | .error _ => return d
  | .ok bytes =>
    let (d, _) := d.makeParent path
    return d.put (Disk.settle (d.start path) (Disk.parts path)) (.file bytes)

def writeBack (names : List String) (bytes : ByteArray) : IO Unit := do
  IO.FS.createDirAll ("/" ++ "/".intercalate names.dropLast)
  IO.FS.writeBinFile ("/" ++ "/".intercalate names) bytes

/-- Lets an action work on a disk, then writes the files that it has changed and shows its report. -/
def commit (d : Disk) (a : Action String β) : Work (β × Disk) := do
  let (r, session) := a.on ⟨d, ""⟩
  for (names, bytes) in session.disk.filesSince d do
    writeBack names bytes
  display session.out
  return (← MonadExcept.ofExcept r, session.disk)

def surroundings : Surroundings Float Stream := ⟨.ofSeed, Weights.glorotUniform, fun _ => 0⟩

abbrev Training := Run Float Stream (Report.Reporter String)

def showReport (r : Training) : IO Training := do
  display r.receiver.out
  return { r with receiver := ⟨"", r.receiver.failed⟩ }

def trainBatches (verbosity : Nat) (schedule : Schedule) (train : Dataset Float) (epoch total : Nat) :
    Nat → List (List Nat) → Training → Tally Float → Work (Training × Tally Float)
  | _, [], r, tally => return (r, tally)
  | j, indices :: rest, r, tally => do
    let (r, tally) ← MonadExcept.ofExcept <|
      r.batch schedule Report.receive train epoch total j indices tally
    log verbosity .trace s!"batch {j} of {total} done"
    trainBatches verbosity schedule train epoch total (j + 1) rest (← showReport r) tally

def trainEpoch (verbosity : Nat) (schedule : Schedule) (train : Dataset Float)
    (validation : Option (Dataset Float)) (number : Nat) (r : Training) : Work Training := do
  let began ← IO.monoMsNow
  let r := r.shuffled
  let total := schedule.batchCount train.size
  let (r, tally) ← trainBatches verbosity schedule train number total 1 (r.parts schedule) r .zero
  let taken := (← IO.monoMsNow) - began
  let r ← MonadExcept.ofExcept <|
    r.close { schedule with elapsed := fun _ => taken } Report.receive validation number tally
  log verbosity .debug s!"epoch {number} took {taken} ms"
  showReport r

def trainEpochs (verbosity : Nat) (schedule : Schedule) (train : Dataset Float)
    (validation : Option (Dataset Float)) : Nat → Nat → Training → Work Training
  | 0, _, r => return r
  | n + 1, k, r => do
    trainEpochs verbosity schedule train validation n (k + 1)
      (← trainEpoch verbosity schedule train validation k r)

def trainWith (verbosity : Nat) (d : Disk) (c : RunConfig Float) : Work Unit := do
  let (p, d) ← commit d (Experiment.prepare surroundings c)
  log verbosity .info
    s!"data prepared: {p.train.size} train, {p.validation.size} validation, {p.test.size} test"
  let schedule := Experiment.schedule surroundings c
  let validation ← MonadExcept.ofExcept <|
    p.network.checkFit p.train (some p.validation) schedule
  let run ← trainEpochs verbosity schedule p.train validation schedule.epochs 1
    (.start p.network (.ofRule c.optimizer) (surroundings.source c.training.seed) p.train ⟨"", false⟩)
  log verbosity .info s!"training finished after {run.history.size} epochs"
  discard (commit d (Experiment.finish c run.network run.history p.test))

/-- Takes in the files that the flags name, and reads the settings from them. -/
def settings (d : Disk) (f : ConfigFlags) (resolve : Disk → Result (RunConfig Float)) :
    Work (RunConfig Float × Disk) := do
  let d ← (f.config.toList ++ f.modelSpec.toList).foldlM (fun d path => visit d path) d
  return (← MonadExcept.ofExcept (resolve d), d)

def execute (verbosity : Nat) : Command Float → Work Unit
  | .summary f => do
    let (c, d) ← settings (← currentDisk) f f.resolve
    discard (commit d (Experiment.summarize surroundings c))
  | .train f => do
    let (c, d) ← settings (← currentDisk) f.config f.resolve
    let files := [.train, .test].flatMap (c.data.kind.places c.data.directory)
    trainWith verbosity (← files.foldlM (fun d path => visit d path) d) c
  | .predict f => do
    let kinds := f.dataset.elim Benchmark.all fun k => [k]
    let files := kinds.flatMap fun k => k.places f.dataDirectory .test
    let d ← (f.modelPath :: files).foldlM (fun d path => visit d path) (← currentDisk)
    log verbosity .info s!"predicting with {f.modelPath}"
    discard (commit d (Experiment.predict (α := Float) f.modelPath f.dataDirectory f.dataset f.count))

def finish (invocation : Invocation) : IO Nat := do
  match ← (execute invocation.verbosity invocation.command).run.toBaseIO with
  | .ok (.ok ()) => return 0
  | .ok (.error e) =>
    IO.eprintln ("Error: " ++ e.message)
    return failureCode e
  | .error e =>
    IO.eprintln ("Error: " ++ Error.io.message ++ ": " ++ toString e)
    return failureCode .io

def environment : IO (String → Option String) := do
  let values ← standInNames.mapM fun name => return (name, ← IO.getEnv name)
  return fun name => (values.lookup name).join

end Convnet.CommandLine

open Convnet.CommandLine in
/-- Exit code 0 is success, 1 an error, 2 a misuse of the command line. -/
def main (args : List String) : IO UInt32 := do
  match parse (← environment) args with
  | .error stop =>
    display stop.answer
    IO.eprint stop.complaint
    return UInt32.ofNat stop.exitCode
  | .ok invocation => return UInt32.ofNat (← finish invocation)
