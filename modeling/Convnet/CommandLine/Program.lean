import Convnet.CommandLine.Help
import Convnet.Run.Experiment

namespace Convnet.CommandLine

variable {α : Type} [Scalar α] [JsonNumber α] {σ : Type} [RandomSource σ]
variable {ω : Type} [Writer ω]

def run (world : Surroundings α σ) : Command α → Action ω Unit
  | .train flags => do
    let c ← Action.reading flags.resolve
    discard (Experiment.run world c)
  | .summary flags => do
    let c ← Action.reading flags.resolve
    discard (Experiment.summarize world c)
  | .predict f =>
    discard (Experiment.predict (α := α) f.modelPath f.dataDirectory f.dataset f.count)

def failureCode : Error → Nat
  | .misuse | .overflow => 101
  | _ => 1

def exitCode {β : Type} : Result β → Nat
  | .ok _ => 0
  | .error e => failureCode e

/-- Runs the program on a session and answers its exit code. -/
def perform (world : Surroundings Float σ) (environment : String → Option String)
    (arguments : List String) (s : Session ω) : Nat × Session ω :=
  match parse environment arguments with
  | .error stop =>
    if stop.answer.isEmpty then (stop.exitCode, s)
    else
      let (_, s) := (Action.say stop.answer).on s
      (stop.exitCode, s)
  | .ok invocation =>
    let (r, s) := (run world invocation.command).on s
    (exitCode r, s)

end Convnet.CommandLine
