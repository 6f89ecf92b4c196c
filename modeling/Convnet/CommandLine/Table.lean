import Convnet.CommandLine.Command

namespace Convnet.CommandLine

open Convnet.CommandLine.Flag

def datasetNames : List (String × Benchmark) :=
  [("mnist", .mnist), ("fashion-mnist", .fashionMnist), ("cifar10", .cifar10)]

variable {φ : Type}

def commonFlags (command : Option String) : List (Flag φ) :=
  [⟨"verbose", some 'v', none, "More log output (-v debug, -vv trace)", .count⟩,
    ⟨"help", some 'h', none, "Print help", .stop (.help command)⟩]

def withCommon (command : String) (own : List (Flag φ)) : List (Flag φ) :=
  own ++ commonFlags (some command)

def programFlags : List (Flag Unit) :=
  commonFlags none ++ [⟨"version", some 'V', none, "Print version", .stop .version⟩]

def configFlags : List (Flag ConfigFlags) :=
  [((field "config" readPath (·.config) fun v f => { f with config := v }).withShort 'c').withVariable
      "FERRITE_CNN_CONFIG" |>.withAbout "Run configuration file (JSON)",
    (field "dataset" (readChoice datasetNames) (·.dataset) fun v f => { f with dataset := v }).withAbout
      "Dataset to train on",
    ((field "data-dir" readPath (·.directory) fun v f => { f with directory := v }).withVariable
      "FERRITE_CNN_DATA_DIR").withAbout "Directory holding the dataset files",
    (field "model-spec" readPath (·.modelSpec) fun v f => { f with modelSpec := v }).withAbout
      "Model architecture file (JSON)"]

def trainFlags : List (Flag (TrainFlags Float)) :=
  configFlags.map (within (·.config) fun c f => { f with config := c }) ++
  [field "preprocessing" (readChoice Preprocessing.table) (·.preprocessing) fun v f =>
      { f with preprocessing := v },
    (field "epochs" readSize (·.epochs) fun v f => { f with epochs := v }).withShort 'e',
    (field "batch-size" readSize (·.batchSize) fun v f => { f with batchSize := v }).withShort 'b',
    (field "validation-split" readNumber (·.validationSplit) fun v f =>
      { f with validationSplit := v }).withAbout "Fraction of the training data held out for validation",
    field "seed" readSize (·.seed) fun v f => { f with seed := v },
    (field "optimizer" readText (·.optimizer) fun v f => { f with optimizer := v }).withAbout
      "adam, sgd or rmsprop",
    field "learning-rate" readNumber (·.learningRate) fun v f => { f with learningRate := v },
    (field "limit-train" readSize (·.limitTrain) fun v f => { f with limitTrain := v }).withAbout
      "Use only the first N training images",
    field "limit-test" readSize (·.limitTest) fun v f => { f with limitTest := v },
    field "model-path" readPath (·.modelPath) fun v f => { f with modelPath := v },
    field "plot-path" readPath (·.plotPath) fun v f => { f with plotPath := v },
    field "history-path" readPath (·.historyPath) fun v f => { f with historyPath := v },
    (field "samples" readSize (·.samples) fun v f => { f with samples := v }).withAbout
      "Number of sample predictions to print",
    (Flag.switch "no-eval" (·.noEval) fun v f => { f with noEval := v }).withAbout
      "Skip the test-set evaluation",
    Flag.switch "no-save-model" (·.noSaveModel) fun v f => { f with noSaveModel := v },
    Flag.switch "no-plot" (·.noPlot) fun v f => { f with noPlot := v }]

def predictFlags : List (Flag PredictFlags) :=
  [((field "model" readPath (·.model) fun v f => { f with model := v }).withShort 'm').withAbout
      "Saved model (JSON)",
    (field "dataset" (readChoice datasetNames) (·.dataset) fun v f => { f with dataset := v }).withAbout
      "Dataset to read test images from; defaults to the model's own",
    (field "data-dir" readPath (·.directory) fun v f => { f with directory := v }).withVariable
      "FERRITE_CNN_DATA_DIR",
    ((field "samples" readSize (·.samples) fun v f => { f with samples := v }).withShort 'n').withAbout
      "Number of test images to predict"]

def standInNames : List String :=
  (trainFlags.filterMap (·.stand) ++ predictFlags.filterMap (·.stand)).eraseDups

def commandNames : List (String × String) :=
  [("train", "Train, evaluate and save a model"),
    ("summary", "Print the model summary without training"),
    ("predict", "Predict test images with a saved model")]

def helpName : String := "help"

def isCommand (name : String) : Bool := name == helpName || (commandNames.lookup name).isSome

def helpAbout : List String → Stop
  | [] => .help none
  | [name] => if isCommand name then .help (some name) else .unknownCommand
  | _ => .unknownCommand

structure Invocation where
  verbosity : Nat
  command : Command Float
  deriving Inhabited

/-- A count after the command replaces one before it. -/
def invoke (before : Nat) (r : Reading φ) (command : φ → Command Float) : Invocation :=
  ⟨if 0 < r.verbosity then r.verbosity else before, command r.flags⟩

def parseCommand (environment : String → Option String) (before : Nat) (name : String)
    (arguments : List String) : Parsed Invocation := do
  let complete {φ : Type} (own : List (Flag φ)) (flags : φ) :=
    Reading.complete (withCommon name own) environment flags arguments
  match name with
  | "train" =>
    return invoke before (← complete trainFlags {}) .train
  | "summary" =>
    return invoke before (← complete configFlags {}) .summary
  | "predict" =>
    return invoke before (← complete predictFlags {}) .predict
  | "help" => throw (helpAbout arguments)
  | _ => throw .unknownCommand

/-- Reads the arguments up to the name of a command, and then those of the command. -/
def parseFrom (environment : String → Option String) (r : Reading Unit) :
    List String → Parsed Invocation
  | [] => .error (if 0 < r.verbosity then .noCommand else .nothing)
  | s :: rest =>
    match Argument.ofText s with
    | .separator =>
      match rest with
      | [] => .error (if 0 < r.verbosity then .noCommand else .nothing)
      | name :: _ => .error (if isCommand name then .unknownArgument else .unknownCommand)
    | .long name value => do
      parseFrom environment (← r.long programFlags name value) rest
    | .short cluster => do parseFrom environment (← r.short programFlags cluster) rest
    | .plain name => parseCommand environment r.verbosity name rest

def parse (environment : String → Option String) (arguments : List String) : Parsed Invocation :=
  parseFrom environment (.start ()) arguments

end Convnet.CommandLine
