import Convnet.Shape

namespace Convnet

inductive IdxError
  | shortHeader (what : String) (expected actual : Nat)
  | reserved (what : String) (first second : Nat)
  | elementType (what : String) (actual : Nat)
  | dimensions (what : String) (expected actual : Nat)
  | sizeOverflow (rows cols : Nat)
  | lengthOverflow
  | shortImages (items rows cols needed actual : Nat)
  | emptyImages (rows cols : Nat)
  | shortLabels (items actual needed : Nat)
  | countMismatch (images labels : Nat)
  deriving DecidableEq, Repr

inductive DatasetError
  | countMismatch (images labels : Nat)
  | fewClasses (classes : Nat)
  | labelOutOfRange (index label classes : Nat)
  | idx (e : IdxError)
  | partialRecord (length record : Nat)
  | noFile (candidates : List String) (directory : String)
  | zeroVariance
  | nothingToEvaluate
  | noTrainingSamples
  deriving DecidableEq, Repr

inductive LayerSpecError
  | convolution (filters kernelSize strides : Nat)
  | pooling (kind : String)
  | units
  | rate (text : String)
  | needsSpatial (input : Shape)
  | needsFlat (input : Shape)
  | emptyOutput (kind : String) (input : Shape)
  deriving DecidableEq, Repr

inductive LayerError
  | emptyInput (input : Shape)
  | convolution (filters kernelSize stride : Nat)
  | kernelLength (actual expected : Nat)
  | biasLength (actual expected : Nat)
  | pooling (poolSize stride : Nat)
  | weightsLength (actual rows cols : Nat)
  | biasesLength (actual expected : Nat)
  | rate (text : String)
  | emptyOutput (input : Shape)
  deriving DecidableEq, Repr

inductive ModelError
  | emptyInput (input : Shape)
  | noLayers
  | description (index : Nat) (cause : LayerSpecError)
  | innerSoftmax (index : Nat) (kind : String)
  | softmaxRequired
  | softmaxForbidden
  | outputNotFlat (output : Shape)
  | savedWithoutLayers
  | layer (index : Option Nat) (kind : String) (cause : LayerError)
  | chain (index : Nat) (kind : String) (expected actual : Shape)
  deriving DecidableEq, Repr

inductive ConfigError
  | epochs
  | batchSize
  | validationSplit (text : String)
  | learningRate (text : String)
  | inputShape (model : Shape) (dataset : String) (images : Shape)
  | outputs (model : Nat) (dataset : String) (classes : Nat)
  | unreadable (path reason : String)
  | optimizer (name : String)
  deriving DecidableEq, Repr

inductive Extent
  | images (s : Shape)
  | outputs (n : Nat)
  deriving DecidableEq, Repr

inductive Error
  | io
  | json
  | image
  | dataset (cause : DatasetError)
  | invalidSpec (cause : ModelError)
  | shapeMismatch (expected actual : Extent)
  | config (cause : ConfigError)
  /-- An operation was used outside its contract: a position past a buffer, or a buffer of another
  length. -/
  | misuse
  /-- A number that is derived from the sizes of a description or of a layer has more than 64 bits. -/
  | overflow
  deriving DecidableEq, Repr

def hexByte (b : Nat) : String :=
  let digit (n : Nat) : Char := Char.ofNat (if n < 10 then 48 + n else 55 + n)
  String.ofList ['0', 'x', digit (b / 16), digit (b % 16)]

def IdxError.message : IdxError → String
  | shortHeader what expected actual =>
    s!"IDX {what} file too short: expected at least {expected} header bytes, got {actual}."
  | reserved what first second =>
    s!"IDX {what} file: bytes 0-1 must be 0x00 0x00 (reserved), got {hexByte first} {hexByte second}."
  | elementType what actual =>
    s!"IDX {what} file: byte 2 (dtype) must be 0x08 (uint8), got {hexByte actual}."
  | dimensions what expected actual =>
    s!"IDX {what} file: byte 3 (dimensions) must be {expected}, got {actual}."
  | sizeOverflow rows cols =>
    s!"IDX image file: rows * cols overflows usize (rows={rows}, cols={cols})."
  | lengthOverflow => "IDX image file: data length overflows usize."
  | shortImages items rows cols needed actual =>
    s!"IDX image file too short: header declares {items} items of {rows}×{cols} pixels " ++
      s!"({needed} data bytes needed after header), but file is only {actual} bytes total."
  | emptyImages rows cols => s!"IDX image file declares empty {rows}×{cols} images."
  | shortLabels items actual needed =>
    s!"IDX label file too short: header declares {items} labels but file is only {actual} bytes " ++
      s!"(need at least {needed} bytes)."
  | countMismatch images labels =>
    s!"IDX file mismatch: image file declares {images} items but label file declares {labels}."

def DatasetError.message : DatasetError → String
  | countMismatch images labels => s!"{images} images but {labels} labels"
  | fewClasses classes => s!"n_classes must be at least 2, got {classes}."
  | labelOutOfRange index label classes =>
    s!"label at index {index}: class index {label} is out of range for n_classes={classes}."
  | idx e => e.message
  | partialRecord length record =>
    s!"CIFAR-10 batch length {length} is not a positive multiple of the {record}-byte record size."
  | noFile candidates directory =>
    "none of [" ++ ", ".intercalate candidates ++ s!"] found in '{directory}'"
  | zeroVariance => "cannot standardize: training pixels have zero variance"
  | nothingToEvaluate => "cannot evaluate on an empty dataset"
  | noTrainingSamples => "training set is empty"

def LayerSpecError.message : LayerSpecError → String
  | convolution filters kernelSize strides =>
    "Conv2D filters, kernel_size and strides must be positive " ++
      s!"(got {filters}, {kernelSize}, {strides})"
  | pooling kind => s!"{kind} pool_size and strides must be positive"
  | units => "Dense units must be positive"
  | rate text => s!"Dropout rate must be in [0, 1), got {text}"
  | needsSpatial input => s!"Conv2D needs a spatial input, got {input.text}"
  | needsFlat input => s!"Dense expects a flat input, got {input.text}; add a Flatten layer first"
  | emptyOutput kind input => s!"{kind} turns input {input.text} into an empty output"

def LayerError.message : LayerError → String
  | emptyInput input => s!"empty input shape {input.text}"
  | convolution filters kernelSize stride =>
    s!"filters {filters}, kernel_size {kernelSize} and stride {stride} must be at least 1"
  | kernelLength actual expected => s!"kernel has {actual} values, expected {expected}"
  | biasLength actual expected => s!"bias has {actual} values, expected {expected}"
  | pooling poolSize stride => s!"pool_size {poolSize} and stride {stride} must be at least 1"
  | weightsLength actual rows cols => s!"weights have {actual} values, expected {rows}x{cols}"
  | biasesLength actual expected => s!"biases have {actual} values, expected {expected}"
  | rate text => s!"rate {text} is outside [0, 1)"
  | emptyOutput input => s!"input {input.text} produces an empty output"

def ModelError.message : ModelError → String
  | emptyInput input => s!"input shape {input.sidesText} is empty"
  | noLayers => "model has no layers"
  | description index cause => s!"layer {index}: {cause.message}"
  | innerSoftmax index kind =>
    s!"layer {index} ({kind}): softmax is only supported as the final activation"
  | softmaxRequired => "categorical_crossentropy requires a softmax output layer"
  | softmaxForbidden => "a softmax output must be trained with categorical_crossentropy"
  | outputNotFlat output => s!"model output must be flat, got {output.text}"
  | savedWithoutLayers => "saved model has no layers"
  | layer none kind cause => s!"{kind} layer: {cause.message}"
  | layer (some index) kind cause => s!"layer {index}: {kind} layer: {cause.message}"
  | chain index kind expected actual =>
    s!"layer {index} ({kind}) expects {expected.text} but receives {actual.text}"

def ConfigError.message : ConfigError → String
  | epochs => "epochs must be at least 1"
  | batchSize => "batch_size must be at least 1"
  | validationSplit text => s!"validation_split must be in [0, 1), got {text}"
  | learningRate text => s!"learning_rate must be positive, got {text}"
  | inputShape model dataset images =>
    s!"model input shape {model.sidesText} does not match {dataset} images {images.sidesText}"
  | outputs model dataset classes =>
    s!"model has {model} outputs but {dataset} has {classes} classes"
  | unreadable path reason => s!"cannot open config '{path}': {reason}"
  | optimizer name => s!"unknown optimizer '{name}'"

def Extent.text : Extent → String
  | images s => s.sidesText
  | outputs n => s!"{n} output units"

/-- The text of an error; the causes that lie outside the library have none of their own. -/
def Error.message : Error → String
  | io => "I/O error"
  | json => "JSON error"
  | image => "image encoding error"
  | dataset cause => s!"dataset error: {cause.message}"
  | invalidSpec cause => s!"invalid model spec: {cause.message}"
  | shapeMismatch expected actual => s!"shape mismatch: expected {expected.text}, got {actual.text}"
  | config cause => s!"configuration error: {cause.message}"
  | misuse => "operation used outside its contract"
  | overflow => "size of more than 64 bits"

abbrev Result (β : Type) := Except Error β

def require (holds : Bool) : Result Unit := if holds then .ok () else .error .misuse

/-- Refuses sizes that are no numbers of 64 bits. -/
def requireWord (holds : Bool) : Result Unit := if holds then .ok () else .error .overflow

end Convnet
