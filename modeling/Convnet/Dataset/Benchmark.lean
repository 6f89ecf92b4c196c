import Convnet.Dataset.Cifar

namespace Convnet

inductive Benchmark
  | mnist
  | fashionMnist
  | cifar10
  deriving DecidableEq, Repr, Inhabited

namespace Benchmark

def tag : Benchmark → String
  | mnist => "mnist"
  | fashionMnist => "fashion_mnist"
  | cifar10 => "cifar10"

def title : Benchmark → String
  | mnist => "MNIST"
  | fashionMnist => "Fashion-MNIST"
  | cifar10 => "CIFAR-10"

def all : List Benchmark := [mnist, fashionMnist, cifar10]

def toJson (k : Benchmark) : Json := .ofString k.tag

def ofJson? (v : Json) : Option Benchmark := v.name? (all.map fun k => (k.tag, k))

def inputShape : Benchmark → Shape
  | mnist | fashionMnist => ⟨28, 28, 1⟩
  | cifar10 => Cifar.shape

def numClasses (_ : Benchmark) : Nat := 10

def classNames : Benchmark → List String
  | mnist => (List.range 10).map toString
  | fashionMnist => ["T-shirt/top", "Trouser", "Pullover", "Dress", "Coat",
      "Sandal", "Shirt", "Sneaker", "Bag", "Ankle boot"]
  | cifar10 => Cifar.classNames

inductive Split
  | train
  | test
  deriving DecidableEq, Repr

/-- The files of one part, each with the names it may have. -/
def fileNames : Benchmark → Split → List (List String)
  | cifar10, .train => (List.range 5).map fun i =>
    let name := s!"data_batch_{i + 1}.bin"
    [name, "cifar-10-batches-bin/" ++ name]
  | cifar10, .test => [["test_batch.bin", "cifar-10-batches-bin/test_batch.bin"]]
  | _, part =>
    let stem := match part with
      | .train => "train"
      | .test => "t10k"
    [[stem ++ "-images-idx3-ubyte", stem ++ "-images.idx3-ubyte"],
      [stem ++ "-labels-idx1-ubyte", stem ++ "-labels.idx1-ubyte"]]

def places (k : Benchmark) (directory : String) (part : Split) : List String :=
  (k.fileNames part).flatten.map (Disk.join directory)

def find (d : Disk) (directory : String) (candidates : List String) : Result String :=
  match (candidates.map (Disk.join directory)).find? d.isFile with
  | some path => .ok path
  | none => .error (.dataset (.noFile candidates directory))

variable {α : Type} [Scalar α]

def loadFiles (k : Benchmark) (d : Disk) (paths : List String) : Result (Dataset α) :=
  match k, paths with
  | cifar10, paths => Cifar.load d paths
  | k, [images, labels] => Idx.loadPair d images labels k.numClasses
  | _, _ => .error .misuse

/-- Reads one part, with raw pixel values. -/
def loadSplit (k : Benchmark) (d : Disk) (directory : String) (part : Split) :
    Result (Dataset α) := do
  let paths ← (k.fileNames part).mapM (find d directory)
  let data ← k.loadFiles d paths
  if data.shape ≠ k.inputShape then
    throw (.shapeMismatch (.images k.inputShape) (.images data.shape))
  return data.withClassNames k.classNames

def load (k : Benchmark) (d : Disk) (directory : String) : Result (Dataset α × Dataset α) := do
  let train ← k.loadSplit d directory .train
  let test ← k.loadSplit d directory .test
  return (train, test)

end Benchmark
end Convnet
