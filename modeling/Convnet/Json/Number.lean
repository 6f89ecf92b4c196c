import Convnet.Json.Decode

namespace Convnet

/-- How a number is written into a document and read back. -/
class JsonNumber (α : Type) where
  toJson : α → Json
  ofJson? : Json → Option α

instance : JsonNumber Float where
  toJson := Json.ofFloat
  ofJson? := Json.float?

namespace Json

variable {α : Type} [JsonNumber α]

def ofNumber (x : α) : Json := JsonNumber.toJson x

def ofNumbers (xs : Array α) : Json := .array (xs.toList.map JsonNumber.toJson)

def number? (v : Json) : Option α := JsonNumber.ofJson? v

def numbers? (v : Json) : Option (Array α) := array? number? v

end Json
end Convnet
