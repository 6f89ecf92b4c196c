import Convnet.Tensor

namespace Convnet

structure Matrix (α : Type) where
  rows : Nat
  cols : Nat
  data : Array α
  deriving DecidableEq, Inhabited

namespace Matrix

variable {α : Type}

def Sized (m : Matrix α) : Prop := m.data.size = m.rows * m.cols

instance (m : Matrix α) : Decidable m.Sized := inferInstanceAs (Decidable (_ = _))

def empty : Matrix α := ⟨0, 0, #[]⟩

def ofBuffer (rows cols : Nat) (data : Array α) : Result (Matrix α) := do
  require (data.size == rows * cols)
  return ⟨rows, cols, data⟩

def index (m : Matrix α) (i j : Nat) : Nat := i * m.cols + j

/-- The entry at a place of the buffer; only the place has to lie inside, not the column. -/
def get? (m : Matrix α) (i j : Nat) : Result α :=
  match m.data[m.index i j]? with
  | some v => .ok v
  | none => .error .misuse

def hasRow (m : Matrix α) (i : Nat) : Bool := (i + 1) * m.cols ≤ m.data.size

def row? (m : Matrix α) (i : Nat) : Result (Array α) := do
  require (m.hasRow i)
  return m.data.extract (i * m.cols) ((i + 1) * m.cols)

variable [Scalar α]

def zeros (rows cols : Nat) : Matrix α := ⟨rows, cols, Buffer.zeros (rows * cols)⟩

def zeros? (rows cols : Nat) : Result (Matrix α) := do
  require (Buffer.fits (rows * cols))
  return zeros rows cols

/-- The row vector `x` times the matrix. Rows whose factor is zero are passed over. -/
@[specialize] def vecMul (m : Matrix α) (x : Array α) : Array α :=
  m.rows.fold (fun i _ out =>
    let v := Buffer.read x i
    if v == 0 then out else Buffer.axpy out 0 v m.data (i * m.cols) m.cols) (Buffer.zeros m.cols)

@[specialize] def mulVec (m : Matrix α) (d : Array α) : Array α :=
  Array.ofFn fun (i : Fin m.rows) => Buffer.dot m.data (i * m.cols) d 0 m.cols

@[specialize] def addOuter (m : Matrix α) (x d : Array α) : Matrix α :=
  { m with
    data := m.rows.fold (fun i _ data =>
      let v := Buffer.read x i
      if v == 0 then data else Buffer.axpy data (i * m.cols) v d 0 m.cols) m.data }

def transpose (m : Matrix α) : Matrix α :=
  ⟨m.cols, m.rows, Array.ofFn fun (k : Fin (m.cols * m.rows)) =>
    Buffer.read m.data (m.index (k % m.rows) (k / m.rows))⟩

/-- Whether the rows that `x` reaches with a factor other than zero lie in the buffer. -/
@[specialize] def coversRows (m : Matrix α) (x : Array α) : Bool :=
  decide m.Sized || (List.range m.rows).all fun i => Buffer.read x i == 0 || m.hasRow i

def coversAll (m : Matrix α) : Bool :=
  m.rows == 0 || m.rows * m.cols ≤ m.data.size

@[specialize] def vecMul? (m : Matrix α) (x : Array α) : Result (Array α) := do
  require (x.size == m.rows && Buffer.fits m.cols && m.coversRows x)
  return m.vecMul x

@[specialize] def mulVec? (m : Matrix α) (d : Array α) : Result (Array α) := do
  require (d.size == m.cols && Buffer.fits m.rows && m.coversAll)
  return m.mulVec d

@[specialize] def addOuter? (m : Matrix α) (x d : Array α) : Result (Matrix α) := do
  require (x.size == m.rows && d.size == m.cols && m.coversRows x)
  return m.addOuter x d

def transpose? (m : Matrix α) : Result (Matrix α) := do
  require (Buffer.fits (m.rows * m.cols) && m.coversAll)
  return m.transpose

end Matrix

namespace Matrix

variable {α : Type} [JsonNumber α]

def toJson (m : Matrix α) : Json :=
  .record [("rows", .ofNat m.rows), ("cols", .ofNat m.cols), ("data", .ofNumbers m.data)]

def ofJson? (v : Json) : Option (Matrix α) := do
  let [r, c, d] ← v.slots ["rows", "cols", "data"] | none
  return ⟨← r.required Json.size?, ← c.required Json.size?,
    ← d.required Json.numbers?⟩

end Matrix
end Convnet
