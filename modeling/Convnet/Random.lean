import Convnet.Scalar.Float

namespace Convnet

class RandomSource (σ : Type) where
  fraction : σ → Nat × σ
  index : Nat → σ → Nat × σ

namespace RandomSource

variable {α : Type} [Scalar α] {σ : Type} [RandomSource σ]

def unit (s : σ) : α × σ :=
  let (k, s) := fraction s
  ((k : α) / ((Nat.pow 2 53 : Nat) : α), s)

def shuffleFrom (xs : Array Nat) (s : σ) : Nat → Array Nat × σ
  | 0 => (xs, s)
  | 1 => (xs, s)
  | n + 2 =>
    let (j, s) := index (n + 2) s
    shuffleFrom (xs.swapIfInBounds (n + 1) j) s (n + 1)

/-- Exchanges each place, the last one first, with one at or before it. -/
def shuffle (xs : Array Nat) (s : σ) : Array Nat × σ := shuffleFrom xs s xs.size

end RandomSource

/-- A stream of 32-bit words: its key, the block that is being read, and how much of it was. -/
structure Stream where
  key : Array UInt32
  counter : UInt64
  block : Array UInt32
  used : Nat
  deriving Inhabited

namespace Stream

@[inline] def rotl (x : UInt32) (k : UInt32) : UInt32 := (x <<< k) ||| (x >>> (32 - k))

def mix : Nat → UInt32 → UInt32 → UInt32 → UInt32 → UInt32 → UInt32 → UInt32 → UInt32 →
    UInt32 → UInt32 → UInt32 → UInt32 → UInt32 → UInt32 → UInt32 → UInt32 → Array UInt32
  | 0, a, b, c, d, e, f, g, h, i, j, k, l, m, n, o, p => #[a, b, c, d, e, f, g, h, i, j, k, l, m, n, o, p]
  | r + 1, a, b, c, d, e, f, g, h, i, j, k, l, m, n, o, p =>
    let a := a + e; let m := rotl (m ^^^ a) 16; let i := i + m; let e := rotl (e ^^^ i) 12
    let a := a + e; let m := rotl (m ^^^ a) 8; let i := i + m; let e := rotl (e ^^^ i) 7
    let b := b + f; let n := rotl (n ^^^ b) 16; let j := j + n; let f := rotl (f ^^^ j) 12
    let b := b + f; let n := rotl (n ^^^ b) 8; let j := j + n; let f := rotl (f ^^^ j) 7
    let c := c + g; let o := rotl (o ^^^ c) 16; let k := k + o; let g := rotl (g ^^^ k) 12
    let c := c + g; let o := rotl (o ^^^ c) 8; let k := k + o; let g := rotl (g ^^^ k) 7
    let d := d + h; let p := rotl (p ^^^ d) 16; let l := l + p; let h := rotl (h ^^^ l) 12
    let d := d + h; let p := rotl (p ^^^ d) 8; let l := l + p; let h := rotl (h ^^^ l) 7
    let a := a + f; let p := rotl (p ^^^ a) 16; let k := k + p; let f := rotl (f ^^^ k) 12
    let a := a + f; let p := rotl (p ^^^ a) 8; let k := k + p; let f := rotl (f ^^^ k) 7
    let b := b + g; let m := rotl (m ^^^ b) 16; let l := l + m; let g := rotl (g ^^^ l) 12
    let b := b + g; let m := rotl (m ^^^ b) 8; let l := l + m; let g := rotl (g ^^^ l) 7
    let c := c + h; let n := rotl (n ^^^ c) 16; let i := i + n; let h := rotl (h ^^^ i) 12
    let c := c + h; let n := rotl (n ^^^ c) 8; let i := i + n; let h := rotl (h ^^^ i) 7
    let d := d + e; let o := rotl (o ^^^ d) 16; let j := j + o; let e := rotl (e ^^^ j) 12
    let d := d + e; let o := rotl (o ^^^ d) 8; let j := j + o; let e := rotl (e ^^^ j) 7
    mix r a b c d e f g h i j k l m n o p

def blockAt (key : Array UInt32) (counter : UInt64) : Array UInt32 :=
  let k (i : Nat) : UInt32 := key.getD i 0
  let low : UInt32 := counter.toUInt32
  let high : UInt32 := (counter >>> 32).toUInt32
  let start : Array UInt32 := #[0x61707865, 0x3320646e, 0x79622d32, 0x6b206574,
    k 0, k 1, k 2, k 3, k 4, k 5, k 6, k 7, low, high, 0, 0]
  let mixed := mix 6 0x61707865 0x3320646e 0x79622d32 0x6b206574
    (k 0) (k 1) (k 2) (k 3) (k 4) (k 5) (k 6) (k 7) low high 0 0
  Array.zipWith (· + ·) mixed start

def next (s : Stream) : UInt32 × Stream :=
  if h : s.used < s.block.size then
    (s.block[s.used], { s with used := s.used + 1 })
  else
    let block := blockAt s.key s.counter
    (block.getD 0 0, { s with counter := s.counter + 1, block := block, used := 1 })

def next64 (s : Stream) : UInt64 × Stream :=
  let (low, s) := s.next
  let (high, s) := s.next
  (low.toUInt64 ||| (high.toUInt64 <<< 32), s)

def keyWords : Nat → UInt64 → List UInt32
  | 0, _ => []
  | n + 1, s =>
    let s := s * 6364136223846793005 + 11634580027462260723
    let x := (((s >>> 18) ^^^ s) >>> 27).toUInt32
    let turn := (s >>> 59).toUInt32
    let word := (x >>> turn) ||| (x <<< ((32 - turn) % 32))
    word :: keyWords n s

def ofSeed (seed : Nat) : Stream := ⟨(keyWords 8 (UInt64.ofNat seed)).toArray, 0, #[], 0⟩

/-- The largest low half of a product that is accepted when an index below `n` is drawn: the excess
over a multiple of `n` is refused. -/
def zone (n : Nat) : Nat := n * Nat.pow 2 (31 - n.log2) - 1

/-- Draws until the low half of the product with `n` is accepted; more than half of all draws are. -/
def indexLoop (n : Nat) : Nat → Stream → Nat × Stream
  | 0, s => (0, s)
  | fuel + 1, s =>
    let (w, s) := s.next
    let p := w.toNat * n
    if p % Nat.pow 2 32 ≤ zone n then (p / Nat.pow 2 32, s) else indexLoop n fuel s

def fraction (s : Stream) : Nat × Stream :=
  let (w, s) := s.next64
  (w.toNat / Nat.pow 2 11, s)

instance : RandomSource Stream where
  fraction := fraction
  index n s := indexLoop n 4096 s

def unitOfBits (w : UInt64) : Float := Float.ofBits ((w >>> 12) ||| 0x3FF0000000000000) - 1.0

def symmetricLoop (limit : Float) : Nat → Stream → Float × Stream
  | 0, s => (-limit, s)
  | fuel + 1, s =>
    let (w, s) := s.next64
    let x := unitOfBits w * (limit - -limit) + -limit
    if x < limit then (x, s) else symmetricLoop limit fuel s

def symmetric (limit : Float) (s : Stream) : Float × Stream := symmetricLoop limit 4096 s

@[specialize]
def many {β : Type} (draw : Stream → β × Stream) (n : Nat) (s : Stream) : Array β × Stream :=
  n.fold (fun _ _ (acc, s) =>
    let (b, s) := draw s
    (acc.push b, s)) (Array.emptyWithCapacity n, s)

end Stream
end Convnet
