import Mathlib.Tactic.FieldSimp
import Mathlib.Tactic.Ring
import Convnet.Proofs.Sums
import Convnet.Proofs.Stack

namespace Convnet

open Finset Convnet.Dual

variable {K : Type} [Field K] [LinearOrder K] [Elementary K]

namespace Buffer

def vary (a : Array K) (w : Nat → K) : Array (DualNumber K) := a.mapIdx fun i x => of x (w i)

omit [Field K] [LinearOrder K] [Elementary K] in
@[simp] theorem size_vary (a : Array K) (w : Nat → K) : (vary a w).size = a.size := by simp [vary]

/-- Whether the numbers of one buffer are those of another. -/
def Follows (A : Array (DualNumber K)) (a : Array K) : Prop := A.map value = a

omit [LinearOrder K] [Elementary K] in
theorem Follows.size {A : Array (DualNumber K)} {a : Array K} (h : Follows A a) : A.size = a.size := by
  rw [← h, Array.size_map]

theorem Follows.read {A : Array (DualNumber K)} {a : Array K} (h : Follows A a) (i : Nat) :
    value (read A i) = read a i := by
  subst h
  by_cases hi : i < A.size
  · rw [read_of_lt hi, read_of_lt (by simpa using hi), Array.getElem_map]
  · rw [read_of_le (by omega), read_of_le (by simpa using hi)]
    rfl

theorem follows_of_read {A : Array (DualNumber K)} {a : Array K} (hs : A.size = a.size)
    (h : ∀ i < a.size, value (Buffer.read A i) = Buffer.read a i) : Follows A a := by
  refine Array.ext (by simpa using hs) fun i h₁ h₂ => ?_
  have hi : i < A.size := by simpa using h₁
  rw [Array.getElem_map, ← read_of_lt hi, ← read_of_lt h₂]
  exact h i h₂

theorem vary_follows (a : Array K) (w : Nat → K) : Follows (vary a w) a := by
  refine follows_of_read (by simp) fun i hi => ?_
  rw [read_of_lt (by simpa using hi), read_of_lt hi]
  simp [vary]

theorem rate_vary {a : Array K} {i : Nat} (h : i < a.size) (w : Nat → K) :
    rate (Buffer.read (vary a w) i) = w i := by
  rw [read_of_lt (by simpa using h)]
  simp [vary]

theorem follows_of_total {A : Array (DualNumber K)} {a : Array K} (hs : A.size = a.size)
    (h : ∀ ψ : Nat → K →+ K, total (fun i => (ψ i).comp value) A = total ψ a) : Follows A a := by
  refine follows_of_read hs fun i hi => ?_
  have hpick : (fun j => (pick (AddMonoidHom.id K) i j).comp value) = pick value i := by
    funext j
    unfold pick
    split <;> rfl
  have hi' : i < A.size := hs.symm ▸ hi
  calc value (Buffer.read A i) = total (pick value i) A := (total_pick value hi').symm
    _ = total (pick (AddMonoidHom.id K) i) a := by rw [← hpick, h]
    _ = Buffer.read a i := total_pick _ hi

/-- The rate of change of the sum of a buffer whose numbers are weighed by those of another. -/
def slope (g : Array K) (A : Array (DualNumber K)) : K :=
  total (fun i => (AddMonoidHom.mulLeft (Buffer.read g i)).comp rate) A

theorem slope_eq_sum (g : Array K) (A : Array (DualNumber K)) :
    slope g A = ∑ i ∈ range A.size, Buffer.read g i * rate (Buffer.read A i) := rfl

def along (w : Nat → K) (a : Array K) : K := total (fun i => AddMonoidHom.mulRight (w i)) a

theorem along_eq_sum (w : Nat → K) (a : Array K) :
    along w a = ∑ i ∈ range a.size, Buffer.read a i * w i := rfl

theorem along_sub {a b : Array K} (h : a.size = b.size) (w : Nat → K) :
    along w (zipKeep (· - ·) a b) = along w a - along w b :=
  total_zipKeep_sub _ h

theorem slope_eq_along {g : Array K} {A : Array (DualNumber K)} (h : A.size = g.size) :
    slope g A = along (fun i => rate (Buffer.read A i)) g := by
  rw [slope_eq_sum, along_eq_sum, h]

end Buffer

namespace Activation

open Buffer

/-- The activation without the softmax, which leaves the logits. -/
def beforeSoftmax : Activation → Activation
  | softmax => linear
  | a => a

theorem derivative_beforeSoftmax (a : Activation) (x : K) :
    a.beforeSoftmax.derivative x = a.derivative x := by
  cases a <;> rfl

def point {α : Type} [Scalar α] (a : Activation) (x : α) : α := (a.function? x).getD x

theorem logistic_dual (x : DualNumber K) : logistic x =
    Dual.of (logistic (value x)) (logistic (value x) * (1 - logistic (value x)) * rate x) := by
  -- The quotient rule is stated with a square below the line, the derivative without a quotient.
  obtain ⟨e, he⟩ : ∃ e, e = Elementary.eulerPow (-value x) := ⟨_, rfl⟩
  have hv : logistic (value x) = 1 / (1 + e) := by
    rw [he]
    rfl
  have hd : logistic x = Dual.of (1 / (1 + e)) ((0 * (1 + e) - 1 * (0 + e * -rate x)) /
      ((1 + e) * (1 + e))) := by
    rw [he]
    rfl
  rw [hd, hv]
  refine Dual.ext (by simp) ?_
  rw [rate_of, rate_of]
  rcases eq_or_ne (1 + e) 0 with h | h
  · simp [h]
  · field_simp
    ring

/-- Over dual numbers an activation multiplies the rate by its derivative. -/
theorem point_dual (a : Activation) (x : DualNumber K) :
    a.point x = Dual.of (a.point (value x)) (a.derivative (value x) * rate x) := by
  cases a with
  | relu =>
      have hdual : relu.point x = if 0 < value x then x else 0 := rfl
      have hval : relu.point (value x) = if 0 < value x then value x else 0 := rfl
      have hder : relu.derivative (value x) = if 0 < value x then 1 else 0 := rfl
      rw [hdual, hval, hder]
      split
      · exact Dual.ext (by simp) (by simp)
      · exact Dual.ext (by simp) (by simp)
  | sigmoid => exact logistic_dual x
  | tanh => rfl
  | softmax =>
      have hdual : softmax.point x = x := rfl
      exact Dual.ext (by rw [hdual, value_of]; rfl) (by rw [hdual, rate_of]; exact (one_mul _).symm)
  | linear =>
      have hdual : linear.point x = x := rfl
      exact Dual.ext (by rw [hdual, value_of]; rfl) (by rw [hdual, rate_of]; exact (one_mul _).symm)

theorem apply_beforeSoftmax {α : Type} [Scalar α] (a : Activation) (z : Array α) :
    a.beforeSoftmax.apply z = z.map a.beforeSoftmax.point := by
  cases a <;> rfl

theorem apply_follows (a : Activation) {Z : Array (DualNumber K)} {z : Array K} (h : Follows Z z) :
    Follows (a.beforeSoftmax.apply Z) (a.beforeSoftmax.apply z) := by
  refine follows_of_read (by simp [h.size]) fun i hi => ?_
  have hz : i < z.size := by simpa using hi
  have hZ : i < Z.size := h.size.symm ▸ hz
  have hread := h.read i
  rw [read_of_lt hZ, read_of_lt hz] at hread
  rw [read_of_lt (by simpa using hZ), read_of_lt hi]
  simp only [apply_beforeSoftmax, Array.getElem_map]
  rw [point_dual, value_of, hread]

theorem read_backprop (a : Activation) {g z : Array K} {i : Nat} (hg : i < g.size) (hz : i < z.size) :
    Buffer.read (a.backprop g z) i = Buffer.read g i * a.derivative (Buffer.read z i) := by
  cases a with
  | relu | sigmoid | tanh => exact read_zipKeep hg hz
  | softmax | linear => exact (mul_one _).symm

/-- What a gradient weighs behind an activation, its product with the derivative weighs in front. -/
theorem slope_apply (a : Activation) {Z : Array (DualNumber K)} {z : Array K} (h : Follows Z z)
    {g : Array K} (hg : g.size = z.size) :
    Buffer.slope g (a.beforeSoftmax.apply Z) = Buffer.slope (a.backprop g z) Z := by
  rw [slope_eq_sum, slope_eq_sum, size_apply]
  refine sum_congr rfl fun i hi => ?_
  have hZ : i < Z.size := mem_range.mp hi
  have hz : i < z.size := h.size ▸ hZ
  have hread := h.read i
  have hout : Buffer.read (a.beforeSoftmax.apply Z) i = a.beforeSoftmax.point (Buffer.read Z i) := by
    rw [read_of_lt (by simpa using hZ), read_of_lt hZ]
    simp only [apply_beforeSoftmax, Array.getElem_map]
  rw [hout, point_dual, rate_of, derivative_beforeSoftmax, hread, read_backprop a (hg ▸ hz) hz,
    mul_assoc]

end Activation

structure Tensor.Follows (X : Tensor (DualNumber K)) (x : Tensor K) : Prop where
  shape : X.shape = x.shape
  data : Buffer.Follows X.data x.data

namespace Convolution

open Buffer

def vary (l : Convolution K) (w w' : Nat → K) : Convolution (DualNumber K) where
  filters := l.filters
  kernelSize := l.kernelSize
  stride := l.stride
  padding := l.padding
  activation := l.activation
  inputShape := l.inputShape
  kernel := Buffer.vary l.kernel w
  bias := Buffer.vary l.bias w'
  kernelGrad := #[]
  biasGrad := #[]
  input := none
  preActivation := none

variable {l : Convolution K} {x : Tensor K} {X : Tensor (DualNumber K)}

omit [Field K] [LinearOrder K] [Elementary K] in
theorem taps_vary (l : Convolution K) (w w' : Nat → K) : (l.vary w w').taps = l.taps := rfl

theorem response_follows (h : X.Follows x) (w w' : Nat → K) :
    Buffer.Follows ((l.vary w w').response X).data (l.response x).data := by
  refine follows_of_total (by simp [vary, outputShape, rows, columns]) fun ψ => ?_
  rw [total_response, total_response, total_biasMap, total_biasMap, taps_vary]
  congr 1
  · refine sum_congr rfl fun o _ => ?_
    exact congrArg (ψ o) ((vary_follows l.bias w').read _)
  · congr 1
    refine List.map_congr_left fun t _ => sum_congr rfl fun f _ => ?_
    refine congrArg (ψ _) ?_
    rw [value_mul, Tensor.get, Tensor.get, Tensor.index, Tensor.index, h.shape, h.data.read,
      ← (vary_follows l.kernel w).read]
    rfl

theorem slope_biasMap (hb : l.bias.size = l.filters) (w w' : Nat → K) (delta : Array K) :
    Buffer.slope delta (l.vary w w').biasMap =
      ∑ p ∈ range (l.rows * l.columns), ∑ f ∈ range l.filters,
        Buffer.read delta (p * l.filters + f) * w' f := by
  rw [Buffer.slope, total_biasMap]
  refine (sum_range_rows (l.rows * l.columns) l.filters _).trans ?_
  refine sum_congr rfl fun p _ => sum_congr rfl fun f hf => ?_
  have hf := mem_range.mp hf
  have hplace : (p * l.filters + f) % l.filters = f := by
    rw [Nat.add_comm, Nat.add_mul_mod_self_right, Nat.mod_eq_of_lt hf]
  show Buffer.read delta (p * l.filters + f) *
    rate (Buffer.read (Buffer.vary l.bias w') ((p * l.filters + f) % l.filters)) = _
  rw [hplace, rate_vary (hb ▸ hf)]

theorem slope_response (hk : l.kernel.size = l.kernelLength) (hb : l.bias.size = l.filters)
    (hkg : l.kernelGrad.size = l.kernelLength) (hbg : l.biasGrad.size = l.filters)
    (hx : x.shape = l.inputShape) (h : X.Follows x) (w w' : Nat → K) (delta : Array K) :
    Buffer.slope delta ((l.vary w w').response X).data =
      along (fun i => rate (Buffer.read X.data i)) (l.inputGradient delta).data +
        (along w (l.kernelGradient x delta) - along w l.kernelGrad) +
        (along w' (l.biasGradient delta) - along w' l.biasGrad) := by
  have hbias := slope_biasMap hb w w' delta
  rw [Buffer.slope] at hbias
  rw [Buffer.slope, total_response, hbias, along, along, along, along, along, total_inputGradient,
    total_kernelGradient _ hkg, total_biasGradient _ hbg, taps_vary]
  have hterm : ∀ t ∈ l.taps, (∑ f ∈ range l.filters, Buffer.read delta (t.out + f) *
      rate (X.get (X.index t.y t.x t.channel) * Buffer.read (Buffer.vary l.kernel w) (t.weight + f))) =
      (∑ f ∈ range l.filters, Buffer.read l.kernel (t.weight + f) * Buffer.read delta (t.out + f)) *
        rate (Buffer.read X.data (l.inputShape.index t.y t.x t.channel)) +
      ∑ f ∈ range l.filters, x.get (x.index t.y t.x t.channel) * Buffer.read delta (t.out + f) *
        w (t.weight + f) := by
    intro t ht
    obtain ⟨-, hweight, -⟩ := tap_bounds ht
    rw [sum_mul, ← sum_add_distrib]
    refine sum_congr rfl fun f hf => ?_
    have hf := mem_range.mp hf
    have hin : X.index t.y t.x t.channel = l.inputShape.index t.y t.x t.channel := by
      rw [Tensor.index, h.shape, hx]
    have hxin : x.index t.y t.x t.channel = l.inputShape.index t.y t.x t.channel := by
      rw [Tensor.index, hx]
    rw [rate_mul, Tensor.get, Tensor.get, hin, hxin, h.data.read, (vary_follows l.kernel w).read,
      rate_vary (by omega)]
    ring
  have hsum := congrArg List.sum (List.map_congr_left hterm)
  rw [List.sum_map_add] at hsum
  rw [add_sub_cancel_left, add_sub_cancel_left, add_comm]
  exact congrArg (· + _) hsum

end Convolution

namespace Dense

open Buffer

def vary (l : Dense K) (w w' : Nat → K) : Dense (DualNumber K) :=
  ⟨⟨l.weights.rows, l.weights.cols, Buffer.vary l.weights.data w⟩, Buffer.vary l.biases w',
    l.activation, .empty, #[], #[], #[]⟩

variable {l : Dense K} {x : Array K} {X : Array (DualNumber K)}

theorem total_response {R : Type} [ExactScalar R] {M : Type} [AddCommMonoid M] (φ : Nat → R →+ M)
    {l : Dense R} (hb : l.biases.size = l.weights.cols) (x : Array R) :
    total φ (l.response x) = total φ (l.weights.vecMul x) +
      ∑ j ∈ range l.weights.cols, φ j (Buffer.read l.biases j) := by
  rw [response, total_zipKeep_add φ (by simp [hb]), Matrix.size_vecMul]

theorem response_follows (hb : l.biases.size = l.weights.cols) (h : Follows X x) (w w' : Nat → K) :
    Follows ((l.vary w w').response X) (l.response x) := by
  refine follows_of_total (by simp [vary]) fun ψ => ?_
  rw [total_response _ (by simp [vary, hb]), total_response _ hb, Matrix.total_vecMul,
    Matrix.total_vecMul]
  congr 1
  · refine sum_congr rfl fun i _ => sum_congr rfl fun j _ => ?_
    refine congrArg (ψ _) ?_
    rw [value_mul, h.read, ← (vary_follows l.weights.data w).read]
    rfl
  · refine sum_congr rfl fun j _ => ?_
    exact congrArg (ψ j) ((vary_follows l.biases w').read _)

theorem slope_response (hl : l.Sound) {g : Matrix K} (hg : g.Sized) (hr : g.rows = l.weights.rows)
    (hc : g.cols = l.weights.cols) {b : Array K} (hb : b.size = l.weights.cols) (h : Follows X x)
    (w w' : Nat → K) {delta : Array K} (hd : delta.size = l.weights.cols) :
    Buffer.slope delta ((l.vary w w').response X) =
      along (fun i => rate (Buffer.read X i)) (l.weights.mulVec delta) +
        (along w (g.addOuter x delta).data - along w g.data) +
        (along w' (zipKeep (· + ·) b delta) - along w' b) := by
  have hw : l.weights.data.size = l.weights.rows * l.weights.cols := hl.weights
  have hout : (l.vary w w').biases.size = (l.vary w w').weights.cols := by simp [vary, hl.biases]
  rw [Buffer.slope, total_response _ hout, along, along, along, along, along, Matrix.total_vecMul,
    Matrix.total_mulVec, Matrix.total_addOuter _ hg, total_zipKeep_add _ (by omega), hr, hc, hb,
    add_sub_cancel_left, add_sub_cancel_left]
  congr 1
  · rw [← sum_add_distrib]
    refine sum_congr rfl fun i hi => ?_
    have hrow : (i + 1) * l.weights.cols ≤ l.weights.rows * l.weights.cols :=
      Nat.mul_le_mul_right _ (mem_range.mp hi)
    rw [Nat.succ_mul] at hrow
    show _ = (∑ j ∈ range l.weights.cols, _) * rate (Buffer.read X i) + _
    rw [sum_mul, ← sum_add_distrib]
    refine sum_congr rfl fun j hj => ?_
    have hj := mem_range.mp hj
    show Buffer.read delta j * rate (Buffer.read X i *
        Buffer.read (Buffer.vary l.weights.data w) (i * l.weights.cols + j)) =
      Buffer.read l.weights.data (i * l.weights.cols + j) * Buffer.read delta j *
        rate (Buffer.read X i) +
      Buffer.read x i * Buffer.read delta j * w (i * l.weights.cols + j)
    rw [rate_mul, h.read, (vary_follows l.weights.data w).read, rate_vary (by omega)]
    ring
  · refine sum_congr rfl fun j hj => ?_
    have hj := mem_range.mp hj
    show Buffer.read delta j * rate (Buffer.read (Buffer.vary l.biases w') j) = _
    rw [rate_vary (by rw [hl.biases]; exact hj)]
    rfl

end Dense

namespace Pooling

open Buffer

def larger (x : Array K) (kept : Option Nat) (j : Nat) : Option Nat :=
  match kept with
  | none => some j
  | some i => if Buffer.read x i < Buffer.read x j then some j else some i

/-- The place of the largest number of a window. -/
def top (x : Array K) (places : List Nat) : Nat := (places.foldl (larger x) none).getD 0

theorem foldl_larger_isSome (x : Array K) (places : List Nat) {kept : Option Nat}
    (h : kept.isSome = true) : (places.foldl (larger x) kept).isSome = true := by
  induction places generalizing kept with
  | nil => exact h
  | cons j js ih =>
      refine ih ?_
      unfold larger
      split
      · rfl
      · split <;> rfl

theorem foldl_prefer_eq {S : Type} [Scalar S] {A : Array S} {x : Array K}
    (hall : ∀ a : S, Scalar.aboveBottom a = true)
    (hlt : ∀ i j, Buffer.read A i < Buffer.read A j ↔ Buffer.read x i < Buffer.read x j)
    (places : List Nat) (kept : Option Nat) :
    places.foldl (fun kept i => Scalar.prefer kept (Buffer.read A i) i)
        (kept.map fun i => (Buffer.read A i, i)) =
      (places.foldl (larger x) kept).map fun i => (Buffer.read A i, i) := by
  induction places generalizing kept with
  | nil => rfl
  | cons j js ih =>
      have hstep : Scalar.prefer (kept.map fun i => (Buffer.read A i, i)) (Buffer.read A j) j =
          (larger x kept j).map fun i => (Buffer.read A i, i) := by
        cases kept with
        | none => simp [Scalar.prefer, larger, hall]
        | some i =>
            simp only [Scalar.prefer, larger, Option.map_some, hlt]
            split <;> rfl
      rw [List.foldl_cons, List.foldl_cons, hstep, ih]

theorem best_eq {S : Type} [Scalar S] {A : Array S} {x : Array K}
    (hall : ∀ a : S, Scalar.aboveBottom a = true)
    (hlt : ∀ i j, Buffer.read A i < Buffer.read A j ↔ Buffer.read x i < Buffer.read x j)
    {places : List Nat} (h : places ≠ []) :
    best A places = (Buffer.read A (top x places), top x places) := by
  cases places with
  | nil => exact absurd rfl h
  | cons j js =>
      have hsome : (js.foldl (larger x) (some j)).isSome = true := foldl_larger_isSome x js rfl
      obtain ⟨i, hi⟩ := Option.isSome_iff_exists.mp hsome
      have htop : top x (j :: js) = i := by
        show (js.foldl (larger x) (some j)).getD 0 = i
        rw [hi]
        rfl
      have hfold := foldl_prefer_eq hall hlt (j :: js) none
      have hkept : (j :: js).foldl (larger x) none = some i := hi
      rw [hkept] at hfold
      rw [htop, best]
      exact congrArg (fun kept => kept.getD (Scalar.bottom, 0)) hfold

theorem windowOf_ne_nil {l : Pooling} (h : l.Sound) (s cells : Shape) (o : Nat) :
    l.windowOf s cells o ≠ [] := by
  refine List.ne_nil_of_mem (a := s.index (o / cells.channels / cells.width * l.stride + 0)
    (o / cells.channels % cells.width * l.stride + 0) (o % cells.channels)) ?_
  exact mem_windowOf.mpr ⟨0, h.poolSize, 0, h.poolSize, rfl⟩

variable {l : Pooling} {x : Tensor K} {X : Tensor (DualNumber K)}

theorem best_follows {X : Array (DualNumber K)} {x : Array K} (h : Follows X x) {places : List Nat}
    (hp : places ≠ []) : best X places = (Buffer.read X (top x places), top x places) := by
  refine best_eq (fun _ => rfl) (fun i j => ?_) hp
  rw [← h.read, ← h.read]
  exact Iff.rfl

theorem best_self (x : Array K) {places : List Nat} (hp : places ≠ []) :
    best x places = (Buffer.read x (top x places), top x places) :=
  best_eq (fun _ => rfl) (fun _ _ => Iff.rfl) hp

theorem mean_eq {R : Type} [ExactScalar R] (data : Array R) (l : Pooling) (places : List Nat) :
    l.mean data places = (places.map (Buffer.read data)).sum / l.area := by
  rw [mean, foldl_add_eq_sum]

theorem value_mean {X : Array (DualNumber K)} {x : Array K} (h : Follows X x) (l : Pooling)
    (places : List Nat) : value (l.mean X places) = l.mean x places := by
  rw [mean_eq, mean_eq, value_div, map_list_sum, List.map_map]
  have hread : value ∘ Buffer.read X = Buffer.read x := funext h.read
  rw [hread]
  rfl

theorem rate_mean (X : Array (DualNumber K)) (l : Pooling) (places : List Nat) :
    rate (l.mean X places) = (places.map fun i => rate (Buffer.read X i)).sum / (l.area : K) := by
  have harea : rate (l.area : DualNumber K) = 0 := rate_natCast _
  rw [mean_eq, rate_div harea, map_list_sum, List.map_map]
  rfl

theorem read_output {S : Type} [Scalar S] (l : Pooling) (X : Tensor S) {o : Nat}
    (ho : o < l.outputShape.size) : Buffer.read (l.output X) o = match l.kind with
      | .max => (best X.data (l.windowOf X.shape l.outputShape o)).1
      | .average => l.mean X.data (l.windowOf X.shape l.outputShape o) := by
  rw [read_of_lt (by simpa using ho)]
  cases hk : l.kind with
  | max => simp [output, found, hk]
  | average => simp [output, hk]

theorem output_follows (hl : l.Sound) (h : X.Follows x) : Buffer.Follows (l.output X) (l.output x) := by
  refine follows_of_read (by simp) fun o ho => ?_
  have ho : o < l.outputShape.size := by simpa using ho
  rw [read_output l X ho, read_output l x ho, h.shape]
  cases hk : l.kind with
  | max =>
      have hne := windowOf_ne_nil hl x.shape l.outputShape o
      dsimp only
      rw [best_follows h.data hne, best_self x.data hne]
      exact h.data.read _
  | average => exact value_mean h.data l _

theorem slope_output (hl : l.Sound) (h : X.Follows x) (hx : x.shape = l.inputShape) {g : Tensor K}
    (hg : g.shape = l.outputShape) (hgs : g.Sized) (hr : (l.remember x true).RunsBack g) :
    Buffer.slope g.data (l.output X) =
      along (fun i => rate (Buffer.read X.data i)) ((l.remember x true).route g) := by
  have hsize : g.data.size = l.outputShape.size := hg ▸ hgs
  rw [slope_eq_sum, size_output]
  cases hk : l.kind with
  | max =>
      have hroute : (l.remember x true).route g = (l.remember x true).routeMax g.data := by
        simp [remember, route, hk]
      have hwin : ∀ o < l.outputShape.size, (l.remember x true).winners.getD o 0 =
          (best x.data (l.windowOf x.shape l.outputShape o)).2 := by
        intro o ho
        simp [remember, hk, found, ho]
      have hkind : (l.remember x true).kind = .max := by
        simp [remember, hk]
      simp only [RunsBack, hkind, Bool.and_eq_true, beq_iff_eq, Array.all_eq_true_iff_forall_mem,
        decide_eq_true_eq] at hr
      rw [hroute, along, total_routeMax _ hr.1 hr.2, hsize]
      refine sum_congr rfl fun o ho => ?_
      have ho := mem_range.mp ho
      have hne := windowOf_ne_nil hl x.shape l.outputShape o
      rw [read_output l X ho, hk, hwin o ho, best_self x.data hne, h.shape]
      dsimp only
      rw [best_follows h.data hne]
      rfl
  | average =>
      have hroute : (l.remember x true).route g = l.routeAverage g := by
        simp [remember, route, hk]
      rw [hroute, along, total_routeAverage]
      · rw [hg]
        refine sum_congr rfl fun o ho => ?_
        have ho := mem_range.mp ho
        rw [read_output l X ho, hk, h.shape, hx]
        dsimp only
        rw [rate_mean]
        show _ = (List.map (fun i => g.get o * (1 / l.area) * rate (Buffer.read X.data i)) _).sum
        rw [List.sum_map_mul_left, mul_assoc, one_div, div_eq_inv_mul]
        rfl
      · intro o ho i hi
        rw [hg] at ho hi
        exact windowOf_lt ho hi

end Pooling

namespace Dropout

open Buffer

variable {σ : Type} [RandomSource σ]

def still (l : Dropout K) : Dropout (DualNumber K) := ⟨const l.rate, l.shape, #[]⟩

theorem factor_dual (r u : K) : factor (const r) (const u) = const (factor r u) := by
  have hdual : factor (const r) (const u) = if u < r then 0 else 1 / (1 - const r) := rfl
  have hval : factor r u = if u < r then 0 else 1 / (1 - r) := rfl
  rw [hdual, hval]
  split
  · rfl
  · have hden : Dual.rate (1 - const r) = 0 := sub_zero (0 : K)
    refine Dual.ext ?_ ?_
    · rw [value_div, value_const]
      rfl
    · rw [rate_div hden, rate_const]
      exact zero_div _

theorem unit_dual (s : σ) : (RandomSource.unit s : DualNumber K × σ) =
    (const (RandomSource.unit s : K × σ).1, (RandomSource.unit s : K × σ).2) := by
  refine Prod.ext (Dual.ext rfl ?_) rfl
  exact (rate_div (rate_natCast _)).trans (zero_div _)

theorem drawMask_dual (r : K) (n : Nat) (s : σ) : drawMask (const r) n s =
    ((drawMask r n s).1.map const, (drawMask r n s).2) := by
  unfold drawMask
  induction n with
  | zero => simp
  | succ n ih =>
      rw [Nat.fold_succ, Nat.fold_succ, ih]
      simp only [unit_dual, factor_dual, Array.map_push]

theorem read_scaled {X : Array (DualNumber K)} {m : Array K} {i : Nat} (hX : i < X.size)
    (hm : i < m.size) : Buffer.read (zipKeep (· * ·) X (m.map const)) i =
      Buffer.read X i * const (Buffer.read m i) := by
  rw [read_zipKeep hX (by simpa using hm), read_of_lt (a := m.map const) (by simpa using hm),
    read_of_lt hm, Array.getElem_map]

theorem scaled_follows {X : Array (DualNumber K)} {x m : Array K} (h : Follows X x)
    (hm : m.size = x.size) :
    Follows (zipKeep (· * ·) X (m.map const)) (zipKeep (· * ·) x m) := by
  refine follows_of_read (by simp [h.size]) fun i hi => ?_
  have hx : i < x.size := by simpa using hi
  rw [read_scaled (h.size.symm ▸ hx) (hm.symm ▸ hx), read_zipKeep hx (hm.symm ▸ hx), value_mul, h.read,
    value_const]

theorem slope_scaled {X : Array (DualNumber K)} {g m : Array K} (hX : X.size = g.size)
    (hm : m.size = g.size) : Buffer.slope g (zipKeep (· * ·) X (m.map const)) =
      along (fun i => Dual.rate (Buffer.read X i)) (zipKeep (· * ·) g m) := by
  rw [slope_eq_sum, along_eq_sum, size_zipKeep, size_zipKeep, hX]
  refine sum_congr rfl fun i hi => ?_
  have hi := mem_range.mp hi
  rw [read_scaled (hX.symm ▸ hi) (hm.symm ▸ hi), read_zipKeep hi (hm.symm ▸ hi), rate_mul, rate_const,
    value_const, mul_zero, zero_add]
  ring

end Dropout
end Convnet
