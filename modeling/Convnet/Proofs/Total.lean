import Mathlib.Algebra.BigOperators.Group.Finset.Basic
import Mathlib.Algebra.BigOperators.Intervals
import Convnet.Proofs.Exact
import Convnet.Proofs.Buffer

namespace Convnet.Buffer

open Finset

variable {R : Type} [ExactScalar R] {M : Type} [AddCommMonoid M]

/-- The sum of a buffer whose entries are weighed by place. -/
def total (φ : Nat → R →+ M) (a : Array R) : M := ∑ i ∈ range a.size, φ i (read a i)

variable (φ : Nat → R →+ M)

@[simp] theorem total_zeros (n : Nat) : total φ (zeros n) = 0 := by
  simp only [total, read_zeros]
  exact sum_eq_zero fun i _ => map_zero (φ i)

theorem total_bump {a : Array R} {i : Nat} (h : i < a.size) (v : R) :
    total φ (bump a i v) = total φ a + φ i v := by
  have hterm : ∀ j ∈ range a.size, φ j (read (bump a i v) j) =
      φ j (read a j) + if i = j then φ i v else 0 := by
    intro j hj
    rw [read_bump]
    by_cases hij : i = j
    · subst hij
      rw [if_pos ⟨rfl, h⟩, if_pos rfl]
      exact map_add (φ i) _ _
    · simp [hij]
  rw [total, size_bump, sum_congr rfl hterm, sum_add_distrib, sum_ite_eq, if_pos (mem_range.mpr h)]
  rfl

theorem total_fold (n m : Nat) (f : (i : Nat) → i < n → Array R → Array R) (g : Nat → M)
    (hs : ∀ i h a, (f i h a).size = a.size)
    (hf : ∀ i h a, a.size = m → total φ (f i h a) = total φ a + g i) {a : Array R}
    (ha : a.size = m) : total φ (n.fold f a) = total φ a + ∑ i ∈ range n, g i := by
  induction n with
  | zero => simp
  | succ n ih =>
      have hsize : (n.fold (fun i h => f i (by omega)) a).size = m :=
        (size_fold n _ (fun i h a => hs i _ a) a).trans ha
      rw [Nat.fold_succ, hf _ _ _ hsize, ih _ (fun i h a => hs i _ a) (fun i h a => hf i _ a),
        sum_range_succ, add_assoc]

theorem total_foldl {ι : Type} (m : Nat) (f : Array R → ι → Array R) (g : ι → M) (ts : List ι)
    (hs : ∀ a t, (f a t).size = a.size)
    (hf : ∀ t ∈ ts, ∀ a, a.size = m → total φ (f a t) = total φ a + g t) {a : Array R}
    (ha : a.size = m) : total φ (ts.foldl f a) = total φ a + (ts.map g).sum := by
  induction ts generalizing a with
  | nil => simp
  | cons t ts ih =>
      rw [List.foldl_cons, ih (fun u hu => hf u (List.mem_cons_of_mem _ hu)) ((hs a t).trans ha),
        hf t (by simp) a ha, List.map_cons, List.sum_cons, add_assoc]

theorem total_axpy {z : Array R} {base : Nat} (x : R) (w : Array R) (start : Nat) {n : Nat}
    (h : base + n ≤ z.size) : total φ (axpy z base x w start n) =
      total φ z + ∑ f ∈ range n, φ (base + f) (x * read w (start + f)) := by
  unfold axpy
  refine total_fold φ n z.size _ (fun f => φ (base + f) (x * read w (start + f))) ?_ ?_ rfl
  · intro i hi a
    exact size_bump _ _ _
  · intro i hi a ha
    exact total_bump φ (by omega) _

theorem bump_zero (a : Array R) (i : Nat) : bump a i 0 = a := by
  apply Buffer.ext (size_bump a i 0)
  intro j _
  rw [read_bump, add_zero, ite_self]

theorem axpy_zero (z : Array R) (base : Nat) (w : Array R) (start n : Nat) : axpy z base 0 w start n = z := by
  unfold axpy
  induction n with
  | zero => rfl
  | succ n ih => rw [Nat.fold_succ, ih, zero_mul, bump_zero]

theorem axpy_unless_zero (z : Array R) (base : Nat) (x : R) (w : Array R) (start n : Nat) :
    (if x == 0 then z else axpy z base x w start n) = axpy z base x w start n := by
  by_cases hx : (x == 0) = true
  · rw [if_pos hx, ExactScalar.eq_of_beq hx, axpy_zero]
  · rw [if_neg hx]

theorem total_axpy_unless_zero {z : Array R} {base : Nat} (x : R) (w : Array R) (start : Nat) {n : Nat}
    (h : base + n ≤ z.size) : total φ (if x == 0 then z else axpy z base x w start n) =
      total φ z + ∑ f ∈ range n, φ (base + f) (x * read w (start + f)) := by
  rw [axpy_unless_zero]
  exact total_axpy φ x w start h

theorem total_addRow {z : Array R} {base : Nat} (w : Array R) (start : Nat) {n : Nat}
    (h : base + n ≤ z.size) : total φ (addRow z base w start n) =
      total φ z + ∑ f ∈ range n, φ (base + f) (read w (start + f)) := by
  unfold addRow
  refine total_fold φ n z.size _ (fun f => φ (base + f) (read w (start + f))) ?_ ?_ rfl
  · intro i hi a
    exact size_bump _ _ _
  · intro i hi a ha
    exact total_bump φ (by omega) _

theorem total_zipKeep_add {a b : Array R} (h : a.size ≤ b.size) :
    total φ (zipKeep (· + ·) a b) = total φ a + ∑ i ∈ range a.size, φ i (read b i) := by
  rw [total, size_zipKeep, total, ← sum_add_distrib]
  refine sum_congr rfl fun i hi => ?_
  have hi := mem_range.mp hi
  rw [read_zipKeep hi (by omega)]
  exact map_add (φ i) _ _

theorem total_zipKeep_sub {G : Type} [AddCommGroup G] (ψ : Nat → R →+ G) {a b : Array R}
    (h : a.size = b.size) : total ψ (zipKeep (· - ·) a b) = total ψ a - total ψ b := by
  rw [total, size_zipKeep, total, total, ← h, ← sum_sub_distrib]
  refine sum_congr rfl fun i hi => ?_
  have hi := mem_range.mp hi
  rw [read_zipKeep hi (h ▸ hi)]
  exact map_sub (ψ i) _ _

/-- The weights that are zero at all places but one. -/
def pick (f : R →+ M) (i : Nat) : Nat → R →+ M := fun j => if j = i then f else 0

theorem pick_apply (f : R →+ M) (i j : Nat) (v : R) : pick f i j v = if j = i then f v else 0 := by
  rw [pick]
  split <;> rfl

theorem sum_pick_add {n i : Nat} (start : Nat) (hi : i < n) (v : Nat → R) :
    ∑ j ∈ range n, pick (AddMonoidHom.id R) (start + i) (start + j) (v j) = v i := by
  rw [sum_eq_single_of_mem i (mem_range.mpr hi)]
  · exact (pick_apply ..).trans (if_pos rfl)
  · intro j _ hj
    exact (pick_apply ..).trans (if_neg fun h => hj (Nat.add_left_cancel h))

theorem sum_pick {n i : Nat} (hi : i < n) (v : Nat → R) :
    ∑ j ∈ range n, pick (AddMonoidHom.id R) i j (v j) = v i := by
  have hrun := sum_pick_add 0 hi v
  simpa only [Nat.zero_add] using hrun

theorem total_pick (f : R →+ M) {a : Array R} {i : Nat} (h : i < a.size) :
    total (pick f i) a = f (read a i) := by
  have hterm : ∀ j ∈ range a.size, pick f i j (read a j) = if j = i then f (read a i) else 0 := by
    intro j _
    unfold pick
    by_cases hj : j = i
    · rw [if_pos hj, if_pos hj, hj]
    · rw [if_neg hj, if_neg hj]
      rfl
  rw [total, sum_congr rfl hterm, sum_ite_eq', if_pos (mem_range.mpr h)]

theorem ext_of_total {a b : Array R} (hs : a.size = b.size)
    (h : ∀ ψ : Nat → R →+ R, total ψ a = total ψ b) : a = b := by
  refine ext hs fun i hi => ?_
  have hpick := h (pick (AddMonoidHom.id R) i)
  rwa [total_pick _ hi, total_pick _ (hs ▸ hi)] at hpick

theorem dot_eq_sum (a : Array R) (i : Nat) (b : Array R) (j n : Nat) :
    dot a i b j n = ∑ f ∈ range n, read a (i + f) * read b (j + f) := by
  unfold dot
  induction n with
  | zero => rfl
  | succ n ih =>
      rw [Nat.fold_succ, sum_range_succ, ← ih]

/-- A sum over places as one over rows and columns. -/
theorem sum_range_rows (m n : Nat) (f : Nat → M) :
    ∑ i ∈ range (m * n), f i = ∑ p ∈ range m, ∑ q ∈ range n, f (p * n + q) := by
  induction m with
  | zero => simp
  | succ m ih => rw [Nat.succ_mul, sum_range_add, ih, sum_range_succ]

end Convnet.Buffer
