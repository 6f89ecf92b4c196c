import Convnet.Proofs.Adjoint

namespace Convnet

open Finset Buffer

namespace Buffer

variable {R : Type} [ExactScalar R]

theorem sum_pick_rows {m n i j : Nat} (hi : i < m) (hj : j < n) (v : Nat → Nat → R) :
    ∑ p ∈ range m, ∑ q ∈ range n, pick (AddMonoidHom.id R) (i * n + j) (p * n + q) (v p q) = v i j := by
  rw [sum_eq_single_of_mem i (mem_range.mpr hi)]
  · exact sum_pick_add _ hj _
  · intro p _ hne
    refine sum_eq_zero fun q hq => (pick_apply ..).trans (if_neg fun h => hne ?_)
    exact (mul_add_inj (mem_range.mp hq) hj h).1

end Buffer

namespace Matrix

section Loops

variable {α : Type} [Scalar α]

def entry (m : Matrix α) (i j : Nat) : α := read m.data (m.index i j)

/-- The product from the left by the loop that passes over no row. -/
def vecMulAll (m : Matrix α) (x : Array α) : Array α :=
  m.rows.fold (fun i _ out => axpy out 0 (read x i) m.data (i * m.cols) m.cols) (Buffer.zeros m.cols)

def addOuterAll (m : Matrix α) (x d : Array α) : Matrix α :=
  { m with data := m.rows.fold (fun i _ data => axpy data (i * m.cols) (read x i) d 0 m.cols) m.data }

/-- Rows and entries are found in the buffer. -/
structure Filled (m : Matrix α) : Prop where
  row : ∀ i < m.rows, ∃ row, m.row? i = .ok row ∧ row.size = m.cols ∧ ∀ j < m.cols, read row j = m.entry i j
  get : ∀ i < m.rows, ∀ j < m.cols, m.get? i j = .ok (m.entry i j)

/-- No operation on vectors of the right lengths leaves a buffer. Each result is as long as one of the operands,
so that where there is room for those nothing fails. -/
structure Answers (m : Matrix α) (x d : Array α) : Prop where
  vecMul : m.vecMul? x = if fits d.size then .ok (m.vecMul x) else .error .misuse
  mulVec : m.mulVec? d = if fits x.size then .ok (m.mulVec d) else .error .misuse
  transpose : m.transpose? = if fits m.data.size then .ok m.transpose else .error .misuse
  addOuter : m.addOuter? x d = .ok (m.addOuter x d)

/-- The rows of one matrix are the columns of the other. -/
structure Turned (m t : Matrix α) : Prop where
  rows : t.rows = m.cols
  cols : t.cols = m.rows
  sized : t.Sized
  entry : ∀ i < m.rows, ∀ j < m.cols, t.entry j i = m.entry i j
  back : t.transpose = m

variable {m : Matrix α}

omit [Scalar α] in
theorem index_lt (h : m.Sized) {i j : Nat} (hi : i < m.rows) (hj : j < m.cols) : m.index i j < m.data.size :=
  (mul_add_lt hi hj).trans_eq h.symm

theorem Sized.filled (h : m.Sized) : m.Filled where
  row i hi := by
    have hend : (i + 1) * m.cols ≤ m.data.size := (Nat.mul_le_mul_right _ hi).trans_eq h.symm
    have hsize : (m.data.extract (i * m.cols) ((i + 1) * m.cols)).size = m.cols := by
      rw [Array.size_extract, Nat.min_eq_left hend, Nat.succ_mul, Nat.add_sub_cancel_left]
    refine ⟨_, ?_, hsize, ?_⟩
    · exact require_bind_eq_ok.mpr ⟨decide_eq_true hend, rfl⟩
    · intro j hj
      rw [read_of_lt (hj.trans_eq hsize.symm), Array.getElem_extract, entry, read_of_lt (index_lt h hi hj)]
      rfl
  get i hi j hj := by
    have hplace := index_lt h hi hj
    rw [get?, Array.getElem?_eq_getElem hplace, entry, read_of_lt hplace]

theorem Sized.answers (h : m.Sized) {x d : Array α} (hx : x.size = m.rows) (hd : d.size = m.cols) :
    m.Answers x d where
  vecMul := by
    rw [vecMul?, require_pure, hx, hd, coversRows_of_sized h, beq_self_eq_true, Bool.true_and, Bool.and_true]
  mulVec := by
    rw [mulVec?, require_pure, hx, hd, coversAll_of_sized h, beq_self_eq_true, Bool.true_and, Bool.and_true]
  transpose := by
    rw [transpose?, require_pure, coversAll_of_sized h, Bool.and_true, show m.data.size = _ from h]
  addOuter := by
    rw [addOuter?, require_pure, hx, hd, coversRows_of_sized h, beq_self_eq_true, beq_self_eq_true]
    rfl

theorem ext_entry {a b : Matrix α} (ha : a.Sized) (hb : b.Sized) (hr : a.rows = b.rows) (hc : a.cols = b.cols)
    (h : ∀ i < a.rows, ∀ j < a.cols, a.entry i j = b.entry i j) : a = b := by
  obtain ⟨rows, cols, data⟩ := a
  obtain ⟨rows', cols', data'⟩ := b
  obtain rfl : rows = rows' := hr
  obtain rfl : cols = cols' := hc
  have ha : data.size = rows * cols := ha
  refine congrArg _ (Buffer.ext (ha.trans hb.symm) fun k hk => ?_)
  have hcols : 0 < cols := by
    refine Nat.pos_of_ne_zero fun h => ?_
    rw [ha, h] at hk
    exact absurd hk (Nat.not_lt_zero _)
  have hrow : k / cols < rows := (Nat.div_lt_iff_lt_mul hcols).mpr (hk.trans_eq ha)
  have hentry := h (k / cols) hrow (k % cols) (Nat.mod_lt _ hcols)
  rwa [entry, entry, index, index, Nat.div_add_mod'] at hentry

theorem transpose_sized (m : Matrix α) : m.transpose.Sized := Array.size_ofFn

theorem entry_transpose {i j : Nat} (hi : i < m.rows) (hj : j < m.cols) :
    m.transpose.entry j i = m.entry i j := by
  have hplace : j * m.rows + i < m.transpose.data.size := (mul_add_lt hj hi).trans_eq (transpose_sized m).symm
  obtain ⟨hdiv, hmod⟩ := div_mod_mul_add j hi
  refine (read_of_lt hplace).trans ?_
  simp only [transpose, Array.getElem_ofFn, hdiv, hmod]
  rfl

theorem Sized.turned (h : m.Sized) : m.Turned m.transpose where
  rows := rfl
  cols := rfl
  sized := transpose_sized m
  entry _ hi _ hj := entry_transpose hi hj
  back := by
    refine ext_entry (transpose_sized _) h rfl rfl fun i hi j hj => ?_
    exact (entry_transpose hj hi).trans (entry_transpose hi hj)

end Loops

variable {R : Type} [ExactScalar R] {m : Matrix R}

/-- One vector is the product of a row and the matrix, the other that of the matrix and a column. -/
structure Multiplied (m : Matrix R) (x d z w : Array R) : Prop where
  left_size : z.size = m.cols
  left : ∀ j < m.cols, read z j = ∑ i ∈ range m.rows, read x i * m.entry i j
  right_size : w.size = m.rows
  right : ∀ i < m.rows, read w i = ∑ j ∈ range m.cols, m.entry i j * read d j

/-- One matrix is the other with the product of a column and a row added. -/
structure Added (m g : Matrix R) (x d : Array R) : Prop where
  rows : g.rows = m.rows
  cols : g.cols = m.cols
  sized : g.Sized
  entry : ∀ i < m.rows, ∀ j < m.cols, g.entry i j = m.entry i j + read x i * read d j
  weighed : ∀ v : Matrix R, v.Sized → v.rows = m.rows → v.cols = m.cols →
    pairing g.data v.data = pairing m.data v.data + pairing (v.vecMul x) d

theorem vecMul_eq_all (m : Matrix R) (x : Array R) : m.vecMul x = m.vecMulAll x := by
  simp only [vecMul, vecMulAll, axpy_unless_zero]

theorem addOuter_eq_all (m : Matrix R) (x d : Array R) : m.addOuter x d = m.addOuterAll x d := by
  simp only [addOuter, addOuterAll, axpy_unless_zero]

theorem read_vecMul (x : Array R) {j : Nat} (hj : j < m.cols) :
    read (m.vecMul x) j = ∑ i ∈ range m.rows, read x i * m.entry i j := by
  have htotal := total_vecMul (pick (AddMonoidHom.id R) j) m x
  rw [total_pick _ (hj.trans_eq (size_vecMul m x).symm)] at htotal
  exact htotal.trans (sum_congr rfl fun i _ => sum_pick hj _)

theorem read_mulVec (d : Array R) {i : Nat} (hi : i < m.rows) :
    read (m.mulVec d) i = ∑ j ∈ range m.cols, m.entry i j * read d j := by
  rw [read_of_lt (hi.trans_eq (size_mulVec m d).symm)]
  simp only [mulVec, Array.getElem_ofFn, dot_eq_sum, zero_add]
  rfl

theorem multiplied (m : Matrix R) (x d : Array R) : m.Multiplied x d (m.vecMul x) (m.mulVec d) where
  left_size := size_vecMul m x
  left _ hj := read_vecMul x hj
  right_size := size_mulVec m d
  right _ hi := read_mulVec d hi

theorem pairing_vecMul {x : Array R} (hx : x.size = m.rows) (d : Array R) :
    pairing (m.vecMul x) d = pairing x (m.mulVec d) := by
  rw [pairing_comm (hx.trans (size_mulVec m d).symm), pairing_eq_total, pairing_eq_total, total_vecMul,
    total_mulVec]
  refine sum_congr rfl fun i _ => Eq.trans ?_ (sum_mul ..).symm
  refine sum_congr rfl fun j _ => ?_
  rw [AddMonoidHom.coe_mulRight]
  ring

theorem mulVec_eq_vecMul (m : Matrix R) (d : Array R) : m.mulVec d = m.transpose.vecMul d := by
  apply Buffer.ext
  · rw [size_mulVec, size_vecMul]
    rfl
  · intro i hi
    have hi : i < m.rows := hi.trans_eq (size_mulVec m d)
    rw [read_mulVec d hi, read_vecMul (m := m.transpose) d hi]
    refine sum_congr rfl fun j hj => ?_
    rw [entry_transpose hi (mem_range.mp hj), mul_comm]

theorem entry_addOuter (h : m.Sized) (x d : Array R) {i j : Nat} (hi : i < m.rows) (hj : j < m.cols) :
    (m.addOuter x d).entry i j = m.entry i j + read x i * read d j := by
  have hplace := index_lt h hi hj
  have hadded : m.index i j < (m.addOuter x d).data.size := hplace.trans_eq (h.trans (addOuter_sized h x d).symm)
  have htotal := total_addOuter (pick (AddMonoidHom.id R) (m.index i j)) h x d
  rw [total_pick _ hadded, total_pick _ hplace] at htotal
  exact htotal.trans (congrArg (m.entry i j + ·) (sum_pick_rows hi hj _))

theorem pairing_addOuter (h : m.Sized) (x d : Array R) {v : Matrix R} (hr : v.rows = m.rows)
    (hc : v.cols = m.cols) : pairing (m.addOuter x d).data v.data =
      pairing m.data v.data + pairing (v.vecMul x) d := by
  rw [pairing_eq_total, pairing_eq_total, pairing_eq_total, total_addOuter _ h, total_vecMul, hr, hc]
  refine congrArg _ (sum_congr rfl fun i _ => sum_congr rfl fun j _ => ?_)
  rw [AddMonoidHom.coe_mulRight, AddMonoidHom.coe_mulRight]
  ring

theorem Sized.added (h : m.Sized) (x d : Array R) : m.Added (m.addOuter x d) x d where
  rows := rfl
  cols := rfl
  sized := addOuter_sized h x d
  entry _ hi _ hj := entry_addOuter h x d hi hj
  weighed _ _ hr hc := pairing_addOuter h x d hr hc

/-- The operations of a matrix of any size, be it without rows or columns, on a vector for each of its sides: none
leaves a buffer, and passing over zeros makes no difference to the adjoint products that they compute. -/
theorem products_adjoint (h : m.Sized) {x d : Array R} (hx : x.size = m.rows) (hd : d.size = m.cols) :
    m.Filled ∧ m.Answers x d ∧ m.Multiplied x d (m.vecMul x) (m.mulVec d) ∧
    pairing (m.vecMul x) d = pairing x (m.mulVec d) ∧
    m.mulVec d = m.transpose.vecMul d ∧ m.mulVec? d = m.transpose.vecMul? d ∧
    m.Turned m.transpose ∧ m.Added (m.addOuter x d) x d ∧
    (∀ (v : Matrix R) (y : Array R), v.vecMul y = v.vecMulAll y) ∧
    ∀ (v : Matrix R) (y e : Array R), v.addOuter y e = v.addOuterAll y e := by
  have hturned := (transpose_sized m).answers (x := d) (d := x) hd hx
  refine ⟨h.filled, h.answers hx hd, multiplied m x d, pairing_vecMul hx d, mulVec_eq_vecMul m d, ?_, h.turned,
    h.added x d, vecMul_eq_all, addOuter_eq_all⟩
  rw [(h.answers hx hd).mulVec, hturned.vecMul, mulVec_eq_vecMul]

theorem products_adjoint_wide : ∃ (m : Matrix ℝ) (x d : Array ℝ), m.Sized ∧ x.size = m.rows ∧ d.size = m.cols ∧
    m.rows = 2 ∧ m.cols = 3 ∧ m.Answers x d ∧ m.mulVec? d = m.transpose.vecMul? d ∧
    pairing (m.vecMul x) d = pairing x (m.mulVec d) ∧ pairing (m.vecMul x) d = -4 := by
  obtain ⟨m, hm⟩ : ∃ m : Matrix ℝ, m = ⟨2, 3, #[1, 2, 3, 4, 5, 6]⟩ := ⟨_, rfl⟩
  obtain ⟨x, hx⟩ : ∃ x : Array ℝ, x = #[0, 2] := ⟨_, rfl⟩
  obtain ⟨d, hd⟩ : ∃ d : Array ℝ, d = #[1, 0, -1] := ⟨_, rfl⟩
  have hsized : m.Sized := by
    subst hm
    rfl
  have hleft : x.size = m.rows := by
    subst hm hx
    rfl
  have hright : d.size = m.cols := by
    subst hm hd
    rfl
  obtain ⟨-, hanswers, -, hpairing, -, hturned, -⟩ := products_adjoint hsized hleft hright
  have hsecond : read (m.mulVec d) 1 = -2 := by
    subst hm hd
    refine (read_mulVec _ (by decide)).trans ?_
    simp [sum_range_succ, entry, index, Buffer.read]
    norm_num
  have hvalue : pairing x (m.mulVec d) = -4 := by
    calc pairing x (m.mulVec d)
        = read x 0 * read (m.mulVec d) 0 + read x 1 * read (m.mulVec d) 1 := by
          subst hx
          simp [pairing, sum_range_succ]
      _ = 0 * read (m.mulVec d) 0 + 2 * -2 := by
          rw [hsecond, hx]
          rfl
      _ = -4 := by norm_num
  refine ⟨m, x, d, hsized, hleft, hright, ?_, ?_, hanswers, hturned, hpairing, hpairing.trans hvalue⟩
  · rw [hm]
  · rw [hm]

end Matrix

end Convnet
