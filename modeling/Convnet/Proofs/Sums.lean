import Convnet.Proofs.Total
import Convnet.Proofs.Pass

namespace Convnet

open Finset Buffer

variable {R : Type} [ExactScalar R] {M : Type} [AddCommMonoid M] (φ : Nat → R →+ M)

namespace Convolution

variable (l : Convolution R)

theorem total_biasMap : total φ l.biasMap =
    ∑ o ∈ range l.outputShape.size, φ o (read l.bias (o % l.filters)) := by
  rw [total, size_biasMap]
  refine sum_congr rfl fun o ho => ?_
  have ho := mem_range.mp ho
  rw [read_of_lt (by simpa using ho)]
  simp [biasMap]

theorem total_response (x : Tensor R) : total φ (l.response x).data = total φ l.biasMap +
    (l.taps.map fun t => ∑ f ∈ range l.filters, φ (t.out + f)
      (x.get (x.index t.y t.x t.channel) * read l.kernel (t.weight + f))).sum := by
  refine total_foldl φ l.outputShape.size _ _ l.taps ?_ ?_ l.size_biasMap
  · intro a t
    dsimp only
    split <;> simp
  · intro t ht a ha
    obtain ⟨-, -, hout⟩ := tap_bounds ht
    exact total_axpy_unless_zero φ _ _ _ (by omega)

theorem total_kernelGradient {l : Convolution R} (h : l.kernelGrad.size = l.kernelLength)
    (x : Tensor R) (delta : Array R) : total φ (l.kernelGradient x delta) =
      total φ l.kernelGrad + (l.taps.map fun t => ∑ f ∈ range l.filters, φ (t.weight + f)
        (x.get (x.index t.y t.x t.channel) * read delta (t.out + f))).sum := by
  refine total_foldl φ l.kernelLength _ _ l.taps ?_ ?_ h
  · intro a t
    exact size_axpy _ _ _ _ _ _
  · intro t ht a ha
    obtain ⟨-, hweight, -⟩ := tap_bounds ht
    exact total_axpy φ _ _ _ (by omega)

theorem total_biasGradient {l : Convolution R} (h : l.biasGrad.size = l.filters) (delta : Array R) :
    total φ (l.biasGradient delta) = total φ l.biasGrad +
      ∑ p ∈ range (l.rows * l.columns), ∑ f ∈ range l.filters, φ f (read delta (p * l.filters + f)) := by
  refine total_fold φ _ l.filters _ (fun p => ∑ f ∈ range l.filters,
    φ f (read delta (p * l.filters + f))) ?_ ?_ h
  · intro p hp a
    exact size_addRow _ _ _ _ _
  · intro p hp a ha
    rw [total_addRow φ _ _ (by omega)]
    simp only [zero_add]

theorem total_inputGradient (delta : Array R) : total φ (l.inputGradient delta).data =
    (l.taps.map fun t => φ (l.inputShape.index t.y t.x t.channel)
      (∑ f ∈ range l.filters, read l.kernel (t.weight + f) * read delta (t.out + f))).sum := by
  refine (total_foldl φ l.inputShape.size _ (fun t => φ (l.inputShape.index t.y t.x t.channel)
    (∑ f ∈ range l.filters, read l.kernel (t.weight + f) * read delta (t.out + f))) l.taps ?_ ?_
    (size_zeros _)).trans (by rw [total_zeros, zero_add])
  · intro a t
    exact size_bump _ _ _
  · intro t ht a ha
    obtain ⟨hin, -, -⟩ := tap_bounds ht
    rw [← dot_eq_sum]
    exact total_bump φ (by omega) _

end Convolution

namespace Matrix

variable (m : Matrix R)

theorem total_vecMul (x : Array R) : total φ (m.vecMul x) =
    ∑ i ∈ range m.rows, ∑ j ∈ range m.cols, φ j (read x i * read m.data (i * m.cols + j)) := by
  refine (total_fold φ m.rows m.cols _ (fun i => ∑ j ∈ range m.cols,
    φ j (read x i * read m.data (i * m.cols + j))) ?_ ?_ (size_zeros _)).trans
    (by rw [total_zeros, zero_add])
  · intro i hi a
    dsimp only
    split <;> simp
  · intro i hi a ha
    refine (total_axpy_unless_zero φ _ _ _ (by omega)).trans ?_
    simp only [zero_add]

theorem total_mulVec (d : Array R) : total φ (m.mulVec d) =
    ∑ i ∈ range m.rows, φ i (∑ j ∈ range m.cols, read m.data (i * m.cols + j) * read d j) := by
  rw [total, size_mulVec]
  refine sum_congr rfl fun i hi => ?_
  have hi := mem_range.mp hi
  rw [read_of_lt (by simpa using hi)]
  simp [mulVec, dot_eq_sum]

theorem total_addOuter {m : Matrix R} (h : m.Sized) (x d : Array R) :
    total φ (m.addOuter x d).data = total φ m.data +
      ∑ i ∈ range m.rows, ∑ j ∈ range m.cols, φ (i * m.cols + j) (read x i * read d j) := by
  refine total_fold φ m.rows (m.rows * m.cols) _ (fun i => ∑ j ∈ range m.cols,
    φ (i * m.cols + j) (read x i * read d j)) ?_ ?_ h
  · intro i hi a
    dsimp only
    split <;> simp
  · intro i hi a ha
    have hrow : (i + 1) * m.cols ≤ m.rows * m.cols := Nat.mul_le_mul_right _ hi
    rw [Nat.succ_mul] at hrow
    refine (total_axpy_unless_zero φ _ _ _ (by omega)).trans ?_
    simp only [zero_add]

end Matrix

namespace Pooling

variable {l : Pooling}

theorem foldl_add_eq_sum (data : Array R) (places : List Nat) :
    places.foldl (fun s i => s + read data i) 0 = (places.map (read data)).sum := by
  rw [List.sum_eq_foldl, List.foldl_map]

theorem total_routeMax {g : Array R} (hs : l.winners.size = g.size)
    (hw : ∀ i ∈ l.winners, i < l.inputShape.size) : total φ (l.routeMax g) =
      ∑ o ∈ range g.size, φ (l.winners.getD o 0) (read g o) := by
  have hloop : total φ (l.routeMax g) =
      0 + ((l.winners.zip g).toList.map fun p => φ p.1 p.2).sum := by
    rw [routeMax, ← Array.foldl_toList, ← total_zeros φ l.inputShape.size]
    refine total_foldl φ l.inputShape.size _ _ _ ?_ ?_ (size_zeros _)
    · intro a p
      exact size_bump _ _ _
    · intro p hp a ha
      have hin : p.1 < l.inputShape.size := by
        obtain ⟨i, v⟩ := p
        rw [Array.toList_zip] at hp
        exact hw i (Array.mem_def.mpr (List.of_mem_zip hp).1)
      exact total_bump φ (by omega) _
  have hterms : (l.winners.zip g).toList.map (fun p => φ p.1 p.2) =
      (List.range g.size).map fun o => φ (l.winners.getD o 0) (read g o) := by
    apply List.ext_getElem
    · simp [hs]
    · intro o h₁ h₂
      have ho : o < g.size := by simpa using h₂
      simp [read_of_lt ho, hs ▸ ho]
  rw [hloop, hterms, zero_add]
  rfl

theorem total_routeAverage {g : Tensor R}
    (hw : ∀ o < g.shape.size, ∀ i ∈ l.windowOf l.inputShape g.shape o, i < l.inputShape.size) :
    total φ (l.routeAverage g) = ∑ o ∈ range g.shape.size,
      ((l.windowOf l.inputShape g.shape o).map fun i => φ i (g.get o * (1 / l.area))).sum := by
  refine (total_fold φ g.shape.size l.inputShape.size _ (fun o =>
    ((l.windowOf l.inputShape g.shape o).map fun i => φ i (g.get o * (1 / l.area))).sum) ?_ ?_
    (size_zeros _)).trans (by rw [total_zeros, zero_add])
  · intro o ho a
    exact size_foldl _ (fun _ _ => size_bump _ _ _) _ _
  · intro o ho a ha
    refine total_foldl φ l.inputShape.size _ _ _ ?_ ?_ ha
    · intro a i
      exact size_bump _ _ _
    · intro i hi a ha
      have hin := hw o ho i hi
      exact total_bump φ (by omega) _

end Pooling
end Convnet
