import Convnet.Scalar

namespace Convnet.Buffer

variable {α : Type}

theorem size_fold (n : Nat) (f : (i : Nat) → i < n → Array α → Array α)
    (hf : ∀ i h a, (f i h a).size = a.size) (a : Array α) : (n.fold f a).size = a.size := by
  induction n with
  | zero => rfl
  | succ n ih => rw [Nat.fold_succ, hf, ih _ fun i h a => hf i _ a]

theorem count_fold {β : Type} (count : β → Nat) (n : Nat) (f : (i : Nat) → i < n → β → β)
    (hf : ∀ i h b, count (f i h b) = count b + 1) (b : β) : count (n.fold f b) = count b + n := by
  induction n with
  | zero => rfl
  | succ n ih => rw [Nat.fold_succ, hf, ih _ fun i h b => hf i _ b, Nat.add_assoc]

theorem size_foldl {ι : Type} (f : Array α → ι → Array α) (hf : ∀ a t, (f a t).size = a.size)
    (ts : List ι) (a : Array α) : (ts.foldl f a).size = a.size := by
  induction ts generalizing a with
  | nil => rfl
  | cons t ts ih => rw [List.foldl_cons, ih, hf]

variable [Scalar α]

@[simp] theorem size_zeros (n : Nat) : (zeros n : Array α).size = n := by simp [zeros]

@[simp] theorem read_zeros (n i : Nat) : read (zeros n : Array α) i = 0 := by
  simp only [read, zeros, Array.getD_eq_getD_getElem?, Array.getElem?_replicate]
  split <;> rfl

@[simp] theorem size_bump (a : Array α) (i : Nat) (v : α) : (bump a i v).size = a.size := by
  simp [bump]

theorem read_of_lt {a : Array α} {i : Nat} (h : i < a.size) : read a i = a[i] := by
  simp [read, h]

theorem read_of_le {a : Array α} {i : Nat} (h : a.size ≤ i) : read a i = 0 := by
  simp [read, Nat.not_lt.mpr h]

theorem ext {a b : Array α} (hs : a.size = b.size) (h : ∀ i < a.size, read a i = read b i) :
    a = b := by
  apply Array.ext hs
  intro i ha hb
  rw [← read_of_lt ha, ← read_of_lt hb, h i ha]

theorem read_bump (a : Array α) (i j : Nat) (v : α) :
    read (bump a i v) j = if i = j ∧ j < a.size then read a j + v else read a j := by
  by_cases hj : j < a.size
  · rw [read_of_lt (by simpa using hj), read_of_lt hj]
    simp only [bump, Array.getElem_modify, hj, and_true]
  · rw [read_of_le (by simpa using hj), read_of_le (by omega)]
    simp [hj]

@[simp] theorem size_axpy (z : Array α) (base : Nat) (x : α) (w : Array α) (start n : Nat) :
    (axpy z base x w start n).size = z.size :=
  size_fold _ _ (fun _ _ _ => size_bump _ _ _) z

@[simp] theorem size_addRow (z : Array α) (base : Nat) (w : Array α) (start n : Nat) :
    (addRow z base w start n).size = z.size :=
  size_fold _ _ (fun _ _ _ => size_bump _ _ _) z

omit [Scalar α] in
@[simp] theorem size_zipKeep (f : α → α → α) (a b : Array α) : (zipKeep f a b).size = a.size := by
  simp [zipKeep]

@[simp] theorem size_sized (a : Array α) (n : Nat) : (sized a n).size = n := by
  unfold sized
  split
  · assumption
  · simp

theorem sized_of_size {a : Array α} {n : Nat} (h : a.size = n) : sized a n = a := if_pos h

theorem read_zipKeep {f : α → α → α} {a b : Array α} {i : Nat} (ha : i < a.size)
    (hb : i < b.size) : read (zipKeep f a b) i = f (read a i) (read b i) := by
  rw [read_of_lt (by simpa using ha), read_of_lt ha, read_of_lt hb]
  simp [zipKeep, hb]

end Convnet.Buffer
