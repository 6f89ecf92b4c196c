import Convnet.Training.Fit

namespace Convnet

section Shuffle

variable {σ : Type} [RandomSource σ]

theorem swapIfInBounds_perm (xs : Array Nat) (i j : Nat) :
    (xs.swapIfInBounds i j).toList.Perm xs.toList := by
  rw [Array.swapIfInBounds_def]
  split
  · split
    · exact (Array.swap_perm _ _).toList
    · exact .refl _
  · exact .refl _

theorem RandomSource.shuffleFrom_perm (xs : Array Nat) (s : σ) (n : Nat) :
    (shuffleFrom xs s n).1.toList.Perm xs.toList := by
  induction n generalizing xs s with
  | zero => exact .refl _
  | succ n ih =>
      cases n with
      | zero => exact .refl _
      | succ n => exact (ih _ _).trans (swapIfInBounds_perm xs _ _)

theorem RandomSource.shuffle_perm (xs : Array Nat) (s : σ) : (shuffle xs s).1.toList.Perm xs.toList :=
  shuffleFrom_perm xs s xs.size

end Shuffle

section Pieces

variable {β : Type} {n : Nat} {xs : List β}

theorem pieces_cons (hn : 0 < n) (x : β) (xs : List β) :
    pieces n (x :: xs) = (x :: xs).take n :: pieces n ((x :: xs).drop n) := by
  obtain ⟨k, rfl⟩ := Nat.exists_eq_succ_of_ne_zero (Nat.ne_of_gt hn)
  rw [pieces]
  rfl

theorem flatten_pieces (n : Nat) (xs : List β) : (pieces n xs).flatten = xs := by
  fun_induction pieces n xs with
  | case1 => rfl
  | case2 x xs ih => rw [List.flatten_cons, ih, List.cons_append, List.take_append_drop]

theorem ne_nil_of_mem_pieces {part : List β} (h : part ∈ pieces n xs) : part ≠ [] := by
  fun_induction pieces n xs with
  | case1 => exact absurd h List.not_mem_nil
  | case2 x xs ih =>
      rcases List.mem_cons.mp h with rfl | h
      · exact List.cons_ne_nil _ _
      · exact ih h

theorem length_pieces (hn : 0 < n) (xs : List β) : (pieces n xs).length = (xs.length + n - 1) / n := by
  induction hlen : xs.length using Nat.strongRecOn generalizing xs with
  | _ k ih =>
      cases xs with
      | nil =>
          have hlt : n - 1 < n := by omega
          rw [← hlen, List.length_nil, Nat.zero_add, Nat.div_eq_of_lt hlt, pieces, List.length_nil]
      | cons x xs =>
          have hpos : 0 < k := by
            rw [← hlen, List.length_cons]
            exact Nat.succ_pos _
          have hdrop : ((x :: xs).drop n).length = k - n := by rw [List.length_drop, hlen]
          rw [pieces_cons hn, List.length_cons, ih _ (by omega) _ hdrop]
          rcases Nat.lt_or_ge k n with hk | hk
          · have hzero : k - n = 0 := by omega
            have hsplit : k + n - 1 = k - 1 + n := by omega
            rw [hzero, Nat.zero_add, Nat.div_eq_of_lt (by omega), hsplit, Nat.add_div_right _ hn,
              Nat.div_eq_of_lt (by omega)]
          · have hsplit : k + n - 1 = k - n + n - 1 + n := by omega
            rw [hsplit, Nat.add_div_right _ hn]

theorem getElem?_pieces (hn : 0 < n) {j : Nat} {part : List β} (h : (pieces n xs)[j]? = some part) :
    part = (xs.drop (j * n)).take n := by
  induction j generalizing xs with
  | zero =>
      cases xs with
      | nil => simp [pieces] at h
      | cons x xs =>
          rw [pieces_cons hn, List.getElem?_cons_zero] at h
          rw [Nat.zero_mul, List.drop_zero]
          exact (Option.some.inj h).symm
  | succ j ih =>
      cases xs with
      | nil => simp [pieces] at h
      | cons x xs =>
          rw [pieces_cons hn, List.getElem?_cons_succ] at h
          rw [ih h, List.drop_drop, Nat.succ_mul, Nat.add_comm]

theorem flatten_take_pieces (hn : 0 < n) (j : Nat) (xs : List β) :
    ((pieces n xs).take j).flatten = xs.take (j * n) := by
  induction j generalizing xs with
  | zero => simp
  | succ j ih =>
      cases xs with
      | nil => simp [pieces]
      | cons x xs =>
          rw [pieces_cons hn, List.take_succ_cons, List.flatten_cons, ih, Nat.succ_mul, Nat.add_comm,
            List.take_add]

end Pieces

end Convnet
