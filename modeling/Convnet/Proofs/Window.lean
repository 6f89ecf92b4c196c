import Convnet.Layer.Convolution
import Convnet.Layer.Pooling

namespace Convnet

theorem mul_add_lt {a b m n : Nat} (ha : a < m) (hb : b < n) : a * n + b < m * n := by
  calc a * n + b < a * n + n := Nat.add_lt_add_left hb _
    _ = (a + 1) * n := (Nat.succ_mul a n).symm
    _ ≤ m * n := Nat.mul_le_mul_right n ha

theorem div_mod_mul_add (a : Nat) {b n : Nat} (hb : b < n) : (a * n + b) / n = a ∧ (a * n + b) % n = b :=
  (Nat.div_mod_unique (Nat.zero_lt_of_lt hb)).mpr ⟨by rw [Nat.mul_comm, Nat.add_comm], hb⟩

theorem mul_add_inj {a b a' b' n : Nat} (hb : b < n) (hb' : b' < n) (h : a * n + b = a' * n + b') :
    a = a' ∧ b = b' := by
  constructor
  · rw [← (div_mod_mul_add a hb).1, h, (div_mod_mul_add a' hb').1]
  · rw [← (div_mod_mul_add a hb).2, h, (div_mod_mul_add a' hb').2]

namespace Shape

@[simp] theorem size_flat (n : Nat) : (flat n).size = n := by simp [flat, size]

theorem eq_flat {s : Shape} (h : s.isFlat = true) : s = flat s.size := by
  obtain ⟨h, w, c⟩ := s
  simp_all [isFlat, flat, size]

theorem index_lt {s : Shape} {y x c : Nat} (hy : y < s.height) (hx : x < s.width)
    (hc : c < s.channels) : s.index y x c < s.size :=
  mul_add_lt (mul_add_lt hy hx) hc

theorem split_lt {s : Shape} {o : Nat} (ho : o < s.size) :
    o / s.channels / s.width < s.height ∧ o / s.channels % s.width < s.width ∧
      o % s.channels < s.channels := by
  have hc : 0 < s.channels := by
    rcases Nat.eq_zero_or_pos s.channels with h | h
    · simp [size, h] at ho
    · exact h
  have hp : o / s.channels < s.height * s.width := Nat.div_lt_of_lt_mul (by rwa [Nat.mul_comm])
  have hw : 0 < s.width := by
    rcases Nat.eq_zero_or_pos s.width with h | h
    · simp [h] at hp
    · exact h
  exact ⟨Nat.div_lt_of_lt_mul (by rwa [Nat.mul_comm]), Nat.mod_lt _ hw, Nat.mod_lt _ hc⟩

theorem pos_of_not_isEmpty {s : Shape} (h : s.isEmpty = false) :
    0 < s.height ∧ 0 < s.width ∧ 0 < s.channels := by
  have hs : 0 < s.height * s.width * s.channels := Nat.pos_of_ne_zero (by simpa [isEmpty, size] using h)
  exact ⟨Nat.pos_of_mul_pos_right (Nat.pos_of_mul_pos_right hs),
    Nat.pos_of_mul_pos_left (Nat.pos_of_mul_pos_right hs), Nat.pos_of_mul_pos_left hs⟩

end Shape

namespace Padding

theorem source?_lt {stride lead limit o k i : Nat} (h : source? stride lead limit o k = some i) :
    i < limit := by
  simp only [source?, Option.ite_none_right_eq_some, Option.some.injEq] at h
  omega

theorem lt_of_mem_tapRange {stride lead limit kernel o k : Nat}
    (h : k ∈ List.range' (tapRange stride lead limit kernel o).1
      (tapRange stride lead limit kernel o).2) : k < kernel := by
  simp only [tapRange, List.mem_range'_1] at h
  omega

theorem source?_of_notMem_tapRange {stride lead limit kernel o k : Nat} (hk : k < kernel)
    (h : k ∉ List.range' (tapRange stride lead limit kernel o).1 (tapRange stride lead limit kernel o).2) :
    source? stride lead limit o k = none := by
  simp only [tapRange, List.mem_range'_1] at h
  rw [source?, if_neg]
  omega

/-- A tap is on the pixel of its coordinate, and in the padding if there is none. -/
theorem source?_eq_some_iff {stride lead limit o k i : Nat} : source? stride lead limit o k = some i ↔
    (i : Int) = (o * stride + k : Nat) - lead ∧ i < limit := by
  simp only [source?, Option.ite_none_right_eq_some, Option.some.injEq]
  omega

theorem source?_eq_none_iff {stride lead limit o k : Nat} : source? stride lead limit o k = none ↔
    ¬ (0 ≤ ((o * stride + k : Nat) : Int) - lead ∧ ((o * stride + k : Nat) : Int) - lead < limit) := by
  simp only [source?, ite_eq_right_iff, reduceCtorEq, imp_false]
  omega

end Padding

namespace Convolution

variable {α : Type}

theorem exists_of_mem_taps {l : Convolution α} {t : Tap} (h : t ∈ l.taps) :
    ∃ oy ox ky kx y x c, oy < l.rows ∧ ox < l.columns ∧ ky < l.kernelSize ∧ kx < l.kernelSize ∧
      l.sourceRow? oy ky = some y ∧ l.sourceColumn? ox kx = some x ∧ c < l.inputShape.channels ∧
      t = l.tap oy ox ky kx y x c := by
  simp only [taps, List.mem_flatMap, List.mem_range] at h
  obtain ⟨oy, hoy, ox, hox, h⟩ := h
  have hrow : oy < l.rows := by
    unfold tapRows at hoy
    split at hoy
    · exact absurd hoy (Nat.not_lt_zero _)
    · exact hoy
  simp only [tapsAt, List.mem_flatMap] at h
  obtain ⟨ky, hky, h⟩ := h
  cases hy : l.sourceRow? oy ky with
  | none => simp [hy] at h
  | some y =>
      simp only [hy, List.mem_flatMap] at h
      obtain ⟨kx, hkx, h⟩ := h
      cases hx : l.sourceColumn? ox kx with
      | none => simp [hx] at h
      | some x =>
          simp only [hx, List.mem_map, List.mem_range] at h
          obtain ⟨c, hc, rfl⟩ := h
          exact ⟨oy, ox, ky, kx, y, x, c, hrow, hox, Padding.lt_of_mem_tapRange hky,
            Padding.lt_of_mem_tapRange hkx, hy, hx, hc, rfl⟩

/-- The pixel of a tap, its run of kernel values and its run of outputs lie in their buffers. -/
theorem tap_bounds {l : Convolution α} {t : Tap} (h : t ∈ l.taps) :
    l.inputShape.index t.y t.x t.channel < l.inputShape.size ∧
      t.weight + l.filters ≤ l.kernelLength ∧ t.out + l.filters ≤ l.outputShape.size := by
  obtain ⟨oy, ox, ky, kx, y, x, c, hoy, hox, hky, hkx, hy, hx, hc, rfl⟩ := exists_of_mem_taps h
  refine ⟨Shape.index_lt (Padding.source?_lt hy) (Padding.source?_lt hx) hc, ?_, ?_⟩
  · have hplace := mul_add_lt (mul_add_lt hky hkx) hc
    calc l.kernelOffset ky kx c + l.filters
        = ((ky * l.kernelSize + kx) * l.inputShape.channels + c + 1) * l.filters :=
          (Nat.succ_mul _ _).symm
      _ ≤ l.kernelLength := Nat.mul_le_mul_right _ hplace
  · calc (oy * l.columns + ox) * l.filters + l.filters
        = (oy * l.columns + ox + 1) * l.filters := (Nat.succ_mul _ _).symm
      _ ≤ l.outputShape.size := Nat.mul_le_mul_right _ (mul_add_lt hoy hox)

end Convolution

namespace Pooling

theorem mem_windowOf {l : Pooling} {s cells : Shape} {o i : Nat} :
    i ∈ l.windowOf s cells o ↔ ∃ py < l.poolSize, ∃ px < l.poolSize,
      i = s.index (o / cells.channels / cells.width * l.stride + py)
        (o / cells.channels % cells.width * l.stride + px) (o % cells.channels) := by
  simp only [windowOf, window, List.mem_flatMap, List.mem_range, List.mem_map]
  constructor
  · rintro ⟨py, hpy, px, hpx, rfl⟩
    exact ⟨py, hpy, px, hpx, rfl⟩
  · rintro ⟨py, hpy, px, hpx, rfl⟩
    exact ⟨py, hpy, px, hpx, rfl⟩

theorem window_end_le {l : Pooling} {n o p : Nat} (ho : o < l.windows n) (hp : p < l.poolSize) :
    o * l.stride + p < n := by
  unfold windows at ho
  split at ho
  · exact absurd ho (Nat.not_lt_zero _)
  · have hs : o * l.stride ≤ n - l.poolSize :=
      Nat.le_trans (Nat.mul_le_mul_right _ (Nat.le_of_lt_succ ho)) (Nat.div_mul_le_self _ _)
    omega

theorem windowOf_lt {l : Pooling} {o i : Nat} (ho : o < l.outputShape.size)
    (hi : i ∈ l.windowOf l.inputShape l.outputShape o) : i < l.inputShape.size := by
  obtain ⟨hy, hx, hc⟩ := Shape.split_lt ho
  obtain ⟨py, hpy, px, hpx, rfl⟩ := mem_windowOf.mp hi
  exact Shape.index_lt (window_end_le hy hpy) (window_end_le hx hpx) hc

theorem reaches_outputShape (l : Pooling) :
    l.reaches l.inputShape l.outputShape l.inputShape.size = true := by
  simp only [reaches, Bool.or_eq_true, beq_iff_eq, decide_eq_true_eq]
  by_cases hp : l.poolSize = 0
  · exact .inl (.inr hp)
  by_cases hs : l.outputShape.size = 0
  · exact .inl (.inl hs)
  obtain ⟨hh, hw, hc⟩ := Shape.pos_of_not_isEmpty (s := l.outputShape) (by simpa [Shape.isEmpty] using hs)
  exact .inr (Shape.index_lt (window_end_le (Nat.sub_one_lt_of_lt hh) (by omega))
    (window_end_le (Nat.sub_one_lt_of_lt hw) (by omega)) (Nat.sub_one_lt_of_lt hc))

end Pooling
end Convnet
