import Mathlib.Data.Int.ConditionallyCompleteOrder
import Mathlib.Data.Rat.Floor
import Mathlib.Data.Set.Card
import Convnet.Proofs.Result
import Convnet.Proofs.Window

namespace Convnet.Padding

/-- The coordinates under a window; the image has those of its pixels, all others are padding. -/
def window (stride lead kernel o : Nat) : Set Int :=
  Set.Ico (o * stride - lead : Int) (o * stride - lead + kernel : Int)

def pixels (input : Nat) : Set Int := Set.Ico 0 input

variable {input kernel stride : Nat}

theorem mem_window {lead o i : Nat} :
    (i : Int) ∈ window stride lead kernel o ↔ o * stride ≤ i + lead ∧ i + lead < o * stride + kernel := by
  simp only [window, Set.mem_Ico]
  push_cast [← Int.ofNat_le, ← Int.ofNat_lt]
  constructor
  · rintro ⟨hfirst, hlast⟩
    constructor <;> omega
  · rintro ⟨hfirst, hlast⟩
    constructor <;> omega

theorem mem_pixels {i : Int} : i ∈ pixels input ↔ ∃ n < input, (n : Int) = i := by
  simp only [pixels, Set.mem_Ico]
  constructor
  · rintro ⟨hnonneg, hlt⟩
    exact ⟨i.toNat, by omega, by omega⟩
  · rintro ⟨n, hn, rfl⟩
    omega

theorem exists_source?_iff {lead o i : Nat} : (∃ k < kernel, source? stride lead input o k = some i) ↔
    (i : Int) ∈ window stride lead kernel o ∩ pixels input := by
  rw [Set.mem_inter_iff, mem_window, mem_pixels]
  constructor
  · rintro ⟨k, hk, hsource⟩
    obtain ⟨hi, hlt⟩ := source?_eq_some_iff.mp hsource
    exact ⟨by omega, i, hlt, rfl⟩
  · rintro ⟨⟨hfirst, hlast⟩, n, hn, hni⟩
    refine ⟨i + lead - o * stride, by omega, source?_eq_some_iff.mpr ⟨?_, by omega⟩⟩
    omega

theorem window_meets {lead o : Nat} (hlead : lead < kernel) (ho : o * stride < input) :
    (window stride lead kernel o ∩ pixels input).Nonempty := by
  -- the first coordinate of the window, or the first pixel where the window starts in the zeros
  refine ⟨(o * stride - lead : Nat), mem_window.mpr ?_, mem_pixels.mpr ⟨_, ?_, rfl⟩⟩
  · omega
  · omega

theorem window_subset {lead o n : Nat} (stop : Nat) (ho : o ≤ n) (hstop : n * stride + kernel ≤ stop + lead) :
    window stride lead kernel o ⊆ Set.Ico (-lead : Int) (stop : Int) := by
  have hlow : (0 : Int) ≤ o * stride := by positivity
  have hhigh : o * stride ≤ n * stride := Nat.mul_le_mul_right _ ho
  intro i
  zify at hhigh hstop
  simp only [window, Set.mem_Ico]
  omega

theorem exists_window (hs : 0 < stride) (hk : stride ≤ kernel) {lead n i : Nat}
    (hi : i + lead < n * stride + kernel) : ∃ o ≤ n, (i : Int) ∈ window stride lead kernel o := by
  by_cases hq : (i + lead) / stride ≤ n
  · refine ⟨(i + lead) / stride, hq, mem_window.mpr ⟨Nat.div_mul_le_self _ _, ?_⟩⟩
    have hnext := Nat.lt_mul_div_succ (i + lead) hs
    rw [Nat.mul_succ, Nat.mul_comm] at hnext
    omega
  · refine ⟨n, le_rfl, mem_window.mpr ⟨?_, hi⟩⟩
    exact (Nat.le_div_iff_mul_le hs).mp (by omega)

/-- Windows without padding: all those that lie inside the image. -/
structure Fitted (input kernel stride out lead : Nat) : Prop where
  unpadded : lead = 0
  fits : ∀ o, o < out ↔ o * stride + kernel ≤ input
  count : {o : Nat | o * stride + kernel ≤ input}.encard = out
  inside : ∀ o < out, window stride lead kernel o ⊆ pixels input

/-- Windows with padding: one for each stride that the image begins, over as many zeros as the last window
needs, of which the smaller half comes first. -/
structure Padded (input kernel stride out lead : Nat) : Prop where
  count : (out : Int) = ⌈(input : ℚ) / stride⌉
  zeros : ∃ total trail : Nat, (total : Int) = max ((out - 1) * stride + kernel - input : Int) 0 ∧
    lead = total / 2 ∧ lead + trail = total ∧ (trail = lead ∨ trail = lead + 1) ∧
    ∀ o < out, window stride lead kernel o ⊆ Set.Ico (-lead : Int) (input + trail : Int)
  lead_lt : 0 < kernel → lead < kernel
  meets : 0 < kernel → ∀ o < out, (window stride lead kernel o ∩ pixels input).Nonempty
  covers : stride ≤ kernel → ∀ i ∈ pixels input, ∃ o < out, i ∈ window stride lead kernel o

theorem lt_windows_valid_iff (hs : 0 < stride) {o : Nat} :
    o < valid.windows input kernel stride ↔ o * stride + kernel ≤ input := by
  by_cases h : input < kernel
  · simp only [windows, if_pos h]
    omega
  · simp only [windows, if_neg h]
    rw [Nat.lt_succ_iff, Nat.le_div_iff_mul_le hs]
    omega

theorem lt_windows_same_iff (hs : 0 < stride) {o : Nat} :
    o < same.windows input kernel stride ↔ o * stride < input := by
  rw [windows, ← Nat.succ_le_iff, Nat.le_div_iff_mul_le hs, Nat.succ_mul]
  omega

theorem fitted (hs : 0 < stride) :
    Fitted input kernel stride (valid.windows input kernel stride) (valid.lead input kernel stride) where
  unpadded := rfl
  fits _ := lt_windows_valid_iff hs
  count := by
    have hset : {o : Nat | o * stride + kernel ≤ input} =
        (Finset.range (valid.windows input kernel stride) : Set Nat) := by
      ext o
      rw [Set.mem_ofPred_eq, Finset.coe_range, Set.mem_Iio, lt_windows_valid_iff hs]
    rw [hset, Set.encard_coe_eq_coe_finsetCard, Finset.card_range]
  inside o ho := by
    have hfits : o * stride + kernel ≤ input + 0 := (lt_windows_valid_iff hs).mp ho
    have hwithin := window_subset input le_rfl hfits
    rwa [Nat.cast_zero, neg_zero] at hwithin

theorem exists_last_window (kernel : Nat) (hs : 0 < stride) (hi : 0 < input) : ∃ n,
    same.windows input kernel stride = n + 1 ∧ n * stride < input ∧ input ≤ n * stride + stride := by
  obtain ⟨n, hn⟩ : ∃ n, same.windows input kernel stride = n + 1 := by
    refine Nat.exists_eq_add_one.mpr ((lt_windows_same_iff hs).mpr ?_)
    omega
  have hlast : n < same.windows input kernel stride := by omega
  have hend : ¬ n + 1 < same.windows input kernel stride := by omega
  rw [lt_windows_same_iff hs] at hlast hend
  rw [Nat.succ_mul] at hend
  exact ⟨n, hn, hlast, by omega⟩

theorem ceil_div_eq {n : Nat} (hs : 0 < stride) (hlast : n * stride < input)
    (hend : input ≤ n * stride + stride) : ⌈(input : ℚ) / stride⌉ = (n + 1 : Nat) := by
  have hpos : (0 : ℚ) < stride := by exact_mod_cast hs
  rw [Int.ceil_eq_iff, lt_div_iff₀ hpos, div_le_iff₀ hpos]
  push_cast
  constructor
  · rw [add_sub_cancel_right]
    exact_mod_cast hlast
  · rw [add_one_mul]
    exact_mod_cast hend

theorem padded (hs : 0 < stride) (hi : 0 < input) :
    Padded input kernel stride (same.windows input kernel stride) (same.lead input kernel stride) := by
  obtain ⟨n, hn, hlast, hend⟩ := exists_last_window kernel hs hi
  obtain ⟨total, htotal⟩ : ∃ total, total = n * stride + kernel - input := ⟨_, rfl⟩
  have hlead : same.lead input kernel stride = total / 2 := by
    rw [lead, hn, Nat.add_sub_cancel, htotal]
  have hlt : 0 < kernel → same.lead input kernel stride < kernel := by omega
  refine ⟨?_, ⟨total, total - total / 2, ?_, hlead, by omega, by omega, ?_⟩, hlt, ?_, ?_⟩
  · rw [hn, ceil_div_eq hs hlast hend]
  · rw [htotal, hn]
    push_cast
    rw [add_sub_cancel_right]
    omega
  · intro o ho
    exact_mod_cast window_subset (n := n) (input + (total - total / 2)) (by omega) (by omega)
  · intro hk o ho
    exact window_meets (hlt hk) ((lt_windows_same_iff hs).mp ho)
  · intro hk i hpixel
    obtain ⟨i, hpixel, rfl⟩ := mem_pixels.mp hpixel
    obtain ⟨o, ho, hmem⟩ := exists_window hs hk
      (show i + same.lead input kernel stride < n * stride + kernel by omega)
    exact ⟨o, by omega, hmem⟩

theorem resolve_eq (p : Padding) (input kernel : Nat) (hs : 0 < stride) (hi : p = same → 0 < input) :
    p.resolve input kernel stride = .ok (p.windows input kernel stride, p.lead input kernel stride) := by
  have hcounts : p.counts input kernel stride = true := by
    cases p with
    | same => simp [counts, hs.ne', (hi rfl).ne']
    | valid => simp [counts, hs.ne']
  rw [resolve, hcounts, require_true, ok_bind, pure_eq_ok]

/-- In numbers of 64 bits, windows are what they are in numbers without a bound, or there are none. -/
theorem resolveUnsigned_eq (p : Padding) (input kernel : Nat) (hs : 0 < stride) (hi : p = same → 0 < input) :
    p.resolveUnsigned input kernel stride = if p.largest input kernel stride < 2 ^ 64
      then .ok (p.windows input kernel stride, p.lead input kernel stride) else .error .overflow := by
  rw [resolveUnsigned, resolve_eq p input kernel hs hi, ok_bind, requireWord_pure]
  simp only [isUnsigned_iff, Nat.pow_eq]

theorem sourceUnsigned_eq (stride lead limit o k : Nat) : sourceUnsigned stride lead limit o k =
    if o * stride + k < 2 ^ 64 then .ok (source? stride lead limit o k) else .error .overflow := by
  rw [sourceUnsigned, requireWord_pure]
  simp only [isUnsigned_iff, Nat.pow_eq]

theorem tap_lt_largest (p : Padding) (hs : 0 < stride) {o k : Nat} (ho : o < p.windows input kernel stride)
    (hk : k < kernel) : o * stride + k < max input (p.largest input kernel stride) := by
  cases p with
  | valid =>
      have hfits := (lt_windows_valid_iff hs).mp ho
      exact lt_max_of_lt_left (by omega)
  | same =>
      refine lt_max_of_lt_right ?_
      have hlast : o * stride ≤ (same.windows input kernel stride - 1) * stride :=
        Nat.mul_le_mul_right stride (Nat.le_sub_one_of_lt ho)
      rw [largest]
      omega

/-- The windows along an axis, at every positive stride: those that fit where there is no padding, those that
start on the image where there is, and each with its taps on the pixels under it. They are found where all numbers on
the way have 64 bits, and then so have all their taps. -/
theorem resolve_windows (p : Padding) (input kernel : Nat) (hs : 0 < stride) (hi : p = same → 0 < input) :
    ((∃ r, p.resolveUnsigned input kernel stride = .ok r) ↔ p.largest input kernel stride < 2 ^ 64) ∧
    ∀ out lead, p.resolveUnsigned input kernel stride = .ok (out, lead) →
      p.resolve input kernel stride = .ok (out, lead) ∧
      (p = valid → Fitted input kernel stride out lead) ∧ (p = same → Padded input kernel stride out lead) ∧
      (∀ o k : Nat, (o * stride + k < 2 ^ 64 ↔ ∃ r, sourceUnsigned stride lead input o k = .ok r) ∧
        ∀ r, sourceUnsigned stride lead input o k = .ok r → r = source? stride lead input o k ∧
          ∀ i : Nat, r = some i ↔ (i : Int) = o * stride + k - lead ∧ (i : Int) ∈ pixels input) ∧
      (input < 2 ^ 64 → ∀ o < out, ∀ k < kernel, o * stride + k < 2 ^ 64) ∧
      ∀ o i : Nat, (∃ k < kernel, source? stride lead input o k = some i) ↔
        (i : Int) ∈ window stride lead kernel o ∩ pixels input := by
  have hresolve := resolveUnsigned_eq p input kernel hs hi
  refine ⟨?_, fun out lead h => ?_⟩
  · rw [hresolve, exists_ok_ite]
  · rw [hresolve] at h
    split at h
    case isFalse => cases h
    case isTrue hlargest =>
    obtain ⟨rfl, rfl⟩ := Prod.mk.inj (Except.ok.inj h)
    refine ⟨resolve_eq p input kernel hs hi, ?_, ?_, fun o k => ⟨?_, fun r hr => ?_⟩, fun hinput o ho k hk => ?_,
      fun o i => exists_source?_iff⟩
    · rintro rfl
      exact fitted hs
    · rintro rfl
      exact padded hs (hi rfl)
    · rw [sourceUnsigned_eq, exists_ok_ite]
    · rw [sourceUnsigned_eq] at hr
      split at hr
      case isFalse => cases hr
      obtain rfl := Except.ok.inj hr
      refine ⟨rfl, fun i => ?_⟩
      rw [source?_eq_some_iff, mem_pixels]
      push_cast
      refine and_congr_right fun _ => ⟨fun h => ⟨i, h, rfl⟩, ?_⟩
      rintro ⟨n, hn, hni⟩
      omega
    · exact (tap_lt_largest p hs ho hk).trans (max_lt hinput hlargest)

theorem resolve_windows_uneven : 0 < 2 ∧ 0 < 5 ∧ same.resolveUnsigned 5 4 2 = .ok (3, 1) ∧ Padded 5 4 2 3 1 := by
  obtain ⟨-, hresolve⟩ := resolve_windows same 5 4 (show 0 < 2 by decide) fun _ => by decide
  exact ⟨by decide, by decide, rfl, (hresolve 3 1 rfl).2.2.1 rfl⟩

/-- A kernel with as many taps as there are numbers of 64 bits has no second window, and one without taps has as many
zeros before the image as it has taps. -/
theorem resolve_overflow : same.resolveUnsigned 2 (2 ^ 64 - 1) 1 = .error .overflow ∧
    same.resolveUnsigned 3 0 1 = .ok (3, 0) ∧ ¬ (window 1 0 0 0 ∩ pixels 3).Nonempty := by
  refine ⟨rfl, rfl, ?_⟩
  rintro ⟨i, ⟨hfirst, hlast⟩, -⟩
  simp only [Nat.cast_zero] at hfirst hlast
  omega

end Convnet.Padding
