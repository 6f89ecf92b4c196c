import Convnet.Decimal.Digits
import Convnet.Proofs.Nearest

namespace Convnet.Decimal

open Binary64 (Regular Rounds gap ratio leastExponent)

namespace Interval

variable {i : Interval} {tie : Tie} {t : Int}

/-- A value with room to both sides. -/
structure Proper (i : Interval) : Prop where
  den : 0 < i.den
  low : i.low < i.value
  high : i.value < i.high

structure Holds (i : Interval) (x : ℚ) : Prop where
  low : (i.low / i.den : ℚ) ≤ x
  high : x ≤ (i.high / i.den : ℚ)
  strict : i.closed = false → (i.low / i.den : ℚ) < x ∧ x < (i.high / i.den : ℚ)

/-- A multiple of `10 ^ t` in units of which a step is a whole number, as the value is. -/
def scale (t : Int) : Nat := if t < 0 then Nat.pow 10 (-t).toNat else 1

def step (i : Interval) (t : Int) : Nat := if 0 ≤ t then i.den * Nat.pow 10 t.toNat else i.den

def below (i : Interval) (t : Int) : Nat := i.value * scale t / i.step t

theorem step_pos (hi : i.Proper) (t : Int) : 0 < i.step t := by
  rw [step]
  split
  · exact Nat.mul_pos hi.den (Nat.pow_pos (by decide))
  · exact hi.den

theorem scale_pos (t : Int) : 0 < scale t := by
  rw [scale]
  split
  · exact Nat.pow_pos (by decide)
  · exact Nat.one_pos

theorem step_eq (i : Interval) (t : Int) : (i.step t : ℚ) = i.den * scale t * 10 ^ t := by
  rcases Int.lt_or_le t 0 with h | h
  · obtain ⟨n, hn⟩ := Int.eq_ofNat_of_zero_le (show 0 ≤ -t by omega)
    obtain rfl : t = -n := by omega
    have hs : scale (-(n : Int)) = 10 ^ n := by
      rw [scale, if_pos h, hn]
      rfl
    rw [step, if_neg (by omega), hs, zpow_neg, zpow_natCast]
    push_cast
    field_simp
  · obtain ⟨n, rfl⟩ := Int.eq_ofNat_of_zero_le h
    have hs : scale (n : Int) = 1 := if_neg (by omega)
    have hst : i.step (n : Int) = i.den * 10 ^ n := if_pos h
    rw [hst, hs, zpow_natCast]
    push_cast
    ring

theorem grid_le_iff (hi : i.Proper) (n a : Nat) : (n * 10 ^ t : ℚ) ≤ a / i.den ↔ n * i.step t ≤ a * scale t := by
  have hd : (0 : ℚ) < i.den := by exact_mod_cast hi.den
  have hs : (0 : ℚ) < scale t := by exact_mod_cast scale_pos t
  rw [← @Nat.cast_le ℚ, le_div_iff₀ hd, ← mul_le_mul_iff_left₀ hs]
  push_cast
  rw [step_eq]
  have heq : (n : ℚ) * 10 ^ t * i.den * scale t = n * (i.den * scale t * 10 ^ t) := by ring
  rw [heq]

theorem le_grid_iff (hi : i.Proper) (n a : Nat) : (a / i.den : ℚ) ≤ n * 10 ^ t ↔ a * scale t ≤ n * i.step t := by
  have hd : (0 : ℚ) < i.den := by exact_mod_cast hi.den
  have hs : (0 : ℚ) < scale t := by exact_mod_cast scale_pos t
  rw [← @Nat.cast_le ℚ, div_le_iff₀ hd, ← mul_le_mul_iff_left₀ hs]
  push_cast
  rw [step_eq]
  have heq : (n : ℚ) * 10 ^ t * i.den * scale t = n * (i.den * scale t * 10 ^ t) := by ring
  rw [heq]

def inside (i : Interval) (a b : Nat) : Bool := if i.closed then a ≤ b else a < b

theorem inside_le {a b : Nat} (h : i.inside a b = true) : a ≤ b := by
  rw [inside] at h
  split at h
  · exact of_decide_eq_true h
  · exact (of_decide_eq_true h).le

theorem inside_lt {a b : Nat} (h : i.inside a b = true) (hc : i.closed = false) : a < b := by
  rw [inside, hc] at h
  exact of_decide_eq_true h

theorem le_of_not_inside {a b : Nat} (h : ¬ i.inside a b = true) : b ≤ a := by
  rw [inside] at h
  split at h
  · exact (not_le.mp (of_decide_eq_false (Bool.eq_false_iff.mpr h))).le
  · exact not_lt.mp (of_decide_eq_false (Bool.eq_false_iff.mpr h))

theorem below_le (i : Interval) (t : Int) : i.below t * i.step t ≤ i.value * scale t := Nat.div_mul_le_self _ _

theorem lt_below_succ (hi : i.Proper) (t : Int) : i.value * scale t < (i.below t + 1) * i.step t := by
  rw [Nat.mul_comm (i.below t + 1)]
  exact Nat.lt_mul_div_succ _ (step_pos hi t)

theorem holds_below (hi : i.Proper) (h : i.inside (i.low * scale t) (i.below t * i.step t) = true) :
    i.Holds (i.below t * 10 ^ t) := by
  have hup : i.below t * i.step t < i.high * scale t :=
    (below_le i t).trans_lt (Nat.mul_lt_mul_of_pos_right hi.high (scale_pos t))
  refine ⟨(le_grid_iff hi _ _).mpr (inside_le h), (grid_le_iff hi _ _).mpr hup.le, fun hc => ⟨?_, ?_⟩⟩
  · exact not_le.mp (mt (grid_le_iff hi _ _).mp (not_le.mpr (inside_lt h hc)))
  · exact not_le.mp (mt (le_grid_iff hi _ _).mp (not_le.mpr hup))

theorem holds_above (hi : i.Proper) (h : i.inside ((i.below t + 1) * i.step t) (i.high * scale t) = true) :
    i.Holds ((i.below t + 1 : Nat) * 10 ^ t) := by
  have hdown : i.low * scale t < (i.below t + 1) * i.step t :=
    (Nat.mul_lt_mul_of_pos_right hi.low (scale_pos t)).trans (lt_below_succ hi t)
  refine ⟨(le_grid_iff hi _ _).mpr hdown.le, (grid_le_iff hi _ _).mpr (inside_le h), fun hc => ⟨?_, ?_⟩⟩
  · exact not_le.mp (mt (grid_le_iff hi _ _).mp (not_le.mpr hdown))
  · exact not_le.mp (mt (le_grid_iff hi _ _).mp (not_le.mpr (inside_lt h hc)))

def choice (i : Interval) (t : Int) (half : Nat) : Option Nat :=
  let down := i.inside (i.low * scale t) (i.below t * i.step t)
  let up := i.inside ((i.below t + 1) * i.step t) (i.high * scale t)
  let r := i.value * scale t % i.step t
  if down && up then
    if 2 * r < i.step t then some (i.below t)
    else if i.step t < 2 * r then some (i.below t + 1)
    else some half
  else if down then some (i.below t)
  else if up then some (i.below t + 1)
  else none

theorem gridPoint?_eq (i : Interval) (tie : Tie) (t : Int) :
    ∃ half, (half = i.below t ∨ half = i.below t + 1) ∧ i.gridPoint? tie t = i.choice t half := by
  cases tie with
  | even => exact ⟨i.below t + i.below t % 2, by omega, rfl⟩
  | away => exact ⟨i.below t + 1, .inr rfl, rfl⟩

theorem gridPoint?_cases {d : Nat} (h : i.gridPoint? tie t = some d) :
    d = i.below t ∧ i.inside (i.low * scale t) (i.below t * i.step t) = true ∨
      d = i.below t + 1 ∧ i.inside ((i.below t + 1) * i.step t) (i.high * scale t) = true := by
  obtain ⟨half, hhalf, heq⟩ := gridPoint?_eq i tie t
  rw [heq, choice] at h
  split_ifs at h with hboth _ _ hdown hup
  · exact .inl ⟨(Option.some.inj h).symm, (Bool.and_eq_true_iff.mp hboth).1⟩
  · exact .inr ⟨(Option.some.inj h).symm, (Bool.and_eq_true_iff.mp hboth).2⟩
  · obtain rfl := Option.some.inj h
    exact hhalf.imp (⟨·, (Bool.and_eq_true_iff.mp hboth).1⟩) (⟨·, (Bool.and_eq_true_iff.mp hboth).2⟩)
  · exact .inl ⟨(Option.some.inj h).symm, hdown⟩
  · exact .inr ⟨(Option.some.inj h).symm, hup⟩

theorem gridPoint?_holds (hi : i.Proper) {d : Nat} (h : i.gridPoint? tie t = some d) :
    i.Holds (d * 10 ^ t) ∧ (d * 10 ^ t : ℚ) ≤ i.value / i.den + 10 ^ t := by
  have hbelow : (i.below t * 10 ^ t : ℚ) ≤ i.value / i.den := (grid_le_iff hi _ _).mpr (below_le i t)
  have hten : (0 : ℚ) < 10 ^ t := by positivity
  obtain ⟨rfl, hin⟩ | ⟨rfl, hin⟩ := gridPoint?_cases h
  · exact ⟨holds_below hi hin, by linarith⟩
  · refine ⟨holds_above hi hin, ?_⟩
    push_cast
    linarith

variable (tie) in
/-- A grid finer than the interval is wide has a point in it. -/
theorem gridPoint?_isSome (hi : i.Proper) (hwide : (10 : ℚ) ^ t < i.high / i.den - i.low / i.den) :
    ∃ d, i.gridPoint? tie t = some d := by
  obtain ⟨half, -, heq⟩ := gridPoint?_eq i tie t
  by_cases hdown : i.inside (i.low * scale t) (i.below t * i.step t) = true
  · by_cases hup : i.inside ((i.below t + 1) * i.step t) (i.high * scale t) = true
    · rw [heq, choice, hdown, hup]
      simp only [Bool.and_self, if_true]
      split_ifs <;> exact ⟨_, rfl⟩
    · exact ⟨_, by rw [heq, choice, hdown, Bool.eq_false_iff.mpr hup]; rfl⟩
  · by_cases hup : i.inside ((i.below t + 1) * i.step t) (i.high * scale t) = true
    · exact ⟨_, by rw [heq, choice, Bool.eq_false_iff.mpr hdown, hup]; rfl⟩
    · have h₁ := (grid_le_iff hi (i.below t) i.low).mpr (le_of_not_inside hdown)
      have h₂ := (le_grid_iff hi (i.below t + 1) i.high).mpr (le_of_not_inside hup)
      push_cast at h₂
      linarith

theorem coarsest_holds {P : Nat → Int → Prop} {k : Int} {n : Nat} {found : Nat × Int}
    (hgrid : ∀ j < n, ∀ d, i.gridPoint? tie (k - j) = some d → P d (k - j)) (hfound : P found.1 found.2) :
    P (i.coarsest tie k n found).1 (i.coarsest tie k n found).2 := by
  induction n generalizing found with
  | zero => exact hfound
  | succ n ih =>
      rw [coarsest]
      split
      case h_1 d hd =>
        exact ih (fun j hj => hgrid j (by omega)) (hgrid n (by omega) d hd)
      case h_2 => exact hfound

end Interval

theorem trim_spec (fuel d : Nat) (e : Int) (hd : 0 < d) : ((trim fuel d e).1 * 10 ^ (trim fuel d e).2 : ℚ) = d * 10 ^ e ∧
    0 < (trim fuel d e).1 ∧ (trim fuel d e).1 ≤ d := by
  induction fuel generalizing d e with
  | zero => exact ⟨rfl, hd, Nat.le_refl d⟩
  | succ fuel ih =>
      rw [trim]
      split
      case isFalse => exact ⟨rfl, hd, Nat.le_refl d⟩
      case isTrue h =>
        have hten : d / 10 * 10 = d := Nat.div_mul_cancel (Nat.dvd_of_mod_eq_zero h)
        obtain ⟨heq, hpos, hle⟩ := ih (d / 10) (e + 1) (by omega)
        refine ⟨heq.trans ?_, hpos, by omega⟩
        rw [zpow_add_one₀ (by norm_num), mul_comm ((10 : ℚ) ^ e), ← mul_assoc]
        congr 1
        exact_mod_cast hten

section Leading

variable {num den : Nat}

variable (num) in
theorem scaled_ten (hd : 0 < den) (k : Int) :
    (if 0 ≤ k then decide (num < den * Nat.pow 10 k.toNat) else decide (num * Nat.pow 10 (-k).toNat < den)) = true ↔
      (num / den : ℚ) < 10 ^ k := by
  have h := Binary64.scaled_iff num (show 0 < 10 by decide) hd 1 k
  simp only [Nat.cast_one, one_mul, Nat.mul_one, Nat.cast_ofNat] at h
  rw [← h]
  split <;> exact decide_eq_true_iff

theorem guess_bounds {b : Int} (hl : -1100 ≤ b) (hu : b ≤ 1100) :
    (10 : ℚ) ^ (Int.fdiv (b * 1233) 4096 - 1) ≤ 2 ^ (b - 1) ∧
      (2 : ℚ) ^ (b + 1) ≤ 10 ^ (Int.fdiv (b * 1233) 4096 + 2) := by
  have hup : ∀ n < 1101, Nat.pow 10 (n * 1233 / 4096) * 2 ≤ 10 * Nat.pow 2 n ∧
      Nat.pow 2 (n + 1) ≤ Nat.pow 10 (n * 1233 / 4096 + 2) := by decide +kernel
  have hdown : ∀ n < 1101, Nat.pow 2 (n + 1) ≤ Nat.pow 10 ((n * 1233 + 4095) / 4096 + 1) ∧
      Nat.pow 10 ((n * 1233 + 4095) / 4096) * 2 ≤ 100 * Nat.pow 2 n := by decide +kernel
  rw [Int.fdiv_eq_ediv_of_nonneg _ (by norm_num)]
  rcases Int.le_total 0 b with h | h
  · obtain ⟨n, rfl⟩ := Int.eq_ofNat_of_zero_le h
    obtain ⟨h₁, h₂⟩ := hup n (by omega)
    have hk : (n : Int) * 1233 / 4096 = (n * 1233 / 4096 : Nat) := by omega
    rw [hk]
    generalize n * 1233 / 4096 = j at *
    have h₁' : (10 : ℚ) ^ j * 2 ≤ 10 * 2 ^ n := by exact_mod_cast h₁
    have h₂' : (2 : ℚ) ^ (n + 1) ≤ 10 ^ (j + 2) := by exact_mod_cast h₂
    constructor
    · rw [zpow_sub_one₀ (by norm_num), zpow_sub_one₀ (by norm_num), zpow_natCast, zpow_natCast]
      linarith
    · exact_mod_cast h₂'
  · obtain ⟨n, hn⟩ := Int.eq_ofNat_of_zero_le (show 0 ≤ -b by omega)
    obtain rfl : b = -n := by omega
    obtain ⟨h₁, h₂⟩ := hdown n (by omega)
    have hk : -(n : Int) * 1233 / 4096 = -((n * 1233 + 4095) / 4096 : Nat) := by omega
    rw [hk]
    generalize (n * 1233 + 4095) / 4096 = j at *
    have h₁' : (2 : ℚ) ^ (n + 1) ≤ 10 ^ (j + 1) := by exact_mod_cast h₁
    have h₂' : (10 : ℚ) ^ j * 2 ≤ 100 * 2 ^ n := by exact_mod_cast h₂
    constructor
    · rw [show -(j : Int) - 1 = -((j + 1 : Nat) : Int) by omega, show -(n : Int) - 1 = -((n + 1 : Nat) : Int) by omega,
        zpow_neg, zpow_neg, zpow_natCast, zpow_natCast]
      exact inv_anti₀ (by positivity) h₁'
    · rw [zpow_add₀ (by norm_num), zpow_add₀ (by norm_num), zpow_neg, zpow_neg, zpow_natCast, zpow_natCast,
        inv_mul_le_iff₀ (by positivity), ← div_eq_inv_mul, mul_div_assoc', le_div_iff₀ (by positivity)]
      norm_num
      linarith

theorem leadingExponent_bounds (hn : 0 < num) (hd : 0 < den) (hl : (2 : ℚ) ^ (-1100 : Int) ≤ num / den)
    (hu : (num / den : ℚ) < 2 ^ (1100 : Int)) :
    (10 : ℚ) ^ leadingExponent num den ≤ num / den ∧ (num / den : ℚ) < 10 ^ (leadingExponent num den + 1) := by
  obtain ⟨hlow, hhigh⟩ := Binary64.log2_bounds hn hd
  have h₁ : (-1100 : Int) < (num.log2 : Int) - den.log2 + 1 :=
    (zpow_lt_zpow_iff_right₀ one_lt_two).mp (lt_of_le_of_lt hl hhigh)
  have h₂ : (num.log2 : Int) - den.log2 - 1 < 1100 :=
    (zpow_lt_zpow_iff_right₀ one_lt_two).mp (hlow.trans hu)
  obtain ⟨hg, hg'⟩ := guess_bounds (b := (num.log2 : Int) - den.log2) (by omega) (by omega)
  have hbelow := fun k => scaled_ten num hd k
  rw [leadingExponent]
  generalize Int.fdiv (((num.log2 : Int) - den.log2) * 1233) 4096 = k at *
  dsimp only
  by_cases hk : (num / den : ℚ) < 10 ^ k
  · rw [if_pos ((scaled_ten num hd k).mpr hk), sub_add_cancel]
    exact ⟨hg.trans hlow.le, hk⟩
  · rw [if_neg (mt (scaled_ten num hd k).mp hk)]
    by_cases hk' : (num / den : ℚ) < 10 ^ (k + 1)
    · rw [if_pos ((scaled_ten num hd (k + 1)).mpr hk')]
      exact ⟨not_lt.mp hk, hk'⟩
    · rw [if_neg (mt (scaled_ten num hd (k + 1)).mp hk'), add_assoc]
      exact ⟨not_lt.mp hk', lt_of_lt_of_le hhigh hg'⟩

end Leading

section Around

variable {m : Nat} {q : Int}

theorem ratio_one (q : Int) : 0 < (ratio 1 q).2 ∧ 0 < (ratio 1 q).1 ∧ ((ratio 1 q).1 / (ratio 1 q).2 : ℚ) = 2 ^ q := by
  rw [ratio]
  split
  case isTrue h =>
    obtain ⟨n, rfl⟩ := Int.eq_ofNat_of_zero_le h
    refine ⟨Nat.one_pos, ?_, ?_⟩
    · rw [Nat.one_mul]
      exact Nat.pow_pos (by decide)
    · rw [zpow_natCast]
      push_cast
      simp
  case isFalse h =>
    obtain ⟨n, hn⟩ := Int.eq_ofNat_of_zero_le (show 0 ≤ -q by omega)
    obtain rfl : q = -n := by omega
    refine ⟨Nat.pow_pos (by decide), Nat.one_pos, ?_⟩
    rw [hn, zpow_neg, zpow_natCast]
    push_cast
    simp

theorem around_eq (hm : 0 < m) (q : Int) : (Interval.around m q).Proper ∧
    ((Interval.around m q).low / (Interval.around m q).den : ℚ) = (m - gap m q) * 2 ^ q ∧
    ((Interval.around m q).value / (Interval.around m q).den : ℚ) = m * 2 ^ q ∧
    ((Interval.around m q).high / (Interval.around m q).den : ℚ) = (m + 1 / 2) * 2 ^ q ∧
    ((Interval.around m q).closed = (m % 2 == 0)) := by
  obtain ⟨hden, hunit, hratio⟩ := ratio_one (q - 2)
  rw [zpow_sub₀ two_ne_zero] at hratio
  obtain ⟨below, hb, hgap⟩ : ∃ below : Nat, below = (if m = Nat.pow 2 52 ∧ leastExponent < q then 1 else 2) ∧
      (below : ℚ) = 4 * gap m q ∧ below ≤ 2 ∧ 0 < below := by
    rw [gap]
    by_cases h : m = 2 ^ 52 ∧ leastExponent < q
    · exact ⟨1, (if_pos h).symm, by rw [if_pos h]; norm_num, by omega, by omega⟩
    · exact ⟨2, (if_neg h).symm, by rw [if_neg h]; norm_num, by omega, by omega⟩
  have hdef : Interval.around m q = ⟨(4 * m - below) * (ratio 1 (q - 2)).1, 4 * m * (ratio 1 (q - 2)).1,
      (4 * m + 2) * (ratio 1 (q - 2)).1, (ratio 1 (q - 2)).2, m % 2 == 0⟩ := by
    rw [hb]
    rfl
  rw [hdef]
  generalize (ratio 1 (q - 2)).1 = unit at *
  generalize (ratio 1 (q - 2)).2 = den at *
  refine ⟨⟨hden, ?_, ?_⟩, ?_, ?_, ?_, rfl⟩
  · exact Nat.mul_lt_mul_of_pos_right (by omega) hunit
  · exact Nat.mul_lt_mul_of_pos_right (by omega) hunit
  · have hsub : ((4 * m - below : Nat) : ℚ) = 4 * m - 4 * gap m q := by
      rw [Nat.cast_sub (by omega), ← hgap.1]
      push_cast
      rfl
    dsimp only
    rw [Nat.cast_mul, hsub, mul_div_assoc, hratio]
    ring
  · dsimp only
    rw [Nat.cast_mul, mul_div_assoc, hratio]
    push_cast
    ring
  · dsimp only
    rw [Nat.cast_mul, mul_div_assoc, hratio]
    push_cast
    ring

theorem rounds_of_holds (hm : 0 < m) {x : ℚ} (h : (Interval.around m q).Holds x) : Rounds x m q := by
  obtain ⟨-, hlow, -, hhigh, hclosed⟩ := around_eq hm q
  obtain ⟨h₁, h₂, h₃⟩ := h
  rw [hlow] at h₁ h₃
  rw [hhigh] at h₂ h₃
  have hodd : m % 2 = 1 → (Interval.around m q).closed = false := fun h => by rw [hclosed, h]; rfl
  exact ⟨h₁, h₂, fun h => (h₃ (hodd h)).1, fun h => (h₃ (hodd h)).2⟩

/-- A grid of seventeen digits is finer than the interval of a double is wide. -/
theorem seventeen_digits (hw : Regular m q) {k : Int} (hk : (10 : ℚ) ^ k ≤ m * 2 ^ q) :
    (10 : ℚ) ^ (k - 16) < (m + 1 / 2) * 2 ^ q - (m - gap m q) * 2 ^ q := by
  have hq : (0 : ℚ) < 2 ^ q := by positivity
  have hm : (m : ℚ) < 2 ^ 53 := by exact_mod_cast hw.bits
  have hwide : (m : ℚ) < 10 ^ 16 * (1 / 2 + gap m q) := by
    rw [gap]
    split
    case isTrue h =>
      rw [h.1]
      norm_num
    case isFalse => exact hm.trans (by norm_num)
  calc (10 : ℚ) ^ (k - 16) = 10 ^ k / 10 ^ 16 := by rw [zpow_sub₀ (by norm_num)]; norm_num
    _ ≤ m * 2 ^ q / 10 ^ 16 := by gcongr
    _ < 10 ^ 16 * (1 / 2 + gap m q) * 2 ^ q / 10 ^ 16 := by gcongr
    _ = (m + 1 / 2) * 2 ^ q - (m - gap m q) * 2 ^ q := by ring

/-- The fewest digits of a double are rounded to it, and there are at most seventeen of them. -/
theorem shortest_rounds (tie : Tie) (hw : Regular m q) (hm : 0 < m) :
    Rounds ((shortest tie m q).1 * 10 ^ (shortest tie m q).2) m q ∧ 0 < (shortest tie m q).1 ∧
      (shortest tie m q).1 ≤ 10 ^ 17 := by
  obtain ⟨hproper, hlow, hvalue, hhigh, -⟩ := around_eq hm q
  have hrounds := fun x => rounds_of_holds (q := q) hm (x := x)
  rw [shortest]
  generalize Interval.around m q = i at *
  have hbits : (m : ℚ) < 2 ^ 53 := by exact_mod_cast hw.bits
  have hone : (1 : ℚ) ≤ m := by exact_mod_cast hm
  have hq : (0 : ℚ) < 2 ^ q := by positivity
  have hsmall : (2 : ℚ) ^ (-1100 : Int) ≤ i.value / i.den := by
    rw [hvalue]
    calc (2 : ℚ) ^ (-1100 : Int) ≤ 2 ^ q :=
          zpow_le_zpow_right₀ one_le_two (le_trans (by norm_num [leastExponent]) hw.least)
      _ ≤ m * 2 ^ q := le_mul_of_one_le_left hq.le hone
  have hlarge : (i.value / i.den : ℚ) < 2 ^ (1100 : Int) := by
    rw [hvalue]
    calc (m : ℚ) * 2 ^ q < 2 ^ 53 * 2 ^ q := by gcongr
      _ = 2 ^ (53 + q) := by rw [zpow_add₀ two_ne_zero]; norm_num
      _ ≤ 2 ^ (1100 : Int) := zpow_le_zpow_right₀ one_le_two (by have := hw.most; omega)
  obtain ⟨hk, hk'⟩ := leadingExponent_bounds (Nat.zero_lt_of_lt hproper.low) hproper.den hsmall hlarge
  generalize leadingExponent i.value i.den = k at *
  have hwide : (10 : ℚ) ^ (k - 16) < i.high / i.den - i.low / i.den := by
    rw [hhigh, hlow]
    exact seventeen_digits hw (hvalue ▸ hk)
  obtain ⟨d₀, hd₀⟩ := Interval.gridPoint?_isSome tie hproper hwide
  -- what every point that the search meets is like
  have hpoint : ∀ j : Nat, j ≤ 16 → ∀ d, i.gridPoint? tie (k - j) = some d →
      i.Holds (d * 10 ^ (k - j)) ∧ d ≤ 10 ^ 17 := by
    intro j hj d hd
    obtain ⟨hin, hle⟩ := Interval.gridPoint?_holds hproper hd
    refine ⟨hin, ?_⟩
    have hten : (0 : ℚ) < 10 ^ (k - (j : Int)) := by positivity
    have hlt : (d : ℚ) * 10 ^ (k - (j : Int)) < (10 ^ 17 + 1) * 10 ^ (k - (j : Int)) := by
      have hpow : (10 : ℚ) ^ (k + 1) ≤ 10 ^ 17 * 10 ^ (k - (j : Int)) := by
        rw [← zpow_natCast, ← zpow_add₀ (by norm_num)]
        exact zpow_le_zpow_right₀ (by norm_num) (by push_cast; omega)
      linarith
    have hd' := lt_of_mul_lt_mul_right hlt hten.le
    have hd'' : d < 10 ^ 17 + 1 := by exact_mod_cast hd'
    omega
  have hfound : i.Holds ((i.coarsest tie k 17 (0, 0)).1 * 10 ^ (i.coarsest tie k 17 (0, 0)).2) ∧
      (i.coarsest tie k 17 (0, 0)).1 ≤ 10 ^ 17 := by
    have hfirst : i.coarsest tie k 17 (0, 0) = i.coarsest tie k 16 (d₀, k - 16) := by
      have hd₀' : i.gridPoint? tie (k - ((16 : Nat) : Int)) = some d₀ := hd₀
      rw [Interval.coarsest, hd₀']
      rfl
    rw [hfirst]
    exact Interval.coarsest_holds (P := fun d e => i.Holds (d * 10 ^ e) ∧ d ≤ 10 ^ 17)
      (fun j hj => hpoint j (by omega)) (hpoint 16 le_rfl d₀ hd₀)
  generalize i.coarsest tie k 17 (0, 0) = found at *
  obtain ⟨d, e⟩ := found
  obtain ⟨hin, hd⟩ := hfound
  have hpos : 0 < d := by
    have hx := (hrounds _ hin).pos hm
    exact Nat.pos_of_ne_zero fun h => by simp [h] at hx
  obtain ⟨heq, hpos', hle⟩ := trim_spec 18 d e hpos
  exact ⟨heq.symm ▸ hrounds _ hin, hpos', hle.trans hd⟩

end Around

end Convnet.Decimal
