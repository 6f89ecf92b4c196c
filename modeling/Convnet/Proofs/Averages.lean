import Mathlib.Algebra.BigOperators.Field
import Mathlib.Algebra.BigOperators.Intervals
import Mathlib.Algebra.Order.BigOperators.Ring.Finset
import Mathlib.Tactic.Linarith
import Mathlib.Tactic.Ring
import Convnet.Proofs.Real
import Convnet.Proofs.Slots

namespace Convnet

open Finset

section Power

variable {R : Type} [ExactScalar R]

theorem Scalar.powLoop_eq (r a : R) (n : Nat) : powLoop r a n = r * a ^ n := by
  -- The lowest digit of the exponent goes into the accumulated factor, the others to the square.
  have hdigit (r a : R) (n : Nat) : (if n % 2 = 1 then r * a else r) = r * a ^ (n % 2) := by
    rcases Nat.mod_two_eq_zero_or_one n with h | h <;> simp [h]
  have hsplit (a : R) (n : Nat) : a ^ (n % 2) * (a * a) ^ (n / 2) = a ^ n := by
    rw [← pow_two, ← pow_mul, ← pow_add, Nat.mod_add_div]
  induction r, a, n using powLoop.induct with
  | case1 r a n h => rw [powLoop, dif_pos h, hdigit, ← hsplit a n, h, pow_zero, mul_one]
  | case2 r a n r' h ih =>
      calc powLoop r a n
        _ = powLoop r' (a * a) (n / 2) := by
          rw [powLoop, dif_neg h]
          rfl
        _ = r * a ^ (n % 2) * (a * a) ^ (n / 2) := by rw [ih, ← hdigit r a n]; rfl
        _ = r * a ^ n := by rw [mul_assoc, hsplit]

theorem Scalar.power_natCast (a : R) (n : Nat) : power a (n : Int) = a ^ n := by
  rw [power, if_neg (by omega), Int.natAbs_natCast, powLoop_eq, one_mul]

end Power

theorem OptimizerRule.stepExponent_eq {n : Nat} (hpos : 0 < n) (hn : n < 2 ^ 31) : stepExponent n = n := by
  have hpow : Nat.pow 2 32 = 4294967296 := rfl
  rw [stepExponent, hpow, Int.bmod]
  omega

def fadingSum {R : Type} [CommRing R] (b : R) (f : Nat → R) (n : Nat) : R := ∑ i ∈ Icc 1 n, b ^ (n - i) * f i

theorem fadingSum_succ {R : Type} [CommRing R] (b : R) (f : Nat → R) (n : Nat) :
    fadingSum b f (n + 1) = b * fadingSum b f n + f (n + 1) := by
  rw [fadingSum, sum_Icc_succ_top (Nat.le_add_left 1 n), Nat.sub_self, pow_zero, one_mul, fadingSum, mul_sum]
  congr 1
  refine sum_congr rfl fun i hi => ?_
  rw [Nat.succ_sub (mem_Icc.mp hi).2, pow_succ]
  ring

variable {K : Type} [Field K]

/-- A running mean that starts from zero, `b` being the share of the past. -/
def running (b : K) (f : Nat → K) (n : Nat) : K := ∑ i ∈ Icc 1 n, (1 - b) * b ^ (n - i) * f i

/-- The weight of step `i` in a running mean of `n` steps, divided by what zero leaves. -/
def share (b : K) (n i : Nat) : K := (1 - b) * b ^ (n - i) / (1 - b ^ n)

variable {b : K} {f : Nat → K} {n : Nat}

theorem running_eq : running b f n = (1 - b) * fadingSum b f n := by
  simp only [running, fadingSum, mul_sum, mul_assoc]

theorem running_zero : running b f 0 = 0 := by simp [running]

theorem running_succ : running b f (n + 1) = b * running b f n + (1 - b) * f (n + 1) := by
  rw [running_eq, running_eq, fadingSum_succ]
  ring

theorem running_one : running b (fun _ => 1) n = 1 - b ^ n := by
  induction n with
  | zero => rw [running_zero, pow_zero, sub_self]
  | succ n ih =>
      rw [running_succ, ih, pow_succ]
      ring

variable [LinearOrder K] [IsStrictOrderedRing K]

/-- A weighted average of numbers that are counted from one. -/
structure Averages (n : Nat) (weights f : Nat → K) (mean : K) : Prop where
  nonneg : ∀ i ∈ Icc 1 n, 0 ≤ weights i
  total : ∑ i ∈ Icc 1 n, weights i = 1
  eq : mean = ∑ i ∈ Icc 1 n, weights i * f i

namespace Averages

variable {weights : Nat → K} {mean lo hi c : K}

theorem le_of_le (h : Averages n weights f mean) (hf : ∀ i ∈ Icc 1 n, f i ≤ hi) : mean ≤ hi := by
  calc mean = ∑ i ∈ Icc 1 n, weights i * f i := h.eq
    _ ≤ ∑ i ∈ Icc 1 n, weights i * hi :=
        sum_le_sum fun i hi => mul_le_mul_of_nonneg_left (hf i hi) (h.nonneg i hi)
    _ = hi := by rw [← sum_mul, h.total, one_mul]

theorem le_of_ge (h : Averages n weights f mean) (hf : ∀ i ∈ Icc 1 n, lo ≤ f i) : lo ≤ mean := by
  calc lo = ∑ i ∈ Icc 1 n, weights i * lo := by rw [← sum_mul, h.total, one_mul]
    _ ≤ ∑ i ∈ Icc 1 n, weights i * f i :=
        sum_le_sum fun i hi => mul_le_mul_of_nonneg_left (hf i hi) (h.nonneg i hi)
    _ = mean := h.eq.symm

theorem eq_of_const (h : Averages n weights f mean) (hf : ∀ i ∈ Icc 1 n, f i = c) : mean = c :=
  le_antisymm (h.le_of_le fun i hi => (hf i hi).le) (h.le_of_ge fun i hi => (hf i hi).ge)

end Averages

theorem one_sub_pow_pos (h0 : 0 ≤ b) (h1 : b < 1) (hn : 0 < n) : 0 < 1 - b ^ n :=
  sub_pos.mpr (pow_lt_one₀ h0 h1 hn.ne')

theorem averages_running (h0 : 0 ≤ b) (h1 : b < 1) (hn : 0 < n) :
    Averages n (share b n) f (running b f n / (1 - b ^ n)) := by
  have hpos := one_sub_pow_pos h0 h1 hn
  refine ⟨fun i _ => ?_, ?_, ?_⟩
  · exact div_nonneg (mul_nonneg (sub_pos.mpr h1).le (pow_nonneg h0 _)) hpos.le
  · have hone := running_one (b := b) (n := n)
    simp only [running, mul_one] at hone
    simp only [share]
    rw [← sum_div, hone, div_self hpos.ne']
  · rw [running, sum_div]
    exact sum_congr rfl fun i _ => by rw [share, div_mul_eq_mul_div]

section Track

variable {K : Type} [Field K] [LinearOrder K] [Elementary K] {rate b1 b2 e : K}

def gradients (g : Nat → K) (n : Nat) : List K := (List.range n).map fun i => g (i + 1)

omit [Field K] [LinearOrder K] [Elementary K] in
theorem gradients_succ (g : Nat → K) (n : Nat) : gradients g (n + 1) = gradients g n ++ [g (n + 1)] := by
  rw [gradients, List.range_succ, List.map_append]
  rfl

namespace OptimizerRule

theorem corrections_adam (rate b1 b2 e : K) {n : Nat} (hn : 0 < n) (hlt : n < 2 ^ 31) :
    (adam rate b1 b2 e).corrections n = (1 - b1 ^ n, 1 - b2 ^ n) := by
  rw [corrections, stepExponent_eq hn hlt, Scalar.power_natCast, Scalar.power_natCast]

theorem follow_gradients_succ (rule : OptimizerRule K) (c : K × Moments K) (g : Nat → K) (n : Nat) :
    rule.follow 0 c (gradients g (n + 1)) =
      rule.advance (n + 1) (rule.follow 0 c (gradients g n)) (g (n + 1)) := by
  rw [gradients_succ, follow_concat, gradients, List.length_map, List.length_range, Nat.zero_add]

theorem advance_adam_fst (rate b1 b2 e : K) (n : Nat) (c : K × Moments K) (g : K) :
    ((adam rate b1 b2 e).advance n c g).1 = c.1 -
      rate * (((adam rate b1 b2 e).advance n c g).2.first / ((adam rate b1 b2 e).corrections n).1) /
        (Scalar.sqrt (((adam rate b1 b2 e).advance n c g).2.second / ((adam rate b1 b2 e).corrections n).2) + e) :=
  rfl

theorem moments_follow (w : K) (g : Nat → K) (n : Nat) :
    ((adam rate b1 b2 e).follow 0 (w, ⟨0, 0⟩) (gradients g n)).2 =
      ⟨running b1 g n, running b2 (fun i => g i ^ 2) n⟩ := by
  induction n with
  | zero =>
      rw [running_zero, running_zero]
      rfl
  | succ n ih => rw [follow_gradients_succ, advance, ih, move, running_succ, running_succ, pow_two, ← mul_assoc]

end OptimizerRule
end Track

variable [Elementary K] {rate b1 b2 e : K}

/-- The step of number `n`: from a weight `w` to `w'`, with the corrected moments `mean` and `spread` and what they
were divided by. -/
structure Corrected (rate b1 b2 e : K) (g : Nat → K) (n : Nat) (w w' : K) (divisors : K × K) (mean spread : K) :
    Prop where
  divisors : divisors = (1 - b1 ^ n, 1 - b2 ^ n) ∧ 0 < divisors.1 ∧ 0 < divisors.2
  first : Averages n (share b1 n) g mean
  second : Averages n (share b2 n) (fun i => g i ^ 2) spread
  between : ∀ lo hi, (∀ i ∈ Icc 1 n, lo ≤ g i ∧ g i ≤ hi) → lo ≤ mean ∧ mean ≤ hi
  nonneg : 0 ≤ spread
  step : 0 < Scalar.sqrt spread + e ∧ w' = w - rate * mean / (Scalar.sqrt spread + e)
  const : ∀ c, (∀ i ∈ Icc 1 n, g i = c) → mean = c ∧ spread = c ^ 2

theorem corrected_of_averages (hsqrt : ∀ x : K, 0 ≤ x → 0 ≤ Elementary.sqrt x) (he : 0 < e) {g : Nat → K}
    {n : Nat} {w mean spread : K} {divisors : K × K}
    (hdiv : divisors = (1 - b1 ^ n, 1 - b2 ^ n) ∧ 0 < divisors.1 ∧ 0 < divisors.2)
    (h1 : Averages n (share b1 n) g mean) (h2 : Averages n (share b2 n) (fun i => g i ^ 2) spread) :
    Corrected rate b1 b2 e g n w (w - rate * mean / (Scalar.sqrt spread + e)) divisors mean spread := by
  have hspread : 0 ≤ spread := h2.le_of_ge fun i _ => sq_nonneg (g i)
  refine ⟨hdiv, h1, h2, fun lo hi hg => ?_, hspread, ⟨?_, rfl⟩, fun c hg => ?_⟩
  · exact ⟨h1.le_of_ge fun i hi => (hg i hi).1, h1.le_of_le fun i hi => (hg i hi).2⟩
  · exact add_pos_of_nonneg_of_pos (hsqrt spread hspread) he
  · exact ⟨h1.eq_of_const hg, h2.eq_of_const fun i hi => by rw [hg i hi]⟩

/-- Each step is made with averages of the gradients so far and of their squares, and the steps of a network move each
of its weights as these do one weight alone. -/
theorem Bench.alone_averages (hsqrt : ∀ x : K, 0 ≤ x → 0 ≤ Elementary.sqrt x) (h1 : 0 ≤ b1 ∧ b1 < 1)
    (h2 : 0 ≤ b2 ∧ b2 < 1) (he : 0 < e) (rate w : K) (g : Nat → K) {n : Nat} (hn : 1 ≤ n ∧ n ≤ 2 ^ 31 - 1) :
    ∃ (before after : Bench K) (w₀ w₁ : K) (s : Moments K),
      alone? (.adam rate b1 b2 e) w (gradients g (n - 1)) = .ok before ∧ before.buffers = #[#[w₀]] ∧
      alone? (.adam rate b1 b2 e) w (gradients g n) = .ok after ∧ after.buffers = #[#[w₁]] ∧
      after.optimizer.steps = n ∧ after.kept 0 = #[s] ∧
      Corrected rate b1 b2 e g n w₀ w₁ (OptimizerRule.corrections n (.adam rate b1 b2 e))
        (s.first / (OptimizerRule.corrections n (.adam rate b1 b2 e)).1)
        (s.second / (OptimizerRule.corrections n (.adam rate b1 b2 e)).2) ∧
      ∀ m buffers steps b, Network.Stepped m (fresh (.adam rate b1 b2 e) buffers) steps b → ∀ slot values j,
        buffers[slot]? = some values → values[j]? = some w → steps.map (·.grad slot j) = gradients g n →
          b.coordinate slot j = (w₁, s) := by
  obtain ⟨k, rfl⟩ : ∃ k, n = k + 1 := ⟨n - 1, by omega⟩
  have hpos : 0 < k + 1 := Nat.succ_pos k
  have hcorr := OptimizerRule.corrections_adam rate b1 b2 e hpos (by omega)
  obtain ⟨before, hbefore, halone⟩ := exists_alone (.adam rate b1 b2 e) w (gradients g k)
  obtain ⟨after, hafter, halone'⟩ := exists_alone (.adam rate b1 b2 e) w (gradients g (k + 1))
  have hne : gradients g (k + 1) ≠ [] := by simp [gradients]
  have hmoments : (after.coordinate 0 0).2 =
      ⟨running b1 g (k + 1), running b2 (fun i => g i ^ 2) (k + 1)⟩ := by
    rw [halone'.coordinate, OptimizerRule.moments_follow]
  have hstep : after.coordinate 0 0 = OptimizerRule.advance (.adam rate b1 b2 e) (k + 1) (before.coordinate 0 0)
      (g (k + 1)) := by
    rw [halone'.coordinate, OptimizerRule.follow_gradients_succ, ← halone.coordinate]
  refine ⟨before, after, _, _, _, hbefore, halone.buffers, hafter, halone'.buffers, ?_, halone'.kept rfl hne, ?_, ?_⟩
  · rw [halone'.steps, gradients, List.length_map, List.length_range]
  · have hweight := OptimizerRule.advance_adam_fst rate b1 b2 e (k + 1) (before.coordinate 0 0) (g (k + 1))
    rw [← hstep, hmoments, hcorr] at hweight
    rw [hmoments, hcorr, hweight]
    exact corrected_of_averages hsqrt he
      ⟨rfl, one_sub_pow_pos h1.1 h1.2 hpos, one_sub_pow_pos h2.1 h2.2 hpos⟩
      (averages_running h1.1 h1.2 hpos) (averages_running h2.1 h2.2 hpos)
  · intro m buffers steps b h slot values j hslot hw hgrads
    obtain ⟨hrun, hsuits⟩ := h.runs
    rw [coordinate_of_run? hsuits hrun hslot hw, hgrads, halone'.coordinate]

theorem Bench.alone_averages_constant : ∃ (rule : OptimizerRule ℝ) (b : Bench ℝ) (w : ℝ) (s : Moments ℝ),
    rule = .adam (1 / 1000) (9 / 10) (999 / 1000) (1 / 10000000) ∧ alone? rule 1 [3, 3] = .ok b ∧
      b.buffers = #[#[w]] ∧ b.kept 0 = #[s] ∧ s.first / (rule.corrections 2).1 = 3 ∧
        s.second / (rule.corrections 2).2 = 9 := by
  have h1 : (0 : ℝ) ≤ 9 / 10 ∧ (9 / 10 : ℝ) < 1 := by norm_num
  have h2 : (0 : ℝ) ≤ 999 / 1000 ∧ (999 / 1000 : ℝ) < 1 := by norm_num
  have he : (0 : ℝ) < 1 / 10000000 := by norm_num
  have hn : 1 ≤ 2 ∧ 2 ≤ 2 ^ 31 - 1 := by decide
  obtain ⟨before, b, w₀, w, s, -, -, hb, hw, -, hs, h, -⟩ :=
    alone_averages (fun x _ => Real.sqrt_nonneg x) h1 h2 he (1 / 1000) 1 (fun _ => 3) hn
  obtain ⟨hmean, hspread⟩ := h.const 3 fun _ _ => rfl
  exact ⟨_, b, w, s, rfl, hb, hw, hs, hmean, hspread.trans (by norm_num)⟩

end Convnet
