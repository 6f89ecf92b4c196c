import Convnet.Proofs.Averages
import Convnet.Run.Config

namespace Convnet

/-- A real number, or nothing: what is left of a division by zero or of the root of a negative number. -/
inductive Guarded
  | of (x : ℝ)
  | lost

namespace Guarded

def Defined (a : Guarded) : Prop := ∃ x, a = of x

def lift (f : ℝ → ℝ) : Guarded → Guarded
  | of x => of (f x)
  | lost => lost

def lift₂ (f : ℝ → ℝ → ℝ) : Guarded → Guarded → Guarded
  | of x, of y => of (f x y)
  | _, _ => lost

noncomputable def div : Guarded → Guarded → Guarded
  | of x, of y => if y = 0 then lost else of (x / y)
  | _, _ => lost

noncomputable def sqrt : Guarded → Guarded
  | of x => if x < 0 then lost else of (Real.sqrt x)
  | lost => lost

def elim {β : Type} (b : β) (f : ℝ → β) : Guarded → β
  | of x => f x
  | lost => b

open Classical in
noncomputable instance : Scalar Guarded where
  zero := of 0
  one := of 1
  add := lift₂ (· + ·)
  sub := lift₂ (· - ·)
  mul := lift₂ (· * ·)
  div := div
  neg := lift (- ·)
  beq a b := decide (∃ x, a = of x ∧ b = of x)
  lt a b := ∃ x y, a = of x ∧ b = of y ∧ x < y
  natCast n := of n
  ofScientific m s e := of (OfScientific.ofScientific m s e)
  decLT _ _ := Classical.dec _
  bottom := of 0
  aboveBottom a := a.elim false fun _ => true
  sqrt := sqrt
  exp := lift Real.exp
  ln := lift Real.log
  tanh := lift Real.tanh
  eulerPow := lift Real.exp
  floor a := a.elim 0 fun x => ⌊x⌋₊
  round a := a.elim 0 fun x => round x
  isFinite a := a.elim false fun _ => true
  text _ := ""
  fixed _ _ := ""

variable {a b : Guarded} {x y : ℝ}

theorem one_eq : (1 : Guarded) = of 1 := rfl

theorem of_add : of x + of y = of (x + y) := rfl

theorem of_beq : (of x == of y) = decide (x = y) := by
  have h : (of x == of y) = @decide (∃ z, of x = of z ∧ of y = of z) (Classical.dec _) := rfl
  simp [h, eq_comm]

theorem defined_of (x : ℝ) : Defined (of x) := ⟨x, rfl⟩

theorem eq_lost (h : ¬Defined a) : a = lost := by
  cases a with
  | of x => exact absurd (defined_of x) h
  | lost => rfl

theorem div_of (hy : y ≠ 0) : of x / of y = of (x / y) := if_neg hy

theorem defined_sub : Defined (a - b) ↔ Defined a ∧ Defined b := by
  cases a <;> cases b <;> simp [Defined, HSub.hSub, Sub.sub, lift₂]

theorem defined_add : Defined (a + b) ↔ Defined a ∧ Defined b := by
  cases a <;> cases b <;> simp [Defined, HAdd.hAdd, Add.add, lift₂]

theorem defined_mul : Defined (a * b) ↔ Defined a ∧ Defined b := by
  cases a <;> cases b <;> simp [Defined, HMul.hMul, Mul.mul, lift₂]

theorem defined_div : Defined (a / b) ↔ Defined a ∧ ∃ y, b = of y ∧ y ≠ 0 := by
  cases a with
  | lost => exact ⟨fun ⟨_, h⟩ => (nomatch h), fun ⟨⟨_, h⟩, _⟩ => (nomatch h)⟩
  | of x =>
      cases b with
      | lost => exact ⟨fun ⟨_, h⟩ => (nomatch h), fun ⟨_, _, h, _⟩ => (nomatch h)⟩
      | of y =>
          refine ⟨fun ⟨z, h⟩ => ⟨defined_of x, y, rfl, fun hy => ?_⟩, ?_⟩
          · exact nomatch (if_pos hy).symm.trans h
          · rintro ⟨-, _, ⟨⟩, hy⟩
            exact ⟨x / y, div_of hy⟩

theorem of_eq_of : of x = of y ↔ x = y := ⟨fun h => Guarded.of.inj h, congrArg of⟩

theorem sqrt_of (hx : 0 ≤ x) : Scalar.sqrt (of x) = of (Real.sqrt x) := if_neg hx.not_gt

theorem defined_sqrt (h : Defined (Scalar.sqrt a)) : ∃ x, a = of x ∧ 0 ≤ x := by
  cases a with
  | lost => exact nomatch h
  | of x =>
      refine ⟨x, rfl, le_of_not_gt fun hx => ?_⟩
      obtain ⟨y, hy⟩ := h
      exact nomatch (if_pos hx).symm.trans hy

theorem powLoop_of (r a : ℝ) (n : Nat) : Scalar.powLoop (of r) (of a) n = of (Scalar.powLoop r a n) := by
  have hdigit (r a : ℝ) (n : Nat) :
      (if n % 2 = 1 then of r * of a else of r) = of (if n % 2 = 1 then r * a else r) := by
    split <;> rfl
  induction r, a, n using Scalar.powLoop.induct with
  | case1 r a n h => rw [Scalar.powLoop, dif_pos h, Scalar.powLoop, dif_pos h, hdigit]
  | case2 r a n r' h ih =>
      calc Scalar.powLoop (of r) (of a) n
        _ = Scalar.powLoop (of r') (of (a * a)) (n / 2) := by
          rw [Scalar.powLoop, dif_neg h, hdigit]
          rfl
        _ = of (Scalar.powLoop r' (a * a) (n / 2)) := ih
        _ = of (Scalar.powLoop r a n) := by
          conv_rhs => rw [Scalar.powLoop, dif_neg h]
          rfl

theorem power_of (b : ℝ) (k : Int) :
    Scalar.power (of b) k = if k < 0 then of 1 / of (b ^ k.natAbs) else of (b ^ k.natAbs) := by
  rw [Scalar.power, one_eq, powLoop_of, Scalar.powLoop_eq, one_mul]

end Guarded

open Guarded

def OptimizerRule.map {α β : Type} (f : α → β) : OptimizerRule α → OptimizerRule β
  | adam rate b1 b2 e => adam (f rate) (f b1) (f b2) (f e)
  | sgd rate momentum => sgd (f rate) (f momentum)
  | rmsprop rate => rmsprop (f rate)

namespace OptimizerRule

variable {rule : OptimizerRule ℝ} {rate b1 b2 e : ℝ}

/-- What can be kept of squares of gradients. -/
def Reaches (y : ℝ) : OptimizerRule ℝ → Prop
  | adam _ _ b2 _ => ∃ q, y = (1 - b2) * q ∧ (0 ≤ b2 → 0 ≤ q)
  | sgd .. => True
  | rmsprop _ => 0 ≤ y

/-- Whether moments are told and are among those that the rule can come to. -/
def Keeps (rule : OptimizerRule ℝ) (s : Moments Guarded) : Prop := ∃ x y, s = ⟨of x, of y⟩ ∧ rule.Reaches y

/-- Whether an update at a step divides by nothing that is zero. -/
def Solvent (n : Nat) : OptimizerRule ℝ → Prop
  | adam _ b1 b2 e =>
    0 < stepExponent n ∧ b1 ^ (stepExponent n).natAbs ≠ 1 ∧ (0 ≤ b2 ∧ b2 ≠ 1) ∧ 0 < e
  | sgd .. | rmsprop _ => True

theorem keeps_zero (rule : OptimizerRule ℝ) : rule.Keeps ⟨0, 0⟩ := by
  refine ⟨0, 0, rfl, ?_⟩
  cases rule with
  | adam => exact ⟨0, by ring, fun _ => le_rfl⟩
  | sgd => trivial
  | rmsprop => exact le_refl (0 : ℝ)

theorem decay_of : (decay : Guarded) = of (9 / 10) := by
  have h : (decay : Guarded) = of (0.9 : ℝ) := rfl
  rw [h]
  norm_num

theorem defaultEpsilon_of : (defaultEpsilon : Guarded) = of (1 / 10000000) := by
  have h : (defaultEpsilon : Guarded) = of (1e-7 : ℝ) := rfl
  rw [h]
  norm_num

theorem move_keeps (corrections : Guarded × Guarded) (w g : ℝ) {s : Moments Guarded} (h : rule.Keeps s) :
    rule.Keeps ((rule.map of).move corrections (of w) (of g) s).2 := by
  obtain ⟨x, y, rfl, hy⟩ := h
  cases rule with
  | adam rate b1 b2 e =>
      obtain ⟨q, rfl, hq⟩ := hy
      refine ⟨b1 * x + (1 - b1) * g, b2 * ((1 - b2) * q) + (1 - b2) * g * g, rfl, b2 * q + g * g, by ring,
        fun h0 => ?_⟩
      exact add_nonneg (mul_nonneg h0 (hq h0)) (mul_self_nonneg g)
  | sgd rate momentum =>
      rw [map, move]
      split
      · exact ⟨x, y, rfl, trivial⟩
      · exact ⟨momentum * x - rate * g, y, rfl, trivial⟩
  | rmsprop rate =>
      have hy : 0 ≤ y := hy
      have hmove : (((rmsprop rate).map of).move corrections (of w) (of g) ⟨of x, of y⟩).2 =
          ⟨of x, of (9 / 10 * y + (1 - 9 / 10) * g * g)⟩ := by
        rw [map, move, decay_of]
        rfl
      have hsquare := mul_self_nonneg g
      refine ⟨x, 9 / 10 * y + (1 - 9 / 10) * g * g, hmove, ?_⟩
      rw [Reaches]
      linarith

theorem defined_adam {c : Guarded × Guarded} {w g x y : ℝ} :
    (((adam rate b1 b2 e).map of).move c (of w) (of g) ⟨of x, of y⟩).1.Defined ↔
      ∃ c1 c2, c = (of c1, of c2) ∧ c1 ≠ 0 ∧ c2 ≠ 0 ∧ 0 ≤ (b2 * y + (1 - b2) * g * g) / c2 ∧
        Real.sqrt ((b2 * y + (1 - b2) * g * g) / c2) + e ≠ 0 := by
  obtain ⟨m, hm⟩ : ∃ m, m = b1 * x + (1 - b1) * g := ⟨_, rfl⟩
  obtain ⟨v, hv⟩ : ∃ v, v = b2 * y + (1 - b2) * g * g := ⟨_, rfl⟩
  have hmove : (((adam rate b1 b2 e).map of).move c (of w) (of g) ⟨of x, of y⟩).1 =
      of w - of rate * (of m / c.1) / (Scalar.sqrt (of v / c.2) + of e) := by
    rw [hm, hv]
    rfl
  rw [hmove, ← hv, defined_sub, defined_div, defined_mul, defined_div]
  constructor
  · rintro ⟨-, ⟨-, -, c1, hc1, h1⟩, d, hd, hne⟩
    obtain ⟨hroot, -⟩ := defined_add.mp ⟨d, hd⟩
    obtain ⟨z, hz, hnonneg⟩ := defined_sqrt hroot
    obtain ⟨-, c2, hc2, h2⟩ := defined_div.mp ⟨z, hz⟩
    rw [hc2, div_of h2, of_eq_of] at hz
    rw [hc2, div_of h2, hz, sqrt_of hnonneg, of_add, of_eq_of] at hd
    refine ⟨c1, c2, Prod.ext hc1 hc2, h1, h2, ?_, ?_⟩
    · rw [hz]
      exact hnonneg
    · rw [hz, hd]
      exact hne
  · rintro ⟨c1, c2, rfl, h1, h2, hsq, hne⟩
    refine ⟨defined_of w, ⟨defined_of rate, defined_of m, c1, rfl, h1⟩, _, ?_, hne⟩
    rw [div_of h2, sqrt_of hsq, of_add]

/-- A power and the number itself are on the same side of one. -/
theorem one_sub_div_one_sub_pow_pos {b : ℝ} (h0 : 0 ≤ b) (h1 : b ≠ 1) {k : Nat} (hk : k ≠ 0) :
    0 < (1 - b) / (1 - b ^ k) := by
  rcases lt_or_gt_of_ne h1 with hlt | hgt
  · exact div_pos (sub_pos.mpr hlt) (sub_pos.mpr (pow_lt_one₀ h0 hlt hk))
  · exact div_pos_of_neg_of_neg (sub_neg.mpr hgt) (sub_neg.mpr (one_lt_pow₀ hgt hk))

theorem corrections_of {n : Nat} (hn : 0 < stepExponent n) : ((adam rate b1 b2 e).map of).corrections n =
    (of (1 - b1 ^ (stepExponent n).natAbs), of (1 - b2 ^ (stepExponent n).natAbs)) := by
  rw [map, corrections, power_of, power_of, if_neg hn.not_gt, if_neg hn.not_gt]
  rfl

theorem move_defined {n : Nat} (h : rule.Solvent n) (w g : ℝ) {s : Moments Guarded} (hs : rule.Keeps s) :
    ((rule.map of).move ((rule.map of).corrections n) (of w) (of g) s).1.Defined := by
  obtain ⟨x, y, rfl, hy⟩ := hs
  cases rule with
  | adam rate b1 b2 e =>
      obtain ⟨hn, h1, ⟨h0, hne⟩, he⟩ := h
      obtain ⟨q, rfl, hq⟩ := hy
      have hk : (stepExponent n).natAbs ≠ 0 := by omega
      have hratio := one_sub_div_one_sub_pow_pos h0 hne hk
      have hsquares : 0 ≤ b2 * q + g * g := add_nonneg (mul_nonneg h0 (hq h0)) (mul_self_nonneg g)
      have hspread : (b2 * ((1 - b2) * q) + (1 - b2) * g * g) / (1 - b2 ^ (stepExponent n).natAbs) =
          (1 - b2) / (1 - b2 ^ (stepExponent n).natAbs) * (b2 * q + g * g) := by ring
      have hnonneg := mul_nonneg hratio.le hsquares
      refine defined_adam.mpr ⟨_, _, corrections_of hn, sub_ne_zero.mpr h1.symm, fun hzero => ?_, ?_, ?_⟩
      · rw [hzero, div_zero] at hratio
        exact lt_irrefl 0 hratio
      · rw [hspread]
        exact hnonneg
      · exact (add_pos_of_nonneg_of_pos (Real.sqrt_nonneg _) he).ne'
  | sgd rate momentum =>
      rw [map, move]
      split
      · exact defined_of (w - rate * g)
      · exact defined_of (w + (momentum * x - rate * g))
  | rmsprop rate =>
      have hsquare := mul_self_nonneg g
      have hy : 0 ≤ y := hy
      have hv : 0 ≤ 9 / 10 * y + (1 - 9 / 10) * g * g := by linarith
      have hpos : 0 < Real.sqrt (9 / 10 * y + (1 - 9 / 10) * g * g) + 1 / 10000000 :=
        add_pos_of_nonneg_of_pos (Real.sqrt_nonneg _) (by norm_num)
      rw [map, move, decay_of, defaultEpsilon_of]
      refine defined_sub.mpr ⟨defined_of w, defined_div.mpr ⟨defined_of (rate * g), _, ?_, hpos.ne'⟩⟩
      rw [← of_add, ← sqrt_of hv]
      rfl

end OptimizerRule

namespace Optimizer

variable {rule : OptimizerRule ℝ}

/-- The optimizers that a rule comes to: by any number of steps and updates of any slots, in any order. -/
inductive Reached (rule : OptimizerRule ℝ) : Optimizer Guarded → Prop
  | fresh : Reached rule (.ofRule (rule.map of))
  | beginStep {o : Optimizer Guarded} (h : Reached rule o) : Reached rule o.beginStep
  | update {o o' : Optimizer Guarded} (slot : Nat) (values grads : Array ℝ) {values' : Array Guarded}
      (h : Reached rule o) (hu : o.update? slot (values.map of) (grads.map of) = .ok (values', o')) : Reached rule o'

variable {o o' : Optimizer Guarded}

structure Told (rule : OptimizerRule ℝ) (o : Optimizer Guarded) : Prop where
  rule_eq : o.rule = rule.map of
  rows : ∀ slot j, rule.Keeps ((o.slots.getD slot #[]).getD j ⟨0, 0⟩)

theorem Told.momentsOf (h : o.Told rule) (slot n j : Nat) : rule.Keeps ((o.momentsOf slot n).getD j ⟨0, 0⟩) := by
  rw [Optimizer.momentsOf]
  split
  · exact h.rows slot j
  · rw [Array.getD_eq_getD_getElem?, Array.getElem?_replicate]
    split <;> exact rule.keeps_zero

section Moved

variable {corrections : Guarded × Guarded} {values grads : Array ℝ} {moments : Array (Moments Guarded)} {j : Nat}

theorem movedAt_of (hj : j < values.size) :
    movedAt (rule.map of) corrections (values.map of) (grads.map of) moments j = if hg : j < grads.size then
      (rule.map of).move corrections (of values[j]) (of grads[j]) (moments.getD j ⟨0, 0⟩)
      else (of values[j], moments.getD j ⟨0, 0⟩) := by
  rw [movedAt, Buffer.read_of_lt (by simpa using hj)]
  by_cases hg : j < grads.size <;> simp [hg]

theorem movedAt_keeps (corrections : Guarded × Guarded) (grads : Array ℝ) (hj : j < values.size) (h : rule.Keeps (moments.getD j ⟨0, 0⟩)) :
    rule.Keeps (movedAt (rule.map of) corrections (values.map of) (grads.map of) moments j).2 := by
  rw [movedAt_of hj]
  split
  · exact OptimizerRule.move_keeps corrections _ _ h
  · exact h

theorem movedAt_defined {n : Nat} (hn : rule.Solvent n) (hj : j < values.size)
    (h : rule.Keeps (moments.getD j ⟨0, 0⟩)) : (movedAt (rule.map of) ((rule.map of).corrections n) (values.map of)
      (grads.map of) moments j).1.Defined := by
  rw [movedAt_of hj]
  split
  · exact OptimizerRule.move_defined hn _ _ h
  · exact defined_of _

end Moved

theorem Told.update (h : o.Told rule) (slot : Nat) (values grads : Array ℝ) :
    (o.update slot (values.map of) (grads.map of)).2.Told rule := by
  refine ⟨h.rule_eq, fun k j => ?_⟩
  rw [Optimizer.update]
  dsimp only
  split
  case isFalse => exact h.rows k j
  case isTrue =>
    rw [getD_putRow]
    split
    case isFalse => exact h.rows k j
    case isTrue =>
      rw [moveAll_eq, h.rule_eq]
      by_cases hj : j < values.size
      · have hkeeps := movedAt_keeps ((rule.map of).corrections o.steps) grads hj
          (h.momentsOf slot (values.map of).size j)
        simpa [hj] using hkeeps
      · simpa [hj] using rule.keeps_zero

theorem Reached.told (h : Reached rule o) : o.Told rule := by
  induction h with
  | fresh => exact ⟨rfl, fun slot j => by simpa [ofRule] using rule.keeps_zero⟩
  | beginStep _ ih => exact ⟨ih.rule_eq, ih.rows⟩
  | update slot values grads _ hu ih =>
      have hupdate := ih.update slot values grads
      rw [← eq_update_of_update? hu] at hupdate
      exact hupdate

theorem exists_reached (rule : OptimizerRule ℝ) (n : Nat) : Reached rule ⟨rule.map of, n, #[]⟩ := by
  induction n with
  | zero => exact .fresh
  | succ n ih => exact ih.beginStep

theorem update_single (o : Optimizer Guarded) (w g : Guarded) :
    (o.update 0 #[w] #[g]).1 = #[(o.rule.advance o.steps (o.coordinate 0 #[w] 0) g).1] ∧
      ((o.update 0 #[w] #[g]).2.coordinate 0 #[w] 0).2 = (o.rule.advance o.steps (o.coordinate 0 #[w] 0) g).2 := by
  have hsize : (o.update 0 #[w] #[g]).1.size = 1 := by
    rw [values_update, Array.size_ofFn]
    rfl
  have hj : 0 < #[w].size := Nat.zero_lt_one
  have h := coordinate_update #[g] o 0 hj
  refine ⟨?_, ?_⟩
  · rw [values_update]
    rfl
  · rw [coordinate, hsize] at h
    have hmoments := congrArg Prod.snd h
    exact hmoments

end Optimizer

namespace OptimizerRule

variable {rule : OptimizerRule ℝ} {rate b1 b2 e : ℝ} {n : Nat}

/-- Whether numbers come out of every update at a step, whatever was updated before. -/
def DefinedAt (n : Nat) (rule : OptimizerRule ℝ) : Prop :=
  ∀ o, Optimizer.Reached rule o → o.steps = n → ∀ (slot : Nat) (values grads : Array ℝ),
    rule.Moves slot values.size grads → ∃ values' o',
      o.update? slot (values.map of) (grads.map of) = .ok (values', o') ∧ ∀ w ∈ values', w.Defined

theorem moves_map {slot size : Nat} {grads : Array ℝ} (h : rule.Moves slot size grads) :
    (rule.map of).Moves slot size (grads.map of) := by
  have hkeeps : (rule.map of).keepsMoments = rule.keepsMoments := by
    cases rule with
    | adam | rmsprop => rfl
    | sgd rate momentum => exact congrArg not of_beq
  have hneeds : (rule.map of).needsAllGradients = rule.needsAllGradients := by cases rule <;> rfl
  refine ⟨fun hk => h.room (hkeeps ▸ hk), fun hn => ?_⟩
  rw [Array.size_map]
  exact h.grads (hneeds ▸ hn)

theorem definedAt_of_solvent (h : rule.Solvent n) : rule.DefinedAt n := by
  intro o ho hn slot values grads hmoves
  have htold := ho.told
  have hmoves : o.rule.Moves slot (values.map of).size (grads.map of) := by
    rw [htold.rule_eq, Array.size_map]
    exact moves_map hmoves
  refine ⟨(o.update slot (values.map of) (grads.map of)).1, (o.update slot (values.map of) (grads.map of)).2,
    Optimizer.update?_eq_ok hmoves, fun w hw => ?_⟩
  rw [Optimizer.values_update, htold.rule_eq, hn] at hw
  obtain ⟨j, rfl⟩ := Array.mem_ofFn.mp hw
  exact Optimizer.movedAt_defined h (by simpa using j.isLt) (htold.momentsOf slot _ j)

theorem DefinedAt.divisors (h : (adam rate b1 b2 e).DefinedAt n) {o : Optimizer Guarded}
    (ho : Optimizer.Reached (adam rate b1 b2 e) o) (hn : o.steps = n) {x y : ℝ}
    (hs : (o.coordinate 0 #[of 0] 0).2 = ⟨of x, of y⟩) (g : ℝ) :
    ∃ c1 c2, ((adam rate b1 b2 e).map of).corrections n = (of c1, of c2) ∧ c1 ≠ 0 ∧ c2 ≠ 0 ∧
      0 ≤ (b2 * y + (1 - b2) * g * g) / c2 ∧ Real.sqrt ((b2 * y + (1 - b2) * g * g) / c2) + e ≠ 0 := by
  obtain ⟨values', o', hu, hdefined⟩ := h o ho hn 0 #[0] #[g] ⟨fun _ => by decide, fun _ => Nat.le_refl 1⟩
  simp only [List.map_toArray, List.map_cons, List.map_nil] at hu
  have hvalues : values' = (o.update 0 #[of 0] #[of g]).1 := congrArg Prod.fst (Optimizer.eq_update_of_update? hu)
  rw [hvalues, (Optimizer.update_single o (of 0) (of g)).1] at hdefined
  have hmove := hdefined _ (Array.mem_singleton_self _)
  rw [advance, ho.told.rule_eq, hn, hs] at hmove
  exact defined_adam.mp hmove

theorem correction_cases {b c : ℝ} {k : Int} (h : of c = 1 - Scalar.power (of b) k) :
    0 ≤ k ∧ c = 1 - b ^ k.natAbs ∨ k < 0 ∧ b ^ k.natAbs ≠ 0 ∧ c = 1 - 1 / b ^ k.natAbs := by
  rw [power_of] at h
  split at h
  case isTrue hk =>
    obtain ⟨-, y, hy, hne⟩ := defined_div.mp (defined_sub.mp ⟨c, h.symm⟩).2
    rw [← of_eq_of.mp hy] at hne
    rw [div_of hne] at h
    exact .inr ⟨hk, hne, of_eq_of.mp h⟩
  case isFalse hk => exact .inl ⟨not_lt.mp hk, of_eq_of.mp h⟩

theorem pos_of_correction {b c : ℝ} {k : Int} (hb : 0 ≤ b) (h : of c = 1 - Scalar.power (of b) k) (hc : c ≠ 0)
    (hratio : 0 ≤ (1 - b) / c) : b ≠ 1 ∧ 0 < k := by
  have hne : b ≠ 1 := by
    rintro rfl
    rcases correction_cases h with ⟨-, heq⟩ | ⟨-, -, heq⟩ <;> simp [heq] at hc
  refine ⟨hne, lt_of_not_ge fun hle => ?_⟩
  rcases correction_cases h with ⟨hk, heq⟩ | ⟨hk, hpow, heq⟩
  · obtain rfl := le_antisymm hle hk
    simp [heq] at hc
  · have hm : k.natAbs ≠ 0 := by omega
    have hpos : 0 < b ^ k.natAbs := lt_of_le_of_ne (pow_nonneg hb _) hpow.symm
    refine hratio.not_gt ?_
    rw [heq]
    rcases lt_or_gt_of_ne hne with hlt | hgt
    · have hover : 1 < 1 / b ^ k.natAbs := (one_lt_div hpos).mpr (pow_lt_one₀ hb hlt hm)
      exact div_neg_of_pos_of_neg (sub_pos.mpr hlt) (sub_neg.mpr hover)
    · have hunder : 1 / b ^ k.natAbs < 1 := (div_lt_one hpos).mpr (one_lt_pow₀ hgt hm)
      exact div_neg_of_neg_of_pos (sub_neg.mpr hgt) (sub_pos.mpr hunder)

theorem exists_reached_adam (rate b1 b2 e : ℝ) (n : Nat) :
    (∃ o, Optimizer.Reached (adam rate b1 b2 e) o ∧ o.steps = n ∧ (o.coordinate 0 #[of 0] 0).2 = ⟨of 0, of 0⟩) ∧
      ∃ o x, Optimizer.Reached (adam rate b1 b2 e) o ∧ o.steps = n ∧
        (o.coordinate 0 #[of 0] 0).2 = ⟨of x, of (1 - b2)⟩ := by
  obtain ⟨o, ho⟩ : ∃ o : Optimizer Guarded, o = ⟨(adam rate b1 b2 e).map of, n, #[]⟩ := ⟨_, rfl⟩
  have hfresh : Optimizer.Reached (adam rate b1 b2 e) o := ho ▸ Optimizer.exists_reached _ n
  have hzero : o.coordinate 0 #[of 0] 0 = (of 0, ⟨of 0, of 0⟩) := by
    subst ho
    rfl
  have hsteps : o.steps = n := by rw [ho]
  refine ⟨⟨o, hfresh, hsteps, by rw [hzero]⟩, (o.update 0 #[of 0] #[of 1]).2, b1 * 0 + (1 - b1) * 1, ?_, hsteps, ?_⟩
  · have hmoves : o.rule.Moves 0 (#[of 0] : Array Guarded).size #[of 1] :=
      ⟨fun _ => by decide, fun _ => Nat.le_refl 1⟩
    have hupdate : o.update? 0 (#[(0 : ℝ)].map of) (#[(1 : ℝ)].map of) =
        .ok ((o.update 0 #[of 0] #[of 1]).1, (o.update 0 #[of 0] #[of 1]).2) := by
      simp only [List.map_toArray, List.map_cons, List.map_nil]
      exact Optimizer.update?_eq_ok hmoves
    exact hfresh.update 0 #[0] #[1] hupdate
  · have hsecond : b2 * 0 + (1 - b2) * 1 * 1 = 1 - b2 := by ring
    rw [(Optimizer.update_single o (of 0) (of 1)).2, hzero, hfresh.told.rule_eq, advance, ← hsecond]
    rfl

theorem solvent_of_definedAt (h : rule.DefinedAt n) : rule.Solvent n := by
  cases rule with
  | sgd | rmsprop => trivial
  | adam rate b1 b2 e =>
      obtain ⟨⟨o, ho, hn, hzero⟩, o', x, ho', hn', hkept⟩ := exists_reached_adam rate b1 b2 e n
      obtain ⟨c1, c2, hc, hc1, hc2, hone, -⟩ := h.divisors ho hn hzero 1
      obtain ⟨_, _, hc', -, -, hfaded, -⟩ := h.divisors ho' hn' hkept 0
      obtain ⟨h1, h2⟩ := Prod.mk.inj hc
      obtain ⟨⟨⟩, ⟨⟩⟩ := Prod.mk.inj (hc.symm.trans hc')
      -- The square of one gradient tells the sign of the second correction, what is left of it that of `b2`.
      have hratio : 0 ≤ (1 - b2) / c2 := by simpa using hone
      have hb2 : 0 ≤ b2 := by
        refine le_of_not_gt fun hneg => hfaded.not_gt ?_
        have hratio : 0 < (1 - b2) / c2 := lt_of_le_of_ne hratio (div_ne_zero (by linarith) hc2).symm
        have hfactor : (b2 * (1 - b2) + (1 - b2) * 0 * 0) / c2 = b2 * ((1 - b2) / c2) := by ring
        rw [hfactor]
        exact mul_neg_of_neg_of_pos hneg hratio
      obtain ⟨hne, hpos⟩ := pos_of_correction hb2 h2.symm hc2 hratio
      have hratio : 0 < (1 - b2) / c2 := lt_of_le_of_ne hratio (div_ne_zero (sub_ne_zero.mpr hne.symm) hc2).symm
      refine ⟨hpos, fun hpow => ?_, ⟨hb2, hne⟩, lt_of_not_ge fun he => ?_⟩
      · rcases correction_cases h1.symm with ⟨-, heq⟩ | ⟨hneg, -⟩
        · rw [heq, hpow, sub_self] at hc1
          exact hc1 rfl
        · exact hpos.not_gt hneg
      · -- A gradient whose spread is the square of what is added to its root.
        obtain ⟨g, hg⟩ : ∃ g, g = -e / Real.sqrt ((1 - b2) / c2) := ⟨_, rfl⟩
        obtain ⟨_, _, hc', -, -, -, hne⟩ := h.divisors ho hn hzero g
        obtain ⟨⟨⟩, ⟨⟩⟩ := Prod.mk.inj (hc.symm.trans hc')
        refine hne ?_
        have hspread : (b2 * 0 + (1 - b2) * g * g) / c2 = e ^ 2 := by
          have hroot : Real.sqrt ((1 - b2) / c2) ^ 2 = (1 - b2) / c2 := Real.sq_sqrt hratio.le
          calc (b2 * 0 + (1 - b2) * g * g) / c2
            _ = (1 - b2) / c2 * g ^ 2 := by ring
            _ = e ^ 2 := by
              rw [hg, div_pow, hroot, neg_sq]
              exact mul_div_cancel₀ _ hratio.ne'
        rw [hspread, Real.sqrt_sq_eq_abs, abs_of_nonpos he, neg_add_cancel]

theorem stepExponent_pos : 0 < stepExponent n ↔ n = 0 ∨ n % 2 ^ 32 ≠ 0 ∧ n % 2 ^ 32 < 2 ^ 31 := by
  have hpow : Nat.pow 2 32 = 4294967296 := rfl
  rw [stepExponent, hpow, Int.bmod]
  omega

end OptimizerRule

/-- Updates give numbers exactly where no divisor is zero, which a configuration is accepted without a look at. The
number `n` of steps is kept in 64 bits, so the steps are those before `2 ^ 64`; the exponent of the corrections has only
32 bits of it, one for the sign. -/
theorem RunConfig.definedAt_iff (c : RunConfig ℝ) (n : Nat) :
    (c.optimizer.DefinedAt n ↔ c.optimizer.Solvent n) ∧
      (0 < OptimizerRule.stepExponent n ↔ n = 0 ∨ n % 2 ^ 32 ≠ 0 ∧ n % 2 ^ 32 < 2 ^ 31) ∧
      ∀ rate b1 b2 e b1' b2' e' : ℝ, validate { c with optimizer := .adam rate b1 b2 e } =
        validate { c with optimizer := .adam rate b1' b2' e' } :=
  ⟨⟨OptimizerRule.solvent_of_definedAt, OptimizerRule.definedAt_of_solvent⟩, OptimizerRule.stepExponent_pos,
    fun _ _ _ _ _ _ _ => rfl⟩

noncomputable def RunConfig.oneLayer (b1 b2 e : ℝ) : RunConfig ℝ where
  data := {}
  model := some ⟨⟨28, 28, 1⟩, [.flatten, .dense 10 .softmax], .categoricalCrossentropy⟩
  optimizer := .adam (1 / 1000) b1 b2 e
  training := ⟨1, 1, 0, 42, 0⟩
  output := {}

theorem RunConfig.validate_oneLayer (b1 b2 e : ℝ) : (oneLayer b1 b2 e).validate = .ok () := by
  have htraining : (oneLayer b1 b2 e).checkTraining = .ok () := by
    have hsplit : Scalar.inUnit (0 : ℝ) = true := by simp [Scalar.inUnit]
    have hrate : (0 : ℝ) < (OptimizerRule.adam (1 / 1000) b1 b2 e).learningRate := by
      norm_num [OptimizerRule.learningRate]
    have hfinite : Scalar.isFinite (OptimizerRule.adam (1 / 1000) b1 b2 e).learningRate = true := rfl
    rw [checkTraining, oneLayer, hsplit]
    simp only [hrate, hfinite]
    rfl
  have hmodel : (oneLayer b1 b2 e).modelSpec = ⟨⟨28, 28, 1⟩, [.flatten, .dense 10 .softmax],
    .categoricalCrossentropy⟩ := rfl
  have houtputs : (oneLayer b1 b2 e).modelSpec.outputSize = .ok 10 := by
    rw [hmodel]
    rfl
  rw [validate, htraining, ok_bind, checkModel, houtputs]
  rfl

theorem RunConfig.definedAt_iff_usual : (oneLayer (9 / 10) (999 / 1000) (1 / 10000000)).validate = .ok () ∧
    (oneLayer (9 / 10) (999 / 1000) (1 / 10000000)).optimizer.DefinedAt 1 := by
  refine ⟨validate_oneLayer _ _ _, (definedAt_iff _ 1).1.mpr ?_⟩
  refine ⟨by decide, ?_, ⟨?_, ?_⟩, ?_⟩
  · have hexp : OptimizerRule.stepExponent 1 = 1 := by decide
    rw [hexp]
    norm_num
  all_goals norm_num

/-- Settings that are accepted, and a weight that their first update loses; another update at the first step, and one
after so many steps that the exponent of the corrections is zero. -/
theorem RunConfig.accepted_loses : (oneLayer 1 (999 / 1000) (1 / 10000000)).validate = .ok () ∧
    (∃ o', (Optimizer.ofRule ((oneLayer 1 (999 / 1000) (1 / 10000000)).optimizer.map of)).beginStep.update? 0
      #[of 1] #[of 1] = .ok (#[lost], o')) ∧
    ¬(oneLayer (9 / 10) (999 / 1000) 0).optimizer.DefinedAt 1 ∧
    ¬(oneLayer (9 / 10) (999 / 1000) (1 / 10000000)).optimizer.DefinedAt (2 ^ 32) := by
  refine ⟨validate_oneLayer _ _ _, ?_, fun h => ?_, fun h => ?_⟩
  · obtain ⟨o, ho⟩ : ∃ o : Optimizer Guarded, o =
        (Optimizer.ofRule ((oneLayer 1 (999 / 1000) (1 / 10000000)).optimizer.map of)).beginStep := ⟨_, rfl⟩
    have hmoves : o.rule.Moves 0 (#[of 1] : Array Guarded).size #[of 1] := by
      subst ho
      exact ⟨fun _ => by decide, fun _ => Nat.le_refl 1⟩
    have hlost : (o.rule.advance o.steps (o.coordinate 0 #[of 1] 0) (of 1)).1 = lost := by
      refine eq_lost fun h => ?_
      have hstart : o.coordinate 0 #[of 1] 0 = (of 1, ⟨of 0, of 0⟩) := by
        subst ho
        rfl
      rw [hstart, ho] at h
      obtain ⟨c1, c2, hc, hne, -⟩ := OptimizerRule.defined_adam.mp h
      have hexp : 0 < OptimizerRule.stepExponent 1 := by decide
      obtain ⟨h1, -⟩ := Prod.mk.inj ((OptimizerRule.corrections_of hexp).symm.trans hc)
      rw [one_pow, sub_self, of_eq_of] at h1
      exact hne h1.symm
    refine ⟨(o.update 0 #[of 1] #[of 1]).2, ?_⟩
    rw [← ho, Optimizer.update?_eq_ok hmoves, ← hlost, ← (Optimizer.update_single o (of 1) (of 1)).1]
  · obtain ⟨-, -, -, hpos⟩ := OptimizerRule.solvent_of_definedAt h
    exact lt_irrefl 0 hpos
  · obtain ⟨hpos, -⟩ := OptimizerRule.solvent_of_definedAt h
    exact absurd hpos (by decide)

end Convnet
