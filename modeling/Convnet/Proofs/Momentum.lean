import Convnet.Proofs.Averages

namespace Convnet

open Finset

variable {α : Type}

/-- What happens to an optimizer that the weights of one slot are moved by: a step begins, these weights are moved, or
those of another slot. -/
inductive Turn (α : Type)
  | step
  | own (grads : Array α)
  | other (slot : Nat) (values grads : Array α)

def Turn.gradient? (j : Nat) : Turn α → Option α
  | .own grads => grads[j]?
  | .step | .other .. => none

variable [Scalar α]

/-- Whether a turn can be taken and leaves the row of the slot to the turns that say so. -/
def Turn.Suits (rule : OptimizerRule α) (slot size : Nat) : Turn α → Prop
  | .step => True
  | .own grads => rule.Moves slot size grads
  | .other k values grads => k ≠ slot ∧ rule.Moves k values.size grads

namespace Optimizer

variable {o : Optimizer α} {slot : Nat} {values grads : Array α}

theorem coordinate_update_others {k : Nat} (hk : k ≠ slot) (ws : Array α) (j : Nat) :
    (o.update k values grads).2.coordinate slot ws j = o.coordinate slot ws j := by
  have hslots : (o.update k values grads).2.slots = if o.rule.keepsMoments then putRow o.slots k (moveAll
    o.rule (o.rule.corrections o.steps) values grads (o.momentsOf k values.size)).2 else o.slots := rfl
  have hrow : (o.update k values grads).2.slots.getD slot #[] = o.slots.getD slot #[] := by
    rw [hslots]
    split
    · rw [getD_putRow, if_neg hk.symm]
    · rfl
  rw [coordinate, coordinate, momentsOf, momentsOf, hrow]

theorem coordinate_ofRule (rule : OptimizerRule α) (slot : Nat) (values : Array α) (j : Nat) :
    (ofRule rule).coordinate slot values j = (Buffer.read values j, ⟨0, 0⟩) := by
  rw [coordinate, momentsOf, ofRule]
  dsimp only
  split
  case isTrue => simp
  case isFalse =>
    rw [Array.getD_eq_getD_getElem?, Array.getElem?_replicate]
    split <;> rfl

end Optimizer

theorem OptimizerRule.advance_eq {rule : OptimizerRule α} (h : rule.needsAllGradients = false) (n : Nat) :
    rule.advance n = rule.advance 0 := by
  cases rule with
  | adam => nomatch h
  | sgd | rmsprop => rfl

/-- The weights of one slot, and the optimizer that moves them. -/
structure Seat (α : Type) where
  values : Array α
  optimizer : Optimizer α

namespace Seat

variable {slot : Nat} {s s' s'' : Seat α} {t : Turn α} {ts ts' : List (Turn α)}

def turn? (slot : Nat) (s : Seat α) : Turn α → Result (Seat α)
  | .step => return ⟨s.values, s.optimizer.beginStep⟩
  | .own grads => do
    let (values, o) ← s.optimizer.update? slot s.values grads
    return ⟨values, o⟩
  | .other k values grads => do
    let (_, o) ← s.optimizer.update? k values grads
    return ⟨s.values, o⟩

def turns? (slot : Nat) (s : Seat α) (ts : List (Turn α)) : Result (Seat α) := ts.foldlM (turn? slot) s

def coordinate (slot : Nat) (s : Seat α) (j : Nat) : α × Moments α := s.optimizer.coordinate slot s.values j

structure Goes (slot : Nat) (s : Seat α) (ts : List (Turn α)) (s' : Seat α) : Prop where
  rule : s'.optimizer.rule = s.optimizer.rule
  size : s'.values.size = s.values.size
  coordinate : ∀ j < s.values.size, s'.coordinate slot j =
    (ts.filterMap (Turn.gradient? j)).foldl (s.optimizer.rule.advance 0) (s.coordinate slot j)

theorem Goes.refl (slot : Nat) (s : Seat α) : s.Goes slot [] s := ⟨rfl, rfl, fun _ _ => rfl⟩

theorem Goes.trans (h : s.Goes slot ts s') (h' : s'.Goes slot ts' s'') : s.Goes slot (ts ++ ts') s'' := by
  refine ⟨h'.rule.trans h.rule, h'.size.trans h.size, fun j hj => ?_⟩
  rw [h'.coordinate j (h.size ▸ hj), h.coordinate j hj, h.rule, List.filterMap_append, List.foldl_append]

theorem turn?_goes (halike : s.optimizer.rule.needsAllGradients = false)
    (ht : t.Suits s.optimizer.rule slot s.values.size) : ∃ s', s.turn? slot t = .ok s' ∧ s.Goes slot [t] s' := by
  cases t with
  | step => exact ⟨_, rfl, rfl, rfl, fun _ _ => rfl⟩
  | own grads =>
      have hok : s.turn? slot (.own grads) =
          .ok ⟨(s.optimizer.update slot s.values grads).1, (s.optimizer.update slot s.values grads).2⟩ := by
        rw [turn?, Optimizer.update?_eq_ok ht]
        rfl
      refine ⟨_, hok, rfl, Optimizer.size_moveAll _ _ _ _ _, fun j hj => ?_⟩
      refine (Optimizer.coordinate_update grads s.optimizer slot hj).trans ?_
      rw [Optimizer.movedAt]
      by_cases hg : j < grads.size
      · have hgrad : [Turn.own grads].filterMap (Turn.gradient? j) = [grads[j]] := by simp [Turn.gradient?, hg]
        rw [dif_pos hg, hgrad, ← OptimizerRule.advance_eq halike s.optimizer.steps]
        rfl
      · have hgrad : [Turn.own grads].filterMap (Turn.gradient? j) = [] := by simp [Turn.gradient?, hg]
        rw [dif_neg hg, hgrad]
        rfl
  | other k values grads =>
      have hok : s.turn? slot (.other k values grads) = .ok ⟨s.values, (s.optimizer.update k values grads).2⟩ := by
        rw [turn?, Optimizer.update?_eq_ok ht.2]
        rfl
      refine ⟨_, hok, rfl, rfl, fun j _ => ?_⟩
      exact Optimizer.coordinate_update_others ht.1 s.values j

theorem turns?_goes (halike : s.optimizer.rule.needsAllGradients = false)
    (hts : ∀ t ∈ ts, t.Suits s.optimizer.rule slot s.values.size) :
    ∃ s', s.turns? slot ts = .ok s' ∧ s.Goes slot ts s' := by
  induction ts generalizing s with
  | nil => exact ⟨s, rfl, Goes.refl slot s⟩
  | cons t ts ih =>
      obtain ⟨s₁, hs₁, hgoes⟩ := turn?_goes halike (hts t List.mem_cons_self)
      obtain ⟨s', hs', hrest⟩ := ih (s := s₁) (hgoes.rule ▸ halike) fun t' ht' => by
        rw [hgoes.rule, hgoes.size]
        exact hts t' (List.mem_cons_of_mem t ht')
      refine ⟨s', ?_, hgoes.trans hrest⟩
      rw [turns?, List.foldlM_cons, hs₁, ok_bind]
      exact hs'

end Seat

namespace OptimizerRule

variable {R : Type} [ExactScalar R]

/-- The rule of `sgd` for any momentum: what moves a weight is what moved it last, by a factor less, and the
gradient. -/
def swing (rate momentum : R) (c : R × Moments R) (g : R) : R × Moments R :=
  let v := momentum * c.2.first - rate * g
  (c.1 + v, ⟨v, c.2.second⟩)

theorem advance_sgd {u : R} (h : u ≠ 0) (rate : R) (n : Nat) : (sgd rate u).advance n = swing rate u := by
  have hne : ¬(u == 0) = true := fun heq => h (ExactScalar.eq_of_beq heq)
  funext c g
  rw [advance, move, if_neg hne]
  rfl

/-- Without momentum nothing is kept of what moved a weight last, which makes no difference to the weight. -/
theorem foldl_sgd (rate u : R) (c : R × Moments R) (gs : List R) :
    (gs.foldl ((sgd rate u).advance 0) c).1 = (gs.foldl (swing rate u) c).1 := by
  rcases eq_or_ne u 0 with rfl | hu
  case inr => rw [advance_sgd hu]
  case inl =>
    -- What the two keep differs from the first gradient on, but not the weight.
    suffices h : ∀ c d : R × Moments R, c.1 = d.1 →
        (gs.foldl ((sgd rate 0).advance 0) c).1 = (gs.foldl (swing rate 0) d).1 from h c c rfl
    intro c d h
    induction gs generalizing c d with
    | nil => exact h
    | cons g gs ih =>
        refine ih _ _ ?_
        have hd : (swing rate 0 d g).1 = d.1 - rate * g := by
          rw [swing]
          ring
        rw [hd, ← h, advance, move]
        split
        · rfl
        · ring

theorem foldl_swing (rate u w second : R) (g : Nat → R) (n : Nat) :
    (gradients g n).foldl (swing rate u) (w, ⟨0, second⟩) =
      (w - rate * ∑ t ∈ Icc 1 n, fadingSum u g t, ⟨-(rate * fadingSum u g n), second⟩) := by
  induction n with
  | zero => simp [gradients, fadingSum]
  | succ n ih =>
      have hlast : u * -(rate * fadingSum u g n) - rate * g (n + 1) = -(rate * fadingSum u g (n + 1)) := by
        rw [fadingSum_succ]
        ring
      rw [gradients_succ, List.foldl_append, ih, List.foldl_cons, List.foldl_nil, swing,
        sum_Icc_succ_top (Nat.le_add_left 1 n), hlast]
      congr 1
      ring

end OptimizerRule

variable {R : Type} [ExactScalar R]

/-- A weight of any slot, after any turns: it is told by its own gradients alone, and in the same way with momentum
and without. -/
theorem Seat.turns_momentum (rate u : R) (slot : Nat) (values : Array R) {ts : List (Turn R)}
    (hts : ∀ t ∈ ts, t.Suits (.sgd rate u) slot values.size) :
    (u ≠ 0 → ∀ n, OptimizerRule.advance (.sgd rate u) n = OptimizerRule.swing rate u) ∧
      ∃ s, turns? slot ⟨values, .ofRule (.sgd rate u)⟩ ts = .ok s ∧ s.values.size = values.size ∧
        ∀ j < values.size, ∀ (g : Nat → R) (n : Nat), ts.filterMap (Turn.gradient? j) = gradients g n →
          Buffer.read s.values j =
            Buffer.read values j - rate * ∑ t ∈ Icc 1 n, ∑ i ∈ Icc 1 t, u ^ (t - i) * g i ∧
          Buffer.read s.values j =
            ((gradients g n).foldl (OptimizerRule.swing rate u) (Buffer.read values j, ⟨0, 0⟩)).1 := by
  refine ⟨fun hu n => OptimizerRule.advance_sgd hu rate n, ?_⟩
  obtain ⟨s, hs, hgoes⟩ := turns?_goes (s := ⟨values, .ofRule (.sgd rate u)⟩) rfl hts
  refine ⟨s, hs, hgoes.size, fun j hj g n hg => ?_⟩
  have hweight : Buffer.read s.values j =
      ((gradients g n).foldl (OptimizerRule.swing rate u) (Buffer.read values j, ⟨0, 0⟩)).1 := by
    rw [← OptimizerRule.foldl_sgd, ← Optimizer.coordinate_ofRule (.sgd rate u) slot values j, ← hg]
    exact congrArg Prod.fst (hgoes.coordinate j hj)
  refine ⟨?_, hweight⟩
  rw [hweight, OptimizerRule.foldl_swing]
  rfl

theorem Seat.turns_momentum_accelerates : ∃ s : Seat ℝ,
    turns? 0 ⟨#[0], .ofRule (.sgd (1 / 10) (9 / 10))⟩
      [.step, .own #[1], .other 1 #[5] #[2], .step, .own #[1]] = .ok s ∧ Buffer.read s.values 0 = -(29 / 100) := by
  have hmoves (slot : Nat) (hslot : slot ≤ 1) (size : Nat) (grads : Array ℝ) :
      OptimizerRule.Moves (.sgd (1 / 10) (9 / 10)) slot size grads := by
    have hpow : Nat.pow 2 63 = 9223372036854775808 := rfl
    refine ⟨fun _ => ?_, nofun⟩
    rw [Optimizer.rowBytes, hpow]
    omega
  have hts : ∀ t ∈ [Turn.step, .own #[1], .other 1 #[5] #[2], .step, .own #[1]],
      t.Suits (.sgd (1 / 10 : ℝ) (9 / 10)) 0 (#[0] : Array ℝ).size := by
    have hown := hmoves 0 (Nat.zero_le 1) 1 #[1]
    have hother := hmoves 1 (Nat.le_refl 1) 1 #[2]
    simp only [List.forall_mem_cons, List.not_mem_nil, false_implies, implies_true]
    exact ⟨trivial, hown, ⟨Nat.one_ne_zero, hother⟩, trivial, hown, trivial⟩
  obtain ⟨-, s, hs, -, hweight⟩ := turns_momentum (1 / 10 : ℝ) (9 / 10) 0 #[0] hts
  refine ⟨s, hs, ?_⟩
  rw [(hweight 0 Nat.zero_lt_one (fun _ => 1) 2 rfl).1]
  norm_num [Buffer.read, sum_Icc_succ_top]

end Convnet
