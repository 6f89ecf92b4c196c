import Convnet.Proofs.Update

namespace Convnet

variable {α : Type}

namespace OptimizerRule

variable [Scalar α] {rule : OptimizerRule α}

def advance (rule : OptimizerRule α) (step : Nat) (c : α × Moments α) (g : α) : α × Moments α :=
  rule.move (rule.corrections step) c.1 g c.2

/-- One weight and its moments, moved at the steps after a given one. -/
def follow (rule : OptimizerRule α) : Nat → α × Moments α → List α → α × Moments α
  | _, c, [] => c
  | step, c, g :: gs => rule.follow (step + 1) (rule.advance (step + 1) c g) gs

theorem follow_concat (step : Nat) (c : α × Moments α) (gs : List α) (g : α) :
    rule.follow step c (gs ++ [g]) = rule.advance (step + gs.length + 1) (rule.follow step c gs) g := by
  induction gs generalizing step c with
  | nil => rfl
  | cons g' gs ih =>
      rw [List.cons_append, follow, ih, follow, List.length_cons]
      congr 1
      omega

theorem move_snd_of_keepsMoments_eq_false (h : rule.keepsMoments = false) (corrections : α × α) (w g : α)
    (s : Moments α) : (rule.move corrections w g s).2 = s := by
  cases rule with
  | adam => nomatch h
  | sgd rate momentum =>
      have hm : (momentum == 0) = true := by simpa [keepsMoments] using h
      rw [move, if_pos hm]
  | rmsprop => nomatch h

structure Moves (rule : OptimizerRule α) (slot size : Nat) (grads : Array α) : Prop where
  room : rule.keepsMoments = true → Optimizer.rowBytes * (slot + 1) < Nat.pow 2 63
  grads : rule.needsAllGradients = true → size ≤ grads.size

end OptimizerRule

namespace Optimizer

variable (rows : Array (Array (Moments α)))

theorem size_putRow (i : Nat) (row : Array (Moments α)) :
    (putRow rows i row).size = max rows.size (i + 1) := by
  unfold putRow
  split
  · rw [Array.size_setIfInBounds]
    omega
  · rw [Array.size_push, Array.size_append, Array.size_replicate]
    omega

theorem getD_putRow (i : Nat) (row : Array (Moments α)) (k : Nat) :
    (putRow rows i row).getD k #[] = if k = i then row else rows.getD k #[] := by
  unfold putRow
  simp only [Array.getD_eq_getD_getElem?]
  split
  case isTrue hi =>
    rw [Array.getElem?_setIfInBounds]
    by_cases hk : i = k
    · rw [if_pos hk, if_pos hi, if_pos hk.symm, Option.getD_some]
    · rw [if_neg hk, if_neg (Ne.symm hk)]
  case isFalse hi =>
    rw [Array.getElem?_push, Array.size_append, Array.size_replicate]
    by_cases hk : k = i
    · rw [if_pos (by omega), if_pos hk, Option.getD_some]
    · rw [if_neg (by omega), if_neg hk, Array.getElem?_append, Array.getElem?_replicate]
      by_cases hlt : k < rows.size
      · rw [if_pos hlt]
      · rw [if_neg hlt, Array.getElem?_eq_none (by omega)]
        split <;> rfl

theorem putRow_comm {i j : Nat} (hij : i ≠ j) (x y : Array (Moments α)) :
    putRow (putRow rows i x) j y = putRow (putRow rows j y) i x := by
  have hs : (putRow (putRow rows i x) j y).size = (putRow (putRow rows j y) i x).size := by
    simp only [size_putRow]
    omega
  refine Array.ext hs fun k hk hk' => ?_
  have h : (putRow (putRow rows i x) j y).getD k #[] = (putRow (putRow rows j y) i x).getD k #[] := by
    simp only [getD_putRow]
    by_cases hi : k = i
    · rw [if_neg (hi ▸ hij), if_pos hi, if_pos hi]
    · rw [if_neg hi, if_neg hi]
  simpa [hk, hk'] using h

/-- After a row was put at a place that there is, there are the same places as before. -/
theorem hasPlace_putRow {rows : Array (Array (Moments α))} {j : Nat} (hj : hasPlace rows j = true) (i : Nat)
    (row : Array (Moments α)) : hasPlace (putRow rows j row) i = hasPlace rows i := by
  have hpow : Nat.pow 2 63 = 9223372036854775808 := rfl
  simp only [hasPlace, size_putRow, rowBytes, hpow, Bool.or_eq_true, decide_eq_true_eq] at hj ⊢
  rw [Bool.eq_iff_iff]
  simp only [Bool.or_eq_true, decide_eq_true_eq]
  omega

variable [Scalar α] (rule : OptimizerRule α) (corrections : α × α) (values grads : Array α)
  (moments : Array (Moments α))

def movedAt (i : Nat) : α × Moments α :=
  let w := Buffer.read values i
  let s := moments.getD i ⟨0, 0⟩
  if h : i < grads.size then rule.move corrections w grads[i] s else (w, s)

omit [Scalar α] in
theorem fold_push {β γ : Type} (f : Nat → β × γ) (n c d : Nat) :
    n.fold (fun i _ (acc : Array β × Array γ) => (acc.1.push (f i).1, acc.2.push (f i).2))
      (.emptyWithCapacity c, .emptyWithCapacity d) =
        (Array.ofFn fun i : Fin n => (f i).1, Array.ofFn fun i : Fin n => (f i).2) := by
  induction n with
  | zero => simp
  | succ n ih =>
      rw [Nat.fold_succ, ih, Array.ofFn_succ, Array.ofFn_succ]
      rfl

theorem moveAll_eq : moveAll rule corrections values grads moments =
    (Array.ofFn fun i : Fin values.size => (movedAt rule corrections values grads moments i).1,
      Array.ofFn fun i : Fin values.size => (movedAt rule corrections values grads moments i).2) := by
  rw [← fold_push _ values.size values.size values.size, moveAll]
  congr 1
  funext i hi acc
  simp only [movedAt]
  split <;> rfl

theorem size_moveAll_moments : (moveAll rule corrections values grads moments).2.size = values.size := by
  rw [moveAll_eq, Array.size_ofFn]

theorem moveAll_empty : (moveAll rule corrections #[] grads moments).1 = #[] := by
  rw [moveAll_eq]
  rfl

theorem movedAt_snd_of_keepsMoments_eq_false (h : rule.keepsMoments = false) (j : Nat) :
    (movedAt rule corrections values grads moments j).2 = moments.getD j ⟨0, 0⟩ := by
  unfold movedAt
  dsimp only
  split
  · exact OptimizerRule.move_snd_of_keepsMoments_eq_false h _ _ _ _
  · rfl

/-- A weight of the buffer of a slot, with the moments that its next move starts from. -/
def coordinate (o : Optimizer α) (slot : Nat) (values : Array α) (j : Nat) : α × Moments α :=
  (Buffer.read values j, (o.momentsOf slot values.size).getD j ⟨0, 0⟩)

theorem values_update (o : Optimizer α) (slot : Nat) : (o.update slot values grads).1 =
    Array.ofFn fun j : Fin values.size =>
      (movedAt o.rule (o.rule.corrections o.steps) values grads (o.momentsOf slot values.size) j).1 :=
  congrArg Prod.fst (moveAll_eq _ _ _ _ _)

variable {values} in
theorem coordinate_update (o : Optimizer α) (slot : Nat) {j : Nat} (hj : j < values.size) :
    (o.update slot values grads).2.coordinate slot (o.update slot values grads).1 j =
      movedAt o.rule (o.rule.corrections o.steps) values grads (o.momentsOf slot values.size) j := by
  have hsize : (o.update slot values grads).1.size = values.size := size_moveAll _ _ _ _ _
  have hslots : (o.update slot values grads).2.slots = if o.rule.keepsMoments then putRow o.slots slot (moveAll
    o.rule (o.rule.corrections o.steps) values grads (o.momentsOf slot values.size)).2 else o.slots := rfl
  have hvalue : Buffer.read (o.update slot values grads).1 j =
      (movedAt o.rule (o.rule.corrections o.steps) values grads (o.momentsOf slot values.size) j).1 := by
    simp [values_update, Buffer.read, hj]
  refine Prod.ext hvalue ?_
  dsimp only [coordinate]
  rw [hsize, momentsOf, hslots]
  cases hk : o.rule.keepsMoments with
  | true =>
      rw [if_pos rfl, getD_putRow, if_pos rfl, if_pos (size_moveAll_moments _ _ _ _ _), moveAll_eq]
      simp [hj]
  | false => exact (movedAt_snd_of_keepsMoments_eq_false _ _ _ _ _ hk j).symm

theorem update?_eq_ok {o : Optimizer α} {slot : Nat} {values grads : Array α}
    (h : o.rule.Moves slot values.size grads) :
    o.update? slot values grads = .ok (o.update slot values grads) := by
  have hroom : (!o.rule.keepsMoments || hasPlace o.slots slot) = true := by
    cases hk : o.rule.keepsMoments with
    | false => rfl
    | true => simp [hasPlace, h.room hk]
  have hgrads : (!o.rule.needsAllGradients || decide (values.size ≤ grads.size)) = true := by
    cases hn : o.rule.needsAllGradients with
    | false => rfl
    | true => simp [h.grads hn]
  rw [update?, hroom, require_true, ok_bind, hgrads]
  rfl

theorem eq_update_of_update? {o : Optimizer α} {slot : Nat} {values grads : Array α} {r : Array α × Optimizer α}
    (h : o.update? slot values grads = .ok r) : r = o.update slot values grads :=
  pure_eq_ok_iff.mp (require_bind_eq_ok.mp (require_bind_eq_ok.mp h).2).2

end Optimizer

/-- One step of a run: a gradient for every buffer, and the order in which the buffers are updated. -/
structure Round (α : Type) where
  order : List Nat
  grads : Array (Array α)

structure Round.Suits (r : Round α) (lengths : Array Nat) : Prop where
  order : r.order.Perm (List.range lengths.size)
  grads : ∀ slot, lengths.getD slot 0 ≤ (r.grads.getD slot #[]).size

theorem Round.Suits.mem {r : Round α} {lengths : Array Nat} (hr : r.Suits lengths) {k : Nat} :
    k ∈ r.order ↔ k < lengths.size := by
  rw [hr.order.mem_iff, List.mem_range]

theorem Round.Suits.nodup {r : Round α} {lengths : Array Nat} (hr : r.Suits lengths) : r.order.Nodup :=
  hr.order.nodup_iff.mpr List.nodup_range

/-- The same gradients, with the buffers in another order. -/
structure Round.Reorders (r r' : Round α) : Prop where
  order : r.order.Perm r'.order
  grads : r.grads = r'.grads

def Round.single (g : α) : Round α := ⟨[0], #[#[g]]⟩

theorem Round.single_suits (g : α) : (Round.single g).Suits #[1] := by
  refine ⟨List.Perm.refl [0], fun k => ?_⟩
  cases k with
  | zero => exact Nat.le_refl 1
  | succ k => exact Nat.zero_le _

def Round.grad [Scalar α] (slot j : Nat) (r : Round α) : α := Buffer.read (r.grads.getD slot #[]) j

/-- Buffers and the optimizer that moves them. -/
structure Bench (α : Type) where
  buffers : Array (Array α)
  optimizer : Optimizer α

namespace Bench

def lengths (b : Bench α) : Array Nat := b.buffers.map Array.size

def values (b : Bench α) (slot : Nat) : Array α := b.buffers.getD slot #[]

/-- The moments that are kept for a buffer. -/
def kept (b : Bench α) (slot : Nat) : Array (Moments α) := b.optimizer.slots.getD slot #[]

def fresh (rule : OptimizerRule α) (buffers : Array (Array α)) : Bench α := ⟨buffers, .ofRule rule⟩

def beginStep (b : Bench α) : Bench α := { b with optimizer := b.optimizer.beginStep }

variable [Scalar α]

def update? (b : Bench α) (grads : Array (Array α)) (slot : Nat) : Result (Bench α) := do
  let (values, o) ← b.optimizer.update? slot (b.values slot) (grads.getD slot #[])
  return ⟨b.buffers.setIfInBounds slot values, o⟩

def updates? (b : Bench α) (grads : Array (Array α)) (order : List Nat) : Result (Bench α) :=
  order.foldlM (fun b slot => b.update? grads slot) b

def round? (b : Bench α) (r : Round α) : Result (Bench α) := b.beginStep.updates? r.grads r.order

def run? (b : Bench α) (rounds : List (Round α)) : Result (Bench α) := rounds.foldlM round? b

def moments (b : Bench α) (slot : Nat) : Array (Moments α) :=
  b.optimizer.momentsOf slot (b.values slot).size

/-- One weight, with its moments. -/
def coordinate (b : Bench α) (slot j : Nat) : α × Moments α :=
  (Buffer.read (b.values slot) j, (b.moments slot).getD j ⟨0, 0⟩)

omit [Scalar α] in
theorem size_lengths (b : Bench α) : b.lengths.size = b.buffers.size := Array.size_map

omit [Scalar α] in
theorem getD_lengths (b : Bench α) (slot : Nat) : b.lengths.getD slot 0 = (b.values slot).size := by
  unfold lengths values
  rw [Array.getD_eq_getD_getElem?, Array.getD_eq_getD_getElem?, Array.getElem?_map]
  cases b.buffers[slot]? <;> rfl

theorem moments_eq (b : Bench α) (slot : Nat) : b.moments slot =
    if (b.kept slot).size = (b.values slot).size then b.kept slot
    else Array.replicate (b.values slot).size ⟨0, 0⟩ := rfl

theorem moments_congr {b b' : Bench α} {slot : Nat} (hv : (b'.values slot).size = (b.values slot).size)
    (hk : b'.kept slot = b.kept slot) : b'.moments slot = b.moments slot := by
  rw [moments_eq, moments_eq, hv, hk]

theorem moments_of_kept_eq_empty {b : Bench α} {slot : Nat} (h : b.kept slot = #[]) :
    b.moments slot = Array.replicate (b.values slot).size ⟨0, 0⟩ := by
  rw [moments_eq, h]
  split
  case isTrue hs =>
    rw [← hs]
    rfl
  case isFalse => rfl

section Update

variable (b : Bench α) (grads : Array (Array α)) (slot : Nat)

def accepts : Bool :=
  (!b.optimizer.rule.keepsMoments || Optimizer.hasPlace b.optimizer.slots slot) &&
    (!b.optimizer.rule.needsAllGradients || (b.values slot).size ≤ (grads.getD slot #[]).size)

def moved : Array α × Array (Moments α) :=
  Optimizer.moveAll b.optimizer.rule (b.optimizer.rule.corrections b.optimizer.steps) (b.values slot)
    (grads.getD slot #[]) (b.moments slot)

def write (row : Array α × Array (Moments α)) : Bench α :=
  ⟨b.buffers.setIfInBounds slot row.1, { b.optimizer with
    slots := if b.optimizer.rule.keepsMoments then Optimizer.putRow b.optimizer.slots slot row.2
      else b.optimizer.slots }⟩

def update : Bench α := b.write slot (b.moved grads slot)

theorem update?_eq :
    b.update? grads slot = if b.accepts grads slot then .ok (b.update grads slot) else .error .misuse := by
  unfold update? accepts Optimizer.update?
  cases !b.optimizer.rule.keepsMoments || Optimizer.hasPlace b.optimizer.slots slot with
  | false => rfl
  | true =>
      rw [require_true, ok_bind, Bool.true_and]
      cases !b.optimizer.rule.needsAllGradients ||
          decide ((b.values slot).size ≤ (grads.getD slot #[]).size) <;> rfl

variable {b grads slot}

@[simp] theorem update_rule : (b.update grads slot).optimizer.rule = b.optimizer.rule := rfl

@[simp] theorem size_update : (b.update grads slot).buffers.size = b.buffers.size :=
  Array.size_setIfInBounds

theorem values_update (k : Nat) :
    (b.update grads slot).values k = if k = slot then (b.moved grads slot).1 else b.values k := by
  unfold values update write
  simp only [Array.getD_eq_getD_getElem?, Array.getElem?_setIfInBounds]
  by_cases hk : slot = k
  · subst hk
    by_cases hs : slot < b.buffers.size
    · simp [hs]
    · have hv : b.values slot = #[] := by simp [values, hs]
      simp [hs, moved, hv, Optimizer.moveAll_empty]
  · simp [hk, Ne.symm hk]

theorem kept_update (k : Nat) : (b.update grads slot).kept k =
    if k = slot ∧ b.optimizer.rule.keepsMoments then (b.moved grads slot).2 else b.kept k := by
  unfold kept update write
  cases b.optimizer.rule.keepsMoments with
  | true =>
      rw [if_pos rfl, Optimizer.getD_putRow]
      simp
  | false => simp

@[simp] theorem size_values_update (k : Nat) :
    ((b.update grads slot).values k).size = (b.values k).size := by
  rw [values_update]
  split
  case isTrue hk => rw [hk, moved, Optimizer.size_moveAll]
  case isFalse => rfl

@[simp] theorem lengths_update : (b.update grads slot).lengths = b.lengths := by
  refine Array.ext (by simp only [size_lengths, size_update]) fun k hk hk' => ?_
  have h : ((b.update grads slot).values k).size = (b.values k).size := size_values_update k
  rw [← getD_lengths, ← getD_lengths] at h
  simpa [hk, hk'] using h

theorem update_others (b : Bench α) (grads : Array (Array α)) {k : Nat} (hk : k ≠ slot) :
    (b.update grads slot).values k = b.values k ∧ (b.update grads slot).kept k = b.kept k := by
  rw [values_update, kept_update, if_neg hk, if_neg fun h => hk h.1]
  exact ⟨rfl, rfl⟩

theorem coordinate_update_others {k : Nat} (hk : k ≠ slot) (j : Nat) :
    (b.update grads slot).coordinate k j = b.coordinate k j := by
  obtain ⟨hv, hm⟩ := update_others b grads hk
  unfold coordinate
  rw [hv, moments_congr (by rw [hv]) hm]

theorem kept_update_self (hk : b.optimizer.rule.keepsMoments = true) :
    ((b.update grads slot).kept slot).size = (b.values slot).size := by
  rw [kept_update, if_pos ⟨rfl, hk⟩, moved, Optimizer.size_moveAll_moments]

theorem coordinate_update_self {j : Nat} (hj : j < (b.values slot).size)
    (hg : (b.values slot).size ≤ (grads.getD slot #[]).size) :
    (b.update grads slot).coordinate slot j = b.optimizer.rule.advance b.optimizer.steps
      (b.coordinate slot j) (Buffer.read (grads.getD slot #[]) j) := by
  have hlt : j < (grads.getD slot #[]).size := Nat.lt_of_lt_of_le hj hg
  have hrow := Optimizer.coordinate_update (grads.getD slot #[]) b.optimizer slot hj
  rw [Optimizer.movedAt, dif_pos hlt, ← Buffer.read_of_lt hlt] at hrow
  rw [coordinate, moments, values_update, if_pos rfl]
  exact hrow

variable {i j : Nat}

theorem write_comm (hij : i ≠ j) (x y : Array α × Array (Moments α)) :
    (b.write i x).write j y = (b.write j y).write i x := by
  unfold write
  dsimp only
  rw [Array.setIfInBounds_comm _ _ hij]
  cases b.optimizer.rule.keepsMoments with
  | true => simp only [if_true, Optimizer.putRow_comm _ hij]
  | false => rfl

theorem moved_update_others (hij : i ≠ j) : (b.update grads i).moved grads j = b.moved grads j := by
  obtain ⟨hv, hk⟩ := update_others b grads hij.symm
  rw [moved, moved, moments_congr (by rw [hv]) hk, hv]
  rfl

theorem update_comm (i j : Nat) :
    (b.update grads i).update grads j = (b.update grads j).update grads i := by
  by_cases hij : i = j
  · rw [hij]
  · rw [update, moved_update_others hij, update, write_comm hij, update, moved_update_others (Ne.symm hij)]
    rfl

theorem accepts_update (hi : b.accepts grads i = true) (j : Nat) :
    (b.update grads i).accepts grads j = b.accepts grads j := by
  unfold accepts at hi ⊢
  rw [size_values_update, update_rule]
  cases hk : b.optimizer.rule.keepsMoments with
  | false => rfl
  | true =>
      have hplace : Optimizer.hasPlace b.optimizer.slots i = true := by
        rw [hk, Bool.and_eq_true] at hi
        exact hi.1
      have hslots : (b.update grads i).optimizer.slots =
          Optimizer.putRow b.optimizer.slots i (b.moved grads i).2 := if_pos hk
      rw [hslots, Optimizer.hasPlace_putRow hplace]

end Update

section Updates

variable {b b' : Bench α} {grads : Array (Array α)} {order order' : List Nat} {k j : Nat}

def updates (b : Bench α) (grads : Array (Array α)) (order : List Nat) : Bench α :=
  order.foldl (fun b slot => b.update grads slot) b

theorem updates?_eq : b.updates? grads order =
    if order.all (b.accepts grads) then .ok (b.updates grads order) else .error .misuse := by
  induction order generalizing b with
  | nil => rfl
  | cons slot order ih =>
      unfold updates? at ih ⊢
      rw [List.foldlM_cons, update?_eq, List.all_cons]
      cases hs : b.accepts grads slot with
      | false => rfl
      | true =>
          have hall : (b.update grads slot).accepts grads = b.accepts grads := funext (accepts_update hs)
          rw [if_pos rfl, ok_bind, ih, hall, Bool.true_and]
          rfl

theorem updates_perm (h : order.Perm order') : b.updates grads order = b.updates grads order' :=
  h.foldl_eq' (fun i _ j _ b => update_comm (b := b) i j) b

theorem updates?_perm (h : order.Perm order') : b.updates? grads order = b.updates? grads order' := by
  have hall : order.all (b.accepts grads) = order'.all (b.accepts grads) := by
    rw [Bool.eq_iff_iff, List.all_eq_true, List.all_eq_true]
    simp only [h.mem_iff]
  rw [updates?_eq, updates?_eq, hall, updates_perm h]

theorem updates_keeps (b : Bench α) (grads : Array (Array α)) (order : List Nat) :
    (b.updates grads order).optimizer.rule = b.optimizer.rule ∧
    (b.updates grads order).optimizer.steps = b.optimizer.steps ∧
    (b.updates grads order).lengths = b.lengths := by
  induction order generalizing b with
  | nil => exact ⟨rfl, rfl, rfl⟩
  | cons slot order ih =>
      obtain ⟨hrule, hsteps, hlengths⟩ := ih (b.update grads slot)
      exact ⟨hrule, hsteps, hlengths.trans lengths_update⟩

theorem updates_others (b : Bench α) (grads : Array (Array α)) (hk : k ∉ order) :
    (b.updates grads order).values k = b.values k ∧ (b.updates grads order).kept k = b.kept k := by
  induction order generalizing b with
  | nil => exact ⟨rfl, rfl⟩
  | cons slot order ih =>
      obtain ⟨hne, hrest⟩ := not_or.mp (mt List.mem_cons.mpr hk)
      obtain ⟨hv, hm⟩ := update_others b grads hne
      obtain ⟨hv', hm'⟩ := ih (b.update grads slot) hrest
      exact ⟨hv'.trans hv, hm'.trans hm⟩

theorem coordinate_updates_others (hk : k ∉ order) (j : Nat) :
    (b.updates grads order).coordinate k j = b.coordinate k j := by
  obtain ⟨hv, hm⟩ := updates_others b grads hk
  unfold coordinate
  rw [hv, moments_congr (by rw [hv]) hm]

/-- A weight whose buffer is among those updated once goes one step. -/
theorem coordinate_updates (hn : order.Nodup) (hk : k ∈ order) (hj : j < (b.values k).size)
    (hg : (b.values k).size ≤ (grads.getD k #[]).size) :
    (b.updates grads order).coordinate k j = b.optimizer.rule.advance b.optimizer.steps
      (b.coordinate k j) (Buffer.read (grads.getD k #[]) j) := by
  induction order generalizing b with
  | nil => nomatch hk
  | cons slot order ih =>
      obtain ⟨hslot, hn⟩ := List.nodup_cons.mp hn
      change ((b.update grads slot).updates grads order).coordinate k j = _
      by_cases hks : k = slot
      · subst hks
        rw [coordinate_updates_others hslot, coordinate_update_self hj hg]
      · have hk : k ∈ order := (List.mem_cons.mp hk).resolve_left hks
        have hsize : ((b.update grads slot).values k).size = (b.values k).size := size_values_update k
        rw [← hsize] at hj hg
        rw [ih hn hk hj hg, coordinate_update_others hks]
        rfl

theorem kept_updates (hkeeps : b.optimizer.rule.keepsMoments = true) (hn : order.Nodup) (hk : k ∈ order) :
    ((b.updates grads order).kept k).size = (b.values k).size := by
  induction order generalizing b with
  | nil => nomatch hk
  | cons slot order ih =>
      obtain ⟨hslot, hn⟩ := List.nodup_cons.mp hn
      change (((b.update grads slot).updates grads order).kept k).size = _
      by_cases hks : k = slot
      · subst hks
        rw [(updates_others _ _ hslot).2, kept_update_self hkeeps]
      · have hk : k ∈ order := (List.mem_cons.mp hk).resolve_left hks
        rw [ih (b := b.update grads slot) hkeeps hn hk, size_values_update]

end Updates

end Bench
end Convnet
