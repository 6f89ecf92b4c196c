import Convnet.Proofs.Stopping

namespace Convnet

def Deed.events {α : Type} (ds : List (Deed α)) : List (TrainEvent α) :=
  ds.filterMap fun
    | .send event _ => some event
    | _ => none

/-- Where a run stands. A run that is `sending` waits until its event is taken, and goes on from `next` then. -/
inductive Stage (α σ : Type)
  | checking (r : Run α σ Unit)
  | between (left number : Nat) (r : Run α σ Unit)
  | training (left number j : Nat) (parts : List (List Nat)) (r : Run α σ Unit) (tally : Tally α)
  | sending (event : TrainEvent α) (r : Run α σ Unit) (next : Stage α σ)
  | ended (answer : Result (Run α σ Unit))

namespace Stage

section Definitions

variable {α : Type} [Scalar α] {σ : Type} [RandomSource σ] (schedule : Schedule) (train : Dataset α)
  (validation : Option (Dataset α))

def shown {α : Type} (validation : Option (Dataset α)) : Option (Dataset α) := validation.filter fun v => !v.isEmpty

def afterBatch (left number j : Nat) (rest : List (List Nat)) (r : Run α σ Unit) (tally : Tally α) : Stage α σ :=
  if Run.batchDue schedule.progressEvery j (schedule.batchCount train.size) then
    .sending (.batch number j (schedule.batchCount train.size) tally.meanLoss tally.accuracy) r
      (.training left number (j + 1) rest r tally)
  else .training left number (j + 1) rest r tally

def afterEpoch (left number : Nat) (r : Run α σ Unit) (s : EpochStats α) : Stage α σ :=
  .sending (.epoch s) { r with history := r.history.push s }
    (.between left (number + 1) { r with history := r.history.push s })

/-- The next step of a run that neither waits nor has ended, and the stage it leads to. -/
def advance : Stage α σ → Option (List (Deed α) × Stage α σ)
  | .checking r => some ([], match r.network.checkFit train validation schedule with
    | .error e => .ended (.error e)
    | .ok _ => .between schedule.epochs 1 r)
  | .between 0 _ r => some ([], .ended (.ok r))
  | .between (left + 1) number r =>
    some ([], .training left number 1 (r.shuffled.parts schedule) r.shuffled .zero)
  | .training left number j (indices :: rest) r tally =>
    some ([.train indices], match r.network.trainBatch train indices r.optimizer r.source with
      | .error e => .ended (.error e)
      | .ok (net, o, s, one) => afterBatch schedule train left number j rest (r.trained net o s) (tally.add one))
  | .training left number _ [] r tally =>
    some (if (shown validation).isSome then [.measure] else [], match Run.measure (shown validation) r.network with
      | .error e => .ended (.error e)
      | .ok measured => afterEpoch left number r (Run.stats schedule number tally measured))
  | .sending .. => none
  | .ended _ => none

/-- What the run is still to do when nobody watches. -/
def outlook : Stage α σ → List (Deed α)
  | .checking r => match r.network.checkFit train validation schedule with
    | .error _ => []
    | .ok v => Run.deeds schedule .nobody train v schedule.epochs 1 r
  | .between left number r => Run.deeds schedule .nobody train (shown validation) left number r
  | .training left number j parts r tally =>
    Run.batchDeeds schedule .nobody train number (schedule.batchCount train.size) j parts r tally ++
      match Run.batches schedule .nobody train number (schedule.batchCount train.size) j parts r tally with
      | .error _ => []
      | .ok (r', tally') => Run.closeDeeds schedule .nobody (shown validation) number r' tally' ++
        match r'.close schedule .nobody (shown validation) number tally' with
        | .error _ => []
        | .ok r'' => Run.deeds schedule .nobody train (shown validation) left (number + 1) r''
  | .sending event _ next => .send event true :: next.outlook
  | .ended _ => []

/-- How the run is to end when nobody watches. -/
def outcome : Stage α σ → Result (Run α σ Unit)
  | .checking r => do
    let v ← r.network.checkFit train validation schedule
    Run.epochs schedule .nobody train v schedule.epochs 1 r
  | .between left number r => Run.epochs schedule .nobody train (shown validation) left number r
  | .training left number j parts r tally => do
    let (r', tally') ← Run.batches schedule .nobody train number (schedule.batchCount train.size) j parts r tally
    let r'' ← r'.close schedule .nobody (shown validation) number tally'
    Run.epochs schedule .nobody train (shown validation) left (number + 1) r''
  | .sending _ _ next => next.outcome
  | .ended answer => answer

def Going : Stage α σ → Prop
  | .checking r => r.stopped = false
  | .between _ _ r => r.stopped = false
  | .training _ _ _ _ r _ => r.stopped = false
  | .sending _ _ next => next.Going
  | .ended _ => True

/-- How many epochs are left, and how many small steps of the epoch that is going on. -/
def rank : Stage α σ → Nat × Nat
  | .checking _ => (schedule.epochs + 1, 0)
  | .between left _ _ => (left, 1)
  | .training left _ _ parts _ _ => (left, 2 * parts.length + 3)
  | .sending _ _ next => (next.rank.1, next.rank.2 + 1)
  | .ended _ => (0, 0)

end Definitions

section Steps

variable {α : Type} [Scalar α] {σ : Type} [RandomSource σ] {schedule : Schedule} {train : Dataset α}
  {validation : Option (Dataset α)} {r : Run α σ Unit} {tally : Tally α} {number total j left : Nat}
  {parts : List (List Nat)} {w w' : Stage α σ} {ds : List (Deed α)}

omit [Scalar α] [RandomSource σ] in
theorem shown_of_checkFit {net : Network α} {checked : Option (Dataset α)}
    (h : net.checkFit train validation schedule = .ok checked) : checked = shown validation := by
  obtain ⟨-, hv, -⟩ := Network.checkFit_eq_ok_iff.mp h
  exact (Network.checkValidation_eq_ok.mp hv).1

omit [Scalar α] [RandomSource σ] in
theorem tell_nobody (hr : r.stopped = false) (event : TrainEvent α) : r.tell .nobody event = r := by
  obtain ⟨net, o, s, order, history, ⟨⟩, stopped⟩ := r
  obtain rfl : stopped = false := hr
  rfl

theorem batch_nobody (hr : r.stopped = false) (indices : List Nat) :
    r.batch schedule .nobody train number total j indices tally =
      (r.network.trainBatch train indices r.optimizer r.source).map fun b =>
        (r.trained b.1 b.2.1 b.2.2.1, tally.add b.2.2.2) := by
  unfold Run.batch
  cases r.network.trainBatch train indices r.optimizer r.source with
  | error e => rfl
  | ok b =>
      obtain ⟨net, o, s, one⟩ := b
      rw [ok_bind]
      dsimp only
      split
      · exact congrArg (fun q => Except.ok (q, tally.add one)) (tell_nobody (r := r.trained net o s) hr _)
      · rfl

theorem outlook_afterBatch (rest : List (List Nat)) :
    (afterBatch schedule train left number j rest r tally).outlook schedule train validation =
      Run.batchTold schedule number (schedule.batchCount train.size) j tally true ++
        (training left number (j + 1) rest r tally).outlook schedule train validation := by
  unfold afterBatch Run.batchTold
  split <;> rfl

theorem outcome_afterBatch (rest : List (List Nat)) :
    (afterBatch schedule train left number j rest r tally).outcome schedule train validation =
      (training left number (j + 1) rest r tally).outcome schedule train validation := by
  unfold afterBatch
  split <;> rfl

omit [RandomSource σ] in
theorem going_afterBatch (hr : r.stopped = false) (rest : List (List Nat)) :
    (afterBatch schedule train left number j rest r tally).Going := by
  unfold afterBatch
  split <;> exact hr

theorem training_failed {indices : List Nat} (rest : List (List Nat)) {e : Error} (hr : r.stopped = false)
    (he : r.network.trainBatch train indices r.optimizer r.source = .error e) :
    (training left number j (indices :: rest) r tally).outlook schedule train validation = [.train indices] ∧
      (training left number j (indices :: rest) r tally).outcome schedule train validation = .error e := by
  have hbatch : r.batch schedule .nobody train number (schedule.batchCount train.size) j indices tally = .error e := by
    rw [batch_nobody hr, he]
    rfl
  have hbatches : Run.batches schedule .nobody train number (schedule.batchCount train.size) j (indices :: rest) r
      tally = .error e := by
    rw [Run.batches, hbatch, error_bind]
  refine ⟨?_, ?_⟩
  · rw [outlook, Run.batchDeeds, hbatch, hbatches]
    rfl
  · rw [outcome, hbatches, error_bind]

theorem training_cons {indices : List Nat} (rest : List (List Nat)) {net : Network α} {o : Optimizer α} {s : σ}
    {one : Tally α} (hr : r.stopped = false)
    (hone : r.network.trainBatch train indices r.optimizer r.source = .ok (net, o, s, one)) :
    (training left number j (indices :: rest) r tally).outlook schedule train validation =
        .train indices :: (Run.batchTold schedule number (schedule.batchCount train.size) j (tally.add one) true ++
          (training left number (j + 1) rest (r.trained net o s) (tally.add one)).outlook schedule train validation) ∧
      (training left number j (indices :: rest) r tally).outcome schedule train validation =
        (training left number (j + 1) rest (r.trained net o s) (tally.add one)).outcome schedule train validation := by
  have hbatch : r.batch schedule .nobody train number (schedule.batchCount train.size) j indices tally =
      .ok (r.trained net o s, tally.add one) := by
    rw [batch_nobody hr, hone]
    rfl
  have hgoing : (r.trained net o s).stopped = false := hr
  have hbatches : Run.batches schedule .nobody train number (schedule.batchCount train.size) j (indices :: rest) r
      tally = Run.batches schedule .nobody train number (schedule.batchCount train.size) (j + 1) rest
        (r.trained net o s) (tally.add one) := by
    rw [Run.batches, hbatch, ok_bind]
    dsimp only
    rw [if_neg (by rw [hgoing]; decide)]
  refine ⟨?_, ?_⟩
  · rw [outlook, outlook, Run.batchDeeds_cons hbatch, hbatches, hgoing, List.cons_append, List.append_assoc]
    rfl
  · rw [outcome, outcome, hbatches]

theorem training_nil (hr : r.stopped = false) :
    (training left number j [] r tally).outlook schedule train validation =
        (if (shown validation).isSome then [.measure] else []) ++
          (match Run.measure (shown validation) r.network with
            | .error e => .ended (.error e)
            | .ok measured => afterEpoch left number r (Run.stats schedule number tally measured) :
              Stage α σ).outlook schedule train validation ∧
      (training left number j [] r tally).outcome schedule train validation =
        (match Run.measure (shown validation) r.network with
          | .error e => .ended (.error e)
          | .ok measured => afterEpoch left number r (Run.stats schedule number tally measured) :
            Stage α σ).outcome schedule train validation := by
  cases hm : Run.measure (shown validation) r.network with
  | error e =>
      have hclose : r.close schedule .nobody (shown validation) number tally = .error e := Run.close_eq_error.mpr hm
      refine ⟨?_, ?_⟩
      · rw [outlook, Run.batchDeeds, Run.batches]
        dsimp only
        rw [hclose, Run.closeDeeds, hm]
        simp [outlook]
      · rw [outcome, Run.batches, ok_bind]
        dsimp only
        rw [hclose, error_bind]
        rfl
  | ok measured =>
      have hclose : r.close schedule .nobody (shown validation) number tally =
          .ok { r with history := r.history.push (Run.stats schedule number tally measured) } := by
        refine Run.close_eq_ok.mpr ⟨measured, hm, ?_⟩
        exact (tell_nobody (r := { r with history := r.history.push _ }) hr _).symm
      refine ⟨?_, ?_⟩
      · rw [outlook, Run.batchDeeds, Run.batches]
        dsimp only
        rw [hclose, Run.closeDeeds_of_measure hm]
        simp [outlook, afterEpoch, Receiver.nobody]
      · rw [outcome, Run.batches, ok_bind]
        dsimp only
        rw [hclose, ok_bind]
        rfl

theorem between_succ (hr : r.stopped = false) :
    (between (left + 1) number r).outlook schedule train validation =
        (training left number 1 (r.shuffled.parts schedule) r.shuffled .zero).outlook schedule train validation ∧
      (between (left + 1) number r).outcome schedule train validation =
        (training left number 1 (r.shuffled.parts schedule) r.shuffled .zero).outcome schedule train validation := by
  rw [outlook, outlook, outcome, outcome, Run.deeds, Run.epochs, Run.epoch, Run.epochDeeds]
  dsimp only
  cases hrun : Run.batches schedule .nobody train number (schedule.batchCount train.size) 1 (r.shuffled.parts schedule)
      r.shuffled .zero with
  | error e => simp
  | ok b =>
      obtain ⟨r₁, tally₁⟩ := b
      obtain ⟨-, -, -, -, -, hgoing, -⟩ :=
        Run.batches_alive (r := r.shuffled) (fun _ _ => rfl) hr 1 (r.shuffled.parts schedule) hrun
      rw [ok_bind, ok_bind]
      dsimp only
      rw [hgoing, if_neg Bool.false_ne_true, if_neg Bool.false_ne_true]
      cases hclose : r₁.close schedule .nobody (shown validation) number tally₁ with
      | error e => simp
      | ok r₂ =>
          obtain ⟨measured, -, rfl⟩ := Run.close_eq_ok.mp hclose
          rw [tell_nobody (r := { r₁ with history := r₁.history.push _ }) hgoing, ok_bind, ok_bind]
          dsimp only
          rw [hgoing, if_neg Bool.false_ne_true, if_neg Bool.false_ne_true, List.append_assoc]
          exact ⟨rfl, rfl⟩

theorem advance_cases (schedule : Schedule) (train : Dataset α) (validation : Option (Dataset α)) (w : Stage α σ) :
    (∃ ds w', w.advance schedule train validation = some (ds, w')) ∨ (∃ event r next, w = .sending event r next) ∨
      ∃ answer, w = .ended answer := by
  cases w with
  | checking r => exact .inl ⟨_, _, rfl⟩
  | between left number r => cases left <;> exact .inl ⟨_, _, rfl⟩
  | training left number j parts r tally => cases parts <;> exact .inl ⟨_, _, rfl⟩
  | sending event r next => exact .inr (.inl ⟨event, r, next, rfl⟩)
  | ended answer => exact .inr (.inr ⟨answer, rfl⟩)

theorem advance_quiet (h : w.advance schedule train validation = some (ds, w')) :
    ∀ d ∈ ds, d.taken = true ∧ ∀ event taken, d ≠ .send event taken := by
  cases w with
  | checking r =>
      obtain ⟨⟩ := h
      simp
  | between left number r => cases left <;> obtain ⟨⟩ := h <;> simp
  | training left number j parts r tally =>
      cases parts with
      | nil =>
          obtain ⟨⟩ := h
          split <;> simp [Deed.taken]
      | cons indices rest =>
          obtain ⟨⟩ := h
          simp [Deed.taken]
  | sending event r next => cases h
  | ended answer => cases h

theorem advance_follows (hw : w.Going) (h : w.advance schedule train validation = some (ds, w')) :
    w.outlook schedule train validation = ds ++ w'.outlook schedule train validation ∧
      w.outcome schedule train validation = w'.outcome schedule train validation ∧ w'.Going := by
  -- what is still to do at a stage unfolds into the deeds of its step and what is still to do at the next one
  cases w with
  | checking r =>
      cases hcheck : r.network.checkFit train validation schedule with
      | error e =>
          simp only [advance, hcheck, Option.some.injEq, Prod.mk.injEq] at h
          obtain ⟨rfl, rfl⟩ := h
          simp [outlook, outcome, Going, hcheck]
      | ok v =>
          simp only [advance, hcheck, Option.some.injEq, Prod.mk.injEq] at h
          obtain ⟨rfl, rfl⟩ := h
          obtain rfl := shown_of_checkFit hcheck
          have hstart : r.stopped = false := hw
          simp [outlook, outcome, Going, hcheck, hstart]
  | between left number r =>
      cases left with
      | zero =>
          obtain ⟨⟩ := h
          simp [outlook, outcome, Going, Run.deeds, Run.epochs]
      | succ left =>
          obtain ⟨⟩ := h
          exact ⟨(between_succ hw).1, (between_succ hw).2, hw⟩
  | training left number j parts r tally =>
      cases parts with
      | nil =>
          obtain ⟨⟩ := h
          obtain ⟨hdeeds, hend⟩ := training_nil hw
          refine ⟨hdeeds, hend, ?_⟩
          split
          · trivial
          · exact hw
      | cons indices rest =>
          obtain ⟨⟩ := h
          cases hone : r.network.trainBatch train indices r.optimizer r.source with
          | error e =>
              obtain ⟨hdeeds, hend⟩ := training_failed rest hw hone
              exact ⟨hdeeds, hend, trivial⟩
          | ok b =>
              obtain ⟨net, o, s, one⟩ := b
              obtain ⟨hdeeds, hend⟩ := training_cons rest hw hone
              rw [outlook_afterBatch, outcome_afterBatch]
              have hgoing : (r.trained net o s).stopped = false := hw
              exact ⟨hdeeds, hend, going_afterBatch hgoing rest⟩
  | sending event r next => cases h
  | ended answer => cases h

omit [RandomSource σ] in
theorem rank_afterBatch (rest : List (List Nat)) :
    Prod.Lex (· < ·) (· < ·) ((afterBatch schedule train left number j rest r tally).rank schedule)
      (left, 2 * (rest.length + 1) + 3) := by
  unfold afterBatch
  split
  · exact .right _ (by dsimp only [rank]; omega)
  · exact .right _ (by omega)

omit [Scalar α] [RandomSource σ] in
theorem rank_ended (answer : Result (Run α σ Unit)) (left n : Nat) :
    Prod.Lex (· < ·) (· < ·) ((ended answer : Stage α σ).rank schedule) (left, n + 1) := by
  rcases Nat.eq_zero_or_pos left with rfl | hleft
  · exact .right _ (Nat.succ_pos n)
  · exact .left _ _ hleft

theorem advance_rank (h : w.advance schedule train validation = some (ds, w')) :
    Prod.Lex (· < ·) (· < ·) (w'.rank schedule) (w.rank schedule) := by
  cases w with
  | checking r =>
      obtain ⟨⟩ := h
      split
      · exact .left _ _ (Nat.succ_pos _)
      · exact .left _ _ (Nat.lt_succ_self _)
  | between left number r =>
      cases left with
      | zero =>
          obtain ⟨⟩ := h
          exact rank_ended _ _ _
      | succ left =>
          obtain ⟨⟩ := h
          exact .left _ _ (Nat.lt_succ_self _)
  | training left number j parts r tally =>
      cases parts with
      | nil =>
          obtain ⟨⟩ := h
          split
          · exact rank_ended _ _ _
          · exact .right _ (Nat.lt_succ_self 2)
      | cons indices rest =>
          obtain ⟨⟩ := h
          split
          · exact rank_ended _ _ _
          · exact rank_afterBatch rest
  | sending event r next => cases h
  | ended answer => cases h

end Steps

end Stage

end Convnet
