import Convnet.Proofs.Result
import Convnet.Training.Fit

namespace Convnet

variable {α : Type} [Scalar α] {σ τ : Type} [RandomSource σ]

namespace Run

def trained (r : Run α σ τ) (net : Network α) (o : Optimizer α) (s : σ) : Run α σ τ :=
  { r with network := net, optimizer := o, source := s }

def measure (validation : Option (Dataset α)) (net : Network α) : Result (Option (Evaluation α)) :=
  match validation with
  | none => .ok none
  | some v => do return some (← net.evaluate v)

def stats (schedule : Schedule) (number : Nat) (tally : Tally α) (measured : Option (Evaluation α)) :
    EpochStats α :=
  ⟨number, schedule.epochs, tally.meanLoss, tally.accuracy, measured.map (·.loss),
    measured.map (·.accuracy), schedule.elapsed number⟩

section Steps

variable {schedule : Schedule} {send : Receiver α τ} {train : Dataset α}
  {validation : Option (Dataset α)} {epoch total j number : Nat} {indices : List Nat}
  {rest : List (List Nat)} {r r' : Run α σ τ} {tally tally' : Tally α}

theorem batch_eq_ok : r.batch schedule send train epoch total j indices tally = .ok (r', tally') ↔
    ∃ net o s one, r.network.trainBatch train indices r.optimizer r.source = .ok (net, o, s, one) ∧
      tally' = tally.add one ∧
      r' = if batchDue schedule.progressEvery j total then
        (r.trained net o s).tell send (.batch epoch j total tally'.meanLoss tally'.accuracy)
      else r.trained net o s := by
  rw [batch, bind_eq_ok]
  constructor
  · rintro ⟨⟨net, o, s, one⟩, hone, h⟩
    refine ⟨net, o, s, one, hone, ?_⟩
    dsimp only at h
    split at h <;> obtain ⟨⟩ := pure_eq_ok_iff.mp h
    · exact ⟨rfl, (if_pos ‹_›).symm⟩
    · exact ⟨rfl, (if_neg ‹_›).symm⟩
  · rintro ⟨net, o, s, one, hone, rfl, rfl⟩
    refine ⟨_, hone, ?_⟩
    dsimp only
    split <;> rfl

theorem batches_cons :
    batches schedule send train epoch total j (indices :: rest) r tally = .ok (r', tally') ↔
      ∃ r₁ tally₁, r.batch schedule send train epoch total j indices tally = .ok (r₁, tally₁) ∧
        if r₁.stopped then r' = r₁ ∧ tally' = tally₁
        else batches schedule send train epoch total (j + 1) rest r₁ tally₁ = .ok (r', tally') := by
  rw [batches, bind_eq_ok]
  constructor
  · rintro ⟨⟨r₁, tally₁⟩, hr, h⟩
    refine ⟨r₁, tally₁, hr, ?_⟩
    dsimp only at h
    split at h
    · rw [if_pos ‹_›]
      obtain ⟨⟩ := pure_eq_ok_iff.mp h
      exact ⟨rfl, rfl⟩
    · rwa [if_neg ‹_›]
  · rintro ⟨r₁, tally₁, hr, h⟩
    refine ⟨_, hr, ?_⟩
    dsimp only
    split at h
    · obtain ⟨rfl, rfl⟩ := h
      rw [if_pos ‹_›]
      rfl
    · rwa [if_neg ‹_›]

omit [RandomSource σ] in
theorem close_eq_ok : r.close schedule send validation number tally = .ok r' ↔
    ∃ measured, measure validation r.network = .ok measured ∧
      r' = { r with history := r.history.push (stats schedule number tally measured) }.tell send
        (.epoch (stats schedule number tally measured)) := by
  cases validation with
  | none =>
      constructor
      · intro h
        exact ⟨none, rfl, (pure_eq_ok_iff.mp h).symm ▸ rfl⟩
      · rintro ⟨measured, hm, rfl⟩
        obtain ⟨⟩ := Except.ok.inj hm
        rfl
  | some v =>
      cases he : r.network.evaluate v with
      | error e => simp [close, measure, he]
      | ok e =>
          constructor
          · intro h
            simp only [close, he] at h
            exact ⟨some e, by simp [measure, he], (pure_eq_ok_iff.mp h).symm ▸ rfl⟩
          · rintro ⟨measured, hm, rfl⟩
            simp only [measure, he] at hm
            obtain ⟨⟩ := pure_eq_ok_iff.mp hm
            simp only [close, he]
            rfl

theorem epoch_eq_ok : r.epoch schedule send train validation number = .ok r' ↔
    ∃ r₁ tally, batches schedule send train number (schedule.batchCount train.size) 1
        (r.shuffled.parts schedule) r.shuffled .zero = .ok (r₁, tally) ∧
      if r₁.stopped then r' = r₁ else r₁.close schedule send validation number tally = .ok r' := by
  unfold Run.epoch
  dsimp only
  rw [bind_eq_ok]
  constructor
  · rintro ⟨⟨r₁, tally⟩, hr, h⟩
    refine ⟨r₁, tally, hr, ?_⟩
    dsimp only at h
    split at h
    · rw [if_pos ‹_›]
      exact pure_eq_ok_iff.mp h
    · rwa [if_neg ‹_›]
  · rintro ⟨r₁, tally, hr, h⟩
    refine ⟨_, hr, ?_⟩
    dsimp only
    split at h
    · rw [if_pos ‹_›, h]
      rfl
    · rwa [if_neg ‹_›]

theorem epochs_succ {n k : Nat} : epochs schedule send train validation (n + 1) k r = .ok r' ↔
    ∃ r₁, r.epoch schedule send train validation k = .ok r₁ ∧
      if r₁.stopped then r' = r₁
      else epochs schedule send train validation n (k + 1) r₁ = .ok r' := by
  rw [epochs, bind_eq_ok]
  refine exists_congr fun r₁ => and_congr_right fun _ => ?_
  by_cases hs : r₁.stopped = true
  · rw [if_pos hs, if_pos hs]
    exact pure_eq_ok_iff
  · rw [if_neg hs, if_neg hs]

end Steps

section Starts

variable (schedule : Schedule) (send : Receiver α τ) (train : Dataset α)
  (validation : Option (Dataset α))

/-- The runs as they are when the batches of an epoch start, from batch `j` on. -/
def batchStarts (epoch total : Nat) : Nat → List (List Nat) → Run α σ τ → Tally α → List (Run α σ τ)
  | _, [], _, _ => []
  | j, indices :: rest, r, tally =>
    r :: match r.batch schedule send train epoch total j indices tally with
      | .error _ => []
      | .ok (r', tally') => if r'.stopped then [] else batchStarts epoch total (j + 1) rest r' tally'

def epochStarts : Nat → Nat → Run α σ τ → List (Run α σ τ)
  | 0, _, _ => []
  | n + 1, k, r =>
    batchStarts schedule send train k (schedule.batchCount train.size) 1
      (r.shuffled.parts schedule) r.shuffled .zero ++
    match r.epoch schedule send train validation k with
    | .error _ => []
    | .ok r' => if r'.stopped then [] else epochStarts n (k + 1) r'

end Starts

end Run

def Network.fitStarts (net : Network α) (train : Dataset α) (validation : Option (Dataset α))
    (o : Optimizer α) (schedule : Schedule) (source : σ) (send : Receiver α τ) (receiver : τ) :
    List (Run α σ τ) :=
  match net.checkFit train validation schedule with
  | .error _ => []
  | .ok v => Run.epochStarts schedule send train v schedule.epochs 1
      (.start net o source train receiver)

def Network.Kept (σ : Type) [RandomSource σ] (train : Dataset α) (P : Network α → Prop) : Prop :=
  ∀ net net' indices o o' (s s' : σ) t, P net →
    net.trainBatch train indices o s = .ok (net', o', s', t) → P net'

namespace Run

variable {schedule : Schedule} {send : Receiver α τ} {train : Dataset α}
  {validation : Option (Dataset α)} {P : Network α → Prop} {epoch total : Nat} {r r' : Run α σ τ}

/-- What training on a batch keeps of a network holds whenever a batch starts. -/
theorem batches_invariant (hP : Network.Kept σ train P)
    (j : Nat) (parts : List (List Nat)) (tally : Tally α) (hr : P r.network) :
    (∀ q ∈ batchStarts schedule send train epoch total j parts r tally, P q.network) ∧
      ∀ r' tally', batches schedule send train epoch total j parts r tally = .ok (r', tally') →
        P r'.network := by
  induction parts generalizing j r tally with
  | nil =>
      refine ⟨by simp [batchStarts], fun r' tally' h => ?_⟩
      obtain ⟨⟩ := Except.ok.inj h
      exact hr
  | cons indices rest ih =>
      have hstep : ∀ r₁ tally₁, r.batch schedule send train epoch total j indices tally = .ok (r₁, tally₁) →
          P r₁.network := by
        intro r₁ tally₁ h
        obtain ⟨net, o, s, one, hone, -, rfl⟩ := batch_eq_ok.mp h
        have hnet := hP _ _ _ _ _ _ _ _ hr hone
        split <;> exact hnet
      constructor
      · intro q hq
        rw [batchStarts] at hq
        rcases List.mem_cons.mp hq with rfl | hq
        · exact hr
        · cases hb : r.batch schedule send train epoch total j indices tally with
          | error e => simp [hb] at hq
          | ok b =>
              obtain ⟨r₁, tally₁⟩ := b
              simp only [hb] at hq
              split at hq
              · exact absurd hq List.not_mem_nil
              · exact (ih (j + 1) tally₁ (hstep r₁ tally₁ hb)).1 q hq
      · intro r' tally' h
        obtain ⟨r₁, tally₁, hb, h⟩ := batches_cons.mp h
        split at h
        · obtain ⟨rfl, rfl⟩ := h
          exact hstep _ _ hb
        · exact (ih (j + 1) tally₁ (hstep r₁ tally₁ hb)).2 r' tally' h

theorem epoch_invariant (hP : Network.Kept σ train P) {number : Nat} (hr : P r.network)
    (h : r.epoch schedule send train validation number = .ok r') : P r'.network := by
  obtain ⟨r₁, tally, hb, h⟩ := epoch_eq_ok.mp h
  have hnet := (batches_invariant hP 1 _ .zero (r := r.shuffled) hr).2 r₁ tally hb
  split at h
  · rw [h]
    exact hnet
  · obtain ⟨measured, -, rfl⟩ := close_eq_ok.mp h
    exact hnet

theorem epochStarts_invariant (hP : Network.Kept σ train P) (n k : Nat) (hr : P r.network) :
    ∀ q ∈ epochStarts schedule send train validation n k r, P q.network := by
  induction n generalizing k r with
  | zero => simp [epochStarts]
  | succ n ih =>
      intro q hq
      rw [epochStarts] at hq
      rcases List.mem_append.mp hq with hq | hq
      · exact (batches_invariant hP 1 _ .zero (r := r.shuffled) hr).1 q hq
      · cases he : r.epoch schedule send train validation k with
        | error e => simp [he] at hq
        | ok r₁ =>
            simp only [he] at hq
            split at hq
            · exact absurd hq List.not_mem_nil
            · exact ih (k + 1) (epoch_invariant hP hr he) q hq

end Run

theorem Network.fitStarts_invariant {net : Network α} {train : Dataset α} {P : Network α → Prop}
    (hP : Kept σ train P)
    (hnet : P net) (validation : Option (Dataset α)) (o : Optimizer α) (schedule : Schedule)
    (source : σ) (send : Receiver α τ) (receiver : τ) :
    ∀ q ∈ net.fitStarts train validation o schedule source send receiver, P q.network := by
  intro q hq
  unfold fitStarts at hq
  split at hq
  · exact absurd hq List.not_mem_nil
  · exact Run.epochStarts_invariant hP _ _ hnet q hq

end Convnet
