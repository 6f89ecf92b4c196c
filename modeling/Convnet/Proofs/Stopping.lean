import Convnet.Proofs.Curves

namespace Convnet

/-- One thing that a training run does; an event that is sent is taken or not. -/
inductive Deed (α : Type)
  | train (indices : List Nat)
  | measure
  | send (event : TrainEvent α) (taken : Bool)

def Deed.taken {α : Type} : Deed α → Bool
  | send _ taken => taken
  | _ => true

def Receiver.nobody {α : Type} : Receiver α Unit := fun _ _ => (true, ())

section Definitions

variable {α : Type} [Scalar α] {σ τ : Type} [RandomSource σ]

/-- Deeds up to the first event that a receiver does not take. -/
def Deed.upTo (send : Receiver α τ) : τ → List (Deed α) → List (Deed α)
  | _, [] => []
  | t, .send event _ :: ds =>
    .send event (send event t).1 :: if (send event t).1 then upTo send (send event t).2 ds else []
  | t, d :: ds => d :: upTo send t ds

namespace Run

section Deeds

variable (schedule : Schedule) (send : Receiver α τ) (train : Dataset α)
  (validation : Option (Dataset α))

def batchTold (epoch total j : Nat) (tally : Tally α) (taken : Bool) : List (Deed α) :=
  if batchDue schedule.progressEvery j total then
    [.send (.batch epoch j total tally.meanLoss tally.accuracy) taken] else []

def batchDeeds (epoch total : Nat) : Nat → List (List Nat) → Run α σ τ → Tally α → List (Deed α)
  | _, [], _, _ => []
  | j, indices :: rest, r, tally =>
    .train indices :: match r.batch schedule send train epoch total j indices tally with
      | .error _ => []
      | .ok (r', tally') => batchTold schedule epoch total j tally' (!r'.stopped) ++
        if r'.stopped then [] else batchDeeds epoch total (j + 1) rest r' tally'

def closeDeeds (number : Nat) (r : Run α σ τ) (tally : Tally α) : List (Deed α) :=
  (if validation.isSome then [.measure] else []) ++
    match measure validation r.network with
    | .error _ => []
    | .ok measured =>
      let event := .epoch (stats schedule number tally measured)
      [.send event (send event r.receiver).1]

def epochDeeds (number : Nat) (r : Run α σ τ) : List (Deed α) :=
  let total := schedule.batchCount train.size
  batchDeeds schedule send train number total 1 (r.shuffled.parts schedule) r.shuffled .zero ++
    match batches schedule send train number total 1 (r.shuffled.parts schedule) r.shuffled .zero with
    | .error _ => []
    | .ok (r', tally) => if r'.stopped then [] else closeDeeds schedule send validation number r' tally

def deeds : Nat → Nat → Run α σ τ → List (Deed α)
  | 0, _, _ => []
  | n + 1, k, r =>
    epochDeeds schedule send train validation k r ++
      match r.epoch schedule send train validation k with
      | .error _ => []
      | .ok r' => if r'.stopped then [] else deeds n (k + 1) r'

end Deeds

/-- A run that comes from another one by some deeds. Between them the order is shuffled and the history
written. -/
inductive Performs (send : Receiver α τ) (train : Dataset α) (validation : Option (Dataset α)) :
    Run α σ τ → List (Deed α) → Run α σ τ → Prop
  | done (r : Run α σ τ) : Performs send train validation r [] r
  | shuffle {r r' : Run α σ τ} {ds : List (Deed α)}
      (h : Performs send train validation r.shuffled ds r') : Performs send train validation r ds r'
  | train {r r' : Run α σ τ} {ds : List (Deed α)} {indices : List Nat} {net : Network α}
      {o : Optimizer α} {s : σ} {one : Tally α}
      (hone : r.network.trainBatch train indices r.optimizer r.source = .ok (net, o, s, one))
      (h : Performs send train validation (r.trained net o s) ds r') :
      Performs send train validation r (.train indices :: ds) r'
  | measure {r r' : Run α σ τ} {ds : List (Deed α)} {v : Dataset α} {e : Evaluation α}
      (hv : validation = some v) (he : r.network.evaluate v = .ok e)
      (h : Performs send train validation r ds r') : Performs send train validation r (.measure :: ds) r'
  | record {r r' : Run α σ τ} {ds : List (Deed α)} (s : EpochStats α)
      (h : Performs send train validation { r with history := r.history.push s } ds r') :
      Performs send train validation r ds r'
  | send {r r' : Run α σ τ} {ds : List (Deed α)} (event : TrainEvent α)
      (h : Performs send train validation (r.tell send event) ds r') :
      Performs send train validation r (.send event (send event r.receiver).1 :: ds) r'

def unwatched (r : Run α σ τ) : Run α σ Unit :=
  ⟨r.network, r.optimizer, r.source, r.order, r.history, (), false⟩

/-- How a run of some epochs from epoch `k` on ends with an event that is not taken. `trained n` is the
run of its first `n` epochs that nobody watches. -/
inductive EndsAt (schedule : Schedule) (train : Dataset α) (k n : Nat)
    (trained : Nat → Result (Run α σ Unit)) (r : Run α σ τ) : TrainEvent α → Prop
  | epoch {m : Nat} {q : Run α σ Unit} {stats : EpochStats α} (hm : m < n) (hnumber : stats.epoch = k + m)
      (hq : trained (m + 1) = .ok q) (hr : r.unwatched = q) : EndsAt schedule train k n trained r (.epoch stats)
  | batch {m j : Nat} {loss accuracy : α} {q : Run α σ Unit} {measures : List (List (Tally α))} (hm : m < n)
      (hj : 0 < j) (hle : j ≤ (q.shuffled.parts schedule).length) (hq : trained m = .ok q)
      (hs : q.stopped = false) (hhistory : r.history = q.history)
      (hbatches : Network.Batches train ((q.shuffled.parts schedule).take j) q.network q.optimizer
        q.shuffled.source measures r.network r.optimizer r.source) :
      EndsAt schedule train k n trained r
        (.batch (k + m) j (schedule.batchCount train.size) loss accuracy)

end Run

/-- What a training run does, up to where it fails if it does. -/
def Network.fitDeeds (net : Network α) (train : Dataset α) (validation : Option (Dataset α))
    (o : Optimizer α) (schedule : Schedule) (source : σ) (send : Receiver α τ) (receiver : τ) :
    List (Deed α) :=
  match net.checkFit train validation schedule with
  | .error _ => []
  | .ok v => Run.deeds schedule send train v schedule.epochs 1 (.start net o source train receiver)

/-- The run of so many epochs that nobody watches. -/
def Network.fitUnwatched (net : Network α) (train : Dataset α) (validation : Option (Dataset α))
    (o : Optimizer α) (schedule : Schedule) (source : σ) (n : Nat) : Result (Run α σ Unit) :=
  net.fit train validation o { schedule with epochs := n } source .nobody ()

end Definitions

def History.take {α : Type} (n : Nat) (h : History α) : History α :=
  ⟨h.loss.take n, h.accuracy.take n, h.valLoss.take n, h.valAccuracy.take n⟩

section Batches

variable {α : Type} [Scalar α] {σ τ : Type} [RandomSource σ] {schedule : Schedule}
  (schedule' : Schedule)
  {send : Receiver α τ} {train : Dataset α} {validation : Option (Dataset α)} {epoch total j : Nat}
  {indices : List Nat} {parts : List (List Nat)} {validation : Option (Dataset α)} {r r' : Run α σ τ}
  {tally tally' : Tally α}

namespace Run

theorem batch_unwatched (h : r.batch schedule send train epoch total j indices tally = .ok (r', tally')) :
    r.unwatched.batch schedule' .nobody train epoch total j indices tally = .ok (r'.unwatched, tally') := by
  obtain ⟨net, o, s, one, hone, rfl, rfl⟩ := batch_eq_ok.mp h
  refine batch_eq_ok.mpr ⟨net, o, s, one, hone, rfl, ?_⟩
  split <;> split <;> rfl

theorem batch_eq_error {e : Error} :
    r.batch schedule send train epoch total j indices tally = .error e ↔
      r.network.trainBatch train indices r.optimizer r.source = .error e := by
  unfold Run.batch
  cases r.network.trainBatch train indices r.optimizer r.source with
  | error e' => simp
  | ok b =>
      simp only [ok_bind, reduceCtorEq, iff_false]
      split <;> simp

theorem batches_cons_error {rest : List (List Nat)} {e : Error} :
    batches schedule send train epoch total j (indices :: rest) r tally = .error e ↔
      r.batch schedule send train epoch total j indices tally = .error e ∨
        ∃ r₁ tally₁, r.batch schedule send train epoch total j indices tally = .ok (r₁, tally₁) ∧
          r₁.stopped = false ∧
          batches schedule send train epoch total (j + 1) rest r₁ tally₁ = .error e := by
  rw [batches]
  cases r.batch schedule send train epoch total j indices tally with
  | error e' => simp
  | ok b =>
      obtain ⟨r₁, tally₁⟩ := b
      cases hs : r₁.stopped <;> simp [hs]

theorem batchDeeds_cons {rest : List (List Nat)} {r₁ : Run α σ τ} {tally₁ : Tally α}
    (h : r.batch schedule send train epoch total j indices tally = .ok (r₁, tally₁)) :
    batchDeeds schedule send train epoch total j (indices :: rest) r tally =
      .train indices :: (batchTold schedule epoch total j tally₁ (!r₁.stopped) ++
        if r₁.stopped then [] else batchDeeds schedule send train epoch total (j + 1) rest r₁ tally₁) := by
  rw [batchDeeds, h]

omit [RandomSource σ] in
theorem batchTold_taken (tally : Tally α) :
    ∀ d ∈ batchTold schedule epoch total j tally true, d.taken = true := by
  unfold batchTold
  split <;> simp [Deed.taken]

theorem batchDeeds_taken {rest : List (List Nat)} {r₁ : Run α σ τ} {tally₁ : Tally α}
    (h : r.batch schedule send train epoch total j indices tally = .ok (r₁, tally₁))
    (hs : r₁.stopped = false)
    (hrest : ∀ d ∈ batchDeeds schedule send train epoch total (j + 1) rest r₁ tally₁, d.taken = true) :
    ∀ d ∈ batchDeeds schedule send train epoch total j (indices :: rest) r tally, d.taken = true := by
  rw [batchDeeds_cons h, hs]
  intro d hd
  rcases List.mem_cons.mp hd with rfl | hd
  · rfl
  · rcases List.mem_append.mp hd with hd | hd
    · exact batchTold_taken tally₁ d hd
    · exact hrest d hd

theorem batch_told (hr : r.stopped = false)
    (h : r.batch schedule send train epoch total j indices tally = .ok (r', tally')) (ds : List (Deed α)) :
    Deed.upTo send r.receiver (batchTold schedule epoch total j tally' true ++ ds) =
      batchTold schedule epoch total j tally' (!r'.stopped) ++
        if r'.stopped then [] else Deed.upTo send r'.receiver ds := by
  obtain ⟨net, o, s, one, -, rfl, rfl⟩ := batch_eq_ok.mp h
  unfold batchTold
  by_cases hdue : batchDue schedule.progressEvery j total = true
  · simp only [hdue, if_true, tell, List.cons_append, List.nil_append, Deed.upTo, Bool.not_not, trained]
    cases (send (.batch epoch j total (tally.add one).meanLoss (tally.add one).accuracy) r.receiver).1 <;>
      simp
  · simp [hdue, trained, hr]

theorem batches_upTo (hr : r.stopped = false)
    (h : batches schedule send train epoch total j parts r tally = .ok (r', tally'))
    (ds : List (Deed α)) :
    Deed.upTo send r.receiver (batchDeeds schedule .nobody train epoch total j parts r.unwatched tally ++ ds) =
      batchDeeds schedule send train epoch total j parts r tally ++
        if r'.stopped then [] else Deed.upTo send r'.receiver ds := by
  induction parts generalizing j r tally with
  | nil =>
      obtain ⟨⟩ := Except.ok.inj h
      simp [batchDeeds, hr]
  | cons indices rest ih =>
      obtain ⟨r₁, tally₁, hone, h⟩ := batches_cons.mp h
      have htold := batch_told hr hone
      rw [batchDeeds_cons (batch_unwatched schedule hone), batchDeeds_cons hone]
      simp only [unwatched, Bool.not_false, Bool.false_eq_true, if_false, List.cons_append,
        List.append_assoc, Deed.upTo, htold]
      cases hs : r₁.stopped with
      | true =>
          rw [hs] at h
          obtain ⟨rfl, rfl⟩ := h
          simp [hs]
      | false =>
          rw [hs] at h
          have hrest := ih hs h
          rw [unwatched] at hrest
          simp [hrest]

theorem batch_performs (h : r.batch schedule send train epoch total j indices tally = .ok (r', tally'))
    {ds : List (Deed α)} {r'' : Run α σ τ} (hds : Performs send train validation r' ds r'') :
    Performs send train validation r
      (.train indices :: (batchTold schedule epoch total j tally' (!r'.stopped) ++ ds)) r'' := by
  obtain ⟨net, o, s, one, hone, rfl, rfl⟩ := batch_eq_ok.mp h
  refine .train hone ?_
  unfold batchTold
  split at hds
  · rw [if_pos ‹_›, if_pos ‹_›]
    simp only [tell, Bool.not_not, List.cons_append, List.nil_append]
    exact .send _ hds
  · rw [if_neg ‹_›]
    exact hds

theorem batches_performs
    (h : batches schedule send train epoch total j parts r tally = .ok (r', tally'))
    {ds : List (Deed α)} {r'' : Run α σ τ} (hds : Performs send train validation r' ds r'') :
    Performs send train validation r
      (batchDeeds schedule send train epoch total j parts r tally ++ ds) r'' := by
  induction parts generalizing j r tally with
  | nil =>
      obtain ⟨⟩ := Except.ok.inj h
      exact hds
  | cons indices rest ih =>
      obtain ⟨r₁, tally₁, hone, h⟩ := batches_cons.mp h
      rw [batchDeeds_cons hone, List.cons_append, List.append_assoc]
      refine batch_performs hone ?_
      cases hs : r₁.stopped with
      | true =>
          rw [hs] at h
          obtain ⟨rfl, rfl⟩ := h
          exact hds
      | false =>
          rw [hs] at h
          exact ih h

theorem batches_through (hr : r.stopped = false) (hr' : r'.stopped = false)
    (h : batches schedule send train epoch total j parts r tally = .ok (r', tally')) :
    batches schedule' .nobody train epoch total j parts r.unwatched tally = .ok (r'.unwatched, tally') ∧
      ∀ d ∈ batchDeeds schedule send train epoch total j parts r tally, d.taken = true := by
  induction parts generalizing j r tally with
  | nil =>
      obtain ⟨⟩ := Except.ok.inj h
      exact ⟨rfl, by simp [batchDeeds]⟩
  | cons indices rest ih =>
      obtain ⟨r₁, tally₁, hone, h⟩ := batches_cons.mp h
      cases hs : r₁.stopped with
      | true =>
          rw [hs] at h
          obtain ⟨rfl, rfl⟩ := h
          exact absurd hs (Bool.eq_false_iff.mp hr')
      | false =>
          rw [hs] at h
          obtain ⟨hrest, htaken⟩ := ih hs h
          exact ⟨batches_cons.mpr ⟨_, _, batch_unwatched schedule' hone, hrest⟩, batchDeeds_taken hone hs htaken⟩

/-- Batches that were broken off have ended with an event that was not taken, right after its batch. -/
theorem batches_broken (hr : r.stopped = false) (hr' : r'.stopped = true)
    (h : batches schedule send train epoch total j parts r tally = .ok (r', tally')) :
    ∃ front i loss accuracy measures, i < parts.length ∧
      batchDeeds schedule send train epoch total j parts r tally =
        front ++ [.send (.batch epoch (j + i) total loss accuracy) false] ∧
      (∀ d ∈ front, d.taken = true) ∧
      Network.Batches train (parts.take (i + 1)) r.network r.optimizer r.source measures r'.network
        r'.optimizer r'.source ∧ r'.history = r.history := by
  -- either the event of the first batch is not taken, or one of the others is not
  induction parts generalizing j r tally with
  | nil =>
      obtain ⟨⟩ := Except.ok.inj h
      exact absurd hr (Bool.not_eq_false _ ▸ hr')
  | cons indices rest ih =>
      obtain ⟨r₁, tally₁, hone, h⟩ := batches_cons.mp h
      have hdeeds := (batchDeeds_cons hone : batchDeeds _ _ _ _ _ _ (_ :: rest) _ _ = _)
      obtain ⟨net, o, s, one, htrain, rfl, hr₁⟩ := batch_eq_ok.mp hone
      obtain ⟨-, mid, hrun, -⟩ := Network.trainBatch_eq_ok.mp htrain
      obtain ⟨ts, hts, rfl⟩ := Network.samples_of_trainSamples hrun
      have hkept : r₁.network = net ∧ r₁.optimizer = o ∧ r₁.source = s ∧ r₁.history = r.history := by
        rw [hr₁]
        split <;> exact ⟨rfl, rfl, rfl, rfl⟩
      obtain ⟨rfl, rfl, rfl, hhistory⟩ := hkept
      cases hs : r₁.stopped with
      | true =>
          have hdue : batchDue schedule.progressEvery j total = true := by
            by_contra hnot
            rw [if_neg hnot] at hr₁
            rw [hr₁] at hs
            exact absurd hr (Bool.not_eq_false _ ▸ hs)
          rw [hs] at h hdeeds
          obtain ⟨rfl, rfl⟩ := h
          rw [batchTold, if_pos hdue] at hdeeds
          refine ⟨[.train indices], 0, _, _, [ts], Nat.succ_pos _, hdeeds, ?_,
            .cons htrain hts (.nil _ _ _), hhistory⟩
          simp [Deed.taken]
      | false =>
          rw [hs] at h hdeeds
          obtain ⟨front, i, loss, accuracy, measures, hi, hfront, htaken, hbatches, hrest⟩ := ih hs h
          refine ⟨.train indices :: (batchTold schedule epoch total j (tally.add (.total ts)) true ++ front),
            i + 1, loss, accuracy, ts :: measures, Nat.succ_lt_succ hi, ?_, ?_,
            .cons htrain hts hbatches, hrest.trans hhistory⟩
          · have hplace : j + 1 + i = j + (i + 1) := by omega
            rw [hplace] at hfront
            simp [hdeeds, hfront, Tally.total]
          · intro d hd
            rcases List.mem_cons.mp hd with rfl | hd
            · rfl
            · exact (List.mem_append.mp hd).elim (batchTold_taken _ d) (htaken d)

theorem batches_failed {e : Error} (hr : r.stopped = false)
    (h : batches schedule send train epoch total j parts r tally = .error e) :
    batches schedule .nobody train epoch total j parts r.unwatched tally = .error e ∧
      Deed.upTo send r.receiver (batchDeeds schedule .nobody train epoch total j parts r.unwatched tally) =
        batchDeeds schedule send train epoch total j parts r tally ∧
      ∀ d ∈ batchDeeds schedule send train epoch total j parts r tally, d.taken = true := by
  induction parts generalizing j r tally with
  | nil => cases h
  | cons indices rest ih =>
      rcases batches_cons_error.mp h with hone | ⟨r₁, tally₁, hone, hs, h⟩
      · have hfails := batch_eq_error.mp hone
        have hunwatched : r.unwatched.batch schedule .nobody train epoch total j indices tally = .error e :=
          batch_eq_error.mpr hfails
        refine ⟨batches_cons_error.mpr (.inl hunwatched), ?_, ?_⟩
        · rw [batchDeeds, batchDeeds, hone, hunwatched]
          rfl
        · rw [batchDeeds, hone]
          simp [Deed.taken]
      · obtain ⟨hrest, hupTo, htaken⟩ := ih hs h
        have hunwatched := batch_unwatched schedule hone
        refine ⟨batches_cons_error.mpr (.inr ⟨_, _, hunwatched, rfl, hrest⟩), ?_,
          batchDeeds_taken hone hs htaken⟩
        have htold := batch_told hr hone
        rw [unwatched] at hupTo
        rw [batchDeeds_cons hunwatched, batchDeeds_cons hone]
        simp only [unwatched, Bool.not_false, Bool.false_eq_true, if_false, Deed.upTo, htold, hs, hupTo]

end Run

end Batches

section Epochs

variable {α : Type} [Scalar α] {σ τ : Type} [RandomSource σ] {schedule : Schedule}
  (schedule' : Schedule)
  {send : Receiver α τ} {train : Dataset α} {validation : Option (Dataset α)} {number : Nat}
  {r r' : Run α σ τ} {tally : Tally α}

namespace Run

omit [RandomSource σ] in
theorem close_eq_error {e : Error} : r.close schedule send validation number tally = .error e ↔
    measure validation r.network = .error e := by
  cases validation with
  | none => simp [close, measure]
  | some v => cases he : r.network.evaluate v <;> simp [close, measure, he]

omit [RandomSource σ] in
theorem closeDeeds_of_measure {measured : Option (Evaluation α)}
    (h : measure validation r.network = .ok measured) :
    closeDeeds schedule send validation number r tally = (if validation.isSome then [.measure] else []) ++
      [.send (.epoch (stats schedule number tally measured))
        (send (.epoch (stats schedule number tally measured)) r.receiver).1] := by
  rw [closeDeeds, h]

omit [RandomSource σ] in
theorem close_unwatched (h : r.close schedule send validation number tally = .ok r') :
    r.unwatched.close schedule' .nobody validation number tally = .ok r'.unwatched := by
  obtain ⟨measured, hmeasured, rfl⟩ := close_eq_ok.mp h
  exact close_eq_ok.mpr ⟨measured, hmeasured, rfl⟩

omit [RandomSource σ] in
theorem close_upTo (h : r.close schedule send validation number tally = .ok r') (ds : List (Deed α)) :
    Deed.upTo send r.receiver (closeDeeds schedule .nobody validation number r.unwatched tally ++ ds) =
      closeDeeds schedule send validation number r tally ++
        if r'.stopped then [] else Deed.upTo send r'.receiver ds := by
  obtain ⟨measured, hmeasured, rfl⟩ := close_eq_ok.mp h
  rw [closeDeeds_of_measure hmeasured, closeDeeds_of_measure (r := r.unwatched) hmeasured]
  cases ht : (send (.epoch (stats schedule number tally measured)) r.receiver).1 <;>
    cases validation <;> simp [Deed.upTo, tell, ht]

omit [RandomSource σ] in
theorem close_failed {e : Error} (h : r.close schedule send validation number tally = .error e) :
    r.unwatched.close schedule .nobody validation number tally = .error e ∧
      Deed.upTo send r.receiver (closeDeeds schedule .nobody validation number r.unwatched tally) =
        closeDeeds schedule send validation number r tally ∧
      ∀ d ∈ closeDeeds schedule send validation number r tally, d.taken = true := by
  have hfails := close_eq_error.mp h
  have hunwatched : measure validation r.unwatched.network = .error e := hfails
  refine ⟨close_eq_error.mpr hunwatched, ?_, ?_⟩
  · rw [closeDeeds, closeDeeds, hfails, hunwatched]
    cases validation <;> rfl
  · rw [closeDeeds, hfails]
    cases validation <;> simp [Deed.taken]

theorem close_performs (h : r.close schedule send validation number tally = .ok r')
    {ds : List (Deed α)} {r'' : Run α σ τ} (hds : Performs send train validation r' ds r'') :
    Performs send train validation r (closeDeeds schedule send validation number r tally ++ ds) r'' := by
  obtain ⟨measured, hmeasured, rfl⟩ := close_eq_ok.mp h
  rw [closeDeeds_of_measure hmeasured, List.append_assoc]
  have hsent := Performs.record _ (.send (r := { r with history := _ }) _ hds)
  cases hv : validation with
  | none => rwa [hv] at hsent
  | some v =>
      rw [hv] at hmeasured hsent
      obtain ⟨e, he, -⟩ := bind_eq_ok.mp hmeasured
      exact .measure rfl he hsent

theorem epoch_eq_error {e : Error} : r.epoch schedule send train validation number = .error e ↔
    batches schedule send train number (schedule.batchCount train.size) 1 (r.shuffled.parts schedule)
        r.shuffled .zero = .error e ∨
      ∃ r₁ tally, batches schedule send train number (schedule.batchCount train.size) 1
          (r.shuffled.parts schedule) r.shuffled .zero = .ok (r₁, tally) ∧ r₁.stopped = false ∧
        r₁.close schedule send validation number tally = .error e := by
  unfold Run.epoch
  dsimp only
  cases batches schedule send train number (schedule.batchCount train.size) 1
      (r.shuffled.parts schedule) r.shuffled .zero with
  | error e' => simp
  | ok b =>
      obtain ⟨r₁, tally⟩ := b
      cases hs : r₁.stopped <;> simp [hs]

theorem epochDeeds_of_batches {r₁ : Run α σ τ} (h : batches schedule send train number
      (schedule.batchCount train.size) 1 (r.shuffled.parts schedule) r.shuffled .zero = .ok (r₁, tally)) :
    epochDeeds schedule send train validation number r =
      batchDeeds schedule send train number (schedule.batchCount train.size) 1
          (r.shuffled.parts schedule) r.shuffled .zero ++
        if r₁.stopped then [] else closeDeeds schedule send validation number r₁ tally := by
  rw [epochDeeds, h]

theorem epoch_upTo (hr : r.stopped = false)
    (h : r.epoch schedule send train validation number = .ok r') (ds : List (Deed α)) :
    Deed.upTo send r.receiver (epochDeeds schedule .nobody train validation number r.unwatched ++ ds) =
      epochDeeds schedule send train validation number r ++
        if r'.stopped then [] else Deed.upTo send r'.receiver ds := by
  obtain ⟨r₁, tally, hrun, h⟩ := epoch_eq_ok.mp h
  rw [epochDeeds_of_batches hrun, List.append_assoc]
  cases hs : r₁.stopped with
  | true =>
      rw [hs] at h
      obtain rfl := h
      rw [epochDeeds, List.append_assoc]
      exact (batches_upTo (r := r.shuffled) hr hrun _).trans (by simp [hs])
  | false =>
      rw [hs] at h
      have hquiet := (batches_through schedule (r := r.shuffled) hr hs hrun).1
      change batches schedule .nobody train number (schedule.batchCount train.size) 1
        (r.unwatched.shuffled.parts schedule) r.unwatched.shuffled .zero = .ok (r₁.unwatched, tally) at hquiet
      rw [epochDeeds_of_batches hquiet, List.append_assoc]
      refine (batches_upTo (r := r.shuffled) hr hrun _).trans (congrArg _ ?_)
      rw [hs]
      exact close_upTo h ds

theorem epoch_performs (h : r.epoch schedule send train validation number = .ok r')
    {ds : List (Deed α)} {r'' : Run α σ τ} (hds : Performs send train validation r' ds r'') :
    Performs send train validation r (epochDeeds schedule send train validation number r ++ ds) r'' := by
  obtain ⟨r₁, tally, hrun, h⟩ := epoch_eq_ok.mp h
  rw [epochDeeds_of_batches hrun, List.append_assoc]
  refine .shuffle (batches_performs hrun ?_)
  cases hs : r₁.stopped with
  | true =>
      rw [hs] at h
      obtain rfl := h
      exact hds
  | false =>
      rw [hs] at h
      exact close_performs h hds

theorem epoch_unwatched (hb : schedule'.batchSize = schedule.batchSize) (hr : r.stopped = false)
    {r₁ : Run α σ τ} (hs : r₁.stopped = false) (hrun : batches schedule send train number
      (schedule.batchCount train.size) 1 (r.shuffled.parts schedule) r.shuffled .zero = .ok (r₁, tally))
    (h : r₁.close schedule send validation number tally = .ok r') :
    r.unwatched.epoch schedule' .nobody train validation number = .ok r'.unwatched := by
  have hquiet := (batches_through schedule' (r := r.shuffled) hr hs hrun).1
  refine epoch_eq_ok.mpr ⟨r₁.unwatched, tally, ?_, close_unwatched schedule' h⟩
  rw [Schedule.batchCount, parts, hb]
  exact hquiet

theorem epoch_through (hb : schedule'.batchSize = schedule.batchSize) (hr : r.stopped = false)
    (hr' : r'.stopped = false) (h : r.epoch schedule send train validation number = .ok r') :
    r.unwatched.epoch schedule' .nobody train validation number = .ok r'.unwatched ∧
      ∀ d ∈ epochDeeds schedule send train validation number r, d.taken = true := by
  obtain ⟨r₁, tally, hrun, h⟩ := epoch_eq_ok.mp h
  cases hs : r₁.stopped with
  | true =>
      rw [hs] at h
      obtain rfl := h
      exact absurd hs (Bool.eq_false_iff.mp hr')
  | false =>
      rw [hs] at h
      refine ⟨epoch_unwatched schedule' hb hr hs hrun h, ?_⟩
      obtain ⟨measured, hmeasured, rfl⟩ := close_eq_ok.mp h
      rw [epochDeeds_of_batches hrun, hs, if_neg Bool.false_ne_true, closeDeeds_of_measure hmeasured]
      intro d hd
      rcases List.mem_append.mp hd with hd | hd
      · exact (batches_through schedule (r := r.shuffled) hr hs hrun).2 d hd
      · rcases List.mem_append.mp hd with hd | hd
        · split at hd
          · obtain rfl := List.mem_singleton.mp hd
            rfl
          · exact absurd hd List.not_mem_nil
        · obtain rfl := List.mem_singleton.mp hd
          simpa [tell, Deed.taken] using hr'

theorem epoch_failed {e : Error} (hr : r.stopped = false)
    (h : r.epoch schedule send train validation number = .error e) :
    r.unwatched.epoch schedule .nobody train validation number = .error e ∧
      Deed.upTo send r.receiver (epochDeeds schedule .nobody train validation number r.unwatched) =
        epochDeeds schedule send train validation number r ∧
      ∀ d ∈ epochDeeds schedule send train validation number r, d.taken = true := by
  rcases epoch_eq_error.mp h with hrun | ⟨r₁, tally, hrun, hs, hclose⟩
  · obtain ⟨hquiet, hupTo, htaken⟩ := batches_failed (r := r.shuffled) hr hrun
    change batches schedule .nobody train number (schedule.batchCount train.size) 1
      (r.unwatched.shuffled.parts schedule) r.unwatched.shuffled .zero = .error e at hquiet
    refine ⟨epoch_eq_error.mpr (.inl hquiet), ?_, ?_⟩
    · rw [epochDeeds, epochDeeds, hrun, hquiet, List.append_nil, List.append_nil]
      exact hupTo
    · rwa [epochDeeds, hrun, List.append_nil]
  · obtain ⟨hquiet, htaken⟩ := batches_through schedule (r := r.shuffled) hr hs hrun
    change batches schedule .nobody train number (schedule.batchCount train.size) 1
      (r.unwatched.shuffled.parts schedule) r.unwatched.shuffled .zero = .ok (r₁.unwatched, tally) at hquiet
    obtain ⟨hquiet', hupTo, htaken'⟩ := close_failed hclose
    refine ⟨epoch_eq_error.mpr (.inr ⟨_, _, hquiet, rfl, hquiet'⟩), ?_, ?_⟩
    · rw [epochDeeds_of_batches hquiet, epochDeeds_of_batches hrun, hs]
      have hbatches := batches_upTo (r := r.shuffled) hr hrun
        (closeDeeds schedule .nobody validation number r₁.unwatched tally)
      rw [hs, if_neg Bool.false_ne_true, hupTo] at hbatches
      exact hbatches
    · rw [epochDeeds_of_batches hrun, hs]
      exact fun d hd => (List.mem_append.mp hd).elim (htaken d) (htaken' d)

theorem EndsAt.mono {k n n' : Nat} {trained : Nat → Result (Run α σ Unit)} {event : TrainEvent α}
    (hn : n ≤ n') (h : EndsAt schedule train k n trained r event) :
    EndsAt schedule train k n' trained r event := by
  cases h with
  | epoch hm hnumber hq hr => exact .epoch (by omega) hnumber hq hr
  | batch hm hj hle hq hs hhistory hbatches => exact .batch (by omega) hj hle hq hs hhistory hbatches

theorem EndsAt.later {k n : Nat} {trained trained' : Nat → Result (Run α σ Unit)} {event : TrainEvent α}
    (h : EndsAt schedule train (k + 1) n trained' r event) (heq : ∀ m, trained (m + 1) = trained' m) :
    EndsAt schedule train k (n + 1) trained r event := by
  cases h with
  | epoch hm hnumber hq hr => exact .epoch (Nat.succ_lt_succ hm) (by omega) ((heq _).trans hq) hr
  | @batch m _ _ _ _ _ hm hj hle hq hs hhistory hbatches =>
      rw [Nat.add_right_comm, Nat.add_assoc]
      exact .batch (Nat.succ_lt_succ hm) hj hle ((heq _).trans hq) hs hhistory hbatches

theorem epoch_broken (hb : schedule'.batchSize = schedule.batchSize) (hr : r.stopped = false)
    (hr' : r'.stopped = true) (h : r.epoch schedule send train validation number = .ok r') :
    ∃ front event, epochDeeds schedule send train validation number r = front ++ [.send event false] ∧
      (∀ d ∈ front, d.taken = true) ∧
      EndsAt schedule train number 1
        (fun m => epochs schedule' .nobody train validation m number r.unwatched) r' event := by
  obtain ⟨r₁, tally, hrun, h⟩ := epoch_eq_ok.mp h
  rw [epochDeeds_of_batches hrun]
  cases hs : r₁.stopped with
  | true =>
      rw [hs] at h
      obtain rfl := h
      obtain ⟨front, i, loss, accuracy, measures, hi, hdeeds, htaken, hbatches, hhistory⟩ :=
        batches_broken (r := r.shuffled) hr hs hrun
      refine ⟨front, _, by rw [hdeeds, if_pos rfl, List.append_nil], htaken, ?_⟩
      rw [Nat.add_comm 1 i]
      exact .batch (q := r.unwatched) Nat.one_pos (Nat.succ_pos i) hi rfl rfl hhistory hbatches
  | false =>
      rw [hs] at h
      have hquiet := epoch_unwatched schedule' hb hr hs hrun h
      obtain ⟨measured, hmeasured, rfl⟩ := close_eq_ok.mp h
      have hrefused : (send (.epoch (stats schedule number tally measured)) r₁.receiver).1 = false := by
        simpa [tell] using hr'
      rw [if_neg Bool.false_ne_true, closeDeeds_of_measure hmeasured, hrefused]
      refine ⟨_, _, (List.append_assoc _ _ _).symm, ?_, .epoch Nat.one_pos rfl ?_ rfl⟩
      · intro d hd
        rcases List.mem_append.mp hd with hd | hd
        · exact (batches_through schedule (r := r.shuffled) hr hs hrun).2 d hd
        · split at hd
          · obtain rfl := List.mem_singleton.mp hd
            rfl
          · exact absurd hd List.not_mem_nil
      · exact epochs_succ.mpr ⟨_, hquiet, rfl⟩

theorem deeds_of_epoch {n k : Nat} {r₁ : Run α σ τ}
    (h : r.epoch schedule send train validation k = .ok r₁) :
    deeds schedule send train validation (n + 1) k r = epochDeeds schedule send train validation k r ++
      if r₁.stopped then [] else deeds schedule send train validation n (k + 1) r₁ := by
  rw [deeds, h]

/-- What a run does is what it does when nobody watches, up to the first event that is not taken. -/
theorem deeds_upTo (hr : r.stopped = false) (n k : Nat) : deeds schedule send train validation n k r =
    Deed.upTo send r.receiver (deeds schedule .nobody train validation n k r.unwatched) := by
  induction n generalizing k r with
  | zero => rfl
  | succ n ih =>
      cases hone : r.epoch schedule send train validation k with
      | error e =>
          obtain ⟨hquiet, hupTo, -⟩ := epoch_failed hr hone
          rw [deeds, deeds, hone, hquiet, List.append_nil, List.append_nil]
          exact hupTo.symm
      | ok r₁ =>
          rw [deeds_of_epoch hone]
          cases hs : r₁.stopped with
          | true =>
              rw [deeds, epoch_upTo hr hone, hs]
              rfl
          | false =>
              rw [deeds_of_epoch (epoch_through schedule rfl hr hs hone).1,
                epoch_upTo hr hone, hs, if_neg Bool.false_ne_true, if_neg Bool.false_ne_true, ih hs]
              rfl

theorem epochs_performs {n k : Nat} (h : epochs schedule send train validation n k r = .ok r') :
    Performs send train validation r (deeds schedule send train validation n k r) r' := by
  induction n generalizing k r with
  | zero =>
      obtain ⟨⟩ := Except.ok.inj h
      exact .done r'
  | succ n ih =>
      obtain ⟨r₁, hone, h⟩ := epochs_succ.mp h
      rw [deeds_of_epoch hone]
      refine epoch_performs hone ?_
      cases hs : r₁.stopped with
      | true =>
          rw [hs] at h
          obtain rfl := h
          exact .done r'
      | false =>
          rw [hs] at h
          exact ih h

theorem epochs_through (hb : schedule'.batchSize = schedule.batchSize) (hr : r.stopped = false)
    (hr' : r'.stopped = false) {n k : Nat} (h : epochs schedule send train validation n k r = .ok r') :
    epochs schedule' .nobody train validation n k r.unwatched = .ok r'.unwatched := by
  induction n generalizing k r with
  | zero =>
      obtain ⟨⟩ := Except.ok.inj h
      rfl
  | succ n ih =>
      obtain ⟨r₁, hone, h⟩ := epochs_succ.mp h
      cases hs : r₁.stopped with
      | true =>
          rw [hs] at h
          obtain rfl := h
          exact absurd hs (Bool.eq_false_iff.mp hr')
      | false =>
          rw [hs] at h
          exact epochs_succ.mpr ⟨_, (epoch_through schedule' hb hr hs hone).1, ih hs h⟩

theorem epochs_broken (hb : schedule'.batchSize = schedule.batchSize) (hr : r.stopped = false)
    {n k : Nat} {event : TrainEvent α}
    (h : .send event false ∈ deeds schedule send train validation n k r) :
    ∃ front r', epochs schedule send train validation n k r = .ok r' ∧
      deeds schedule send train validation n k r = front ++ [.send event false] ∧
      (∀ d ∈ front, d.taken = true) ∧
      EndsAt schedule train k n (fun m => epochs schedule' .nobody train validation m k r.unwatched) r'
        event := by
  induction n generalizing k r with
  | zero => exact absurd h List.not_mem_nil
  | succ n ih =>
      cases hone : r.epoch schedule send train validation k with
      | error e =>
          rw [deeds, hone, List.append_nil] at h
          exact absurd ((epoch_failed hr hone).2.2 _ h) Bool.false_ne_true
      | ok r₁ =>
          rw [deeds_of_epoch hone] at h ⊢
          cases hs : r₁.stopped with
          | true =>
              obtain ⟨front, event', hdeeds, htaken, hends⟩ := epoch_broken schedule' hb hr hs hone
              rw [hs] at h
              rw [if_pos rfl, List.append_nil, hdeeds] at h ⊢
              rcases List.mem_append.mp h with h | h
              · exact absurd (htaken _ h) Bool.false_ne_true
              · obtain ⟨⟩ := List.mem_singleton.mp h
                refine ⟨front, r₁, epochs_succ.mpr ⟨r₁, hone, ?_⟩, rfl, htaken,
                  hends.mono (Nat.succ_le_succ (Nat.zero_le n))⟩
                rw [hs, if_pos rfl]
          | false =>
              obtain ⟨hquiet, htaken⟩ := epoch_through schedule' hb hr hs hone
              rw [hs] at h
              rw [if_neg Bool.false_ne_true] at h ⊢
              have hrest := (List.mem_append.mp h).resolve_left
                fun hd => absurd (htaken _ hd) Bool.false_ne_true
              obtain ⟨front, r', hrun, hdeeds, htaken', hends⟩ := ih hs hrest
              refine ⟨epochDeeds schedule send train validation k r ++ front, r',
                epochs_succ.mpr ⟨r₁, hone, ?_⟩, by rw [hdeeds, List.append_assoc],
                fun d hd => (List.mem_append.mp hd).elim (htaken d) (htaken' d), hends.later fun m => ?_⟩
              · rwa [hs, if_neg Bool.false_ne_true]
              · rw [epochs, hquiet]
                rfl

theorem epochs_add (hr : r.stopped = false) (hr' : r'.stopped = false) {m n k : Nat}
    (h : epochs schedule send train validation (m + n) k r = .ok r') :
    ∃ q, epochs schedule send train validation m k r = .ok q ∧ q.stopped = false ∧
      epochs schedule send train validation n (k + m) q = .ok r' := by
  induction m generalizing k r with
  | zero => exact ⟨r, rfl, hr, by rwa [Nat.zero_add] at h⟩
  | succ m ih =>
      rw [Nat.succ_add] at h
      obtain ⟨r₁, hone, h⟩ := epochs_succ.mp h
      cases hs : r₁.stopped with
      | true =>
          rw [hs] at h
          obtain rfl := h
          exact absurd hs (Bool.eq_false_iff.mp hr')
      | false =>
          rw [hs] at h
          obtain ⟨q, hq, hqs, hrest⟩ := ih hs h
          refine ⟨q, epochs_succ.mpr ⟨r₁, hone, by rwa [hs, if_neg Bool.false_ne_true]⟩, hqs, ?_⟩
          rwa [Nat.add_assoc, Nat.add_comm 1 m] at hrest

end Run

end Epochs

section Prefixes

variable {α : Type} {s : EpochStats α} {ss ss' : List (EpochStats α)}

theorem History.take_curve {f : EpochStats α → Option α} {b : Bool}
    (h : ∀ s ∈ ss ++ ss', (f s).isSome = b) :
    ((ss ++ ss').filterMap f).take ss.length = ss.filterMap f := by
  have hlength := length_curve fun s hs => h s (List.mem_append_left ss' hs)
  have hlength' := length_curve fun s hs => h s (List.mem_append_right ss hs)
  rw [List.filterMap_append]
  cases b with
  | true => exact List.take_left' hlength
  | false =>
      rw [List.eq_nil_of_length_eq_zero hlength, List.eq_nil_of_length_eq_zero hlength']
      exact List.take_nil

theorem History.take_ofStats {b : Bool}
    (h : ∀ s ∈ ss ++ ss', s.valLoss.isSome = b ∧ s.valAccuracy.isSome = b) :
    (ofStats (ss ++ ss')).take ss.length = ofStats ss := by
  have hloss := take_curve fun s hs => (h s hs).1
  have haccuracy := take_curve fun s hs => (h s hs).2
  rw [ofStats_eq, ofStats_eq, take]
  simp only [List.take_toArray, hloss, haccuracy, List.map_append]
  rw [List.take_left' (List.length_map _), List.take_left' (List.length_map _)]

end Prefixes

theorem Run.take_history {α : Type} [Scalar α] {σ τ : Type} [RandomSource σ] {schedule : Schedule}
    {send : Receiver α τ} {train : Dataset α} {validation : Option (Dataset α)} {m n k : Nat}
    {r q r' : Run α σ τ} (hsend : send.Alive) (hb : 0 < schedule.batchSize) (hp : r.Permutes train)
    (hr : r.stopped = false) (hempty : r.history = .empty)
    (hq : epochs schedule send train validation m k r = .ok q) (hqs : q.stopped = false)
    (h : epochs schedule send train validation n (k + m) q = .ok r') :
    r'.history.take m = q.history := by
  obtain ⟨es, hlen, hes⟩ := epochs_complete hsend hb hr hp _ _ hq
  have hqp : q.Permutes train := by
    clear h hlen hq hqs hempty
    induction hes with
    | nil => exact hp
    | cons hepoch _ ih => exact ih (hepoch.permutes hp) hepoch.stopped
  obtain ⟨es', -, hes'⟩ := epochs_complete hsend hb hqs hqp _ _ h
  have hlength : (es.map (·.stats)).length = m := (List.length_map _).trans hlen
  rw [hes'.history, hes.history, hempty, ← List.foldl_append, ← hlength]
  refine History.take_ofStats (b := validation.isSome) fun s hs => ?_
  exact (List.mem_append.mp hs).elim (hes.isSome s) (hes'.isSome s)

section Fit

variable {α : Type} [Scalar α] {σ τ : Type} [RandomSource σ] {net : Network α} {train : Dataset α}
  {validation : Option (Dataset α)} {checked : Option (Dataset α)} {schedule : Schedule}

theorem Network.fit_eq (h : net.checkFit train validation schedule = .ok checked) (o : Optimizer α)
    (source : σ) (send : Receiver α τ) (receiver : τ) :
    net.fit train validation o schedule source send receiver =
      Run.epochs schedule send train checked schedule.epochs 1 (.start net o source train receiver) := by
  rw [fit, h, ok_bind]

theorem Network.fitUnwatched_eq (h : net.checkFit train validation schedule = .ok checked)
    (o : Optimizer α) (source : σ) (n : Nat) :
    net.fitUnwatched train validation o schedule source n =
      Run.epochs { schedule with epochs := n } .nobody train checked n 1 (.start net o source train ()) := by
  have hn : net.checkFit train validation { schedule with epochs := n } = .ok checked := h
  exact fit_eq hn o source .nobody ()

theorem Network.fitDeeds_eq (h : net.checkFit train validation schedule = .ok checked) (o : Optimizer α)
    (source : σ) (send : Receiver α τ) (receiver : τ) :
    net.fitDeeds train validation o schedule source send receiver =
      Run.deeds schedule send train checked schedule.epochs 1 (.start net o source train receiver) := by
  rw [fitDeeds, h]

omit [Scalar α] [RandomSource σ] in
theorem Run.start_unwatched (o : Optimizer α) (source : σ) (receiver : τ) :
    (start net o source train receiver).unwatched = start net o source train () :=
  rfl

theorem Run.epochs_congr (schedule' : Schedule) {n k : Nat} {r r' : Run α σ Unit}
    (h : epochs schedule .nobody train checked n k r = .ok r') (hr : r.stopped = false)
    (hr' : r'.stopped = false) (hb : schedule'.batchSize = schedule.batchSize) :
    epochs schedule' .nobody train checked n k r = .ok r' := by
  obtain ⟨net, o, s, order, history, ⟨⟩, stopped⟩ := r
  obtain ⟨net', o', s', order', history', ⟨⟩, stopped'⟩ := r'
  obtain rfl : stopped = false := hr
  obtain rfl : stopped' = false := hr'
  exact epochs_through schedule' hb rfl rfl h

end Fit

/-- A run whose receiver may go away. It does what the run does that nobody watches, up to the first event
that is not taken, and then it ends well. If that event is the one of an epoch, the run is the unwatched
run of the epochs so far. If it is the one of a batch, the history is that of the epochs before, and the
network and the optimizer are those after the batches so far. A run of which every event is taken is the
unwatched one, and the history of fewer epochs is the first part of its history. -/
theorem Network.fit_stops {α : Type} [Scalar α] {σ τ : Type} [RandomSource σ] {net : Network α}
    {train : Dataset α} {validation checked : Option (Dataset α)} {schedule : Schedule}
    (hcheck : net.checkFit train validation schedule = .ok checked) (o : Optimizer α) (source : σ)
    (send : Receiver α τ) (receiver : τ) :
    net.fitDeeds train validation o schedule source send receiver = Deed.upTo send receiver
        (net.fitDeeds train validation o schedule source .nobody ()) ∧
    (∀ event, .send event false ∈ net.fitDeeds train validation o schedule source send receiver →
      ∃ front run, net.fit train validation o schedule source send receiver = .ok run ∧
        net.fitDeeds train validation o schedule source send receiver = front ++ [.send event false] ∧
        (∀ d ∈ front, d.taken = true) ∧
        Run.Performs send train checked (.start net o source train receiver)
          (front ++ [.send event false]) run ∧
        (∀ stats, event = .epoch stats → 0 < stats.epoch ∧ stats.epoch ≤ schedule.epochs ∧
          net.fitUnwatched train validation o schedule source stats.epoch = .ok run.unwatched) ∧
        ∀ e j total loss accuracy, event = .batch e j total loss accuracy → 0 < e ∧ e ≤ schedule.epochs ∧
          total = schedule.batchCount train.size ∧
          ∃ q measures, net.fitUnwatched train validation o schedule source (e - 1) = .ok q ∧
            run.history = q.history ∧ 0 < j ∧ j ≤ (q.shuffled.parts schedule).length ∧
            Batches train ((q.shuffled.parts schedule).take j) q.network q.optimizer q.shuffled.source
              measures run.network run.optimizer run.source) ∧
    ∀ run, net.fit train validation o schedule source send receiver = .ok run → run.stopped = false →
      net.fitUnwatched train validation o schedule source schedule.epochs = .ok run.unwatched ∧
      ∀ m ≤ schedule.epochs, ∃ q, net.fitUnwatched train validation o schedule source m = .ok q ∧
        q.history = run.history.take m := by
  rw [fitDeeds_eq hcheck, fitDeeds_eq hcheck, fit_eq hcheck]
  simp only [fitUnwatched_eq hcheck]
  refine ⟨Run.deeds_upTo rfl _ _, fun event hevent => ?_, fun run hrun hs => ?_⟩
  · obtain ⟨front, run, hrun, hdeeds, htaken, hends⟩ := Run.epochs_broken schedule rfl rfl hevent
    refine ⟨front, run, hrun, hdeeds, htaken, hdeeds ▸ Run.epochs_performs hrun, ?_⟩
    cases hends with
    | @epoch m _ stats hm hnumber hq hr =>
        subst hr
        refine ⟨?_, nofun⟩
        rintro _ ⟨⟩
        rw [Nat.add_comm 1 m] at hnumber
        rw [Run.start_unwatched] at hq
        refine ⟨by omega, by omega, ?_⟩
        rw [hnumber]
        exact Run.epochs_congr _ hq rfl rfl rfl
    | @batch m _ _ _ q measures hm hj hle hq hqs hhistory hbatches =>
        refine ⟨nofun, ?_⟩
        rintro _ _ _ _ _ ⟨⟩
        rw [Run.start_unwatched] at hq
        rw [Nat.add_sub_cancel_left]
        exact ⟨by omega, by omega, rfl, q, measures,
          Run.epochs_congr _ hq rfl hqs rfl, hhistory, hj, hle, hbatches⟩
  · have hquiet := Run.epochs_through schedule rfl rfl hs hrun
    rw [Run.start_unwatched] at hquiet
    refine ⟨hquiet, fun m hm => ?_⟩
    obtain ⟨n, hn⟩ := Nat.exists_eq_add_of_le hm
    rw [hn] at hquiet
    obtain ⟨q, hq, hqs, hrest⟩ := Run.epochs_add rfl rfl hquiet
    obtain ⟨-, hb, -⟩ := checkFit_eq_ok hcheck
    exact ⟨q, Run.epochs_congr _ hq rfl hqs rfl, (Run.take_history (fun _ _ => rfl) hb
      (Run.start_permutes net o source train ()) rfl rfl hq hqs hrest).symm⟩

theorem Network.fit_stops_second : ∃ (net : Network Float) (d : Dataset Float) (run : Run Float Stream Nat),
    net.fit d none ⟨.sgd 1 0, 0, #[]⟩ ⟨3, 1, 0, fun _ => 0⟩ (.ofSeed 0) (fun _ t => (decide (0 < t), t - 1)) 1 =
      .ok run ∧
    net.fitUnwatched d none ⟨.sgd 1 0, 0, #[]⟩ ⟨3, 1, 0, fun _ => 0⟩ (.ofSeed 0) 2 = .ok run.unwatched := by
  obtain ⟨net, hnet⟩ : ∃ net : Network Float, net = ⟨⟨1, 1, 2⟩, [.flatten ⟨1, 1, 2⟩], .mse, none⟩ := ⟨_, rfl⟩
  obtain ⟨d, hd⟩ : ∃ d : Dataset Float, d = ⟨⟨1, 1, 2⟩, #[⟨⟨1, 1, 2⟩, #[0, 1]⟩], #[1], 2, none⟩ := ⟨_, rfl⟩
  let o : Optimizer Float := ⟨.sgd 1 0, 0, #[]⟩
  let schedule : Schedule := ⟨3, 1, 0, fun _ => 0⟩
  let send : Receiver Float Nat := fun _ t => (decide (0 < t), t - 1)
  have hcheck : net.checkFit d none schedule = .ok none := by
    subst hnet hd
    rfl
  have hbatch : ∀ (o : Optimizer Float) (s : Stream), ∃ one,
      net.trainBatch d [0] o s = .ok (net, o.beginStep, s, one) := by
    subst hnet hd
    intro o s
    simp [trainBatch, require, trainSamples, trainSample, Dataset.target, Dataset.oneHot, Buffer.fits,
      Buffer.zeros, forward, forwardLayers, Layer.forward, backward, backwardLayers, Layer.backward,
      applyGradients, mapLayerSlots, mapSlots, sourceAfter, Layer.ready, Layer.parameters,
      Layer.withParameters, Tensor.reshape, Tensor.ofBuffer, Tensor.flat, Loss.derivative, Shape.flat, Shape.size]
  have hepoch : ∀ (number : Nat) (o : Optimizer Float) (s : Stream) (h : History Float) (t : Nat),
      ∃ stats, stats.epoch = number ∧
        Run.epoch schedule send d none number ⟨net, o, s, #[0], h, t, false⟩ =
          .ok ⟨net, o.beginStep, s, #[0], h.push stats, t - 1, !decide (0 < t)⟩ ∧
        Run.epochDeeds schedule send d none number ⟨net, o, s, #[0], h, t, false⟩ =
          [.train [0], .send (.epoch stats) (decide (0 < t))] := by
    intro number o s h t
    obtain ⟨one, hone⟩ := hbatch o s
    have hparts : pieces 1 [0] = [[0]] := by cbv
    refine ⟨Run.stats schedule number (Tally.zero.add one) none, rfl, ?_, ?_⟩ <;>
      simp [Run.epoch, Run.epochDeeds, Run.shuffled, RandomSource.shuffle, RandomSource.shuffleFrom, Run.parts,
        schedule, hparts, Run.batches, Run.batchDeeds, Run.batch, hone, Run.batchDue, Run.batchTold, Run.close,
        Run.closeDeeds, Run.measure, Run.tell, send, Run.stats]
  have hstart : Run.start net o (Stream.ofSeed 0) d 1 = ⟨net, o, .ofSeed 0, #[0], .empty, 1, false⟩ := by
    subst hd
    rfl
  obtain ⟨s₁, -, hfirst, hdeeds₁⟩ := hepoch 1 o (.ofSeed 0) .empty 1
  obtain ⟨s₂, hnumber, hsecond, hdeeds₂⟩ := hepoch 2 o.beginStep (.ofSeed 0) (History.empty.push s₁) 0
  obtain ⟨-, hstops, -⟩ := Network.fit_stops hcheck o (Stream.ofSeed 0) send 1
  obtain ⟨-, run, hrun, -, -, -, hended, -⟩ := hstops (.epoch s₂) (by
    rw [fitDeeds_eq hcheck, hstart]
    simp [schedule, Run.deeds, hfirst, hdeeds₁, hsecond, hdeeds₂])
  exact ⟨net, d, run, hrun, hnumber ▸ (hended s₂ rfl).2.2⟩

end Convnet
