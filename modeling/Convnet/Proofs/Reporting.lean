import Convnet.Proofs.Exchange
import Convnet.Proofs.Trial

namespace Convnet

section Receivers

variable {α : Type} [Scalar α] {σ τ : Type} [RandomSource σ] {schedule : Schedule} {send : Receiver α τ}
  {train : Dataset α} {validation : Option (Dataset α)} {r r' : Run α σ τ} {ds : List (Deed α)}

theorem Run.Performs.told (h : Performs send train validation r ds r') :
    r'.receiver = send.after r.receiver (Deed.events ds) ∧
      ((∀ d ∈ ds, d.taken = true) → r.stopped = false → r'.stopped = false) := by
  induction h with
  | done r => exact ⟨rfl, fun _ hr => hr⟩
  | shuffle _ ih => exact ih
  | train _ _ ih => exact ⟨ih.1, fun htaken hr => ih.2 (fun d hd => htaken d (List.mem_cons_of_mem _ hd)) hr⟩
  | measure _ _ _ ih => exact ⟨ih.1, fun htaken hr => ih.2 (fun d hd => htaken d (List.mem_cons_of_mem _ hd)) hr⟩
  | record _ _ ih => exact ih
  | send event _ ih =>
      refine ⟨ih.1, fun htaken _ => ih.2 (fun d hd => htaken d (List.mem_cons_of_mem _ hd)) ?_⟩
      exact Bool.not_eq_false' .. ▸ htaken _ List.mem_cons_self

theorem Run.epochs_failed {e : Error} {n k : Nat} (hr : r.stopped = false)
    (h : epochs schedule send train validation n k r = .error e) :
    epochs schedule .nobody train validation n k r.unwatched = .error e := by
  induction n generalizing k r with
  | zero => cases h
  | succ n ih =>
      rw [epochs] at h ⊢
      cases hone : r.epoch schedule send train validation k with
      | error e' =>
          rw [hone, error_bind] at h
          rw [(epoch_failed hr hone).1, error_bind, Except.error.inj h]
      | ok r₁ =>
          rw [hone, ok_bind] at h
          cases hs : r₁.stopped with
          | true => simp [hs] at h
          | false =>
              rw [hs, if_neg Bool.false_ne_true] at h
              rw [(epoch_through schedule rfl hr hs hone).1, ok_bind]
              exact ih hs h

omit [Scalar α] in
theorem Deed.upTo_taken (h : send.Alive) (t : τ) (htaken : ∀ d ∈ ds, d.taken = true) : upTo send t ds = ds := by
  induction ds generalizing t with
  | nil => rfl
  | cons d ds ih =>
      have hrest := fun t => ih t fun d hd => htaken d (List.mem_cons_of_mem _ hd)
      cases d with
      | train => simp only [upTo, hrest]
      | measure => simp only [upTo, hrest]
      | send event taken =>
          obtain rfl : taken = true := htaken _ List.mem_cons_self
          rw [upTo, h, if_pos rfl, hrest]

omit [Scalar α] in
theorem Deed.taken_upTo (h : send.Alive) (t : τ) : ∀ d ∈ upTo send t ds, d.taken = true := by
  induction ds generalizing t with
  | nil => simp [upTo]
  | cons d ds ih =>
      cases d with
      | train => simpa [upTo, taken] using ih t
      | measure => simpa [upTo, taken] using ih t
      | send event taken => simpa [upTo, Deed.taken, h event t] using ih _

section Fit

variable {net : Network α} {o : Optimizer α} {source : σ}

theorem Network.taken_fitDeeds :
    ∀ d ∈ net.fitDeeds train validation o schedule source .nobody (), d.taken = true := by
  unfold fitDeeds
  cases net.checkFit train validation schedule with
  | error e => simp
  | ok checked =>
      dsimp only
      rw [Run.deeds_upTo rfl]
      exact Deed.taken_upTo (fun _ _ => rfl) ()

theorem Network.fitDeeds_upTo (send : Receiver α τ) (t : τ) :
    net.fitDeeds train validation o schedule source send t =
      Deed.upTo send t (net.fitDeeds train validation o schedule source .nobody ()) := by
  unfold fitDeeds
  cases net.checkFit train validation schedule with
  | error e => rfl
  | ok checked => exact Run.deeds_upTo rfl _ _

theorem Network.fit_watched {quiet : Run α σ Unit}
    (h : net.fit train validation o schedule source .nobody () = .ok quiet) (send : Receiver α τ) (t : τ) :
    ∃ run, net.fit train validation o schedule source send t = .ok run ∧
      run.receiver = send.after t (Deed.events (net.fitDeeds train validation o schedule source send t)) ∧
      ((∀ d ∈ net.fitDeeds train validation o schedule source send t, d.taken = true) → run.unwatched = quiet) := by
  obtain ⟨checked, hcheck, hquiet⟩ := bind_eq_ok.mp h
  rw [fit_eq hcheck, fitDeeds_eq hcheck]
  cases hrun : Run.epochs schedule send train checked schedule.epochs 1 (.start net o source train t) with
  | error e =>
      have hfails := Run.epochs_failed rfl hrun
      rw [Run.start_unwatched, hquiet] at hfails
      cases hfails
  | ok run =>
      obtain ⟨hreceiver, hgoing⟩ := (Run.epochs_performs hrun).told
      refine ⟨run, rfl, hreceiver, fun htaken => ?_⟩
      have hsame := Run.epochs_through schedule rfl rfl (hgoing htaken rfl) hrun
      rw [Run.start_unwatched, hquiet] at hsame
      exact (Except.ok.inj hsame).symm

theorem Network.fit_alive (hsend : send.Alive) {t : τ} {run : Run α σ τ}
    (h : net.fit train validation o schedule source send t = .ok run) :
    net.fit train validation o schedule source .nobody () = .ok run.unwatched ∧
      run.receiver = send.after t (Deed.events (net.fitDeeds train validation o schedule source .nobody ())) := by
  have hdeeds : net.fitDeeds train validation o schedule source send t =
      net.fitDeeds train validation o schedule source .nobody () := by
    rw [fitDeeds_upTo, Deed.upTo_taken hsend t taken_fitDeeds]
  obtain ⟨checked, hcheck, hrun⟩ := bind_eq_ok.mp h
  obtain ⟨hreceiver, hgoing⟩ := (Run.epochs_performs hrun).told
  rw [← fitDeeds_eq hcheck, hdeeds] at hreceiver hgoing
  refine ⟨?_, hreceiver⟩
  rw [fit_eq hcheck, ← Run.start_unwatched o source t]
  exact Run.epochs_through schedule rfl rfl (hgoing taken_fitDeeds rfl) hrun

end Fit

end Receivers

namespace Report

open Exchange

variable {α : Type} [Scalar α] {ω : Type} [Writer ω] {out out' : ω} {ds : List (Deed α)}
  {es back : List (TrainEvent α)} {e : TrainEvent α}

theorem after_writeAll (failed : Bool) (h : writeAll out es = some out') :
    Receiver.after receive ⟨out, failed⟩ es = ⟨out', failed⟩ := by
  induction es generalizing out with
  | nil =>
      obtain ⟨⟩ := h
      rfl
  | cons e es ih =>
      rw [writeAll_cons] at h
      obtain ⟨mid, hmid, h⟩ := Option.bind_eq_some_iff.mp h
      have hone : receive e ⟨out, failed⟩ = (true, ⟨mid, failed⟩) := by rw [receive, hmid]
      rw [Receiver.after, List.foldl_cons, hone]
      exact ih h

/-- A report that can print every event takes every event. -/
theorem upTo_written (failed : Bool) (htaken : ∀ d ∈ ds, d.taken = true)
    (h : writeAll out (Deed.events ds) = some out') : Deed.upTo receive ⟨out, failed⟩ ds = ds := by
  induction ds generalizing out with
  | nil => rfl
  | cons d ds ih =>
      have hrest : ∀ d' ∈ ds, d'.taken = true := fun d' hd => htaken d' (List.mem_cons_of_mem _ hd)
      cases d with
      | train => simp only [Deed.upTo, ih hrest h]
      | measure => simp only [Deed.upTo, ih hrest h]
      | send event taken =>
          obtain rfl : taken = true := htaken _ List.mem_cons_self
          have hevents : Deed.events (.send event true :: ds) = event :: Deed.events ds := rfl
          rw [hevents, writeAll_cons] at h
          obtain ⟨mid, hmid, h⟩ := Option.bind_eq_some_iff.mp h
          have hone : receive event ⟨out, failed⟩ = (true, ⟨mid, failed⟩) := by rw [receive, hmid]
          rw [Deed.upTo, hone, if_pos rfl, ih hrest h]

theorem upTo_unwritten (failed : Bool) (hevents : Deed.events ds = es ++ e :: back) (hes : writeAll out es = some out')
    (he : Writer.write out' (eventText e) = none) :
    Deed.events (Deed.upTo receive ⟨out, failed⟩ ds) = es ++ [e] := by
  induction ds generalizing out es with
  | nil => simp [Deed.events] at hevents
  | cons d ds ih =>
      cases d with
      | train =>
          simp only [Deed.upTo]
          exact ih hevents hes
      | measure =>
          simp only [Deed.upTo]
          exact ih hevents hes
      | send event taken =>
          have hcons : Deed.events (.send event taken :: ds) = event :: Deed.events ds := rfl
          rw [hcons] at hevents
          cases es with
          | nil =>
              obtain ⟨rfl, -⟩ := List.cons.inj hevents
              obtain ⟨⟩ := hes
              have hone : receive event ⟨out', failed⟩ = (false, ⟨out', true⟩) := by rw [receive, he]
              rw [Deed.upTo, hone, if_neg Bool.false_ne_true]
              rfl
          | cons first es =>
              obtain ⟨rfl, hrest⟩ := List.cons.inj hevents
              rw [writeAll_cons] at hes
              obtain ⟨mid, hmid, hes⟩ := Option.bind_eq_some_iff.mp hes
              have hone : receive event ⟨out, failed⟩ = (true, ⟨mid, failed⟩) := by rw [receive, hmid]
              rw [Deed.upTo, hone, if_pos rfl]
              exact congrArg (event :: ·) (ih hrest hes)

theorem writeAll_broken (hes : writeAll out es = some out') (he : Writer.write out' (eventText e) = none)
    (back : List (TrainEvent α)) : writeAll out (es ++ e :: back) = none := by
  rw [writeAll_append, hes, Option.bind_some, writeAll_cons, he, Option.bind_none]

theorem broken_unique {es' back' : List (TrainEvent α)} {e' : TrainEvent α} {mid mid' : ω}
    (h : es ++ e :: back = es' ++ e' :: back') (hes : writeAll out es = some mid)
    (he : Writer.write mid (eventText e) = none) (hes' : writeAll out es' = some mid')
    (he' : Writer.write mid' (eventText e') = none) : es = es' ∧ e = e' ∧ mid = mid' := by
  induction es generalizing out es' with
  | nil =>
      obtain ⟨⟩ := hes
      cases es' with
      | nil =>
          obtain ⟨⟩ := hes'
          exact ⟨rfl, (List.cons.inj h).1, rfl⟩
      | cons first es' =>
          obtain ⟨rfl, -⟩ := List.cons.inj h
          rw [writeAll_cons, he] at hes'
          cases hes'
  | cons first es ih =>
      rw [writeAll_cons] at hes
      obtain ⟨next, hnext, hes⟩ := Option.bind_eq_some_iff.mp hes
      cases es' with
      | nil =>
          obtain ⟨rfl, -⟩ := List.cons.inj h
          obtain ⟨⟩ := hes'
          rw [he'] at hnext
          cases hnext
      | cons first' es' =>
          obtain ⟨rfl, hrest⟩ := List.cons.inj h
          rw [writeAll_cons, hnext, Option.bind_some] at hes'
          obtain ⟨rfl, rfl, rfl⟩ := ih hrest hes hes'
          exact ⟨rfl, rfl, rfl⟩

end Report

namespace Experiment

section Training

variable {α : Type} [Scalar α] {σ : Type} [RandomSource σ] {ω : Type} [Writer ω] (world : Surroundings α σ)
  (c : RunConfig α) (p : Prepared α)

def validationOf {α : Type} (p : Prepared α) : Option (Dataset α) :=
  if p.validation.isEmpty then none else some p.validation

def worker : Stage α σ :=
  .checking (.start p.network (.ofRule c.optimizer) (world.source c.training.seed) p.train ())

/-- The training that nobody watches. -/
def alone : Result (Run α σ Unit) :=
  p.network.fit p.train (validationOf p) (.ofRule c.optimizer) (schedule world c) (world.source c.training.seed) .nobody ()

def told : List (TrainEvent α) :=
  Deed.events (p.network.fitDeeds p.train (validationOf p) (.ofRule c.optimizer) (schedule world c)
    (world.source c.training.seed) .nobody ())

variable {world c p} {out out' : ω} {run : Run α σ Unit} {es back : List (TrainEvent α)} {e : TrainEvent α}

theorem fitted_written (halone : alone world c p = .ok run) (h : Exchange.writeAll out (told world c p) = some out') :
    ∃ run', fitted world c p ⟨out, false⟩ = .ok run' ∧ run'.unwatched = run ∧ run'.receiver = ⟨out', false⟩ := by
  obtain ⟨run', hrun', hreceiver, hsame⟩ := Network.fit_watched halone Report.receive ⟨out, false⟩
  have hdeeds := Report.upTo_written false Network.taken_fitDeeds h
  rw [← Network.fitDeeds_upTo] at hdeeds
  rw [hdeeds] at hreceiver hsame
  exact ⟨run', hrun', hsame Network.taken_fitDeeds, hreceiver.trans (Report.after_writeAll false h)⟩

theorem fitted_unwritten (halone : alone world c p = .ok run) (htold : told world c p = es ++ e :: back)
    (hes : Exchange.writeAll out es = some out') (he : Writer.write out' (Report.eventText e) = none) :
    ∃ run', fitted world c p ⟨out, false⟩ = .ok run' ∧ run'.receiver = ⟨out', true⟩ := by
  obtain ⟨run', hrun', hreceiver, -⟩ := Network.fit_watched halone Report.receive ⟨out, false⟩
  rw [Network.fitDeeds_upTo, Report.upTo_unwritten false htold hes he, Receiver.after_append,
    Report.after_writeAll false hes] at hreceiver
  refine ⟨run', hrun', hreceiver.trans ?_⟩
  rw [Receiver.after, List.foldl_cons, Report.receive, he]
  rfl

/-- Whatever turns the training and its report have taken so far, they go on until both are done, nothing is taken that
is sent after the report has left, and the training does nothing more after an event that is not taken. When they are
done, the events that were printed are those of the training that nobody watches, and what has come of it is what
comes of that training. If one of these events cannot be printed, it is the last one that was handed on, and the
answer is that failure. Either way it is the answer of the training that prints each event when it is sent. -/
theorem train_interleaved (world : Surroundings α σ) (c : RunConfig α) (p : Prepared α) (s : Session ω)
    {acts : List (Act α)} {x : Exchange α σ ω}
    (h : Exchange.Steps (schedule world c) p.train (validationOf p) (.start (worker world c p) s.out) acts x) :
    WellFounded (fun z y : Exchange α σ ω =>
      ∃ acts, Exchange.Step (schedule world c) p.train (validationOf p) y acts z) ∧
    ((∃ answer, x.answer? = some answer) ∨
      ∃ acts' y, Exchange.Step (schedule world c) p.train (validationOf p) x acts' y) ∧
    Act.Refuses acts ∧ Act.Ceases acts ∧
    (∀ answer, x.answer? = some answer →
      (∀ out, Exchange.writeAll s.out (told world c p) = some out →
        Act.handed acts = (told world c p).map (·, true) ∧ x.out = out ∧ answer = alone world c p) ∧
      (∀ front event back out, told world c p = front ++ event :: back → Exchange.writeAll s.out front = some out →
        Writer.write out (Report.eventText event) = none →
        Act.handed acts = front.map (·, true) ++ [(event, false)] ∧ x.out = out ∧
          (answer = .error .io ∨ answer = .error .misuse ∧ alone world c p = .error .misuse)) ∧
      ∀ run, alone world c p = .ok run → (Experiment.train world c p).on s =
        (answer.map fun r => (r.network, r.history), { s with out := x.out })) ∧
    ∀ logged : Run α σ (List (TrainEvent α)), p.network.fit p.train (validationOf p) (.ofRule c.optimizer)
        (schedule world c) (world.source c.training.seed) (fun e t => (true, t ++ [e])) [] = .ok logged →
      logged.receiver = told world c p ∧ alone world c p = .ok logged.unwatched := by
  have hgoing : (worker world c p).Going := rfl
  have hstands := h.stands hgoing
  have horderly := h.orderly
  refine ⟨Exchange.wellFounded_step _ _ _, hstands.progress, horderly.refuses, horderly.ceases, fun answer hanswer => ?_,
    fun logged hlogged => ?_⟩
  · rcases hstands.answer hanswer with ⟨hall, hhanded, hresult⟩ | ⟨es, e, back, htold, hes, he, hhanded, hresult⟩
    · replace hresult : answer = alone world c p := hresult
      replace hall : Exchange.writeAll s.out (told world c p) = some x.out := hall
      refine ⟨fun out hout => ⟨hhanded, Option.some.inj (hall.symm.trans hout), hresult⟩, ?_, fun run halone => ?_⟩
      · intro front event back out htold hfront hfail
        rw [htold, Report.writeAll_broken hfront hfail] at hall
        cases hall
      · obtain ⟨run', hrun', rfl, hreceiver⟩ := fitted_written halone hall
        rw [train_on, hrun', hresult, halone]
        dsimp only
        rw [hreceiver]
        rfl
    · replace hresult : answer = .error .io ∨ answer = .error .misuse ∧ alone world c p = .error .misuse := hresult
      replace htold : told world c p = es ++ e :: back := htold
      refine ⟨fun out hout => ?_, ?_, fun run halone => ?_⟩
      · rw [htold, Report.writeAll_broken hes he] at hout
        cases hout
      · intro front event back' out htold' hfront hfail
        obtain ⟨rfl, rfl, rfl⟩ := Report.broken_unique (htold.symm.trans htold') hes he hfront hfail
        exact ⟨hhanded, rfl, hresult⟩
      · obtain ⟨run', hrun', hreceiver⟩ := fitted_unwritten halone htold hes he
        rw [train_on, hrun']
        dsimp only
        rw [hreceiver]
        rcases hresult with rfl | ⟨-, hmisuse⟩
        · rfl
        · rw [halone] at hmisuse
          cases hmisuse
  · obtain ⟨halone, hreceiver⟩ := Network.fit_alive (fun _ _ => rfl) hlogged
    exact ⟨hreceiver.trans (Receiver.after_log [] _), halone⟩

end Training

theorem train_interleaved_once : ∃ (world : Surroundings Float Stream) (c : RunConfig Float) (p : Prepared Float)
    (acts : List (Act Float)) (x : Exchange Float Stream String) (run : Run Float Stream Unit) (stats : EpochStats Float),
    Exchange.Steps (schedule world c) p.train (validationOf p) (.start (worker world c p) "") acts x ∧
    x.answer? = some (.ok run) ∧ Act.handed acts = [(.epoch stats, true)] ∧ stats.epoch = 1 ∧
    x.out = Report.eventText (.epoch stats) := by
  obtain ⟨world, hworld⟩ : ∃ world : Surroundings Float Stream,
    world = ⟨Stream.ofSeed, fun _ _ n s => .ok (Array.replicate n 1, s), fun _ => 0⟩ := ⟨_, rfl⟩
  obtain ⟨c, hc⟩ : ∃ c : RunConfig Float,
    c = { RunConfig.standard with optimizer := .sgd 1 0, training := ⟨1, 1, 0, 0, 0⟩ } := ⟨_, rfl⟩
  obtain ⟨net, hnet⟩ : ∃ net : Network Float, net = ⟨⟨1, 1, 2⟩, [.flatten ⟨1, 1, 2⟩], .mse, none⟩ := ⟨_, rfl⟩
  obtain ⟨d, hd⟩ : ∃ d : Dataset Float, d = ⟨⟨1, 1, 2⟩, #[⟨⟨1, 1, 2⟩, #[0, 1]⟩], #[1], 2, none⟩ := ⟨_, rfl⟩
  obtain ⟨p, hp⟩ : ∃ p : Prepared Float, p = ⟨net, d, d.take 0, d⟩ := ⟨_, rfl⟩
  have hcheck : net.checkFit d none (schedule world c) = .ok none := by
    subst hnet hd hc
    rfl
  have hvalidation : validationOf p = none := by
    subst hp hd
    rfl
  obtain ⟨one, hone⟩ : ∃ one, net.trainBatch d [0] (.ofRule c.optimizer) (world.source c.training.seed) =
      .ok (net, (Optimizer.ofRule c.optimizer).beginStep, world.source c.training.seed, one) := by
    subst hnet hd
    simp [Network.trainBatch, require, Network.trainSamples, Network.trainSample, Dataset.target, Dataset.oneHot,
      Buffer.fits, Buffer.zeros, Network.forward, Network.forwardLayers, Layer.forward, Network.backward,
      Network.backwardLayers, Layer.backward, Network.applyGradients, Network.mapLayerSlots, Network.mapSlots,
      Network.sourceAfter, Layer.ready, Layer.parameters, Layer.withParameters, Tensor.reshape, Tensor.ofBuffer,
      Tensor.flat, Loss.derivative, Shape.flat, Shape.size]
  obtain ⟨plan, hplan⟩ : ∃ plan : Schedule, plan = ⟨1, 1, 0, world.elapsed⟩ := ⟨_, rfl⟩
  have hschedule : schedule world c = plan := by
    subst hc hplan
    rfl
  obtain ⟨stats, hstats⟩ : ∃ stats, stats = Run.stats plan 1 (Tally.zero.add one) none := ⟨_, rfl⟩
  obtain ⟨run, hrun⟩ : ∃ run : Run Float Stream Unit, run = ⟨net, (Optimizer.ofRule c.optimizer).beginStep,
    world.source c.training.seed, #[0], History.empty.push stats, (), false⟩ := ⟨_, rfl⟩
  have hparts : pieces 1 [0] = [[0]] := by cbv
  have hstart : Run.start net (.ofRule c.optimizer) (world.source c.training.seed) d () =
      ⟨net, .ofRule c.optimizer, world.source c.training.seed, #[0], .empty, (), false⟩ := by
    subst hd
    rfl
  have hepoch : Run.epoch plan .nobody d none 1 (.start net (.ofRule c.optimizer) (world.source c.training.seed) d ()) =
      .ok run := by
    subst hplan
    simp [hstart, Run.epoch, Run.shuffled, RandomSource.shuffle, RandomSource.shuffleFrom, Run.parts, hparts, Run.batches,
      Run.batch, hone, Run.batchDue, Run.close, Run.tell, hrun, hstats, Run.stats, Receiver.nobody]
  have hdeeds : Run.epochDeeds plan .nobody d none 1
      (.start net (.ofRule c.optimizer) (world.source c.training.seed) d ()) =
        [.train [0], .send (.epoch stats) true] := by
    subst hplan
    simp [hstart, Run.epochDeeds, Run.shuffled, RandomSource.shuffle, RandomSource.shuffleFrom, Run.parts, hparts,
      Run.batchDeeds, Run.batches, Run.batch, hone, Run.batchDue, Run.batchTold, Run.closeDeeds, Run.measure, hstats,
      Run.stats, Receiver.nobody]
  rw [hschedule] at hcheck
  have hepochs : plan.epochs = 1 := by rw [hplan]
  have halone : alone world c p = .ok run := by
    rw [alone, hvalidation, hschedule, hp, Network.fit_eq hcheck, hepochs]
    exact Run.epochs_succ.mpr ⟨run, hepoch, by rw [hrun]; rfl⟩
  have htold : told world c p = [.epoch stats] := by
    rw [told, hvalidation, hschedule, hp, Network.fitDeeds_eq hcheck, hepochs, Run.deeds, hepoch, hdeeds, hrun]
    rfl
  have hprinted : Exchange.writeAll "" (told world c p) = some ("" ++ Report.eventText (.epoch stats)) := by
    rw [htold]
    rfl
  obtain ⟨acts, x, answer, hsteps, hanswer⟩ : ∃ acts x answer,
      Exchange.Steps (schedule world c) p.train (validationOf p) (.start (worker world c p) "") acts x ∧
        x.answer? = some answer := Exchange.Steps.completes .refl (rfl : (worker world c p).Going)
  obtain ⟨-, -, -, -, hdone, -⟩ := train_interleaved world c p (⟨⟨[], []⟩, ""⟩ : Session String) hsteps
  obtain ⟨hhanded, hout, hresult⟩ := (hdone answer hanswer).1 _ hprinted
  rw [hresult, halone] at hanswer
  rw [htold] at hhanded
  exact ⟨world, c, p, acts, x, run, stats, hsteps, hanswer, hhanded, by rw [hstats]; rfl,
    hout.trans (String.empty_append ..)⟩

end Experiment

end Convnet
