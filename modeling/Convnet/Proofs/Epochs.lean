import Convnet.Proofs.Batch
import Convnet.Proofs.Fit
import Convnet.Proofs.Order
import Mathlib.Algebra.BigOperators.Group.List.Basic

namespace Convnet

section Definitions

variable {α : Type} [Scalar α] {σ τ : Type} [RandomSource σ]

inductive Network.Samples (d : Dataset α) :
    List Nat → Network α → σ → List (Tally α) → Network α → σ → Prop
  | nil (net : Network α) (s : σ) : Samples d [] net s [] net s
  | cons {i label : Nat} {is : List Nat} {net net₁ net' : Network α} {s s₁ s' : σ} {target : Array α}
      {image : Tensor α} {t : Tally α} {ts : List (Tally α)} (hlabel : d.labels[i]? = some label)
      (htarget : d.target label = .ok target) (himage : d.images[i]? = some image)
      (hone : net.trainSample image label target s = .ok (net₁, s₁, t))
      (hrest : Samples d is net₁ s₁ ts net' s') : Samples d (i :: is) net s (t :: ts) net' s'

def Tally.total (ts : List (Tally α)) : Tally α := ts.foldl add zero

/-- Batches trained on one after the other, with the measures of the samples of each. -/
inductive Network.Batches (d : Dataset α) : List (List Nat) → Network α → Optimizer α → σ →
    List (List (Tally α)) → Network α → Optimizer α → σ → Prop
  | nil (net : Network α) (o : Optimizer α) (s : σ) : Batches d [] net o s [] net o s
  | cons {indices : List Nat} {rest : List (List Nat)} {net mid net₁ net' : Network α}
      {o o₁ o' : Optimizer α} {s s₁ s' : σ} {ts : List (Tally α)} {more : List (List (Tally α))}
      (hbatch : net.trainBatch d indices o s = .ok (net₁, o₁, s₁, .total ts))
      (hsamples : Samples d indices net s ts mid s₁)
      (hrest : Batches d rest net₁ o₁ s₁ more net' o' s') :
      Batches d (indices :: rest) net o s (ts :: more) net' o' s'

/-- What there is to tell of an epoch. -/
structure EpochRecord (α : Type) where
  order : List Nat
  measures : List (List (Tally α))
  stats : EpochStats α

namespace EpochRecord

def seen (e : EpochRecord α) (j : Nat) : Tally α := .total ((e.measures.take j).map .total)

def batchEvent (epoch total : Nat) (e : EpochRecord α) (j : Nat) : TrainEvent α :=
  .batch epoch j total (e.seen j).meanLoss (e.seen j).accuracy

/-- The events of an epoch: one after each batch whose number `every` divides and one after the last,
or none if `every` is zero, and one of the epoch as a whole. -/
def events (every epoch total : Nat) (e : EpochRecord α) : List (TrainEvent α) :=
  ((List.range' 1 total).filter fun j => 0 < every ∧ (every ∣ j ∨ j = total)).map
    (e.batchEvent epoch total) ++ [.epoch e.stats]

/-- The events of some epochs, of which the first has the number `k`. -/
def told (every total k : Nat) (es : List (EpochRecord α)) : List (TrainEvent α) :=
  (es.zipIdx k).flatMap fun (e, i) => e.events every i total

/-- An epoch in which every sample is trained on once, in batches that are consecutive slices of their
order, and that is told of by means over the samples so far. -/
structure Regular (schedule : Schedule) (train : Dataset α) (epoch : Nat) (e : EpochRecord α) : Prop where
  order : e.order.Perm (List.range train.size)
  count : (pieces schedule.batchSize e.order).length = schedule.batchCount train.size
  slices : ∀ j part, (pieces schedule.batchSize e.order)[j]? = some part →
    part = (e.order.drop (j * schedule.batchSize)).take schedule.batchSize ∧
      (j + 1 < schedule.batchCount train.size → part.length = schedule.batchSize)
  measured : e.measures.map List.length = (pieces schedule.batchSize e.order).map List.length
  firsts : ∀ j, (e.measures.take j).flatten = e.measures.flatten.take (j * schedule.batchSize)
  samples : ∀ j, (e.seen j).samples = min (j * schedule.batchSize) train.size
  correct : ∀ j, (e.seen j).correct ≤ (e.seen j).samples
  whole : train.size ≤ schedule.batchCount train.size * schedule.batchSize
  stats : ∃ measured, e.stats =
    Run.stats schedule epoch (e.seen (schedule.batchCount train.size)) measured
  last : 0 < schedule.progressEvery → ∃ front,
    e.events schedule.progressEvery epoch (schedule.batchCount train.size) = front ++
      [.batch epoch (schedule.batchCount train.size) (schedule.batchCount train.size) e.stats.loss
        e.stats.accuracy, .epoch e.stats]

end EpochRecord

def TrainEvent.stats? : TrainEvent α → Option (EpochStats α)
  | batch .. => none
  | epoch s => some s

def TrainEvent.accuracies : TrainEvent α → List α
  | batch _ _ _ _ a => [a]
  | epoch s => s.accuracy :: s.valAccuracy.toList

def Receiver.after (send : Receiver α τ) (t : τ) (events : List (TrainEvent α)) : τ :=
  events.foldl (fun t e => (send e t).2) t

/-- A receiver that takes every event. -/
def Receiver.Alive (send : Receiver α τ) : Prop := ∀ e t, (send e t).1 = true

namespace Run

/-- An epoch that was completed. -/
structure Completes (schedule : Schedule) (send : Receiver α τ) (train : Dataset α)
    (validation : Option (Dataset α)) (epoch : Nat) (r : Run α σ τ) (e : EpochRecord α)
    (r' : Run α σ τ) : Prop where
  order : r'.order = r.shuffled.order ∧ e.order = r'.order.toList
  batches : Network.Batches train (pieces schedule.batchSize e.order) r.network r.optimizer
    r.shuffled.source e.measures r'.network r'.optimizer r'.source
  stats : ∃ measured, measure validation r'.network = .ok measured ∧
    e.stats = Run.stats schedule epoch (e.seen (schedule.batchCount train.size)) measured
  history : r'.history = r.history.push e.stats
  receiver : r'.receiver = send.after r.receiver
    (e.events schedule.progressEvery epoch (schedule.batchCount train.size))
  stopped : r'.stopped = false

/-- Epochs that were completed one after the other, from epoch `k` on. -/
inductive Epochs (schedule : Schedule) (send : Receiver α τ) (train : Dataset α)
    (validation : Option (Dataset α)) : Nat → Run α σ τ → List (EpochRecord α) → Run α σ τ → Prop
  | nil (k : Nat) (r : Run α σ τ) : Epochs schedule send train validation k r [] r
  | cons {k : Nat} {r r₁ r' : Run α σ τ} {e : EpochRecord α} {es : List (EpochRecord α)}
      (hepoch : Completes schedule send train validation k r e r₁)
      (hrest : Epochs schedule send train validation (k + 1) r₁ es r') :
      Epochs schedule send train validation k r (e :: es) r'

end Run

end Definitions

section Receivers

variable {α τ : Type}

theorem Receiver.after_append (send : Receiver α τ) (t : τ) (es es' : List (TrainEvent α)) :
    send.after t (es ++ es') = send.after (send.after t es) es' :=
  List.foldl_append

theorem Receiver.after_log (t events : List (TrainEvent α)) :
    Receiver.after (fun e t => (true, t ++ [e])) t events = t ++ events := by
  induction events generalizing t with
  | nil => exact (List.append_nil t).symm
  | cons e events ih => rw [after, List.foldl_cons, ← after, ih, List.append_assoc, List.singleton_append]

end Receivers

section Samples

variable {α : Type} [Scalar α] {σ : Type} [RandomSource σ] {d : Dataset α} {net net' : Network α}
  {is : List Nat} {s s' : σ} {ts : List (Tally α)}

namespace Network

theorem samples_of_trainSamples {t t' : Tally α} (h : trainSamples d is net s t = .ok (net', s', t')) :
    ∃ ts, Samples d is net s ts net' s' ∧ t' = ts.foldl Tally.add t := by
  induction is generalizing net s t with
  | nil =>
      obtain ⟨⟩ := Except.ok.inj h
      exact ⟨[], .nil net' s', rfl⟩
  | cons i is ih =>
      obtain ⟨label, target, image, net₁, s₁, one, hl, ht, hi, hone, hrest⟩ := trainSamples_cons.mp h
      obtain ⟨ts, hts, rfl⟩ := ih hrest
      exact ⟨one :: ts, .cons hl ht hi hone hts, rfl⟩

theorem Samples.length (h : Samples d is net s ts net' s') : ts.length = is.length := by
  induction h with
  | nil => rfl
  | cons _ _ _ _ _ ih => rw [List.length_cons, List.length_cons, ih]

theorem Batches.length {parts : List (List Nat)} {o o' : Optimizer α} {measures : List (List (Tally α))}
    (h : Batches d parts net o s measures net' o' s') : measures.length = parts.length := by
  induction h with
  | nil => rfl
  | cons _ _ _ ih => rw [List.length_cons, List.length_cons, ih]

theorem Samples.single (h : Samples d is net s ts net' s') :
    ∀ t ∈ ts, t.samples = 1 ∧ t.correct ≤ 1 := by
  induction h with
  | nil => simp
  | cons _ _ _ hone _ ih =>
      intro t ht
      rcases List.mem_cons.mp ht with rfl | ht
      · obtain ⟨mid, out, phase, -, -, -, rfl⟩ := trainSample_eq_ok.mp hone
        refine ⟨rfl, ?_⟩
        dsimp only
        split <;> omega
      · exact ih t ht

end Network

theorem Tally.counts_foldl (ts : List (Tally α)) (t : Tally α) :
    (ts.foldl add t).samples = t.samples + (ts.map (·.samples)).sum ∧
      (ts.foldl add t).correct = t.correct + (ts.map (·.correct)).sum := by
  induction ts generalizing t with
  | nil => exact ⟨rfl, rfl⟩
  | cons t₁ ts ih =>
      obtain ⟨hs, hc⟩ := ih (t.add t₁)
      rw [List.foldl_cons, hs, hc, List.map_cons, List.map_cons, List.sum_cons, List.sum_cons]
      exact ⟨Nat.add_assoc _ _ _, Nat.add_assoc _ _ _⟩

theorem Tally.counts_total (ts : List (Tally α)) : (total ts).samples = (ts.map (·.samples)).sum ∧
    (total ts).correct = (ts.map (·.correct)).sum := by
  obtain ⟨hs, hc⟩ := counts_foldl ts zero
  exact ⟨hs.trans (Nat.zero_add _), hc.trans (Nat.zero_add _)⟩

end Samples

namespace Run

variable {α : Type} [Scalar α] {σ τ : Type} [RandomSource σ] {schedule : Schedule}
  {send : Receiver α τ} {train : Dataset α} {validation : Option (Dataset α)} {epoch total : Nat}
  {r r' : Run α σ τ} {tally tally' : Tally α}

omit [Scalar α] in
theorem batchDue_iff {every j total : Nat} :
    batchDue every j total = true ↔ 0 < every ∧ (every ∣ j ∨ j = total) := by
  simp [batchDue, Nat.dvd_iff_mod_eq_zero]

theorem batch_alive (hsend : send.Alive) (hr : r.stopped = false) {j : Nat} {indices : List Nat}
    (h : r.batch schedule send train epoch total j indices tally = .ok (r', tally')) :
    ∃ ts mid, r.network.trainBatch train indices r.optimizer r.source =
        .ok (r'.network, r'.optimizer, r'.source, .total ts) ∧
      Network.Samples train indices r.network r.source ts mid r'.source ∧
      tally' = tally.add (.total ts) ∧ r'.order = r.order ∧ r'.history = r.history ∧
      r'.stopped = false ∧ r'.receiver = send.after r.receiver
        (if batchDue schedule.progressEvery j total then
          [.batch epoch j total tally'.meanLoss tally'.accuracy] else []) := by
  obtain ⟨net, o, s, one, hone, rfl, rfl⟩ := batch_eq_ok.mp h
  obtain ⟨-, mid, hrun, -⟩ := Network.trainBatch_eq_ok.mp hone
  obtain ⟨ts, hts, rfl⟩ := Network.samples_of_trainSamples hrun
  by_cases hdue : batchDue schedule.progressEvery j total = true
  · rw [if_pos hdue, if_pos hdue]
    refine ⟨ts, mid, hone, hts, rfl, rfl, rfl, ?_, rfl⟩
    simp [tell, hsend _ _]
  · rw [if_neg hdue, if_neg hdue]
    exact ⟨ts, mid, hone, hts, rfl, rfl, rfl, hr, rfl⟩

theorem batches_alive (hsend : send.Alive) (hr : r.stopped = false) (j : Nat) (parts : List (List Nat))
    (h : batches schedule send train epoch total j parts r tally = .ok (r', tally')) :
    ∃ measures, Network.Batches train parts r.network r.optimizer r.source measures r'.network
        r'.optimizer r'.source ∧
      tally' = (measures.map Tally.total).foldl Tally.add tally ∧ r'.order = r.order ∧
      r'.history = r.history ∧ r'.stopped = false ∧ r'.receiver = send.after r.receiver
        (((List.range' j measures.length).filter (batchDue schedule.progressEvery · total)).map fun i =>
          let seen := ((measures.take (i + 1 - j)).map Tally.total).foldl Tally.add tally
          .batch epoch i total seen.meanLoss seen.accuracy) := by
  induction parts generalizing j r tally with
  | nil =>
      obtain ⟨⟩ := Except.ok.inj h
      exact ⟨[], .nil _ _ _, rfl, rfl, rfl, hr, rfl⟩
  | cons indices rest ih =>
      obtain ⟨r₁, tally₁, hone, h⟩ := batches_cons.mp h
      obtain ⟨ts, mid, hbatch, hts, rfl, horder, hhistory, hstop, hrec⟩ := batch_alive hsend hr hone
      rw [hstop] at h
      obtain ⟨measures, hbs, rfl, horder', hhistory', hstop', hrec'⟩ := ih hstop (j + 1) h
      refine ⟨ts :: measures, .cons hbatch hts hbs, rfl, horder'.trans horder,
        hhistory'.trans hhistory, hstop', ?_⟩
      have hfirst : j + 1 - j = 1 := by omega
      have hlater : ∀ i ∈ (List.range' (j + 1) measures.length).filter
          (batchDue schedule.progressEvery · total), i + 1 - j = i + 1 - (j + 1) + 1 := by
        intro i hi
        have hle := (List.mem_range'_1.mp (List.mem_filter.mp hi).1).1
        omega
      rw [hrec', hrec, ← Receiver.after_append, List.length_cons, List.range'_succ, List.filter_cons]
      congr 1
      split
      · rw [List.map_cons, hfirst]
        refine congrArg _ (List.map_congr_left fun i hi => ?_)
        rw [hlater i hi]
        rfl
      · refine List.map_congr_left fun i hi => ?_
        rw [hlater i hi]
        rfl

def Permutes (train : Dataset α) (r : Run α σ τ) : Prop := r.order.toList.Perm (List.range train.size)

omit [Scalar α] in
theorem shuffled_permutes (h : r.Permutes train) : r.shuffled.Permutes train :=
  (RandomSource.shuffle_perm r.order r.source).trans h

omit [Scalar α] in
theorem length_pieces_order (hb : 0 < schedule.batchSize) {order : List Nat}
    (h : order.Perm (List.range train.size)) :
    (pieces schedule.batchSize order).length = schedule.batchCount train.size := by
  rw [length_pieces hb, h.length_eq, List.length_range]
  rfl

theorem epoch_completes (hsend : send.Alive) (hb : 0 < schedule.batchSize) (hr : r.stopped = false)
    (hp : r.Permutes train) (h : r.epoch schedule send train validation epoch = .ok r') :
    (∃ e, Completes schedule send train validation epoch r e r') ∧ r'.Permutes train := by
  obtain ⟨r₁, tally, hrun, h⟩ := epoch_eq_ok.mp h
  obtain ⟨measures, hbs, rfl, horder, hhistory, hstop, hrec⟩ :=
    batches_alive (r := r.shuffled) hsend hr 1 _ hrun
  have hp' := shuffled_permutes hp
  have hlen : measures.length = schedule.batchCount train.size :=
    hbs.length.trans (length_pieces_order hb hp')
  have hseen : (measures.map Tally.total).foldl Tally.add .zero =
      .total ((measures.take (schedule.batchCount train.size)).map .total) := by
    rw [List.take_of_length_le (Nat.le_of_eq hlen)]
    rfl
  rw [hstop, hseen] at h
  obtain ⟨measured, hmeasured, rfl⟩ := close_eq_ok.mp h
  have hparts : r.shuffled.parts schedule = pieces schedule.batchSize r₁.order.toList := by
    rw [horder]
    rfl
  rw [hparts] at hbs
  let stats : EpochStats α := stats schedule epoch
    (.total ((measures.take (schedule.batchCount train.size)).map .total)) measured
  have hreceiver : (r₁.tell send (.epoch stats)).receiver = send.after r.receiver
      (EpochRecord.events schedule.progressEvery epoch (schedule.batchCount train.size)
        ⟨r₁.order.toList, measures, stats⟩) := by
    have hdue : ∀ j, batchDue schedule.progressEvery j (schedule.batchCount train.size) =
        decide (0 < schedule.progressEvery ∧
          (schedule.progressEvery ∣ j ∨ j = schedule.batchCount train.size)) :=
      fun j => Bool.eq_iff_iff.mpr (batchDue_iff.trans decide_eq_true_iff.symm)
    simp only [hlen, hdue, Nat.add_sub_cancel] at hrec
    rw [EpochRecord.events, Receiver.after_append]
    change (send (.epoch stats) r₁.receiver).2 = _
    rw [hrec]
    rfl
  refine ⟨⟨⟨r₁.order.toList, measures, stats⟩, ⟨horder, rfl⟩, hbs, ⟨measured, hmeasured, rfl⟩,
    congrArg (History.push · stats) hhistory, hreceiver, ?_⟩, ?_⟩
  · simp [tell, hsend _ _]
  · rw [Permutes]
    change r₁.order.toList.Perm _
    rwa [horder]

theorem epochs_complete (hsend : send.Alive) (hb : 0 < schedule.batchSize) (hr : r.stopped = false)
    (hp : r.Permutes train) (n k : Nat) (h : epochs schedule send train validation n k r = .ok r') :
    ∃ es, es.length = n ∧ Epochs schedule send train validation k r es r' := by
  induction n generalizing k r with
  | zero =>
      obtain ⟨⟩ := Except.ok.inj h
      exact ⟨[], rfl, .nil k _⟩
  | succ n ih =>
      obtain ⟨r₁, hone, h⟩ := epochs_succ.mp h
      obtain ⟨⟨e, he⟩, hp₁⟩ := epoch_completes hsend hb hr hp hone
      rw [he.stopped] at h
      obtain ⟨es, hlen, hes⟩ := ih he.stopped hp₁ (k + 1) h
      exact ⟨e :: es, congrArg Nat.succ hlen, .cons he hes⟩

end Run

section Regular

variable {α : Type} [Scalar α] {σ τ : Type} [RandomSource σ] {schedule : Schedule}
  {send : Receiver α τ} {train : Dataset α} {validation : Option (Dataset α)} {epoch k : Nat}
  {r r' : Run α σ τ} {e : EpochRecord α} {es : List (EpochRecord α)}

namespace Network

variable {parts : List (List Nat)} {net net' : Network α} {o o' : Optimizer α} {s s' : σ}
  {measures : List (List (Tally α))}

theorem Batches.lengths (h : Batches train parts net o s measures net' o' s') :
    measures.map List.length = parts.map List.length := by
  induction h with
  | nil => rfl
  | cons _ hsamples _ ih => rw [List.map_cons, List.map_cons, hsamples.length, ih]

theorem Batches.single (h : Batches train parts net o s measures net' o' s') :
    ∀ t ∈ measures.flatten, t.samples = 1 ∧ t.correct ≤ 1 := by
  induction h with
  | nil => simp
  | cons _ hsamples _ ih =>
      intro t ht
      rcases List.mem_append.mp ht with ht | ht
      · exact hsamples.single t ht
      · exact ih t ht

end Network

omit [Scalar α] in
theorem Tally.counts_single {ts : List (Tally α)} (h : ∀ t ∈ ts, t.samples = 1 ∧ t.correct ≤ 1) :
    (ts.map (·.samples)).sum = ts.length ∧ (ts.map (·.correct)).sum ≤ ts.length := by
  induction ts with
  | nil => exact ⟨rfl, Nat.le_refl 0⟩
  | cons t ts ih =>
      obtain ⟨hs, hc⟩ := h t (by simp)
      obtain ⟨hss, hcs⟩ := ih fun t' ht => h t' (by simp [ht])
      simp only [List.map_cons, List.sum_cons, List.length_cons, hs, hss]
      omega

theorem Tally.counts_nested (tss : List (List (Tally α))) :
    (total (tss.map total)).samples = (tss.flatten.map (·.samples)).sum ∧
      (total (tss.map total)).correct = (tss.flatten.map (·.correct)).sum := by
  obtain ⟨hs, hc⟩ := counts_total (tss.map total)
  rw [hs, hc, List.map_map, List.map_map, List.map_flatten, List.map_flatten, List.sum_flatten,
    List.sum_flatten, List.map_map, List.map_map]
  refine ⟨congrArg List.sum (List.map_congr_left fun ts _ => (counts_total ts).1),
    congrArg List.sum (List.map_congr_left fun ts _ => (counts_total ts).2)⟩

omit [Scalar α] in
theorem flatten_take_of_lengths {β : Type} {xss : List (List (Tally α))} {yss : List (List β)}
    (h : xss.map List.length = yss.map List.length) (j : Nat) :
    (xss.take j).flatten = xss.flatten.take (yss.take j).flatten.length := by
  rw [← List.take_sum_flatten, h, ← List.map_take, ← List.length_flatten]

theorem Schedule.le_batchCount_mul (hb : 0 < schedule.batchSize) (n : Nat) :
    n ≤ schedule.batchCount n * schedule.batchSize := by
  have hlt : n + schedule.batchSize - 1 <
      (n + schedule.batchSize - 1) / schedule.batchSize * schedule.batchSize + schedule.batchSize :=
    Nat.lt_div_mul_add hb
  rw [batchCount]
  omega

theorem Schedule.mul_lt_of_lt_batchCount (hb : 0 < schedule.batchSize) {j n : Nat}
    (h : j < schedule.batchCount n) : j * schedule.batchSize < n := by
  have hle : (j + 1) * schedule.batchSize ≤ n + schedule.batchSize - 1 :=
    (Nat.le_div_iff_mul_le hb).mp h
  rw [Nat.succ_mul] at hle
  omega

theorem EpochRecord.events_last {every total : Nat} (e : EpochRecord α) (epoch : Nat)
    (he : 0 < every) (ht : 0 < total) : ∃ front,
      e.events every epoch total = front ++ [e.batchEvent epoch total total, .epoch e.stats] := by
  obtain ⟨n, rfl⟩ := Nat.exists_eq_succ_of_ne_zero (Nat.ne_of_gt ht)
  refine ⟨((List.range' 1 n).filter fun j => 0 < every ∧ (every ∣ j ∨ j = n + 1)).map
    (e.batchEvent epoch (n + 1)), ?_⟩
  have hone : 1 + 1 * n = n + 1 := by omega
  have hlast : ([n + 1].filter fun j => 0 < every ∧ (every ∣ j ∨ j = n + 1)) = [n + 1] :=
    List.filter_cons_of_pos (by simp [he])
  rw [events, List.range'_concat, hone, List.filter_append, hlast, List.map_append, List.append_assoc]
  rfl

theorem Run.Completes.regular (hb : 0 < schedule.batchSize) (hn : 0 < train.size) (hp : r.Permutes train)
    (h : r.Completes schedule send train validation epoch e r') : e.Regular schedule train epoch := by
  have horder : e.order.Perm (List.range train.size) := by
    rw [h.order.2, h.order.1]
    exact shuffled_permutes hp
  have hsize : e.order.length = train.size := by rw [horder.length_eq, List.length_range]
  have hlengths := h.batches.lengths
  have hflat : e.measures.flatten.length = train.size := by
    rw [List.length_flatten, hlengths, ← List.length_flatten, flatten_pieces, hsize]
  have hfirsts : ∀ j, (e.measures.take j).flatten = e.measures.flatten.take (j * schedule.batchSize) := by
    intro j
    rw [flatten_take_of_lengths hlengths, flatten_take_pieces hb, List.length_take, hsize,
      List.take_eq_take_iff, hflat]
    omega
  have hsingle : ∀ j, ∀ t ∈ (e.measures.take j).flatten, t.samples = 1 ∧ t.correct ≤ 1 := by
    intro j t ht
    rw [hfirsts] at ht
    exact h.batches.single t (List.mem_of_mem_take ht)
  have hsamples : ∀ j, (e.seen j).samples = min (j * schedule.batchSize) train.size := by
    intro j
    rw [EpochRecord.seen, (Tally.counts_nested _).1, (Tally.counts_single (hsingle j)).1, hfirsts,
      List.length_take, hflat]
  have htotal : 0 < schedule.batchCount train.size := Nat.div_pos (by omega) hb
  obtain ⟨measured, -, hstats⟩ := h.stats
  constructor
  · exact horder
  · exact length_pieces_order hb horder
  · intro j part hpart
    obtain rfl := getElem?_pieces hb hpart
    refine ⟨rfl, fun hj => ?_⟩
    have hlt := Schedule.mul_lt_of_lt_batchCount hb hj
    rw [Nat.succ_mul] at hlt
    rw [List.length_take, List.length_drop, hsize]
    omega
  · exact hlengths
  · exact hfirsts
  · exact hsamples
  · intro j
    have hcorrect := (Tally.counts_single (hsingle j)).2
    rwa [hsamples, EpochRecord.seen, (Tally.counts_nested _).2, ← hflat, ← List.length_take, ← hfirsts]
  · exact schedule.le_batchCount_mul hb train.size
  · exact ⟨measured, hstats⟩
  · intro he
    obtain ⟨front, hfront⟩ := e.events_last epoch he htotal
    rw [hstats] at hfront ⊢
    exact ⟨front, hfront⟩

namespace Run

theorem Completes.permutes (hp : r.Permutes train)
    (h : r.Completes schedule send train validation epoch e r') : r'.Permutes train := by
  rw [Permutes, h.order.1]
  exact shuffled_permutes hp

theorem Epochs.regular (hb : 0 < schedule.batchSize) (hn : 0 < train.size) (hp : r.Permutes train)
    (h : Epochs schedule send train validation k r es r') :
    ∀ i (e : EpochRecord α), es[i]? = some e → e.Regular schedule train (k + i) := by
  induction h with
  | nil => simp
  | cons hepoch hrest ih =>
      intro i e he
      cases i with
      | zero =>
          obtain rfl := Option.some.inj he
          exact hepoch.regular hb hn hp
      | succ i =>
          have hi := ih (hepoch.permutes hp) i e he
          rwa [Nat.add_assoc, Nat.add_comm 1 i] at hi

theorem Epochs.history (h : Epochs schedule send train validation k r es r') :
    r'.history = (es.map (·.stats)).foldl History.push r.history := by
  induction h with
  | nil => rfl
  | cons hepoch _ ih => rw [ih, hepoch.history, List.map_cons, List.foldl_cons]

theorem Epochs.receiver (h : Epochs schedule send train validation k r es r') :
    r'.receiver = send.after r.receiver
      (EpochRecord.told schedule.progressEvery (schedule.batchCount train.size) k es) := by
  induction h with
  | nil => rfl
  | cons hepoch _ ih =>
      rw [ih, hepoch.receiver, EpochRecord.told, EpochRecord.told, List.zipIdx_cons, List.flatMap_cons,
        Receiver.after_append]

theorem Epochs.measured (h : Epochs schedule send train validation k r es r') :
    ∀ e ∈ es, ∃ net measured, measure validation net = .ok measured ∧
      e.stats.valLoss = measured.map (·.loss) ∧ e.stats.valAccuracy = measured.map (·.accuracy) := by
  induction h with
  | nil => simp
  | cons hepoch _ ih =>
      intro e he
      rcases List.mem_cons.mp he with rfl | he
      · obtain ⟨measured, hm, hstats⟩ := hepoch.stats
        rw [hstats]
        exact ⟨_, measured, hm, rfl, rfl⟩
      · exact ih e he

end Run

theorem EpochRecord.stats_told (every total k : Nat) (es : List (EpochRecord α)) :
    (told every total k es).filterMap TrainEvent.stats? = es.map (·.stats) := by
  induction es generalizing k with
  | nil => rfl
  | cons e es ih =>
      have hbatches : ∀ js : List Nat,
          (js.map (e.batchEvent k total)).filterMap TrainEvent.stats? = [] := by
        intro js
        simp [List.filterMap_map, Function.comp_def, batchEvent, TrainEvent.stats?]
      change ((e.events every k total ++ told every total (k + 1) es).filterMap TrainEvent.stats?) = _
      rw [List.filterMap_append, ih, events, List.filterMap_append, hbatches]
      rfl

end Regular

end Convnet
