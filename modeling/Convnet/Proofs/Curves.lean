import Convnet.Proofs.Epochs
import Convnet.Proofs.Share

namespace Convnet

section Histories

variable {α : Type}

theorem History.pushOption_append (xs : Array α) (f : EpochStats α → Option α) (s : EpochStats α)
    (stats : List (EpochStats α)) :
    pushOption xs (f s) ++ (stats.filterMap f).toArray =
      xs ++ ((s :: stats).filterMap f).toArray := by
  rw [List.filterMap_cons]
  cases f s with
  | none => rfl
  | some x => simp [pushOption]

theorem History.foldl_push (stats : List (EpochStats α)) (h : History α) : stats.foldl push h =
    ⟨h.loss ++ (stats.map (·.loss)).toArray, h.accuracy ++ (stats.map (·.accuracy)).toArray,
      h.valLoss ++ (stats.filterMap (·.valLoss)).toArray,
      h.valAccuracy ++ (stats.filterMap (·.valAccuracy)).toArray⟩ := by
  induction stats generalizing h with
  | nil => simp
  | cons s stats ih =>
      rw [List.foldl_cons, ih, push, pushOption_append, pushOption_append]
      simp

theorem History.ofStats_eq (stats : List (EpochStats α)) : ofStats stats =
    ⟨(stats.map (·.loss)).toArray, (stats.map (·.accuracy)).toArray,
      (stats.filterMap (·.valLoss)).toArray, (stats.filterMap (·.valAccuracy)).toArray⟩ := by
  rw [ofStats, foldl_push]
  simp [empty]

theorem History.length_curve {f : EpochStats α → Option α} {b : Bool} {stats : List (EpochStats α)}
    (h : ∀ s ∈ stats, (f s).isSome = b) :
    (stats.filterMap f).length = if b then stats.length else 0 := by
  induction stats with
  | nil => simp
  | cons s stats ih =>
      have hs := h s (by simp)
      have hrest := ih fun s' hs' => h s' (by simp [hs'])
      cases hf : f s with
      | none =>
          obtain rfl : b = false := by rw [← hs, hf]; rfl
          rw [List.filterMap_cons_none hf, hrest]
          rfl
      | some x =>
          obtain rfl : b = true := by rw [← hs, hf]; rfl
          rw [List.filterMap_cons_some hf, List.length_cons, hrest]
          rfl

end Histories

section Measures

variable {α : Type} [Scalar α] {net : Network α} {d : Dataset α}

theorem Network.measureSample_eq_ok {sums sums' : α × Nat} {sample : Tensor α × Nat} :
    net.measureSample d sums sample = .ok sums' ↔ ∃ out target, net.infer sample.1 = .ok out ∧
      d.target sample.2 = .ok target ∧ sums' = (sums.1 + net.loss.value out target,
        if argmax out = sample.2 then sums.2 + 1 else sums.2) := by
  rw [measureSample, bind_eq_ok]
  constructor
  · rintro ⟨out, hout, h⟩
    obtain ⟨target, htarget, h⟩ := bind_eq_ok.mp h
    exact ⟨out, target, hout, htarget, pure_eq_ok_iff.mp h⟩
  · rintro ⟨out, target, hout, htarget, rfl⟩
    exact ⟨out, hout, bind_eq_ok.mpr ⟨target, htarget, rfl⟩⟩

theorem Network.foldlM_measureSample {samples : List (Tensor α × Nat)} {sums sums' : α × Nat}
    (h : samples.foldlM (net.measureSample d) sums = .ok sums') :
    sums'.2 ≤ sums.2 + samples.length := by
  induction samples generalizing sums with
  | nil =>
      obtain ⟨⟩ := Except.ok.inj h
      exact Nat.le_refl _
  | cons sample samples ih =>
      obtain ⟨sums₁, hone, h⟩ := bind_eq_ok.mp h
      obtain ⟨out, target, -, -, rfl⟩ := measureSample_eq_ok.mp hone
      have hle := ih h
      dsimp only at hle
      rw [List.length_cons]
      split at hle <;> omega

theorem Network.evaluate_eq_ok {e : Evaluation α} : net.evaluate d = .ok e ↔
    net.checkCompatible d = .ok () ∧ d.isEmpty = false ∧ ∃ loss hits,
      (samplesOf d).foldlM (net.measureSample d) (0, 0) = .ok (loss, hits) ∧
      e = ⟨loss / (d.size : α), (hits : α) / (d.size : α)⟩ := by
  rw [evaluate, bind_eq_ok]
  constructor
  · rintro ⟨⟨⟩, hcompatible, h⟩
    cases hempty : d.isEmpty with
    | true => simp [hempty] at h
    | false =>
        simp only [hempty, Bool.false_eq_true, if_false] at h
        obtain ⟨⟨loss, hits⟩, hfold, h⟩ := bind_eq_ok.mp h
        exact ⟨hcompatible, rfl, loss, hits, hfold, pure_eq_ok_iff.mp h⟩
  · rintro ⟨hcompatible, hempty, loss, hits, hfold, rfl⟩
    refine ⟨(), hcompatible, ?_⟩
    simp only [hempty, Bool.false_eq_true, if_false]
    exact bind_eq_ok.mpr ⟨_, hfold, rfl⟩

omit [Scalar α] in
theorem Dataset.pos_of_not_isEmpty (h : d.isEmpty = false) : 0 < d.size := by
  simpa [isEmpty, size, Array.isEmpty, Nat.pos_iff_ne_zero] using h

theorem Network.evaluate_share {e : Evaluation α} (h : net.evaluate d = .ok e) :
    ∃ hits, hits ≤ d.size ∧ 0 < d.size ∧ e.accuracy = (hits : α) / (d.size : α) := by
  obtain ⟨-, hempty, loss, hits, hfold, rfl⟩ := evaluate_eq_ok.mp h
  have hle := foldlM_measureSample hfold
  have hlen : (samplesOf d).length ≤ d.size := by
    simp only [samplesOf, Array.length_toList, Array.size_zip]
    exact Nat.min_le_left _ _
  exact ⟨hits, by omega, Dataset.pos_of_not_isEmpty hempty, rfl⟩

end Measures

section Answers

variable {α : Type} [Scalar α] {σ τ : Type} [RandomSource σ] {net : Network α} {m : ModelSpec α}
  {shapes : List Shape} {d train : Dataset α} {validation : Option (Dataset α)} {schedule : Schedule}
  {send : Receiver α τ} {epoch total : Nat} {r : Run α σ τ}

namespace Network

theorem infer_answers (hr : net.Realizes m) (hv : m.Valid shapes) (hf : m.Storable shapes)
    {x : Tensor α} (hx : x.shape = m.inputShape) (hs : x.Sized) : ∃ out, net.infer x = .ok out := by
  obtain ⟨net', out, phase, h⟩ := (hr.runsForward hv hf hx hs (Phase.infer : Phase Stream)).runs
  exact ⟨out, bind_eq_ok.mpr ⟨_, h, rfl⟩⟩

omit [Scalar α] in
theorem mem_samplesOf {p : Tensor α × Nat} (h : p ∈ samplesOf d) : p.1 ∈ d.images ∧ p.2 ∈ d.labels := by
  simp only [samplesOf, Array.toList_zip] at h
  obtain ⟨himage, hlabel⟩ := List.of_mem_zip h
  exact ⟨Array.mem_toList_iff.mp himage, Array.mem_toList_iff.mp hlabel⟩

theorem measureSample_answers (hr : net.Realizes m) (hv : m.Valid shapes) (hf : m.Storable shapes)
    (hd : d.Suits net) {samples : List (Tensor α × Nat)}
    (hs : ∀ p ∈ samples, p.1 ∈ d.images ∧ p.2 ∈ d.labels) (sums : α × Nat) :
    ∃ sums', samples.foldlM (net.measureSample d) sums = .ok sums' := by
  induction samples generalizing sums with
  | nil => exact ⟨sums, rfl⟩
  | cons p samples ih =>
      obtain ⟨himage, hlabel⟩ := hs p (by simp)
      obtain ⟨i, hi⟩ := Array.getElem?_of_mem himage
      obtain ⟨hx, hsized⟩ := hr.image hd hi
      obtain ⟨out, hout⟩ := infer_answers hr hv hf hx hsized
      obtain ⟨target, htarget⟩ := hr.target_answers hv hf hd (hd.classes _ hlabel)
      obtain ⟨sums₁, hone⟩ : ∃ sums₁, net.measureSample d sums p = .ok sums₁ :=
        ⟨_, measureSample_eq_ok.mpr ⟨out, target, hout, htarget, rfl⟩⟩
      obtain ⟨sums', hrest⟩ := ih (fun q hq => hs q (by simp [hq])) sums₁
      exact ⟨sums', bind_eq_ok.mpr ⟨_, hone, hrest⟩⟩

theorem evaluate_answers (hr : net.Realizes m) (hv : m.Valid shapes) (hf : m.Storable shapes)
    (hd : d.Suits net) (hne : d.isEmpty = false) : ∃ e, net.evaluate d = .ok e := by
  obtain ⟨⟨loss, hits⟩, hfold⟩ :=
    measureSample_answers hr hv hf hd (fun _ => mem_samplesOf) ((0 : α), 0)
  exact ⟨_, evaluate_eq_ok.mpr ⟨hd.compatible, hne, loss, hits, hfold, rfl⟩⟩

end Network

namespace Run

variable {P : Network α → Prop}

theorem batches_answers (hP : Network.Kept σ train P) {parts : List (List Nat)}
    (htrain : ∀ net indices o (s : σ), P net → indices ∈ parts →
      ∃ b, net.trainBatch train indices o s = .ok b)
    (hr : P r.network) (j : Nat) (tally : Tally α) :
    ∃ b, batches schedule send train epoch total j parts r tally = .ok b := by
  induction parts generalizing j r tally with
  | nil => exact ⟨_, rfl⟩
  | cons indices rest ih =>
      obtain ⟨⟨net, o, s, one⟩, hone⟩ := htrain r.network indices r.optimizer r.source hr (by simp)
      have hnet := hP _ _ _ _ _ _ _ _ hr hone
      obtain ⟨⟨r₁, tally₁⟩, hbatch, hr₁⟩ : ∃ b, r.batch schedule send train epoch total j indices tally =
          .ok b ∧ P b.1.network := by
        refine ⟨_, batch_eq_ok.mpr ⟨net, o, s, one, hone, rfl, rfl⟩, ?_⟩
        dsimp only
        split <;> exact hnet
      by_cases hstop : r₁.stopped = true
      · refine ⟨(r₁, tally₁), batches_cons.mpr ⟨r₁, tally₁, hbatch, ?_⟩⟩
        rw [if_pos hstop]
        exact ⟨rfl, rfl⟩
      · obtain ⟨⟨r', tally'⟩, hrest⟩ := ih (fun net is o s hnet his => htrain net is o s hnet (by simp [his]))
          hr₁ (j + 1) tally₁
        refine ⟨(r', tally'), batches_cons.mpr ⟨r₁, tally₁, hbatch, ?_⟩⟩
        rwa [if_neg hstop]

theorem epoch_answers (hP : Network.Kept σ train P)
    (htrain : ∀ net indices o (s : σ), P net → indices ∈ r.shuffled.parts schedule →
      ∃ b, net.trainBatch train indices o s = .ok b)
    (hmeasure : ∀ net, P net → ∃ measured, measure validation net = .ok measured)
    (hr : P r.network) : ∃ r', r.epoch schedule send train validation epoch = .ok r' := by
  obtain ⟨⟨r₁, tally⟩, hrun⟩ : ∃ b, batches schedule send train epoch (schedule.batchCount train.size) 1
      (r.shuffled.parts schedule) r.shuffled .zero = .ok b :=
    batches_answers (r := r.shuffled) hP htrain hr 1 .zero
  by_cases hstop : r₁.stopped = true
  · refine ⟨r₁, epoch_eq_ok.mpr ⟨r₁, tally, hrun, ?_⟩⟩
    rw [if_pos hstop]
  · have hnet := (batches_invariant hP 1 _ .zero (r := r.shuffled) hr).2 r₁ tally hrun
    obtain ⟨measured, hmeasured⟩ := hmeasure r₁.network hnet
    obtain ⟨r', hclose⟩ : ∃ r', r₁.close schedule send validation epoch tally = .ok r' :=
      ⟨_, close_eq_ok.mpr ⟨measured, hmeasured, rfl⟩⟩
    refine ⟨r', epoch_eq_ok.mpr ⟨r₁, tally, hrun, ?_⟩⟩
    rwa [if_neg hstop]

omit [Scalar α] [RandomSource σ] in
theorem parts_sound (hp : r.Permutes train) {indices : List Nat} (h : indices ∈ r.parts schedule) :
    indices ≠ [] ∧ ∀ i ∈ indices, i < train.size := by
  refine ⟨ne_nil_of_mem_pieces h, fun i hi => ?_⟩
  have hmem : i ∈ (r.parts schedule).flatten := List.mem_flatten.mpr ⟨indices, h, hi⟩
  rw [parts, flatten_pieces, hp.mem_iff] at hmem
  exact List.mem_range.mp hmem

theorem batches_order {j : Nat} {parts : List (List Nat)} {r' : Run α σ τ} {tally tally' : Tally α}
    (h : batches schedule send train epoch total j parts r tally = .ok (r', tally')) : r'.order = r.order := by
  induction parts generalizing j r tally with
  | nil =>
      obtain ⟨⟩ := Except.ok.inj h
      rfl
  | cons indices rest ih =>
      obtain ⟨r₁, tally₁, hone, h⟩ := batches_cons.mp h
      have hr₁ : r₁.order = r.order := by
        obtain ⟨net, o, s, one, -, -, rfl⟩ := batch_eq_ok.mp hone
        split <;> rfl
      split at h
      · rw [h.1, hr₁]
      · exact (ih h).trans hr₁

/-- An epoch leaves the order in which it has trained on the samples, whether or not it was stopped. -/
theorem epoch_permutes (hp : r.Permutes train) {r' : Run α σ τ}
    (h : r.epoch schedule send train validation epoch = .ok r') : r'.Permutes train := by
  obtain ⟨r₁, tally, hrun, h⟩ := epoch_eq_ok.mp h
  have hr₁ : r₁.Permutes train := by
    rw [Permutes, batches_order hrun]
    exact shuffled_permutes hp
  split at h
  · rwa [h]
  · obtain ⟨measured, -, rfl⟩ := close_eq_ok.mp h
    exact hr₁

theorem epochs_answers (hP : Network.Kept σ train P)
    (htrain : ∀ net indices o (s : σ), P net → indices ≠ [] → (∀ i ∈ indices, i < train.size) →
      ∃ b, net.trainBatch train indices o s = .ok b)
    (hmeasure : ∀ net, P net → ∃ measured, measure validation net = .ok measured)
    (hr : P r.network) (hp : r.Permutes train) (n k : Nat) :
    ∃ r', epochs schedule send train validation n k r = .ok r' := by
  induction n generalizing k r with
  | zero => exact ⟨r, rfl⟩
  | succ n ih =>
      obtain ⟨r₁, hone⟩ : ∃ r₁, r.epoch schedule send train validation k = .ok r₁ := by
        refine epoch_answers hP (fun net is o s hnet his => ?_) hmeasure hr
        obtain ⟨hne, hi⟩ := parts_sound (shuffled_permutes hp) his
        exact htrain net is o s hnet hne hi
      by_cases hstop : r₁.stopped = true
      · refine ⟨r₁, epochs_succ.mpr ⟨r₁, hone, ?_⟩⟩
        rw [if_pos hstop]
      · obtain ⟨r', hrest⟩ := ih (epoch_invariant hP hr hone) (epoch_permutes hp hone) (k + 1)
        refine ⟨r', epochs_succ.mpr ⟨r₁, hone, ?_⟩⟩
        rwa [if_neg hstop]

omit [Scalar α] [RandomSource σ] in
theorem start_permutes (net : Network α) (o : Optimizer α) (source : σ) (train : Dataset α)
    (receiver : τ) : (start net o source train receiver).Permutes train := by
  rw [Permutes, start, Array.toList_range]

end Run

theorem Network.fit_answers (hv : m.Valid shapes) (hr : net.Realizes m)
    (hf : m.Storable shapes) (hroom : Optimizer.rowBytes * net.parameters.length < Nat.pow 2 63)
    (hd : train.Suits net)
    (hval : ∀ d ∈ validation, d.Suits net ∧ d.isEmpty = false) (o : Optimizer α) (source : σ) (receiver : τ) :
    ∃ run, Run.epochs schedule send train validation schedule.epochs 1
      (.start net o source train receiver) = .ok run := by
  let P : Network α → Prop := fun k => k.Realizes m ∧ k.parameters.length = net.parameters.length
  have hP : Kept σ train P := by
    rintro k k' is o o' s s' t ⟨hk, hlen⟩ h
    obtain ⟨hk', hlen'⟩ := trainBatch_keeps hk hv (hr.suits hk hv hd) h
    exact ⟨hk', hlen'.trans hlen⟩
  refine Run.epochs_answers hP ?_ ?_ ⟨hr, rfl⟩ (Run.start_permutes net o source train receiver) _ _
  · rintro k is o s ⟨hk, hlen⟩ hne hi
    exact trainBatch_answers hk hv hf (hr.suits hk hv hd) hne hi o s (hlen.symm ▸ hroom)
  · rintro k ⟨hk, -⟩
    cases validation with
    | none => exact ⟨none, rfl⟩
    | some v =>
        obtain ⟨hsuits, hne⟩ := hval v rfl
        obtain ⟨e, he⟩ := evaluate_answers hk hv hf (hr.suits hk hv hsuits) hne
        exact ⟨some e, bind_eq_ok.mpr ⟨e, he, rfl⟩⟩

end Answers

section Shares

variable {α : Type} [Scalar α] {σ τ : Type} [RandomSource σ] {schedule : Schedule}
  {send : Receiver α τ} {train : Dataset α} {validation : Option (Dataset α)} {epoch k : Nat}
  {r r' : Run α σ τ} {e : EpochRecord α} {es : List (EpochRecord α)} {P : α → Prop}

theorem Run.measure_share (hP : ∀ a b : Nat, a ≤ b → 0 < b → b < 2 ^ 64 → P ((a : α) / (b : α)))
    (hlt : ∀ d ∈ validation, d.size < 2 ^ 64) {net : Network α} {measured : Option (Evaluation α)}
    (h : measure validation net = .ok measured) : ∀ x ∈ measured.map (·.accuracy), P x := by
  cases validation with
  | none =>
      obtain ⟨⟩ := Except.ok.inj h
      simp
  | some d =>
      obtain ⟨e, he, h⟩ := bind_eq_ok.mp h
      obtain ⟨⟩ := pure_eq_ok_iff.mp h
      intro x hx
      obtain rfl := Option.some.inj hx
      change P e.accuracy
      obtain ⟨hits, hle, hpos, haccuracy⟩ := Network.evaluate_share he
      rw [haccuracy]
      exact hP hits d.size hle hpos (hlt d rfl)

theorem EpochRecord.Regular.shares (h : e.Regular schedule train epoch)
    (hP : ∀ a b : Nat, a ≤ b → 0 < b → b < 2 ^ 64 → P ((a : α) / (b : α)))
    (hb : 0 < schedule.batchSize) (hn : 0 < train.size) (hlt : train.size < 2 ^ 64)
    (hval : ∀ x ∈ e.stats.valAccuracy, P x) :
    ∀ event ∈ e.events schedule.progressEvery epoch (schedule.batchCount train.size),
      ∀ x ∈ event.accuracies, P x := by
  have hshare : ∀ j, 0 < j → P (e.seen j).accuracy := by
    intro j hj
    have hmul : 0 < j * schedule.batchSize := Nat.mul_pos hj hb
    refine hP _ _ (h.correct j) ?_ ?_ <;> rw [h.samples] <;> omega
  intro event hevent x hx
  rcases List.mem_append.mp hevent with hevent | hevent
  · obtain ⟨j, hj, rfl⟩ := List.mem_map.mp hevent
    have hone := (List.mem_range'_1.mp (List.mem_filter.mp hj).1).1
    obtain rfl := List.mem_singleton.mp hx
    exact hshare j hone
  · obtain rfl := List.mem_singleton.mp hevent
    rcases List.mem_cons.mp hx with rfl | hx
    · obtain ⟨measured, hstats⟩ := h.stats
      rw [hstats]
      exact hshare _ (Nat.div_pos (by omega) hb)
    · exact hval x (Option.mem_toList.mp hx)

theorem Run.measure_isSome {net : Network α} {measured : Option (Evaluation α)}
    (h : measure validation net = .ok measured) : measured.isSome = validation.isSome := by
  cases validation with
  | none =>
      obtain ⟨⟩ := Except.ok.inj h
      rfl
  | some d =>
      obtain ⟨e, -, h⟩ := bind_eq_ok.mp h
      obtain ⟨⟩ := pure_eq_ok_iff.mp h
      rfl

theorem Run.Epochs.isSome (h : Epochs schedule send train validation k r es r') :
    ∀ s ∈ es.map (·.stats), s.valLoss.isSome = validation.isSome ∧
      s.valAccuracy.isSome = validation.isSome := by
  intro s hs
  obtain ⟨e, he, rfl⟩ := List.mem_map.mp hs
  obtain ⟨net, measured, hm, hloss, haccuracy⟩ := h.measured e he
  rw [hloss, haccuracy, Option.isSome_map, Option.isSome_map, measure_isSome hm]
  exact ⟨rfl, rfl⟩

theorem EpochRecord.mem_told {every total : Nat} {event : TrainEvent α}
    (h : event ∈ told every total k es) :
    ∃ i, ∃ e : EpochRecord α, es[i]? = some e ∧ event ∈ e.events every (k + i) total := by
  obtain ⟨⟨e, i⟩, he, hevent⟩ := List.mem_flatMap.mp h
  obtain ⟨hle, hget⟩ := List.mk_mem_zipIdx_iff_le_and_getElem?_sub.mp he
  exact ⟨i - k, e, hget, by rwa [Nat.add_sub_cancel' hle]⟩

theorem Run.Epochs.shares (h : Epochs schedule send train validation k r es r')
    (hP : ∀ a b : Nat, a ≤ b → 0 < b → b < 2 ^ 64 → P ((a : α) / (b : α)))
    (hb : 0 < schedule.batchSize) (hn : 0 < train.size) (hlt : train.size < 2 ^ 64)
    (hval : ∀ d ∈ validation, d.size < 2 ^ 64) (hp : r.Permutes train) :
    ∀ event ∈ EpochRecord.told schedule.progressEvery (schedule.batchCount train.size) k es,
      ∀ x ∈ event.accuracies, P x := by
  intro event hevent
  obtain ⟨i, e, he, hevent⟩ := EpochRecord.mem_told hevent
  obtain ⟨net, measured, hm, -, haccuracy⟩ := h.measured e (List.mem_of_getElem? he)
  refine (h.regular hb hn hp i e he).shares hP hb hn hlt ?_ event hevent
  rw [haccuracy]
  exact measure_share hP hval hm

omit [Scalar α] in
theorem Network.checkValidation_eq_ok {net : Network α} {checked : Option (Dataset α)} :
    net.checkValidation validation = .ok checked ↔
      checked = validation.filter (!·.isEmpty) ∧ ∀ v ∈ checked, net.checkCompatible v = .ok () := by
  rcases validation with _ | v
  · rw [checkValidation]
    constructor
    · rintro ⟨⟩
      exact ⟨rfl, nofun⟩
    · rintro ⟨rfl, -⟩
      rfl
  · rw [checkValidation]
    cases hv : v.isEmpty with
    | true =>
        simp only [if_true, Option.filter, hv, Bool.not_true, Bool.false_eq_true, if_false]
        constructor
        · rintro ⟨⟩
          exact ⟨rfl, nofun⟩
        · rintro ⟨rfl, -⟩
          rfl
    | false =>
        simp only [Bool.false_eq_true, if_false, Option.filter, hv, Bool.not_false, if_true]
        constructor
        · intro h
          obtain ⟨⟨⟩, hc, h⟩ := bind_eq_ok.mp h
          obtain rfl := Except.ok.inj h
          exact ⟨rfl, by simpa using hc⟩
        · rintro ⟨rfl, hc⟩
          rw [hc v rfl]
          rfl

omit [Scalar α] in
theorem Network.checkFit_eq_ok_iff {net : Network α} {checked : Option (Dataset α)} :
    net.checkFit train validation schedule = .ok checked ↔
      (train.isEmpty = false ∧ schedule.batchSize ≠ 0 ∧ net.checkCompatible train = .ok ()) ∧
        net.checkValidation validation = .ok checked ∧ schedule.counts train.size = true := by
  rw [checkFit]
  cases hempty : train.isEmpty with
  | true => simp
  | false =>
      by_cases hb : schedule.batchSize = 0
      · simp [hb]
      · simp only [Bool.false_eq_true, if_false, hb]
        constructor
        · intro h
          obtain ⟨⟨⟩, hc, h⟩ := bind_eq_ok.mp h
          obtain ⟨v, hv, h⟩ := bind_eq_ok.mp h
          obtain ⟨hcounts, h⟩ := require_bind_eq_ok.mp h
          obtain rfl := Except.ok.inj h
          exact ⟨⟨trivial, hb, hc⟩, hv, hcounts⟩
        · rintro ⟨⟨-, -, hc⟩, hv, hcounts⟩
          rw [hc, hv, hcounts]
          rfl

omit [Scalar α] in
/-- The checks of a run leave samples, batches and a validation set that has samples too. -/
theorem Network.checkFit_eq_ok {net : Network α} {checked : Option (Dataset α)}
    (h : net.checkFit train validation schedule = .ok checked) :
    0 < train.size ∧ 0 < schedule.batchSize ∧
      ∀ d ∈ checked, d ∈ validation ∧ d.isEmpty = false := by
  obtain ⟨⟨hempty, hb, -⟩, hv, -⟩ := checkFit_eq_ok_iff.mp h
  obtain ⟨rfl, -⟩ := checkValidation_eq_ok.mp hv
  refine ⟨Dataset.pos_of_not_isEmpty hempty, Nat.pos_of_ne_zero hb, fun d hd => ?_⟩
  simpa using Option.mem_filter_iff.mp hd

end Shares

/-- A run whose receiver takes every event. It ends if a checked description describes the network, the
datasets suit it and there is room. When it has ended, all its epochs were regular, the receiver was sent
the events of each in turn, and the history is that of the epochs it was told of. The curves have an entry
for each epoch, those of the validation set only if there is one, and every accuracy is a share. -/
theorem Network.fit_epochs {σ τ : Type} [RandomSource σ] {net : Network Float} {train : Dataset Float}
    {validation : Option (Dataset Float)} {schedule : Schedule} {send : Receiver Float τ}
    (hsend : send.Alive) (hn : train.size < 2 ^ 64) (hvn : ∀ d ∈ validation, d.size < 2 ^ 64)
    (o : Optimizer Float) (source : σ) (receiver : τ) :
    (∀ m shapes checked, m.validate = .ok shapes → net.Realizes m → m.Storable shapes →
      Optimizer.rowBytes * net.parameters.length < Nat.pow 2 63 → train.Suits net →
      net.checkFit train validation schedule = .ok checked → (∀ d ∈ checked, d.Suits net) →
      ∃ run, net.fit train validation o schedule source send receiver = .ok run) ∧
    ∀ run, net.fit train validation o schedule source send receiver = .ok run →
      ∃ checked es events, net.checkFit train validation schedule = .ok checked ∧
        Run.Epochs schedule send train checked 1 (.start net o source train receiver) es run ∧
        es.length = schedule.epochs ∧
        (∀ i (e : EpochRecord Float), es[i]? = some e → e.Regular schedule train (1 + i)) ∧
        events = EpochRecord.told schedule.progressEvery (schedule.batchCount train.size) 1 es ∧
        run.receiver = send.after receiver events ∧
        run.history = .ofStats (events.filterMap TrainEvent.stats?) ∧
        run.history.loss.size = schedule.epochs ∧ run.history.accuracy.size = schedule.epochs ∧
        run.history.valLoss.size = (if checked.isSome then schedule.epochs else 0) ∧
        run.history.valAccuracy.size = (if checked.isSome then schedule.epochs else 0) ∧
        (∀ x ∈ run.history.accuracy, Rounding.IsShare x) ∧
        (∀ x ∈ run.history.valAccuracy, Rounding.IsShare x) ∧
        ∀ event ∈ events, ∀ x ∈ event.accuracies, Rounding.IsShare x := by
  constructor
  · intro m shapes checked hval hr hf hroom hd hcheck hdv
    have hv := ModelSpec.valid_of_validate hval
    obtain ⟨-, -, hchecked⟩ := checkFit_eq_ok hcheck
    obtain ⟨run, hrun⟩ := fit_answers hv hr hf hroom hd
      (fun d hmem => ⟨hdv d hmem, (hchecked d hmem).2⟩) o source receiver
    exact ⟨run, bind_eq_ok.mpr ⟨checked, hcheck, hrun⟩⟩
  · intro run h
    obtain ⟨checked, hcheck, h⟩ := bind_eq_ok.mp h
    obtain ⟨hpos, hb, hchecked⟩ := checkFit_eq_ok hcheck
    have hP : ∀ a b : Nat, a ≤ b → 0 < b → b < 2 ^ 64 → Rounding.IsShare ((a : Float) / (b : Float)) :=
      fun a b => Rounding.share_ofNat
    have hp := Run.start_permutes net o source train receiver
    obtain ⟨es, hlen, hes⟩ := Run.epochs_complete hsend hb rfl hp _ _ h
    obtain ⟨events, hevents⟩ : ∃ events, events =
        EpochRecord.told schedule.progressEvery (schedule.batchCount train.size) 1 es := ⟨_, rfl⟩
    have hstats : events.filterMap TrainEvent.stats? = es.map (·.stats) :=
      hevents ▸ EpochRecord.stats_told _ _ 1 es
    have hhistory := hes.history.trans (History.ofStats_eq _)
    have hshares : ∀ event ∈ events, ∀ x ∈ event.accuracies, Rounding.IsShare x :=
      hevents ▸ hes.shares hP hb hpos hn (fun d hd => hvn d (hchecked d hd).1) hp
    have htold : ∀ t ∈ es.map (·.stats), ∀ x ∈ (TrainEvent.epoch t).accuracies, Rounding.IsShare x := by
      intro t ht
      rw [← hstats] at ht
      obtain ⟨event, hevent, hsome⟩ := List.mem_filterMap.mp ht
      cases event with
      | batch => simp [TrainEvent.stats?] at hsome
      | epoch u =>
          obtain rfl := Option.some.inj hsome
          exact hshares _ hevent
    have hlength : (es.map (·.stats)).length = schedule.epochs := (List.length_map _).trans hlen
    have hlosses := History.length_curve fun t ht => (hes.isSome t ht).1
    have haccuracies := History.length_curve fun t ht => (hes.isSome t ht).2
    rw [hlength] at hlosses haccuracies
    refine ⟨checked, es, events, hcheck, hes, hlen, hes.regular hb hpos hp, hevents,
      hevents ▸ hes.receiver, ?_, ?_, ?_, ?_, ?_, ?_, ?_, hshares⟩
    · rw [hstats]
      exact hes.history
    · rw [hhistory, List.size_toArray, List.length_map, hlength]
    · rw [hhistory, List.size_toArray, List.length_map, hlength]
    · rw [hhistory, List.size_toArray, hlosses]
    · rw [hhistory, List.size_toArray, haccuracies]
    · intro x hx
      rw [hhistory, List.mem_toArray] at hx
      obtain ⟨t, ht, rfl⟩ := List.mem_map.mp hx
      exact htold t ht _ List.mem_cons_self
    · intro x hx
      rw [hhistory, List.mem_toArray] at hx
      obtain ⟨t, ht, hx⟩ := List.mem_filterMap.mp hx
      exact htold t ht x (List.mem_cons_of_mem _ (Option.mem_toList.mpr hx))

theorem Network.fit_epochs_small : ∃ (net : Network Float) (d : Dataset Float)
    (run : Run Float Stream (List (TrainEvent Float))), d.size = 3 ∧
    net.fit d (some d) ⟨.sgd 1 0, 0, #[]⟩ ⟨2, 2, 1, fun _ => 0⟩ (.ofSeed 0)
      (fun e t => (true, t ++ [e])) [] = .ok run ∧
    run.history = .ofStats (run.receiver.filterMap TrainEvent.stats?) ∧
    run.history.loss.size = 2 ∧ (∀ x ∈ run.history.accuracy, Rounding.IsShare x) ∧
    ∀ event ∈ run.receiver, ∀ x ∈ event.accuracies, Rounding.IsShare x := by
  obtain ⟨m, hm⟩ : ∃ m : ModelSpec Float, m = ⟨⟨4, 4, 1⟩, [.conv 2 3 1 .same .relu, .pool .max 2 none,
    .flatten, .dense 2 .softmax], .categoricalCrossentropy⟩ := ⟨_, rfl⟩
  have hval : m.validate = .ok [⟨4, 4, 2⟩, ⟨2, 2, 2⟩, .flat 8, .flat 2] := by
    subst hm
    rfl
  have hf : m.Storable [⟨4, 4, 2⟩, ⟨2, 2, 2⟩, .flat 8, .flat 2] := by
    subst hm
    exact ⟨by decide, by decide⟩
  obtain ⟨net, s, hbuild⟩ := Network.build_answers Initializer.draws_ones hval hf (Stream.ofSeed 0)
  have hr := Network.build_realizes Initializer.draws_ones hbuild
  have hlen : net.parameters.length = 4 := by
    subst hm
    obtain ⟨⟩ := Except.ok.inj hbuild
    rfl
  obtain ⟨d, hd⟩ : ∃ d : Dataset Float, d = ⟨⟨4, 4, 1⟩, #[⟨⟨4, 4, 1⟩, Buffer.zeros 16⟩,
    ⟨⟨4, 4, 1⟩, Array.replicate 16 1⟩, ⟨⟨4, 4, 1⟩, Buffer.zeros 16⟩], #[0, 1, 1], 2, none⟩ := ⟨_, rfl⟩
  have hsize : d.size = 3 := by rw [hd]; rfl
  have hsuits : d.Suits net := by
    have hin : net.inputShape = ⟨4, 4, 1⟩ := by rw [hr.inputShape, hm]
    have hout := hr.outputSize (ModelSpec.valid_of_validate hval)
    subst hd
    refine ⟨checkCompatible_eq_ok.mpr ⟨hin.symm, hout⟩, rfl, ?_, by simp⟩
    simp [Tensor.Sized, Buffer.zeros, Shape.size]
  let schedule : Schedule := ⟨2, 2, 1, fun _ => 0⟩
  have hcheck : net.checkFit d (some d) schedule = .ok (some d) := by
    have hempty : d.isEmpty = false := by rw [hd]; rfl
    exact checkFit_eq_ok_iff.mpr ⟨⟨hempty, by decide, hsuits.compatible⟩,
      checkValidation_eq_ok.mpr ⟨by simp [Option.filter, hempty], by simpa using hsuits.compatible⟩, by rw [hsize]; rfl⟩
  obtain ⟨hruns, hended⟩ := @Network.fit_epochs Stream _ _ net d (some d) schedule
    (fun e t => (true, t ++ [e])) (fun _ _ => rfl) (by omega) (by simp [hsize]) ⟨.sgd 1 0, 0, #[]⟩
    (.ofSeed 0) []
  obtain ⟨run, hrun⟩ := hruns m _ _ hval hr hf (by rw [hlen]; decide) hsuits hcheck
    (by simpa using hsuits)
  obtain ⟨checked, es, events, -, -, -, -, -, hreceiver, hhistory, hloss, -, -, -, hshare, -, hevents⟩ :=
    hended run hrun
  have hlog : run.receiver = events := hreceiver.trans (Receiver.after_log [] events)
  exact ⟨net, d, run, hsize, hrun, hlog ▸ hhistory, hloss, hshare, hlog ▸ hevents⟩

/-- The checks of a run look at the shape that a network names, and not at its layers: with another shape in its place
the first batch is a misuse. Nor do they look at the size of a batch, other than zero. -/
theorem Network.fit_misuse : ∃ (net : Network Float) (d e : Dataset Float),
    Network.build (fun _ _ n s => .ok (Array.replicate n 1, s))
      ⟨.flat 2, [.dense 2 .softmax], .categoricalCrossentropy⟩ () = .ok (net, ()) ∧
    { net with inputShape := .flat 3 }.checkFit d none ⟨1, 1, 1, fun _ => 0⟩ = .ok none ∧
    { net with inputShape := .flat 3 }.fit d none ⟨.sgd 1 0, 0, #[]⟩ ⟨1, 1, 1, fun _ => 0⟩ (Stream.ofSeed 0)
      (fun e t => (true, t ++ [e])) [] = .error .misuse ∧
    (e.isEmpty = false ∧ net.checkCompatible e = .ok ()) ∧
    net.fit e none ⟨.sgd 1 0, 0, #[]⟩ ⟨1, 2 ^ 64 - 1, 1, fun _ => 0⟩ (Stream.ofSeed 0)
      (fun e t => (true, t ++ [e])) [] = .error .misuse := by
  obtain ⟨net, hnet⟩ : ∃ net : Network Float, net = ⟨.flat 2, [.dense ⟨⟨2, 2, Array.replicate 4 1⟩, Buffer.zeros 2,
    .softmax, .zeros 2 2, Buffer.zeros 2, #[], #[]⟩], .categoricalCrossentropy, none⟩ := ⟨_, rfl⟩
  obtain ⟨d, hd⟩ : ∃ d : Dataset Float, d = ⟨.flat 3, #[⟨.flat 3, #[1, 0, 1]⟩], #[1], 2, none⟩ := ⟨_, rfl⟩
  obtain ⟨e, he⟩ : ∃ e : Dataset Float, e = ⟨.flat 2, #[⟨.flat 2, #[1, 0]⟩], #[1], 2, none⟩ := ⟨_, rfl⟩
  have hcheck : { net with inputShape := .flat 3 }.checkFit d none ⟨1, 1, 1, fun _ => 0⟩ = .ok none := by
    subst hnet hd
    rfl
  have hbatch : ∀ (o : Optimizer Float) (s : Stream),
      { net with inputShape := .flat 3 }.trainBatch d [0] o s = .error .misuse := by
    subst hnet hd
    intro o s
    rfl
  have hparts : pieces 1 [0] = [[0]] := by cbv
  have hsize : d.size = 1 := by rw [hd]; rfl
  refine ⟨net, d, e, by subst hnet; rfl, hcheck, ?_, ⟨by rw [he]; rfl, by subst hnet he; rfl⟩, by subst hnet he; rfl⟩
  rw [fit, hcheck]
  simp [Run.epochs, Run.epoch, Run.start, Run.shuffled, RandomSource.shuffle, RandomSource.shuffleFrom, Run.parts,
    Run.batches, Run.batch, hsize, hparts, hbatch]

end Convnet
