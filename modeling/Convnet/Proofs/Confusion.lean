import Mathlib
import Convnet.Proofs.Interposed

namespace Convnet

section Definitions

def cell (table : Array (Array Nat)) (i j : Nat) : Nat := (table.getD i #[]).getD j 0

def trace (table : Array (Array Nat)) : Nat := ∑ i ∈ Finset.range table.size, cell table i i

/-- The actual class of each sample and the one that an output stands for. -/
def verdicts {α : Type} [Scalar α] (labels : Array Nat) (outs : List (Array α)) : List (Nat × Nat) :=
  labels.toList.zip (outs.map argmax)

end Definitions

section Tables

variable {n i j : Nat} {table table' : Array (Array Nat)}

theorem cell_countAt (h : Square n table) (hi : i < n) (hcount : Network.countAt table i j = .ok table')
    (a b : Nat) : cell table' a b = cell table a b + if (i, j) = (a, b) then 1 else 0 := by
  obtain ⟨hj, hmodify⟩ := require_bind_eq_ok.mp hcount
  obtain rfl := pure_eq_ok_iff.mp hmodify
  have hrow : i < table.size := h.1 ▸ hi
  have hj : j < table[i].size := by simpa [hrow] using hj
  simp only [cell, Array.getD_eq_getD_getElem?, Array.getElem?_modify, Prod.mk.injEq]
  by_cases ha : i = a
  · subst ha
    simp only [hrow, Array.getElem?_eq_getElem, if_true, Option.map_some, Option.getD_some, Array.getElem?_modify,
      true_and]
    by_cases hb : j = b
    · subst hb
      simp [hj]
    · simp [hb]
  · simp [ha]

theorem sum_countP {β : Type} (p : β → Bool) (f : β → Nat) {xs : List β} (hf : ∀ x ∈ xs, f x < n) :
    ∑ b ∈ Finset.range n, xs.countP (fun x => p x && f x == b) = xs.countP p := by
  induction xs with
  | nil => simp
  | cons x xs ih =>
      rw [List.forall_mem_cons] at hf
      simp only [List.countP_cons, Finset.sum_add_distrib, ih hf.2]
      congr 1
      cases p x with
      | false => simp
      | true => simp [hf.1]

theorem sum_row (row : Array Nat) : row.sum = ∑ b ∈ Finset.range row.size, row.getD b 0 := by
  have hlist : row.toList = List.ofFn fun b : Fin row.size => row.getD b 0 := by
    apply List.ext_getElem <;> simp
  rw [Finset.sum_range, ← Array.sum_toList, hlist, List.sum_ofFn]

/-- The entries of a square table count pairs of places. -/
structure Counts (n : Nat) (table : Array (Array Nat)) (pairs : List (Nat × Nat)) : Prop where
  square : Square n table
  entries : ∀ a b, cell table a b = pairs.count (a, b)
  bounds : ∀ p ∈ pairs, p.1 < n ∧ p.2 < n

namespace Counts

variable {pairs : List (Nat × Nat)}

theorem size_row (h : Counts n table pairs) (hi : i < n) : (table.getD i #[]).size = n := by
  have hlt : i < table.size := h.square.1 ▸ hi
  rw [Array.getD_eq_getD_getElem?, Array.getElem?_eq_getElem hlt]
  exact h.square.2 _ (Array.getElem_mem hlt)

theorem row (h : Counts n table pairs) (hi : i < n) : (table.getD i #[]).sum = pairs.countP (·.1 == i) := by
  rw [sum_row, h.size_row hi, ← sum_countP (n := n) (·.1 == i) (·.2) fun p hp => (h.bounds p hp).2]
  refine Finset.sum_congr rfl fun b _ => ?_
  rw [← cell, h.entries, List.count]
  rfl

theorem total (h : Counts n table pairs) : (table.map Array.sum).sum = pairs.length := by
  rw [sum_row, Array.size_map, h.square.1, ← List.countP_true, ← sum_countP (n := n) (fun _ => true) (·.1)
    fun p hp => (h.bounds p hp).1]
  refine Finset.sum_congr rfl fun a ha => ?_
  have hlt : a < table.size := h.square.1 ▸ Finset.mem_range.mp ha
  have hrow := h.row (Finset.mem_range.mp ha)
  simp only [Array.getD_eq_getD_getElem?, Array.getElem?_eq_getElem hlt, Option.getD_some] at hrow
  simp [hlt, hrow]

theorem diagonal (h : Counts n table pairs) : trace table = pairs.countP fun p => p.1 == p.2 := by
  rw [trace, h.square.1, ← sum_countP (n := n) (fun p : Nat × Nat => p.1 == p.2) (·.1)
    fun p hp => (h.bounds p hp).1]
  refine Finset.sum_congr rfl fun a _ => ?_
  rw [h.entries, List.count]
  congr 1
  funext p
  grind

end Counts

end Tables

section Measures

variable {α : Type} [Scalar α] {net : Network α} {d : Dataset α} {n : Nat}

namespace Network

theorem counts_zeros (n : Nat) : Counts n (Array.replicate n (Array.replicate n 0)) [] where
  square := by
    refine ⟨Array.size_replicate, fun row hrow => ?_⟩
    rw [(Array.mem_replicate.mp hrow).2, Array.size_replicate]
  entries a b := by
    simp only [cell, Array.getD_eq_getD_getElem?, Array.getElem?_replicate]
    by_cases ha : a < n <;> by_cases hb : b < n <;> simp [ha, hb]
  bounds := by simp

theorem counts_foldlM {xs : List (Tensor α)} {outs : List (Array α)}
    (hall : List.Forall₂ (fun x out => net.infer x = .ok out ∧ argmax out < n) xs outs) {cs : List Nat}
    (hlength : cs.length = xs.length) (hcs : ∀ c ∈ cs, c < n) {table : Array (Array Nat)} {pairs : List (Nat × Nat)}
    (h : Counts n table pairs) :
    ∃ table', (xs.zip cs).foldlM (fun table p => do countAt table p.2 (argmax (← net.infer p.1))) table = .ok table' ∧
      Counts n table' (pairs ++ cs.zip (outs.map argmax)) := by
  induction hall generalizing cs table pairs with
  | nil => exact ⟨table, rfl, by simpa using h⟩
  | @cons x out xs outs hx _ ih =>
      obtain ⟨c, cs, rfl⟩ := List.exists_cons_of_length_eq_add_one hlength
      rw [List.forall_mem_cons] at hcs
      obtain ⟨hout, hlt⟩ := hx
      obtain ⟨next, hnext, hsquare⟩ := countAt_answers h.square hcs.1 hlt
      have hcounts : Counts n next (pairs ++ [(c, argmax out)]) := by
        refine ⟨hsquare, fun a b => ?_, fun p hp => ?_⟩
        · rw [cell_countAt h.square hcs.1 hnext, h.entries, List.count_append, List.count_singleton]
          simp
        · rcases List.mem_append.mp hp with hp | hp
          · exact h.bounds p hp
          · rw [List.mem_singleton.mp hp]
            exact ⟨hcs.1, hlt⟩
      obtain ⟨last, hlast, hdone⟩ := ih (by simpa using hlength) hcs.2 hcounts
      refine ⟨last, ?_, by simpa using hdone⟩
      rw [List.zip_cons_cons, List.foldlM_cons, hout, ok_bind, hnext, ok_bind, hlast]

/-- The loop of the evaluation counts the verdicts that are right. -/
theorem hits_foldlM {xs : List (Tensor α)} {outs : List (Array α)}
    (hall : List.Forall₂ (fun x out => net.infer x = .ok out ∧ argmax out < n) xs outs) {cs : List Nat}
    (hlength : cs.length = xs.length) {sums sums' : α × Nat}
    (h : (xs.zip cs).foldlM (net.measureSample d) sums = .ok sums') :
    sums'.2 = sums.2 + (cs.zip (outs.map argmax)).countP fun p => p.1 == p.2 := by
  induction hall generalizing cs sums with
  | nil =>
      obtain ⟨⟩ := Except.ok.inj h
      simp
  | @cons x out xs outs hx _ ih =>
      obtain ⟨c, cs, rfl⟩ := List.exists_cons_of_length_eq_add_one hlength
      rw [List.zip_cons_cons, List.foldlM_cons] at h
      obtain ⟨next, hone, hrest⟩ := bind_eq_ok.mp h
      obtain ⟨out', target, hout, -, rfl⟩ := measureSample_eq_ok.mp hone
      obtain rfl := Except.ok.inj (hx.1.symm.trans hout)
      rw [ih (by simpa using hlength) hrest, List.map_cons, List.zip_cons_cons, List.countP_cons]
      by_cases hhit : argmax out = c
      · simp [hhit]
        omega
      · simp [hhit, Ne.symm hhit]

omit [Scalar α] in
theorem exists_output {xs : List (Tensor α)} {outs : List (Array α)} {f : Tensor α → Result (Array α)}
    (h : xs.mapM f = .ok outs) {i : Nat} {x : Tensor α} (hx : xs[i]? = some x) :
    ∃ out, outs[i]? = some out ∧ f x = .ok out := by
  have hlength := (mapM_eq_ok.mp h).length_eq
  obtain ⟨hi, rfl⟩ := List.getElem?_eq_some_iff.mp hx
  have hout : outs[i]? = some outs[i] := List.getElem?_eq_getElem (hlength ▸ hi)
  obtain ⟨y, hy, hone⟩ := mapM_getElem? h hout
  obtain rfl := Option.some.inj (hx.symm.trans hy)
  exact ⟨_, hout, hone⟩

theorem sample_of_outputs {outs : List (Array α)} (houts : net.predictMany d.images.toList = .ok outs) {count : Nat}
    {ss : List (SamplePrediction α)} (h : net.samplePredictions d count = .ok ss) {i : Nat} {s : SamplePrediction α}
    (hs : ss[i]? = some s) :
    s.index = i ∧ d.labels[i]? = some s.actual ∧
      ∃ out, outs[i]? = some out ∧ s.predicted = argmax out ∧ out[s.predicted]? = some s.confidence := by
  obtain ⟨x, c, hx, hc, hone⟩ := samplePredictions_front (d := d) ⟨fun _ _ h => h, fun _ _ h => h, rfl⟩ h hs
  obtain ⟨out, hout, hpredict⟩ := exists_output houts (by rwa [Array.getElem?_toList])
  rw [describe, hpredict, ok_bind] at hone
  dsimp only at hone
  cases hconf : out[argmax out]? with
  | none => simp [hconf] at hone
  | some confidence =>
      simp only [hconf, pure_eq_ok, Except.ok.injEq] at hone
      subst hone
      exact ⟨rfl, hc, out, hout, rfl, hconf⟩

theorem verdicts_of_samples {outs : List (Array α)} (hw : d.Whole)
    (houts : net.predictMany d.images.toList = .ok outs) {count : Nat} {ss : List (SamplePrediction α)}
    (h : net.samplePredictions d count = .ok ss) :
    ss.map (fun s => (s.actual, s.predicted)) = (verdicts d.labels outs).take count := by
  have hlength := length_samplePredictions hw.labels h
  have hsize : outs.length = d.images.size := by simpa using (mapM_eq_ok.mp houts).length_eq.symm
  apply List.ext_getElem
  · simp [verdicts, hlength, hsize, hw.labels, Dataset.size]
  · intro i hi _
    rw [List.length_map] at hi
    obtain ⟨-, hlabel, out, hout, hpredicted, -⟩ := sample_of_outputs houts h (List.getElem?_eq_getElem hi)
    obtain ⟨_, hlabel⟩ := Array.getElem?_eq_some_iff.mp hlabel
    obtain ⟨_, hout⟩ := List.getElem?_eq_some_iff.mp hout
    simp [verdicts, hlabel, hout, hpredicted]

variable {outs : List (Array α)}

theorem Steady.size_predict (hn : net.Steady) {x : Tensor α} (hs : x.Sized) {out : Array α}
    (h : net.predict x = .ok out) : net.outputSize = .ok out.size ∧ 0 < out.size := by
  obtain ⟨hx, hinfer⟩ := predict_eq_ok.mp h
  obtain ⟨⟨k, v, phase⟩, hrun, hv⟩ := bind_eq_ok.mp hinfer
  obtain rfl := pure_eq_ok_iff.mp hv
  obtain ⟨ls, y, hforward, -, rfl⟩ := forward_eq_ok.mp hrun
  obtain ⟨-, -, hy, hys, -⟩ := forwardLayers_keeps hforward hn.chained hx hs
  have hsize : y.data.size = (outputFrom net.inputShape net.layers).size := hys.trans (congrArg Shape.size hy)
  rw [hsize]
  exact ⟨hn.outputSize, one_le_outputs hn.layers hn.chained.sound _⟩

theorem Steady.argmax_outputs (hn : net.Steady) (hw : d.Whole) (hc : net.checkCompatible d = .ok ())
    (houts : net.predictMany d.images.toList = .ok outs) :
    List.Forall₂ (fun x out => net.infer x = .ok out ∧ argmax out < d.numClasses) d.images.toList outs := by
  obtain ⟨hlength, hzip⟩ := List.forall₂_iff_zip.mp (mapM_eq_ok.mp houts)
  refine List.forall₂_iff_zip.mpr ⟨hlength, fun {x out} hmem => ?_⟩
  have hout := hzip hmem
  have himage : x ∈ d.images := Array.mem_toList_iff.mp (List.of_mem_zip hmem).1
  obtain ⟨hsize, hpos⟩ := hn.size_predict (hw.images x himage).2 hout
  have hclasses : out.size = d.numClasses := Except.ok.inj (hsize.symm.trans (checkCompatible_eq_ok.mp hc).2)
  exact ⟨(predict_eq_ok.mp hout).2, hclasses ▸ argmax_lt hpos⟩

omit [Scalar α] in
theorem samplesOf_eq (d : Dataset α) : samplesOf d = d.images.toList.zip d.labels.toList := Array.toList_zip

theorem confusionMatrix_counts (hw : d.Whole) (hc : net.checkCompatible d = .ok ())
    (hall : List.Forall₂ (fun x out => net.infer x = .ok out ∧ argmax out < d.numClasses) d.images.toList outs) :
    ∃ table, Counts d.numClasses table (verdicts d.labels outs) ∧
      net.confusionMatrix d = require (fitsTable d.numClasses) >>= fun _ => pure table := by
  have hbelow : ∀ c ∈ d.labels.toList, c < d.numClasses := fun c hmem => hw.classes c (Array.mem_toList_iff.mp hmem)
  obtain ⟨table, hloop, hcounts⟩ := counts_foldlM hall hw.labels hbelow (counts_zeros d.numClasses)
  refine ⟨table, hcounts, ?_⟩
  rw [confusionMatrix, hc, ok_bind, samplesOf_eq]
  exact congrArg _ (funext fun _ => hloop)

theorem accuracy_eq (hw : d.Whole) {e : Evaluation α} (he : net.evaluate d = .ok e)
    (hall : List.Forall₂ (fun x out => net.infer x = .ok out ∧ argmax out < n) d.images.toList outs) :
    e.accuracy = (((verdicts d.labels outs).countP fun p => p.1 == p.2 : Nat) : α) / (d.size : α) := by
  obtain ⟨-, -, loss, hits, hfold, heq⟩ := evaluate_eq_ok.mp he
  rw [samplesOf_eq] at hfold
  have hhits : hits = (verdicts d.labels outs).countP fun p => p.1 == p.2 :=
    (hits_foldlM hall hw.labels hfold).trans (Nat.zero_add _)
  rw [heq, hhits]

theorem actual_verdicts (hw : d.Whole) (hlength : outs.length = d.size) :
    (verdicts d.labels outs).map Prod.fst = d.labels.toList := by
  rw [verdicts, List.map_fst_zip]
  simp [hlength, hw.labels, Dataset.size]

theorem Steady.samplePredictions_answers (hn : net.Steady) (hw : d.Whole)
    (houts : net.predictMany d.images.toList = .ok outs) (count : Nat) :
    ∃ ss, net.samplePredictions d count = .ok ss := by
  refine Network.samplePredictions_answers (fun x hx => ?_) count
  obtain ⟨i, hi, rfl⟩ := Array.mem_iff_getElem.mp hx
  obtain ⟨out, -, hout⟩ := exists_output houts (i := i) (x := d.images[i]) (by simp)
  exact ⟨out, hout, (hn.size_predict (hw.images _ hx).2 hout).2⟩

theorem right_samples (hw : d.Whole) (houts : net.predictMany d.images.toList = .ok outs)
    (hlength : outs.length = d.size) {count : Nat} {ss : List (SamplePrediction α)}
    (h : net.samplePredictions d count = .ok ss) (hcount : d.size ≤ count) :
    (ss.countP fun s => s.predicted == s.actual) = (verdicts d.labels outs).countP fun p => p.1 == p.2 := by
  have hpairs : (verdicts d.labels outs).length ≤ count := by
    rw [← List.length_map (f := Prod.fst), actual_verdicts hw hlength]
    exact hw.labels.trans_le hcount
  have hsaid := verdicts_of_samples hw houts h
  rw [List.take_of_length_le hpairs] at hsaid
  rw [← hsaid, List.countP_map]
  congr 1
  funext s
  exact Bool.beq_comm

omit [Scalar α] in
theorem Addressable.fits (h : net.Addressable) (hne : net.layers ≠ []) :
    Buffer.fits (outputFrom net.inputShape net.layers).size = true := by
  obtain ⟨last, hlast, hout⟩ := exists_last_output hne net.inputShape
  exact hout ▸ h last hlast

/-- Where there is room for them, there are all reports on a dataset that goes with the network. -/
theorem Steady.reports (hn : net.Steady) (hroom : net.Addressable) (hrows : fitsTable d.numClasses = true)
    (hw : d.Whole) (hne : d.isEmpty = false) (hc : net.checkCompatible d = .ok ()) :
    ∃ outs table e, net.predictMany d.images.toList = .ok outs ∧ net.confusionMatrix d = .ok table ∧
      net.evaluate d = .ok e := by
  obtain ⟨hshape, hsize⟩ := checkCompatible_eq_ok.mp hc
  have hclasses : (outputFrom net.inputShape net.layers).size = d.numClasses :=
    Except.ok.inj (hn.outputSize.symm.trans hsize)
  have hi : net.Infers d.numClasses := hn.infers (fun l hl => Layer.roomy_of_fits (hroom l hl)) hsize
    (hclasses ▸ hroom.fits hn.layers)
  have himage : ∀ x ∈ d.images.toList, ∃ out, net.predict x = .ok out := by
    intro x hx
    obtain ⟨hxshape, hxs⟩ := hw.images x (Array.mem_toList_iff.mp hx)
    exact (hi.predict_answers (hxshape.trans hshape) hxs).imp fun _ h => h.1
  obtain ⟨outs, houts⟩ := mapM_answers himage
  obtain ⟨table, -, htable⟩ := confusionMatrix_counts hw hc (hn.argmax_outputs hw hc houts)
  obtain ⟨e, he⟩ := hi.evaluates hw hc hne
  exact ⟨outs, table, e, houts, by rw [htable, hrows]; rfl, he⟩

end Network

end Measures

section Asking

variable {α σ τ ω : Type} [Scalar α] [JsonNumber α] [RandomSource σ]

theorem Course.run_asks (qs : List (Query α)) (c : Course α σ τ ω) (hc : c.broken = false) :
    (c.run (qs.map .ask)).network = c.network ∧
      ∃ rs, (c.run (qs.map .ask)).findings = c.findings ++ rs ∧
        List.Forall₂ (fun q r => ∃ s : Session ω, r = q.answer c.network s) qs rs := by
  induction qs generalizing c with
  | nil => exact ⟨rfl, [], (List.append_nil _).symm, .nil⟩
  | cons q qs ih =>
      obtain ⟨s', hq⟩ := q.on_eq c.network c.session
      have hstep : c.step (.ask q) =
          { c with session := s', findings := c.findings ++ [q.answer c.network c.session] } := by
        rw [step, hc]
        simp only [Bool.false_eq_true, if_false, hq]
      obtain ⟨hnet, rs, hfindings, hrs⟩ := ih (c.step (.ask q)) (by rw [hstep]; exact hc)
      rw [hstep] at hnet hfindings hrs
      refine ⟨?_, q.answer c.network c.session :: rs, ?_, .cons ⟨_, rfl⟩ hrs⟩
      · rw [List.map_cons, run, List.foldl_cons, hstep]
        exact hnet
      · rw [List.map_cons, run, List.foldl_cons, hstep]
        exact hfindings.trans (List.append_assoc _ _ _)

end Asking

namespace Network

variable {α : Type} [Scalar α]

variable [JsonNumber α] {ρ ω : Type} {draw : Initializer α ρ}

/-- The reports on a dataset agree with each other. The confusion matrix counts, by actual class and by the class that
the output stands for, all samples once; the accuracy is the share of its diagonal; the predictions for samples are
read off the outputs for their images, and as many of them are right as the diagonal tells. There are such reports
where there is room for them, and all stay the same when they are asked for again, in any order and between other
questions. -/
theorem reports_agree (hdraw : Initializer.Draws draw) {net : Network α} (hnet : net.Arises draw) {d : Dataset α}
    (hw : d.Whole) (hne : d.isEmpty = false) (hc : net.checkCompatible d = .ok ()) :
    (net.Addressable → fitsTable d.numClasses = true → ∃ outs table e,
      net.predictMany d.images.toList = .ok outs ∧ net.confusionMatrix d = .ok table ∧ net.evaluate d = .ok e) ∧
    (∀ outs table e, net.predictMany d.images.toList = .ok outs → net.confusionMatrix d = .ok table →
      net.evaluate d = .ok e → outs.length = d.size ∧
      (Square d.numClasses table ∧
        (∀ a b, cell table a b = (verdicts d.labels outs).count (a, b)) ∧
        (∀ a < d.numClasses, (table.getD a #[]).sum = d.labels.count a) ∧ (table.map Array.sum).sum = d.size) ∧
      e.accuracy = (trace table : α) / (d.size : α) ∧
      ∀ count, ∃ ss, net.samplePredictions d count = .ok ss ∧ ss.length = min count d.size ∧
        (∀ (i : Nat) s, ss[i]? = some s → s.index = i ∧ d.labels[i]? = some s.actual ∧
          ∃ out, outs[i]? = some out ∧ s.predicted = argmax out ∧ out[s.predicted]? = some s.confidence) ∧
        (d.size ≤ count → (ss.countP fun s => s.predicted == s.actual) = trace table)) ∧
    ∀ (qs : List (Query α)) (session : Session ω) (c : Course α Stream Unit ω),
      c = (Course.start net session).run (qs.map .ask) → c.network = net ∧
        List.Forall₂ (fun q r => (q = .evaluate d → r = (net.evaluate d).map .evaluation) ∧
          (q = .confusionMatrix d → r = (net.confusionMatrix d).map .table) ∧
          (q = .predictMany d.images.toList → r = (net.predictMany d.images.toList).map .outputs) ∧
          ∀ count, q = .samplePredictions d count → r = (net.samplePredictions d count).map .samples)
          qs c.findings := by
  have hn := hnet.steady hdraw
  refine ⟨fun hroom hrows => hn.reports hroom hrows hw hne hc, fun outs table e houts htable he => ?_, ?_⟩
  · have hall := hn.argmax_outputs hw hc houts
    have hlength : outs.length = d.size := by simpa [Dataset.size] using hall.length_eq.symm
    have hfirst := actual_verdicts hw hlength
    obtain ⟨counted, hcounts, heq⟩ := confusionMatrix_counts hw hc hall
    rw [heq, require_bind_eq_ok, pure_eq_ok_iff] at htable
    obtain ⟨-, rfl⟩ := htable
    refine ⟨hlength, ⟨hcounts.square, hcounts.entries, fun a ha => ?_, ?_⟩, ?_, fun count => ?_⟩
    · rw [hcounts.row ha, ← Array.count_toList, ← hfirst, List.count, List.countP_map]
      rfl
    · rw [hcounts.total, ← List.length_map (f := Prod.fst), hfirst]
      exact hw.labels
    · rw [hcounts.diagonal]
      exact accuracy_eq hw he hall
    · obtain ⟨ss, hss⟩ := hn.samplePredictions_answers hw houts count
      refine ⟨ss, hss, length_samplePredictions hw.labels hss, fun i s hs => sample_of_outputs houts hss hs,
        fun hshown => ?_⟩
      rw [hcounts.diagonal]
      exact right_samples hw houts hlength hss hshown
  · rintro qs session c rfl
    obtain ⟨hnetwork, rs, hfindings, hrs⟩ := Course.run_asks qs (Course.start (σ := Stream) (τ := Unit) net session) rfl
    rw [hfindings]
    refine ⟨hnetwork, hrs.imp fun q r => ?_⟩
    rintro ⟨s, rfl⟩
    refine ⟨?_, ?_, ?_, fun count => ?_⟩
    all_goals
      rintro rfl
      rfl

theorem reports_agree_small : ∃ (net : Network Float) (d : Dataset Float) (table : Array (Array Nat))
    (e : Evaluation Float) (ss : List (SamplePrediction Float)) (rs : List (Result (Finding Float))),
    d.labels = #[0, 1, 0] ∧ net.confusionMatrix d = .ok table ∧ (table.getD 0 #[]).sum = 2 ∧
      (table.getD 1 #[]).sum = 1 ∧ (table.map Array.sum).sum = 3 ∧ trace table = 2 ∧ net.evaluate d = .ok e ∧
      e.accuracy = ((2 : Nat) : Float) / ((3 : Nat) : Float) ∧ net.samplePredictions d 5 = .ok ss ∧ ss.length = 3 ∧
      (ss.countP fun s => s.predicted == s.actual) = 2 ∧
      rs = ((Course.start net (⟨.empty [], ""⟩ : Session String)).run ([.ask (.evaluate d), .ask (.confusionMatrix d),
        .ask (.evaluate d)] : List (Operation Float Stream Unit))).findings ∧
      rs = [.ok (.evaluation e), .ok (.table table), .ok (.evaluation e)] := by
  obtain ⟨net, hnet⟩ : ∃ net : Network Float, net = ⟨.flat 1, [.dense ⟨⟨1, 2, Array.replicate 2 1⟩, Buffer.zeros 2,
    .linear, .zeros 1 2, Buffer.zeros 2, #[], #[]⟩], .mse, none⟩ := ⟨_, rfl⟩
  have hbuild : build (fun _ _ n s => .ok (Array.replicate n 1, s)) ⟨.flat 1, [.dense 2 .linear], .mse⟩ () =
      .ok (net, ()) := by
    subst hnet
    rfl
  obtain ⟨d, hd⟩ : ∃ d : Dataset Float, d = ⟨.flat 1, #[⟨.flat 1, #[1]⟩, ⟨.flat 1, #[2]⟩, ⟨.flat 1, #[3]⟩],
    #[0, 1, 0], 2, none⟩ := ⟨_, rfl⟩
  have hroom : net.Addressable := by
    subst hnet
    simp [Addressable, Layer.outputShape, Shape.flat, Shape.size, Buffer.fits]
  have hrows : fitsTable d.numClasses = true := by
    subst hd
    decide
  have hw : d.Whole := by
    subst hd
    exact ⟨rfl, by simp [Tensor.Sized, Shape.flat, Shape.size], by simp, by decide⟩
  have hne : d.isEmpty = false := by rw [hd]; rfl
  have hc : net.checkCompatible d = .ok () := by
    subst hd hnet
    rfl
  obtain ⟨hreports, hagree, horder⟩ := reports_agree Initializer.draws_ones (.built hbuild) hw hne hc
  obtain ⟨outs, table, e, houts, htable, he⟩ := hreports hroom hrows
  obtain ⟨-, ⟨-, -, hrow, htotal⟩, haccuracy, hsamples⟩ := hagree outs table e houts htable he
  obtain ⟨ss, hss, hlength, -, hright⟩ := hsamples 5
  have hlabels : d.labels = #[0, 1, 0] := by rw [hd]
  have hclasses : d.numClasses = 2 := by rw [hd]
  have hsize : d.size = 3 := by rw [hd]; rfl
  rw [hlabels, hclasses] at hrow
  rw [hsize] at htotal haccuracy hlength hright
  have htrace : trace table = 2 := by
    have hdiagonal : (net.confusionMatrix d).toOption.map trace = some 2 := by
      subst hd hnet
      decide +kernel
    rw [htable] at hdiagonal
    exact Option.some.inj hdiagonal
  obtain ⟨-, hall⟩ := horder [.evaluate d, .confusionMatrix d, .evaluate d] ⟨.empty [], ""⟩ _ rfl
  refine ⟨net, d, table, e, ss, _, hlabels, htable, hrow 0 (by decide), hrow 1 (by decide), htotal, htrace, he,
    haccuracy.trans (by rw [htrace]), hss, hlength, (hright (by decide)).trans htrace, rfl, ?_⟩
  obtain ⟨first, others, hfirst, hothers, hfindings⟩ := List.forall₂_cons_left_iff.mp hall
  obtain ⟨second, rest, hsecond, hrest, rfl⟩ := List.forall₂_cons_left_iff.mp hothers
  obtain ⟨third, none, hthird, hnone, rfl⟩ := List.forall₂_cons_left_iff.mp hrest
  obtain rfl := List.forall₂_nil_left_iff.mp hnone
  exact hfindings.trans (by rw [hfirst.1 rfl, hsecond.2.1 rfl, hthird.1 rfl, he, htable]; rfl)

/-- Parameters and an image of `2 ^ 30` numbers each are enough for a network whose outputs no buffer holds, nor the
rows of a table with as many classes. It is built all the same, and takes a dataset with that image, but gives no
report. -/
theorem reports_without_room : ∃ (net : Network Float) (d : Dataset Float),
    net.Arises (fun _ _ n s => .ok (Array.replicate n 1, s) : Initializer Float Unit) ∧ d.Whole ∧ d.size = 1 ∧
      net.checkCompatible d = .ok () ∧ net.confusionMatrix d = .error .misuse ∧
      ∀ x ∈ d.images, net.predict x = .error .misuse := by
  obtain ⟨m, hm⟩ : ∃ m : ModelSpec Float, m = ⟨⟨2 ^ 15, 2 ^ 15, 1⟩, [.conv (2 ^ 30) 1 1 .valid .linear, .flatten], .mse⟩ :=
    ⟨_, rfl⟩
  have hval : m.validate = .ok [⟨2 ^ 15, 2 ^ 15, 2 ^ 30⟩, .flat (2 ^ 60)] := by
    subst hm
    rfl
  have hv := ModelSpec.valid_of_validate hval
  obtain ⟨ls, ⟨⟩, hls⟩ := buildLayers_answers Initializer.draws_ones hv.chain hv.input (by subst hm; decide) ()
  have hbuild := build_eq_ok.mpr ⟨_, ls, hval, hls, rfl⟩
  have hr := build_realizes Initializer.draws_ones hbuild
  obtain ⟨x, hx⟩ : ∃ x : Tensor Float, x = ⟨⟨2 ^ 15, 2 ^ 15, 1⟩, Buffer.zeros (2 ^ 30)⟩ := ⟨_, rfl⟩
  have hshape : x.shape = m.inputShape := by rw [hx, hm]
  have hsized : x.Sized := by simp [hx, Tensor.Sized, Shape.size, Buffer.size_zeros]
  obtain ⟨d, hd⟩ : ∃ d : Dataset Float, d = ⟨m.inputShape, #[x], #[0], 2 ^ 60, none⟩ := ⟨_, rfl⟩
  have hclasses : d.numClasses = 2 ^ 60 := by rw [hd]
  have hw : d.Whole := by
    refine ⟨by rw [hd]; rfl, by simpa [hd] using ⟨hshape, hsized⟩, ?_, ?_⟩
    · rw [hclasses]
      simp [hd]
    · rw [hclasses]
      decide
  have houtputs := (hr.outputSize hv).trans (congrArg Except.ok (Shape.size_flat (2 ^ 60)))
  have hc : checkCompatible ⟨m.inputShape, ls, m.loss, none⟩ d = .ok () := by
    have hcount : ¬2 ^ 60 ≠ d.numClasses := not_not.mpr hclasses.symm
    rw [checkCompatible, checkInput, if_pos (by rw [hd]), ok_bind, houtputs, ok_bind, if_neg hcount]
    rfl
  have hrows : fitsTable d.numClasses = false := by
    rw [hclasses]
    decide
  refine ⟨_, d, .built hbuild, hw, by rw [hd]; rfl, hc, ?_, fun y hy => ?_⟩
  · rw [confusionMatrix, hc, ok_bind, hrows, require_false, error_bind]
  obtain rfl : y = x := by simpa [hd] using hy
  have hrealize := hr.layers
  have hshapes := (hr.chained hv).2
  cases ls with
  | nil => cases hshapes
  | cons k ks =>
      obtain ⟨hout, -⟩ := List.cons.inj hshapes
      rw [hm] at hrealize
      obtain ⟨l, rfl⟩ := hrealize.1.eq_conv
      have hfull : Buffer.fits l.outputShape.size = false := by
        rw [show l.outputShape = _ from hout.symm]
        decide
      refine predict_misuse rfl hshape ?_
      rw [Layer.forward, Convolution.forward_misuse hfull, error_bind]

end Network

end Convnet
