import Convnet.Proofs.Steady
import Convnet.Proofs.Stopping

namespace Convnet

/-- Whether an operation refuses nothing but a misuse. -/
def Sheer {β : Type} (r : Result β) : Prop := ∀ e, r = .error e → e = .misuse

namespace Sheer

variable {β γ : Type}

theorem ok (b : β) : Sheer (.ok b : Result β) := nofun

theorem misuse : Sheer (.error .misuse : Result β) := by
  rintro _ ⟨⟩
  rfl

theorem require (b : Bool) : Sheer (Convnet.require b) := by
  cases b
  · exact misuse
  · exact ok ()

theorem bind {x : Result β} {f : β → Result γ} (hx : Sheer x) (hf : ∀ b, x = .ok b → Sheer (f b)) :
    Sheer (x >>= f) := by
  cases x with
  | error e =>
      rintro _ ⟨⟩
      exact hx e rfl
  | ok b => exact hf b rfl

theorem require_bind {b : Bool} {f : Unit → Result γ} (hf : Sheer (f ())) : Sheer (Convnet.require b >>= f) :=
  (Sheer.require b).bind fun _ _ => hf

theorem foldlM {f : γ → β → Result γ} (hf : ∀ c b, Sheer (f c b)) (xs : List β) (c : γ) :
    Sheer (xs.foldlM f c) := by
  induction xs generalizing c with
  | nil => exact ok c
  | cons x xs ih =>
      rw [List.foldlM_cons]
      exact (hf c x).bind fun c' _ => ih c'

end Sheer

section Passes

variable {α : Type} [Scalar α] {σ : Type} [RandomSource σ]

omit [Scalar α] in
theorem Tensor.sheer_ofBuffer (shape : Shape) (data : Array α) : Sheer (ofBuffer shape data) :=
  .require_bind (.ok _)

theorem Dataset.sheer_target (d : Dataset α) (label : Nat) : Sheer (d.target label) :=
  .require_bind (.ok _)

namespace Layer

theorem sheer_forward (l : Layer α) (x : Tensor α) (phase : Phase σ) : Sheer (l.forward x phase) := by
  cases l with
  | conv l =>
      refine Sheer.bind ?_ fun _ _ => .ok _
      exact .require_bind (.ok _)
  | pool l =>
      refine Sheer.bind (.require_bind ?_) fun _ _ => .ok _
      cases l.kind <;> exact .ok _
  | flatten s => exact (Tensor.sheer_ofBuffer _ _).bind fun _ _ => .ok _
  | dense l =>
      refine Sheer.bind ?_ fun _ _ => .ok _
      exact .require_bind (.ok _)
  | dropout l => cases phase <;> exact .ok _
  | pointwise l => exact ((Tensor.sheer_ofBuffer _ _).bind fun _ _ => .ok _).bind fun _ _ => .ok _

theorem sheer_backward (l : Layer α) (g : Tensor α) : Sheer (l.backward g) := by
  cases l with
  | conv l =>
      refine Sheer.bind ?_ fun _ _ => .ok _
      unfold Convolution.backward
      cases l.input with
      | none => exact .misuse
      | some x =>
          cases l.preActivation with
          | none => exact .misuse
          | some z => exact .require_bind (.ok _)
  | pool l =>
      refine Sheer.bind (.require_bind ?_) fun _ _ => .ok _
      cases l.kind <;> exact .require_bind (.ok _)
  | flatten s => exact (Tensor.sheer_ofBuffer _ _).bind fun _ _ => .ok _
  | dense l =>
      refine Sheer.bind (.require_bind ?_) fun _ _ => .ok _
      refine Sheer.bind ?_ fun k _ => Sheer.bind ?_ fun _ _ => Sheer.bind ?_ fun _ _ => .ok _
      all_goals exact .require_bind (.ok _)
  | dropout l =>
      refine Sheer.bind ?_ fun _ _ => .ok _
      exact .require_bind (.ok _)
  | pointwise l => exact .ok _

end Layer

namespace Network

theorem sheer_forwardLayers (ls : List (Layer α)) (x : Tensor α) (phase : Phase σ) :
    Sheer (forwardLayers ls x phase) := by
  induction ls generalizing x phase with
  | nil => exact .ok _
  | cons l ls ih => exact (l.sheer_forward x phase).bind fun r _ => (ih r.2.1 r.2.2).bind fun _ _ => .ok _

theorem sheer_backwardLayers (ls : List (Layer α)) (g : Tensor α) : Sheer (backwardLayers ls g) := by
  induction ls with
  | nil => exact .ok _
  | cons l ls ih => exact ih.bind fun r _ => (l.sheer_backward r.2).bind fun _ _ => .ok _

theorem sheer_infer (net : Network α) (x : Tensor α) : Sheer (net.infer x) :=
  ((sheer_forwardLayers net.layers x .infer).bind fun _ _ => .ok _).bind fun _ _ => .ok _

theorem sheer_trainSample (net : Network α) (image : Tensor α) (label : Nat) (target : Array α) (s : σ) :
    Sheer (net.trainSample image label target s) := by
  refine ((sheer_forwardLayers net.layers image (.train s)).bind fun _ _ => .ok _).bind fun r _ => ?_
  exact ((sheer_backwardLayers r.1.layers _).bind fun _ _ => .ok _).bind fun _ _ => .ok _

theorem sheer_trainSamples (d : Dataset α) (is : List Nat) (net : Network α) (s : σ) (t : Tally α) :
    Sheer (trainSamples d is net s t) := by
  induction is generalizing net s t with
  | nil => exact .ok _
  | cons i is ih =>
      rw [trainSamples]
      cases d.labels[i]? with
      | none => exact .misuse
      | some label =>
          refine (d.sheer_target label).bind fun target _ => ?_
          cases d.images[i]? with
          | none => exact .misuse
          | some image => exact (net.sheer_trainSample image label target s).bind fun r _ => ih _ _ _

omit [RandomSource σ] in
theorem sheer_mapSlots (scale : α) (slot : Nat) (ps : List (Parameter α)) (o : Optimizer α) :
    Sheer (mapSlots (applyParameter scale) slot ps o) := by
  induction ps generalizing slot o with
  | nil => exact .ok _
  | cons p ps ih =>
      refine Sheer.bind (Sheer.bind ?_ fun _ _ => .ok _) fun r _ => (ih (slot + 1) r.2).bind fun _ _ => .ok _
      exact .require_bind (.require_bind (.ok _))

theorem sheer_applyGradients (net : Network α) (o : Optimizer α) (scale : α) :
    Sheer (net.applyGradients o scale) := by
  refine Sheer.bind ?_ fun _ _ => .ok _
  generalize net.layers = ls, 0 = slot, o.beginStep = o'
  induction ls generalizing slot o' with
  | nil => exact .ok _
  | cons l ls ih =>
      exact (sheer_mapSlots scale slot _ o').bind fun r _ => (ih _ r.2).bind fun _ _ => .ok _

theorem sheer_trainBatch (net : Network α) (d : Dataset α) (indices : List Nat) (o : Optimizer α) (s : σ) :
    Sheer (net.trainBatch d indices o s) :=
  .require_bind ((sheer_trainSamples d indices net s .zero).bind fun r _ =>
    (sheer_applyGradients r.1 o _).bind fun _ _ => .ok _)

theorem sheer_evaluate {net : Network α} {d : Dataset α} (hc : net.checkCompatible d = .ok ())
    (hne : d.isEmpty = false) : Sheer (net.evaluate d) := by
  rw [evaluate, hc, ok_bind, hne]
  refine Sheer.bind (Sheer.foldlM (fun sums sample => ?_) _ _) fun _ _ => .ok _
  exact (net.sheer_infer sample.1).bind fun out _ => (d.sheer_target sample.2).bind fun target _ => .ok _

end Network

end Passes

section Runs

variable {α : Type} [Scalar α] {σ τ : Type} [RandomSource σ] {schedule : Schedule} {send : Receiver α τ}
  {train : Dataset α} {validation : Option (Dataset α)} {r : Run α σ τ}

namespace Run

def Measurable (validation : Option (Dataset α)) (net : Network α) : Prop :=
  ∀ v ∈ validation, net.checkCompatible v = .ok () ∧ v.isEmpty = false

omit [RandomSource σ] in
theorem sheer_measure {net : Network α} (h : Measurable validation net) : Sheer (measure validation net) := by
  cases validation with
  | none => exact .ok none
  | some v =>
      obtain ⟨hc, hne⟩ := h v rfl
      exact (Network.sheer_evaluate hc hne).bind fun _ _ => .ok _

theorem measurable_kept : Network.Kept σ train (Measurable validation : Network α → Prop) := by
  intro net net' indices o o' s s' t h hone v hv
  obtain ⟨hc, hne⟩ := h v hv
  exact ⟨((Network.trainBatch_frame hone).checkCompatible v).trans hc, hne⟩

theorem sheer_batches {epoch total : Nat} (j : Nat) (parts : List (List Nat)) (r : Run α σ τ) (tally : Tally α) :
    Sheer (batches schedule send train epoch total j parts r tally) := by
  induction parts generalizing j r tally with
  | nil => exact .ok _
  | cons indices rest ih =>
      rw [batches]
      refine Sheer.bind (fun e he => ?_) fun b _ => ?_
      · exact Network.sheer_trainBatch _ _ _ _ _ e (batch_eq_error.mp he)
      · obtain ⟨r₁, tally₁⟩ := b
        dsimp only
        split
        · exact .ok _
        · exact ih _ _ _

theorem sheer_epoch (h : Measurable validation r.network) (number : Nat) :
    Sheer (r.epoch schedule send train validation number) := by
  unfold Run.epoch
  refine (sheer_batches 1 _ r.shuffled .zero).bind fun b hb => ?_
  obtain ⟨r₁, tally⟩ := b
  have hr := (batches_invariant measurable_kept 1 _ .zero (r := r.shuffled) h).2 r₁ tally hb
  dsimp only
  split
  · exact .ok _
  · exact fun e he => sheer_measure hr e (close_eq_error.mp he)

theorem sheer_epochs (h : Measurable validation r.network) (n k : Nat) :
    Sheer (epochs schedule send train validation n k r) := by
  induction n generalizing k r with
  | zero => exact .ok _
  | succ n ih =>
      rw [epochs]
      refine (sheer_epoch h k).bind fun r₁ hone => ?_
      split
      · exact .ok _
      · exact ih (epoch_invariant measurable_kept h hone) (k + 1)

theorem Performs.invariant {P : Network α → Prop} (hP : Network.Kept σ train P) {q : Run α σ τ} {ds : List (Deed α)}
    (h : Performs send train validation r ds q) (hr : P r.network) : P q.network := by
  induction h with
  | done => exact hr
  | shuffle _ ih => exact ih hr
  | train hone _ ih => exact ih (hP _ _ _ _ _ _ _ _ hr hone)
  | measure _ _ _ ih => exact ih hr
  | record _ _ ih => exact ih hr
  | send _ _ ih => exact ih hr

/-- What every batch leaves, deeds leave among which there is a batch. -/
theorem Performs.given {P : Network α → Prop} (hP : Network.Given σ train P) {q : Run α σ τ} {ds : List (Deed α)}
    {indices : List Nat} (h : Performs send train validation r ds q) (hd : .train indices ∈ ds) : P q.network := by
  induction h with
  | done => exact absurd hd List.not_mem_nil
  | shuffle _ ih => exact ih hd
  | train hone hrest _ => exact hrest.invariant hP.kept (hP _ _ _ _ _ _ _ _ hone)
  | measure _ _ _ ih => exact ih ((List.mem_cons.mp hd).resolve_left nofun)
  | record _ _ ih => exact ih hd
  | send _ _ ih => exact ih ((List.mem_cons.mp hd).resolve_left nofun)

end Run

namespace Network

variable {net : Network α} {checked : Option (Dataset α)} {d : Dataset α}

def Matches (net : Network α) (d : Dataset α) : Prop :=
  d.shape = net.inputShape ∧ net.outputSize = .ok d.numClasses

/-- Whether there is nothing to train on, or a batch would be empty, or a dataset that is to be trained on
or measured does not match the network. -/
def Unfit (net : Network α) (train : Dataset α) (validation : Option (Dataset α)) (schedule : Schedule) : Prop :=
  train.isEmpty = true ∨ schedule.batchSize = 0 ∨ ¬ net.Matches train ∨
    ∃ v ∈ validation, v.isEmpty = false ∧ ¬ net.Matches v

omit [Scalar α] in
theorem checkCompatible_refuses (hn : net.Steady) (h : ¬ net.Matches d) :
    ∃ expected actual, net.checkCompatible d = .error (.shapeMismatch expected actual) := by
  rw [checkCompatible, checkInput]
  by_cases hs : d.shape = net.inputShape
  · have hclasses : (outputFrom net.inputShape net.layers).size ≠ d.numClasses := by
      intro hc
      exact h ⟨hs, hc ▸ hn.outputSize⟩
    rw [if_pos hs, hn.outputSize, ok_bind, ok_bind, if_pos hclasses]
    exact ⟨_, _, rfl⟩
  · rw [if_neg hs]
    exact ⟨_, _, rfl⟩

omit [Scalar α] in
theorem checkFit_refuses (hn : net.Steady) (h : net.Unfit train validation schedule) :
    ∃ e, e ≠ .misuse ∧ net.checkFit train validation schedule = .error e := by
  unfold checkFit
  cases hempty : train.isEmpty with
  | true => exact ⟨.dataset .noTrainingSamples, nofun, rfl⟩
  | false =>
      simp only [Bool.false_eq_true, if_false]
      by_cases hb : schedule.batchSize = 0
      · exact ⟨.config .batchSize, nofun, by rw [if_pos hb]; rfl⟩
      · rw [if_neg hb]
        by_cases hm : net.Matches train
        · obtain ⟨v, rfl, hv, hmv⟩ : ∃ v ∈ validation, v.isEmpty = false ∧ ¬ net.Matches v := by
            simpa [Unfit, hempty, hb, hm] using h
          obtain ⟨expected, actual, he⟩ := checkCompatible_refuses hn hmv
          refine ⟨.shapeMismatch expected actual, nofun, ?_⟩
          rw [checkCompatible_eq_ok.mpr hm, checkValidation, hv, he]
          rfl
        · obtain ⟨expected, actual, he⟩ := checkCompatible_refuses hn hm
          refine ⟨.shapeMismatch expected actual, nofun, ?_⟩
          rw [he]
          rfl

omit [Scalar α] in
theorem checkFit_of_not_unfit (h : ¬ net.Unfit train validation schedule) : ∃ checked, Run.Measurable checked net ∧
    (∀ v ∈ checked, v ∈ validation ∧ v.isEmpty = false) ∧
    net.checkFit train validation schedule =
      if schedule.counts train.size then .ok checked else .error .misuse := by
  obtain ⟨hempty, hb, hm, hval⟩ : train.isEmpty = false ∧ schedule.batchSize ≠ 0 ∧ net.Matches train ∧
      ∀ v ∈ validation, v.isEmpty = false → net.Matches v := by
    simpa [Unfit] using h
  have hfilter : ∀ v ∈ validation.filter (!·.isEmpty), v ∈ validation ∧ v.isEmpty = false := fun v hv => by
    simpa using Option.mem_filter_iff.mp hv
  have hcompatible : ∀ v ∈ validation.filter (!·.isEmpty), net.checkCompatible v = .ok () := fun v hv =>
    checkCompatible_eq_ok.mpr (hval v (hfilter v hv).1 (hfilter v hv).2)
  refine ⟨validation.filter (!·.isEmpty), fun v hv => ⟨hcompatible v hv, (hfilter v hv).2⟩, hfilter, ?_⟩
  rw [checkFit, hempty, if_neg hb, checkCompatible_eq_ok.mpr hm, checkValidation_eq_ok.mpr ⟨rfl, hcompatible⟩]
  exact require_pure _ _

omit [Scalar α] in
theorem checkFit_answers (h : ¬ net.Unfit train validation schedule) (hcounts : schedule.counts train.size = true) :
    ∃ checked, net.checkFit train validation schedule = .ok checked ∧ Run.Measurable checked net := by
  obtain ⟨checked, hm, -, hcheck⟩ := checkFit_of_not_unfit h
  exact ⟨checked, hcheck.trans (if_pos hcounts), hm⟩

omit [Scalar α] in
theorem matches_of_checkFit (hn : net.Steady) (h : net.checkFit train validation schedule = .ok checked) :
    net.Matches train ∧ Run.Measurable checked net := by
  by_cases hu : net.Unfit train validation schedule
  · obtain ⟨e, -, he⟩ := checkFit_refuses hn hu
    rw [h] at he
    cases he
  · obtain ⟨checked', hcheck, hm⟩ := checkFit_answers hu (checkFit_eq_ok_iff.mp h).2.2
    obtain rfl : checked = checked' := Except.ok.inj (h.symm.trans hcheck)
    simp only [Unfit, not_or, not_not] at hu
    exact ⟨hu.2.2.1, hm⟩

theorem Steady.evaluates (hn : net.Steady) (hroom : ∀ l ∈ net.layers, l.Roomy) (hm : net.Matches train)
    (hfits : Buffer.fits train.numClasses = true) (hd : d.Whole) (hc : net.checkCompatible d = .ok ())
    (hne : d.isEmpty = false) : ∃ e, net.evaluate d = .ok e :=
  (hn.infers hroom hm.2 hfits).evaluates hd hc hne

end Network

end Runs

/-- A training run refuses exactly an empty training set, empty batches, and datasets whose shape or classes
are not those of the network; any other failure is a misuse. What it refuses, it refuses before it has done
anything. Wherever a run is, measuring the validation set is not refused, and once a batch was trained on it
answers. -/
theorem Network.fit_refuses {α ρ : Type} [Scalar α] [JsonNumber α] {draw : Initializer α ρ}
    (hdraw : Initializer.Draws draw) {net : Network α} (hn : net.Arises draw) {σ τ : Type} [RandomSource σ]
    (train : Dataset α) (validation : Option (Dataset α)) (hval : ∀ v ∈ validation, v.Whole) (o : Optimizer α)
    (schedule : Schedule) (source : σ) (send : Receiver α τ) (receiver : τ) :
    ((∃ e, e ≠ .misuse ∧ net.fit train validation o schedule source send receiver = .error e) ↔
      train.isEmpty = true ∨ schedule.batchSize = 0 ∨
        ¬ (train.shape = net.inputShape ∧ net.outputSize = .ok train.numClasses) ∨
        ∃ v ∈ validation, v.isEmpty = false ∧ ¬ (v.shape = net.inputShape ∧ net.outputSize = .ok v.numClasses)) ∧
    (∀ e, e ≠ .misuse → net.fit train validation o schedule source send receiver = .error e →
      net.fitDeeds train validation o schedule source send receiver = []) ∧
    ∀ checked, net.checkFit train validation schedule = .ok checked → ∀ ds q,
      Run.Performs send train checked (.start net o source train receiver) ds q → ∀ v ∈ checked,
        (∀ e, q.network.evaluate v = .error e → e = .misuse) ∧
        ((∃ indices, .train indices ∈ ds) → ∃ e, q.network.evaluate v = .ok e) := by
  have hs := hn.steady hdraw
  have hfails : ∀ e, e ≠ .misuse → net.fit train validation o schedule source send receiver = .error e →
      net.Unfit train validation schedule := by
    intro e he hfit
    by_contra hu
    obtain ⟨checked, hm, -, hcheck⟩ := checkFit_of_not_unfit hu
    split at hcheck
    · rw [fit_eq hcheck] at hfit
      exact he (Run.sheer_epochs (r := .start net o source train receiver) hm _ _ e hfit)
    · rw [fit, hcheck] at hfit
      exact he (Except.error.inj hfit).symm
  refine ⟨⟨fun h => ?_, fun hu => ?_⟩, fun e he hfit => ?_, ?_⟩
  · obtain ⟨e, he, hfit⟩ := h
    exact hfails e he hfit
  · obtain ⟨e, he, hcheck⟩ := checkFit_refuses hs hu
    exact ⟨e, he, by rw [fit, hcheck]; rfl⟩
  · obtain ⟨e', -, hcheck⟩ := checkFit_refuses hs (hfails e he hfit)
    rw [fitDeeds, hcheck]
  · intro checked hcheck ds q hq v hv
    obtain ⟨hq', hframe⟩ := hq.invariant (steady_kept net) ⟨hs, .refl net⟩
    obtain ⟨hm, hmeasurable⟩ := matches_of_checkFit hs hcheck
    obtain ⟨hc, hne⟩ := hmeasurable v hv
    have hcq : q.network.checkCompatible v = .ok () := (hframe.checkCompatible v).trans hc
    refine ⟨sheer_evaluate hcq hne, fun htrained => ?_⟩
    obtain ⟨indices, htrained⟩ := htrained
    obtain ⟨hroom, hfits⟩ := hq.given trainBatch_room htrained
    obtain ⟨-, -, hchecked⟩ := checkFit_eq_ok hcheck
    exact hq'.evaluates hroom ⟨hm.1.trans hframe.inputShape.symm, hframe.outputSize.trans hm.2⟩ hfits
      (hval v (hchecked v hv).1) hcq hne

theorem Network.fit_refuses_other_shape : ∃ (net : Network Float) (d v : Dataset Float),
    net.checkCompatible d = .ok () ∧ d.isEmpty = false ∧
      (∃ e, e ≠ .misuse ∧ net.fit d (some v) ⟨.sgd 1 0, 0, #[]⟩ ⟨1, 1, 1, fun _ => 0⟩ (Stream.ofSeed 0)
        Receiver.nobody () = .error e) ∧
      net.fitDeeds d (some v) ⟨.sgd 1 0, 0, #[]⟩ ⟨1, 1, 1, fun _ => 0⟩ (Stream.ofSeed 0) Receiver.nobody () =
        [] := by
  obtain ⟨net, hnet⟩ : ∃ net : Network Float, net = ⟨.flat 1, [.dropout ⟨0.5, .flat 1, #[]⟩,
    .dense ⟨⟨1, 2, Array.replicate 2 1⟩, Buffer.zeros 2, .softmax, .zeros 1 2, Buffer.zeros 2, #[], #[]⟩],
    .categoricalCrossentropy, none⟩ := ⟨_, rfl⟩
  have hbuild : build (fun _ _ n s => .ok (Array.replicate n 1, s))
      ⟨.flat 1, [.dropout 0.5, .dense 2 .softmax], .categoricalCrossentropy⟩ () = .ok (net, ()) := by
    subst hnet
    rfl
  obtain ⟨d, hd⟩ : ∃ d : Dataset Float, d = ⟨.flat 1, #[⟨.flat 1, #[1]⟩], #[1], 2, none⟩ := ⟨_, rfl⟩
  obtain ⟨v, hv⟩ : ∃ v : Dataset Float, v = ⟨.flat 3, #[⟨.flat 3, #[1, 0, 1]⟩], #[0], 2, none⟩ := ⟨_, rfl⟩
  have hwhole : v.Whole := by
    subst hv
    exact ⟨rfl, by simp [Tensor.Sized, Shape.flat, Shape.size], by simp, by decide⟩
  have hshape : v.shape ≠ net.inputShape := by
    subst hv hnet
    decide
  obtain ⟨hiff, hnothing, -⟩ := Network.fit_refuses Initializer.draws_ones (.built hbuild) d (some v)
    (by simpa using hwhole) ⟨.sgd 1 0, 0, #[]⟩ ⟨1, 1, 1, fun _ => 0⟩ (Stream.ofSeed 0) Receiver.nobody ()
  obtain ⟨e, he, hfit⟩ := hiff.mpr (.inr (.inr (.inr ⟨v, rfl, by rw [hv]; rfl, fun h => hshape h.1⟩)))
  refine ⟨net, d, v, ?_, by rw [hd]; rfl, ⟨e, he, hfit⟩, hnothing e he hfit⟩
  subst hd hnet
  rfl

end Convnet
