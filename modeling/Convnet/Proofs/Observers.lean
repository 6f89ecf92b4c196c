import Convnet.Proofs.Refusals

namespace Convnet

structure Run.Same {α σ τ τ' : Type} (r : Run α σ τ) (q : Run α σ τ') : Prop where
  network : q.network = r.network
  optimizer : q.optimizer = r.optimizer
  source : q.source = r.source
  order : q.order = r.order
  loss : q.history.loss = r.history.loss
  accuracy : q.history.accuracy = r.history.accuracy
  going : r.stopped = false ∧ q.stopped = false

section Runs

variable {α : Type} [Scalar α] {σ τ τ' : Type} [RandomSource σ] {schedule schedule' : Schedule}
  {send : Receiver α τ} {send' : Receiver α τ'} {train : Dataset α} {validation validation' : Option (Dataset α)}
  {r : Run α σ τ} {q : Run α σ τ'} {tally : Tally α}

namespace Run

omit [Scalar α] [RandomSource σ] in
theorem Same.tell (h : r.Same q) (hsend : send.Alive) (hsend' : send'.Alive) (e e' : TrainEvent α) :
    (r.tell send e).Same (q.tell send' e') :=
  ⟨h.network, h.optimizer, h.source, h.order, h.loss, h.accuracy,
    by simp [Run.tell, hsend e], by simp [Run.tell, hsend' e']⟩

omit [Scalar α] [RandomSource σ] in
theorem Same.told (h : r.Same q) (hsend : send.Alive) (hsend' : send'.Alive) (e e' : TrainEvent α)
    (due due' : Bool) : (if due then r.tell send e else r).Same (if due' then q.tell send' e' else q) := by
  -- an event that is taken leaves the run as it is, but for its receiver
  have htold : (if due then r.tell send e else r).Same q := by
    cases due with
    | false => exact h
    | true => exact { h with going := ⟨by simp [Run.tell, hsend e], h.going.2⟩ }
  cases due' with
  | false => exact htold
  | true => exact { htold with going := ⟨htold.going.1, by simp [Run.tell, hsend' e']⟩ }

theorem Same.batch (h : r.Same q) (hsend : send.Alive) (hsend' : send'.Alive) {epoch total j : Nat}
    (indices : List Nat) (tally : Tally α) :
    Alike (Beside Same) (r.batch schedule send train epoch total j indices tally)
      (q.batch schedule' send' train epoch total j indices tally) := by
  rw [Run.batch, Run.batch, h.network, h.optimizer, h.source]
  refine Alike.bind_same fun b => ?_
  obtain ⟨net, o, s, one⟩ := b
  have htrained : (r.trained net o s).Same (q.trained net o s) :=
    ⟨rfl, rfl, rfl, h.order, h.loss, h.accuracy, h.going⟩
  have htold := htrained.told hsend hsend' (.batch epoch j total (tally.add one).meanLoss (tally.add one).accuracy)
    (.batch epoch j total (tally.add one).meanLoss (tally.add one).accuracy)
    (batchDue schedule.progressEvery j total) (batchDue schedule'.progressEvery j total)
  dsimp only
  split <;> split <;> rename_i hdue hdue' <;> simp only [hdue, hdue', if_true, Bool.false_eq_true, if_false] at htold <;>
    exact .ok ⟨htold, rfl⟩

theorem Same.batches (h : r.Same q) (hsend : send.Alive) (hsend' : send'.Alive) {epoch total : Nat} (j : Nat)
    (parts : List (List Nat)) (tally : Tally α) :
    Alike (Beside Same) (batches schedule send train epoch total j parts r tally)
      (batches schedule' send' train epoch total j parts q tally) := by
  induction parts generalizing j r q tally with
  | nil => exact .ok ⟨h, rfl⟩
  | cons indices rest ih =>
      rw [Run.batches, Run.batches]
      refine (h.batch hsend hsend' indices tally).bind_beside fun r₁ q₁ tally₁ _ h₁ => ?_
      simp only [h₁.going.1, h₁.going.2, Bool.false_eq_true, if_false]
      exact ih h₁ (j + 1) tally₁

omit [RandomSource σ] in
theorem Same.close (h : r.Same q) (hsend : send.Alive) (hsend' : send'.Alive) (number : Nat) (tally : Tally α)
    (hm : ∃ e, measure validation r.network = .ok e) (hm' : ∃ e, measure validation' r.network = .ok e) :
    Alike Same (r.close schedule send validation number tally) (q.close schedule' send' validation' number tally) := by
  obtain ⟨e, he⟩ := hm
  obtain ⟨e', he'⟩ := hm'
  rw [close_eq_ok.mpr ⟨e, he, rfl⟩, close_eq_ok.mpr ⟨e', h.network ▸ he', rfl⟩]
  have hpushed : ({ r with history := r.history.push (stats schedule number tally e) } : Run α σ τ).Same
      { q with history := q.history.push (stats schedule' number tally e') } := by
    refine ⟨h.network, h.optimizer, h.source, h.order, ?_, ?_, h.going⟩
    · simp only [History.push, stats, h.loss]
    · simp only [History.push, stats, h.accuracy]
  exact .ok (hpushed.tell hsend hsend' _ _)

theorem Same.epoch (h : r.Same q) (hb : schedule'.batchSize = schedule.batchSize) (hsend : send.Alive)
    (hsend' : send'.Alive) {P Q : Network α → Prop} (hP : Network.Kept σ train P) (hQ : Network.Given σ train Q)
    (hm : ∀ net, P net → Q net → ∃ e, measure validation net = .ok e)
    (hm' : ∀ net, P net → Q net → ∃ e, measure validation' net = .ok e) (hr : P r.network)
    (hparts : r.shuffled.parts schedule ≠ []) (number : Nat) :
    Alike Same (r.epoch schedule send train validation number) (q.epoch schedule' send' train validation' number) := by
  have hshuffled : r.shuffled.Same q.shuffled := by
    unfold Run.shuffled
    rw [h.order, h.source]
    exact ⟨h.network, h.optimizer, rfl, rfl, h.loss, h.accuracy, h.going⟩
  have hparts' : q.shuffled.parts schedule' = r.shuffled.parts schedule := by
    rw [parts, parts, hb, hshuffled.order]
  have hcount : schedule'.batchCount train.size = schedule.batchCount train.size := by
    rw [Schedule.batchCount, Schedule.batchCount, hb]
  unfold Run.epoch
  dsimp only
  rw [hparts', hcount]
  refine (hshuffled.batches hsend hsend' 1 _ .zero).bind_beside fun r₁ q₁ tally hr₁ h₁ => ?_
  have hkept := (batches_invariant hP 1 _ .zero (r := r.shuffled) hr).2 r₁ tally hr₁
  have hgiven := batches_given hQ hparts hr₁
  simp only [h₁.going.1, h₁.going.2, Bool.false_eq_true, if_false]
  exact h₁.close hsend hsend' number tally (hm _ hkept hgiven) (hm' _ hkept hgiven)

theorem Same.epochs (h : r.Same q) (hb : schedule'.batchSize = schedule.batchSize) (hpos : 0 < schedule.batchSize)
    (hsend : send.Alive) (hsend' : send'.Alive) {P Q : Network α → Prop} (hP : Network.Kept σ train P)
    (hQ : Network.Given σ train Q) (hm : ∀ net, P net → Q net → ∃ e, measure validation net = .ok e)
    (hm' : ∀ net, P net → Q net → ∃ e, measure validation' net = .ok e) (hr : P r.network)
    (hne : train.isEmpty = false) (hp : r.Permutes train) (n k : Nat) :
    Alike Same (epochs schedule send train validation n k r) (epochs schedule' send' train validation' n k q) := by
  induction n generalizing k r q with
  | zero => exact .ok h
  | succ n ih =>
      rw [Run.epochs, Run.epochs]
      have hparts : r.shuffled.parts schedule ≠ [] := parts_ne_nil (shuffled_permutes hp) hne
      refine (h.epoch hb hsend hsend' hP hQ hm hm' hr hparts k).bind fun r₁ q₁ hone h₁ => ?_
      simp only [h₁.going.1, h₁.going.2, Bool.false_eq_true, if_false]
      exact ih h₁ (epoch_invariant hP hr hone) (epoch_completes hsend hpos h.going.1 hp hone).2 (k + 1)

end Run

end Runs

section Fit

variable {α : Type} [Scalar α] {σ : Type} [RandomSource σ]

namespace Network

theorem forwardLayers_inferring {ls ks : List (Layer α)} {x y : Tensor α} {phase : Phase σ}
    (h : forwardLayers ls x (.infer : Phase σ) = .ok (ks, y, phase)) : ks = ls ∧ phase = .infer := by
  induction ls generalizing x ks with
  | nil =>
      obtain ⟨⟩ := Except.ok.inj h
      exact ⟨rfl, rfl⟩
  | cons l ls ih =>
      obtain ⟨l', x', phase₁, ls', hl, hls, rfl⟩ := forwardLayers_cons.mp h
      obtain ⟨rfl, rfl⟩ := (Layer.passes_of_forward hl).infer
      obtain ⟨rfl, rfl⟩ := ih hls
      exact ⟨rfl, rfl⟩

variable {net : Network α} {train : Dataset α} {checked : Option (Dataset α)}

/-- Whether a validation set leaves a run to go on: it matches the network, or it is empty. -/
def Bears (net : Network α) (validation : Option (Dataset α)) : Prop :=
  ∀ v ∈ validation, v.isEmpty = true ∨ v.Whole ∧ net.checkCompatible v = .ok ()

omit [Scalar α] in
theorem Bears.checkFit {validation : Option (Dataset α)} {schedule : Schedule} (h : net.Bears validation)
    (hm : net.Matches train) (hne : train.isEmpty = false) (hb : 0 < schedule.batchSize) :
    ∃ checked, Run.Measurable checked net ∧ (∀ v ∈ checked, v.Whole) ∧
      net.checkFit train validation schedule =
        if schedule.counts train.size then .ok checked else .error .misuse := by
  have hfit : ¬ net.Unfit train validation schedule := by
    rintro (hempty | hzero | hno | ⟨v, hv, hvne, hvm⟩)
    · simp [hne] at hempty
    · omega
    · exact hno hm
    · rcases h v hv with hve | ⟨-, hc⟩
      · simp [hvne] at hve
      · exact hvm (checkCompatible_eq_ok.mp hc)
  obtain ⟨checked, hmeasurable, hchecked, hcheck⟩ := checkFit_of_not_unfit hfit
  refine ⟨checked, hmeasurable, fun v hv => ?_, hcheck⟩
  obtain ⟨hmem, hvne⟩ := hchecked v hv
  exact ((h v hmem).resolve_left (by simp [hvne])).1

theorem Steady.measures (hn : net.Steady) (hroom : ∀ l ∈ net.layers, l.Roomy) (hm : net.Matches train)
    (hfits : Buffer.fits train.numClasses = true) (hc : Run.Measurable checked net)
    (hw : ∀ v ∈ checked, v.Whole) : ∃ e, Run.measure checked net = .ok e := by
  cases checked with
  | none => exact ⟨none, rfl⟩
  | some v =>
      obtain ⟨hvc, hne⟩ := hc v rfl
      obtain ⟨e, he⟩ := hn.evaluates hroom hm hfits (hw v rfl) hvc hne
      exact ⟨some e, bind_eq_ok.mpr ⟨e, he, rfl⟩⟩

end Network

end Fit

/-- Watching a training run makes no difference to it. With whatever validation sets it is measured on and
whichever events are sent to receivers that take them, it ends with the same network, optimizer and training
curves, or it fails in the same way. A pass in inference leaves the network and its phase as they were. -/
theorem Network.fit_unobserved {α ρ : Type} [Scalar α] [JsonNumber α] {draw : Initializer α ρ}
    (hdraw : Initializer.Draws draw) {net : Network α} (hn : net.Arises draw) {σ τ τ' : Type} [RandomSource σ]
    {train : Dataset α} (hc : net.checkCompatible train = .ok ()) (hne : train.isEmpty = false)
    {schedule schedule' : Schedule} (hpos : 0 < schedule.batchSize)
    (hb : schedule'.batchSize = schedule.batchSize) (he : schedule'.epochs = schedule.epochs)
    {validation validation' : Option (Dataset α)} (hv : net.Bears validation) (hv' : net.Bears validation')
    {send : Receiver α τ} {send' : Receiver α τ'} (hsend : send.Alive) (hsend' : send'.Alive)
    (o : Optimizer α) (source : σ) (receiver : τ) (receiver' : τ') :
    Alike (fun run run' => run'.network = run.network ∧ run'.optimizer = run.optimizer ∧
        run'.history.loss = run.history.loss ∧ run'.history.accuracy = run.history.accuracy)
      (net.fit train validation o schedule source send receiver)
      (net.fit train validation' o schedule' source send' receiver') ∧
    ∀ (k net' : Network α) (x : Tensor α) (out : Array α) (phase : Phase σ),
      k.forward x (.infer : Phase σ) = .ok (net', out, phase) → net' = k ∧ phase = .infer := by
  have hs := hn.steady hdraw
  have hm : net.Matches train := checkCompatible_eq_ok.mp hc
  obtain ⟨checked, hmeasurable, hwhole, hcheck⟩ := hv.checkFit hm hne hpos
  obtain ⟨checked', hmeasurable', hwhole', hcheck'⟩ := hv'.checkFit hm hne (hb ▸ hpos)
  have hcounts : schedule'.counts train.size = schedule.counts train.size := by
    rw [Schedule.counts, Schedule.counts, hb]
  rw [hcounts] at hcheck'
  refine ⟨?_, fun k net' x out phase h => ?_⟩
  · have hanswers : ∀ checked : Option (Dataset α), Run.Measurable checked net → (∀ v ∈ checked, v.Whole) →
        ∀ k : Network α, k.Steady ∧ Frame net k →
          (∀ l ∈ k.layers, l.Roomy) ∧ Buffer.fits train.numClasses = true →
          ∃ e, Run.measure checked k = .ok e := by
      rintro checked hmeasurable hwhole k ⟨hk, hframe⟩ ⟨hroom, hfits⟩
      refine hk.measures hroom ⟨hm.1.trans hframe.inputShape.symm, hframe.outputSize.trans hm.2⟩ hfits ?_ hwhole
      exact fun v hv => ⟨(hframe.checkCompatible v).trans (hmeasurable v hv).1, (hmeasurable v hv).2⟩
    have hstart : (Run.start net o source train receiver).Same (Run.start net o source train receiver') :=
      ⟨rfl, rfl, rfl, rfl, rfl, rfl, rfl, rfl⟩
    have hsame := hstart.epochs hb hpos hsend hsend' (steady_kept net) trainBatch_room
      (hanswers checked hmeasurable hwhole)
      (hanswers checked' hmeasurable' hwhole') ⟨hs, .refl net⟩ hne (Run.start_permutes net o source train receiver)
      schedule.epochs 1
    cases hcount : schedule.counts train.size with
    | true =>
        rw [hcount] at hcheck hcheck'
        rw [fit_eq hcheck, fit_eq hcheck', he]
        exact hsame.mono fun run run' h => ⟨h.network, h.optimizer, h.loss, h.accuracy⟩
    | false =>
        rw [hcount] at hcheck hcheck'
        rw [fit, fit, hcheck, hcheck']
        exact .error _
  · obtain ⟨ls, y, hls, rfl, rfl⟩ := forward_eq_ok.mp h
    obtain ⟨rfl, rfl⟩ := forwardLayers_inferring hls
    exact ⟨rfl, rfl⟩

theorem Network.fit_unobserved_small : ∃ (net : Network Float) (d : Dataset Float) (run : Run Float Stream Unit)
    (run' : Run Float Stream (List (TrainEvent Float))),
    net.fit d none ⟨.sgd 1 0, 0, #[]⟩ ⟨2, 1, 0, fun _ => 0⟩ (.ofSeed 0) .nobody () = .ok run ∧
      net.fit d (some d) ⟨.sgd 1 0, 0, #[]⟩ ⟨2, 1, 1, fun _ => 0⟩ (.ofSeed 0) (fun e t => (true, t ++ [e])) [] =
        .ok run' ∧
      run'.network = run.network ∧ run'.history.loss = run.history.loss := by
  obtain ⟨net, hnet⟩ : ∃ net : Network Float, net = ⟨.flat 1, [.dropout ⟨0.5, .flat 1, #[]⟩,
    .dense ⟨⟨1, 2, Array.replicate 2 1⟩, Buffer.zeros 2, .softmax, .zeros 1 2, Buffer.zeros 2, #[], #[]⟩],
    .categoricalCrossentropy, none⟩ := ⟨_, rfl⟩
  obtain ⟨m, hm⟩ : ∃ m : ModelSpec Float,
    m = ⟨.flat 1, [.dropout 0.5, .dense 2 .softmax], .categoricalCrossentropy⟩ := ⟨_, rfl⟩
  have hbuild : build (fun _ _ n s => .ok (Array.replicate n 1, s)) m () = .ok (net, ()) := by
    subst hm hnet
    rfl
  obtain ⟨d, hd⟩ : ∃ d : Dataset Float, d = ⟨.flat 1, #[⟨.flat 1, #[1]⟩], #[1], 2, none⟩ := ⟨_, rfl⟩
  have hc : net.checkCompatible d = .ok () := by
    subst hd hnet
    rfl
  have hw : d.Whole := by
    subst hd
    exact ⟨rfl, by simp [Tensor.Sized, Shape.flat, Shape.size], by simp, by decide⟩
  have hne : d.isEmpty = false := by rw [hd]; rfl
  have hval : m.validate = .ok [.flat 1, .flat 2] := by
    subst hm
    rfl
  have hf : m.Storable [.flat 1, .flat 2] := by
    subst hm
    exact ⟨by decide, by decide⟩
  have hroom : Optimizer.rowBytes * net.parameters.length < Nat.pow 2 63 := by
    subst hnet
    decide
  let schedule : Schedule := ⟨2, 1, 0, fun _ => 0⟩
  let schedule' : Schedule := ⟨2, 1, 1, fun _ => 0⟩
  have hpos : 0 < schedule.batchSize := Nat.one_pos
  have hbatch : schedule'.batchSize = schedule.batchSize := rfl
  have hnone : ∀ v ∈ (none : Option (Dataset Float)), v.Suits net ∧ v.isEmpty = false := by simp
  have hbears : net.Bears none := by simp [Bears]
  have hbears' : net.Bears (some d) := by
    rintro _ ⟨⟩
    exact .inr ⟨hw, hc⟩
  have hsend : (Receiver.nobody : Receiver Float Unit).Alive := fun _ _ => rfl
  have hsend' : Receiver.Alive fun (e : TrainEvent Float) t => (true, t ++ [e]) := fun _ _ => rfl
  have hcheck : net.checkFit d none schedule = .ok none :=
    checkFit_eq_ok_iff.mpr ⟨⟨hne, hpos.ne', hc⟩, rfl, by rw [hd]; rfl⟩
  obtain ⟨run, hrun⟩ := Network.fit_answers (ModelSpec.valid_of_validate hval)
    (build_realizes Initializer.draws_ones hbuild) hf hroom ⟨hc, hw.labels, hw.images, hw.classes⟩ hnone
    ⟨.sgd 1 0, 0, #[]⟩ (Stream.ofSeed 0) ()
  have hfit : net.fit d none ⟨.sgd 1 0, 0, #[]⟩ schedule (.ofSeed 0) .nobody () = .ok run := by
    rw [fit_eq hcheck]
    exact hrun
  obtain ⟨hsame, -⟩ := Network.fit_unobserved Initializer.draws_ones (.built hbuild) hc hne hpos hbatch rfl hbears
    hbears' hsend hsend' ⟨.sgd 1 0, 0, #[]⟩ (Stream.ofSeed 0) () []
  rw [hfit] at hsame
  generalize hfit' : net.fit d (some d) ⟨.sgd 1 0, 0, #[]⟩ schedule' (Stream.ofSeed 0)
    (fun e t => (true, t ++ [e])) [] = result at hsame
  cases hsame with
  | ok h => exact ⟨net, d, run, _, hfit, hfit', h.1, h.2.2.1⟩

end Convnet
