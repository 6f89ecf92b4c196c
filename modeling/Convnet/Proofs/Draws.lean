import Convnet.Proofs.Refusals

namespace Convnet

section Plan

variable {α : Type} [Scalar α] {σ : Type} [RandomSource σ]

def drawMasks : List (α × Nat) → σ → List (Array α) × σ
  | [], s => ([], s)
  | (rate, n) :: ds, s =>
    let (mask, s) := Dropout.drawMask rate n s
    let (masks, s) := drawMasks ds s
    (mask :: masks, s)

def drawSamples (ds : List (α × Nat)) : List Nat → σ → List (Nat × List (Array α)) × σ
  | [], s => ([], s)
  | i :: is, s =>
    let (masks, s) := drawMasks ds s
    let (rest, s) := drawSamples ds is s
    ((i, masks) :: rest, s)

/-- The same over so many epochs, before each of which the order is shuffled further. -/
def drawEpochs (ds : List (α × Nat)) : Nat → Array Nat → σ → List (Nat × List (Array α))
  | 0, _, _ => []
  | n + 1, order, s =>
    let (order, s) := RandomSource.shuffle order s
    let (drawn, s) := drawSamples ds order.toList s
    drawn ++ drawEpochs ds n order s

theorem drawSamples_append (ds : List (α × Nat)) (is js : List Nat) (s : σ) :
    drawSamples ds (is ++ js) s =
      ((drawSamples ds is s).1 ++ (drawSamples ds js (drawSamples ds is s).2).1,
        (drawSamples ds js (drawSamples ds is s).2).2) := by
  induction is generalizing s with
  | nil => rfl
  | cons i is ih => simp only [List.cons_append, drawSamples, ih]

end Plan

section Trace

variable {α : Type}

def Layer.dropout? : Layer α → Option (α × Nat)
  | dropout l => some (l.rate, l.shape.size)
  | _ => none

def Layer.mask? : Layer α → Option (Array α)
  | dropout l => some l.mask
  | _ => none

namespace Network

/-- The rates of the dropout layers and the numbers of values that they draw for, in order. -/
def dropouts (net : Network α) : List (α × Nat) := net.layers.filterMap Layer.dropout?

def masks (net : Network α) : List (Array α) := net.layers.filterMap Layer.mask?

variable [Scalar α] {σ : Type} [RandomSource σ]

def sampleDraws (d : Dataset α) : List Nat → Network α → σ → List (Nat × List (Array α))
  | [], _, _ => []
  | i :: is, net, s =>
    match trainSamples d [i] net s .zero with
    | .error _ => []
    | .ok (net', s', _) => (i, net'.masks) :: sampleDraws d is net' s'

end Network

namespace Run

variable [Scalar α] {σ τ : Type} [RandomSource σ] (schedule : Schedule) (send : Receiver α τ) (train : Dataset α)
  (validation : Option (Dataset α))

def batchDraws (epoch total : Nat) :
    Nat → List (List Nat) → Run α σ τ → Tally α → List (Nat × List (Array α))
  | _, [], _, _ => []
  | j, indices :: rest, r, tally =>
    Network.sampleDraws train indices r.network r.source ++
      match r.batch schedule send train epoch total j indices tally with
      | .error _ => []
      | .ok (r', tally') => if r'.stopped then [] else batchDraws epoch total (j + 1) rest r' tally'

def epochDraws : Nat → Nat → Run α σ τ → List (Nat × List (Array α))
  | 0, _, _ => []
  | n + 1, k, r =>
    batchDraws schedule send train k (schedule.batchCount train.size) 1 (r.shuffled.parts schedule) r.shuffled
        .zero ++
      match r.epoch schedule send train validation k with
      | .error _ => []
      | .ok r' => if r'.stopped then [] else epochDraws n (k + 1) r'

end Run

/-- The samples that a training run trains on, up to where it fails if it does, each with the masks that were
drawn for it. -/
def Network.fitDraws [Scalar α] {σ τ : Type} [RandomSource σ] (net : Network α) (train : Dataset α)
    (validation : Option (Dataset α)) (o : Optimizer α) (schedule : Schedule) (source : σ) (send : Receiver α τ)
    (receiver : τ) : List (Nat × List (Array α)) :=
  match net.checkFit train validation schedule with
  | .error _ => []
  | .ok v => Run.epochDraws schedule send train v schedule.epochs 1 (.start net o source train receiver)

end Trace

section Passes

variable {α : Type}

namespace Layer

theorem dropout?_frame (l : Layer α) : l.frame.dropout? = l.dropout? := by cases l <;> rfl

variable [Scalar α] {σ : Type} [RandomSource σ] {l l' : Layer α} {x y g b : Tensor α} {s : σ} {phase : Phase σ}

theorem Passes.draws (h : l.Passes x (.train s) l' y phase) (hx : x.data.size = l.inputShape.size) :
    (l.dropout? = none ∧ l'.mask? = none ∧ phase = .train s) ∨
      ∃ rate n, l.dropout? = some (rate, n) ∧ l'.mask? = some (Dropout.drawMask rate n s).1 ∧
        phase = .train (Dropout.drawMask rate n s).2 := by
  cases h with
  | drop l =>
      have hn : x.data.size = l.shape.size := hx
      exact .inr ⟨l.rate, l.shape.size, rfl, by rw [← hn]; rfl, by rw [← hn]⟩
  | conv | pool | flatten | dense | pointwise => exact .inl ⟨rfl, rfl, rfl⟩

omit [RandomSource σ] in
theorem PassesBack.mask? (h : l.PassesBack g l' b) : l'.mask? = l.mask? := by cases h <;> rfl

end Layer

namespace Network

variable [Scalar α] {σ : Type} [RandomSource σ]

theorem forwardLayers_draws {shape : Shape} {ls ks : List (Layer α)} {x y : Tensor α} {s : σ} {phase : Phase σ}
    (h : forwardLayers ls x (.train s) = .ok (ks, y, phase)) (hc : Chained shape ls) (hx : x.shape = shape)
    (hs : x.Sized) :
    ks.filterMap Layer.mask? = (drawMasks (ls.filterMap Layer.dropout?) s).1 ∧
      phase = .train (drawMasks (ls.filterMap Layer.dropout?) s).2 := by
  induction ls generalizing shape x s ks with
  | nil =>
      obtain ⟨⟩ := Except.ok.inj h
      exact ⟨rfl, rfl⟩
  | cons l ls ih =>
      obtain ⟨l', x', phase₁, ls', hl, hls, rfl⟩ := forwardLayers_cons.mp h
      obtain ⟨hi, -, -, hc⟩ := hc
      have hxl : x.shape = l.inputShape := hx.trans hi.symm
      have hp := Layer.passes_of_forward hl
      rcases hp.draws (hxl ▸ hs) with ⟨hd, hm, rfl⟩ | ⟨rate, n, hd, hm, rfl⟩
      · rw [List.filterMap_cons_none hd, List.filterMap_cons_none hm]
        exact ih hls hc (hp.shape hxl) (hp.sized hs)
      · obtain ⟨hmasks, hphase⟩ := ih hls hc (hp.shape hxl) (hp.sized hs)
        rw [List.filterMap_cons_some hd, List.filterMap_cons_some hm]
        exact ⟨congrArg _ hmasks, hphase⟩

omit [RandomSource σ] in
theorem backwardLayers_masks {ls ks : List (Layer α)} {g b : Tensor α} (h : backwardLayers ls g = .ok (ks, b)) :
    ks.filterMap Layer.mask? = ls.filterMap Layer.mask? := by
  induction ls generalizing ks b with
  | nil =>
      obtain ⟨⟩ := Except.ok.inj h
      rfl
  | cons l ls ih =>
      obtain ⟨ls', g', l', hls, hl, rfl⟩ := backwardLayers_cons.mp h
      have hm := (Layer.passesBack_of_backward hl).mask?
      rw [List.filterMap_cons, List.filterMap_cons, hm, ih hls]

variable {net net' : Network α} {d : Dataset α} {s s' : σ} {t t' : Tally α} {ds : List (α × Nat)}

omit [Scalar α] [RandomSource σ] in
theorem Frame.dropouts (h : Frame net net') : net'.dropouts = net.dropouts := by
  have hmap : ∀ ls : List (Layer α), ls.filterMap Layer.dropout? =
      (ls.map Layer.frame).filterMap Layer.dropout? := by
    intro ls
    simp [List.filterMap_map, Layer.dropout?_frame]
  rw [Network.dropouts, Network.dropouts, hmap, h.layers, ← hmap]

theorem trainSample_draws (hn : net.Steady) {image : Tensor α} {label : Nat} {target : Array α}
    (hx : image.shape = net.inputShape) (hs : image.Sized)
    (h : net.trainSample image label target s = .ok (net', s', t)) :
    net'.masks = (drawMasks net.dropouts s).1 ∧ s' = (drawMasks net.dropouts s).2 := by
  obtain ⟨mid, out, phase, hfor, hback, rfl, -⟩ := trainSample_eq_ok.mp h
  obtain ⟨ls, y, hls, rfl, rfl⟩ := forward_eq_ok.mp hfor
  obtain ⟨ks, b, hks, rfl⟩ := backward_eq_ok.mp hback
  obtain ⟨hmasks, rfl⟩ := forwardLayers_draws hls hn.chained hx hs
  exact ⟨(backwardLayers_masks hks).trans hmasks, rfl⟩

structure Drops (d : Dataset α) (ds : List (α × Nat)) (net : Network α) : Prop where
  steady : net.Steady
  shape : d.shape = net.inputShape
  dropouts : net.dropouts = ds

omit [Scalar α] in
theorem Drops.frame (h : Drops d ds net) (hn : net'.Steady) (hframe : Frame net net') : Drops d ds net' :=
  ⟨hn, h.shape.trans hframe.inputShape.symm, hframe.dropouts.trans h.dropouts⟩

theorem drops_kept : Kept σ d (Drops d ds) := fun _ _ _ _ _ _ _ _ h hone =>
  h.frame (h.steady.trainBatch hone) (trainBatch_frame hone)

theorem Drops.trainSamples (h : Drops d ds net) {is : List Nat}
    (hone : Network.trainSamples d is net s t = .ok (net', s', t')) : Drops d ds net' :=
  h.frame (h.steady.trainSamples hone) (trainSamples_retains hone).1.toTwins.frame

theorem Drops.one (h : Drops d ds net) (hw : d.Whole) {i : Nat}
    (hone : Network.trainSamples d [i] net s t = .ok (net', s', t')) :
    net'.masks = (drawMasks ds s).1 ∧ s' = (drawMasks ds s).2 := by
  obtain ⟨label, target, image, net₁, s₁, one, -, -, hi, hsample, hrest⟩ := trainSamples_cons.mp hone
  obtain ⟨⟩ := Except.ok.inj hrest
  obtain ⟨hshape, hsized⟩ := hw.images image (Array.mem_of_getElem? hi)
  rw [← h.dropouts]
  exact trainSample_draws h.steady (hshape.trans h.shape) hsized hsample

theorem sampleDraws_cons {i : Nat} {is : List Nat} (h : trainSamples d [i] net s .zero = .ok (net', s', t)) :
    sampleDraws d (i :: is) net s = (i, net'.masks) :: sampleDraws d is net' s' := by
  rw [sampleDraws, h]

/-- What was drawn when the samples of a batch fail is the first part of what would have been drawn. -/
theorem Drops.front (h : Drops d ds net) (hw : d.Whole) (is : List Nat) :
    sampleDraws d is net s <+: (drawSamples ds is s).1 := by
  induction is generalizing net s with
  | nil => exact List.nil_prefix
  | cons i is ih =>
      cases hone : Network.trainSamples d [i] net s .zero with
      | error e =>
          rw [sampleDraws, hone]
          exact List.nil_prefix
      | ok r =>
          obtain ⟨net₁, s₁, t₁⟩ := r
          obtain ⟨hmasks, rfl⟩ := h.one hw hone
          rw [sampleDraws_cons hone, hmasks]
          exact List.prefix_cons_inj _ |>.mpr (ih (h.trainSamples hone))

theorem Drops.samples (h : Drops d ds net) (hw : d.Whole) {is : List Nat}
    (hrun : Network.trainSamples d is net s t = .ok (net', s', t')) :
    sampleDraws d is net s = (drawSamples ds is s).1 ∧ s' = (drawSamples ds is s).2 := by
  induction is generalizing net s t with
  | nil =>
      obtain ⟨⟩ := Except.ok.inj hrun
      exact ⟨rfl, rfl⟩
  | cons i is ih =>
      obtain ⟨label, target, image, net₁, s₁, one, hl, ht, hi, hsample, hrest⟩ := trainSamples_cons.mp hrun
      have hone : Network.trainSamples d [i] net s .zero = .ok (net₁, s₁, Tally.zero.add one) :=
        trainSamples_cons.mpr ⟨label, target, image, net₁, s₁, one, hl, ht, hi, hsample, rfl⟩
      obtain ⟨hmasks, rfl⟩ := h.one hw hone
      obtain ⟨hdraws, rfl⟩ := ih (h.trainSamples hone) hrest
      rw [sampleDraws_cons hone, hmasks, hdraws]
      exact ⟨rfl, rfl⟩

end Network

end Passes

section Runs

variable {α : Type} [Scalar α] {σ τ : Type} [RandomSource σ] {schedule : Schedule} {send : Receiver α τ}
  {train : Dataset α} {validation : Option (Dataset α)} {r r' : Run α σ τ} {ds : List (α × Nat)}

namespace Run

theorem batches_draws (schedule : Schedule) (hsend : send.Alive) (hw : train.Whole) (hr : r.stopped = false)
    (hn : Network.Drops train ds r.network) (epoch total j : Nat) (parts : List (List Nat)) (tally : Tally α) :
    batchDraws schedule send train epoch total j parts r tally <+: (drawSamples ds parts.flatten r.source).1 ∧
      ∀ r' tally', batches schedule send train epoch total j parts r tally = .ok (r', tally') →
        batchDraws schedule send train epoch total j parts r tally = (drawSamples ds parts.flatten r.source).1 ∧
          r'.source = (drawSamples ds parts.flatten r.source).2 := by
  induction parts generalizing j r tally with
  | nil =>
      refine ⟨List.nil_prefix, fun r' tally' h => ?_⟩
      obtain ⟨⟩ := Except.ok.inj h
      exact ⟨rfl, rfl⟩
  | cons indices rest ih =>
      rw [List.flatten_cons, drawSamples_append]
      cases hone : r.batch schedule send train epoch total j indices tally with
      | error e =>
          rw [batchDraws, hone]
          refine ⟨?_, fun r' tally' h => ?_⟩
          · rw [List.append_nil]
            exact (hn.front hw indices).trans (List.prefix_append _ _)
          · obtain ⟨r₁, tally₁, h₁, -⟩ := batches_cons.mp h
            rw [hone] at h₁
            cases h₁
      | ok b =>
          obtain ⟨r₁, tally₁⟩ := b
          obtain ⟨ts, mid, hbatch, -, -, -, -, hstop, -⟩ := batch_alive hsend hr hone
          obtain ⟨-, mid, hrun, -⟩ := Network.trainBatch_eq_ok.mp hbatch
          obtain ⟨hdraws, hsource⟩ := hn.samples hw hrun
          obtain ⟨hfront, hall⟩ := ih hstop (Network.drops_kept _ _ _ _ _ _ _ _ hn hbatch) (j + 1) tally₁
          rw [batchDraws, hone, hdraws, ← hsource]
          simp only [hstop, Bool.false_eq_true, if_false]
          refine ⟨(List.prefix_append_right_inj _).mpr hfront, fun r' tally' h => ?_⟩
          obtain ⟨r₂, tally₂, h₂, h⟩ := batches_cons.mp h
          obtain ⟨⟩ := Except.ok.inj (hone.symm.trans h₂)
          rw [hstop] at h
          obtain ⟨hrest, hs⟩ := hall r' tally' h
          exact ⟨congrArg _ hrest, hs⟩

omit [Scalar α] [RandomSource σ] in
theorem flatten_parts (r : Run α σ τ) : (r.parts schedule).flatten = r.order.toList :=
  flatten_pieces schedule.batchSize r.order.toList

theorem epoch_draws (hsend : send.Alive) (hw : train.Whole) (hr : r.stopped = false)
    (hn : Network.Drops train ds r.network) {number : Nat}
    (h : r.epoch schedule send train validation number = .ok r') :
    batchDraws schedule send train number (schedule.batchCount train.size) 1 (r.shuffled.parts schedule) r.shuffled
        .zero = (drawSamples ds r.shuffled.order.toList r.shuffled.source).1 ∧
      r'.source = (drawSamples ds r.shuffled.order.toList r.shuffled.source).2 ∧
      r'.order = r.shuffled.order ∧ r'.stopped = false := by
  obtain ⟨r₁, tally, hrun, h⟩ := epoch_eq_ok.mp h
  obtain ⟨-, hall⟩ := batches_draws (r := r.shuffled) schedule hsend hw hr hn number
    (schedule.batchCount train.size) 1 (r.shuffled.parts schedule) .zero
  obtain ⟨hdraws, hsource⟩ := hall r₁ tally hrun
  obtain ⟨-, -, -, horder, -, hstop, -⟩ := batches_alive (r := r.shuffled) hsend hr 1 _ hrun
  rw [flatten_parts] at hdraws hsource
  rw [hstop] at h
  obtain ⟨measured, -, rfl⟩ := close_eq_ok.mp h
  exact ⟨hdraws, hsource, horder, by simp [Run.tell, hsend _]⟩

theorem epochs_draws (hsend : send.Alive) (hw : train.Whole) (hr : r.stopped = false)
    (hn : Network.Drops train ds r.network) (n k : Nat) :
    epochDraws schedule send train validation n k r <+: drawEpochs ds n r.order r.source ∧
      ∀ r', epochs schedule send train validation n k r = .ok r' →
        epochDraws schedule send train validation n k r = drawEpochs ds n r.order r.source := by
  induction n generalizing k r with
  | zero => exact ⟨List.nil_prefix, fun _ _ => rfl⟩
  | succ n ih =>
      have hplan : drawEpochs ds (n + 1) r.order r.source =
          (drawSamples ds r.shuffled.order.toList r.shuffled.source).1 ++ drawEpochs ds n r.shuffled.order
            (drawSamples ds r.shuffled.order.toList r.shuffled.source).2 := rfl
      rw [hplan, epochDraws]
      cases hone : r.epoch schedule send train validation k with
      | error e =>
          obtain ⟨hfront, -⟩ := batches_draws (r := r.shuffled) schedule hsend hw hr hn k
            (schedule.batchCount train.size) 1 (r.shuffled.parts schedule) .zero
          rw [flatten_parts] at hfront
          refine ⟨?_, fun r' h => ?_⟩
          · rw [List.append_nil]
            exact hfront.trans (List.prefix_append _ _)
          · obtain ⟨r₁, h₁, -⟩ := epochs_succ.mp h
            rw [hone] at h₁
            cases h₁
      | ok r₁ =>
          obtain ⟨hdraws, hsource, horder, hstop⟩ := epoch_draws hsend hw hr hn hone
          obtain ⟨hfront, hall⟩ := ih hstop (epoch_invariant Network.drops_kept hn hone) (k + 1)
          rw [hdraws, ← hsource, ← horder]
          simp only [hstop, Bool.false_eq_true, if_false]
          refine ⟨(List.prefix_append_right_inj _).mpr hfront, fun r' h => ?_⟩
          obtain ⟨r₂, h₂, h⟩ := epochs_succ.mp h
          obtain ⟨⟩ := Except.ok.inj (hone.symm.trans h₂)
          rw [hstop] at h
          exact congrArg _ (hall r' h)

end Run

theorem Network.Steady.fitDraws {net : Network α} {checked : Option (Dataset α)} (hn : net.Steady) (hw : train.Whole)
    (hcheck : net.checkFit train validation schedule = .ok checked) (hsend : send.Alive) (o : Optimizer α) (source : σ)
    (receiver : τ) :
    net.fitDraws train validation o schedule source send receiver <+:
        drawEpochs net.dropouts schedule.epochs (Array.range train.size) source ∧
      ∀ run, net.fit train validation o schedule source send receiver = .ok run →
        net.fitDraws train validation o schedule source send receiver =
          drawEpochs net.dropouts schedule.epochs (Array.range train.size) source := by
  obtain ⟨hm, -⟩ := matches_of_checkFit hn hcheck
  rw [Network.fitDraws, hcheck, fit_eq hcheck]
  exact Run.epochs_draws (r := .start net o source train receiver) hsend hw rfl ⟨hn, hm.1, rfl⟩ schedule.epochs 1

end Runs

/-- Two training runs with the same source, on as many samples, for as many epochs, of networks with the same
dropout layers, train on the same samples in the same order, and every pass draws the same masks, whatever the
batches, the images and labels, the other layers, the parameters, the losses, the optimizers, the validation
sets and the receivers are. A run that fails for want of room has drawn the first part of it. -/
theorem Network.fit_draws_alike {α ρ ρ' : Type} [Scalar α] [JsonNumber α] {draw : Initializer α ρ}
    {draw' : Initializer α ρ'} (hdraw : Initializer.Draws draw) (hdraw' : Initializer.Draws draw')
    {net net' : Network α} (hn : net.Arises draw) (hn' : net'.Arises draw') {σ τ τ' : Type} [RandomSource σ]
    {train train' : Dataset α} (hw : train.Whole) (hw' : train'.Whole)
    {validation validation' checked checked' : Option (Dataset α)} {schedule schedule' : Schedule}
    (hcheck : net.checkFit train validation schedule = .ok checked)
    (hcheck' : net'.checkFit train' validation' schedule' = .ok checked') {send : Receiver α τ}
    {send' : Receiver α τ'} (hsend : send.Alive) (hsend' : send'.Alive) (hdropouts : net'.dropouts = net.dropouts)
    (hsize : train'.size = train.size) (hepochs : schedule'.epochs = schedule.epochs) (o o' : Optimizer α)
    (source : σ) (receiver : τ) (receiver' : τ') :
    ∃ plan, plan = drawEpochs net.dropouts schedule.epochs (Array.range train.size) source ∧
      net.fitDraws train validation o schedule source send receiver <+: plan ∧
      net'.fitDraws train' validation' o' schedule' source send' receiver' <+: plan ∧
      (∀ run, net.fit train validation o schedule source send receiver = .ok run →
        net.fitDraws train validation o schedule source send receiver = plan) ∧
      ∀ run', net'.fit train' validation' o' schedule' source send' receiver' = .ok run' →
        net'.fitDraws train' validation' o' schedule' source send' receiver' = plan := by
  obtain ⟨hfront, hall⟩ := (hn.steady hdraw).fitDraws hw hcheck hsend o source receiver
  obtain ⟨hfront', hall'⟩ := (hn'.steady hdraw').fitDraws hw' hcheck' hsend' o' source receiver'
  rw [hdropouts, hepochs, hsize] at hfront' hall'
  exact ⟨_, rfl, hfront, hfront', hall, hall'⟩

theorem Network.fit_draws_alike_small : ∃ (net net' : Network Float) (d d' : Dataset Float)
    (plan : List (Nat × List (Array Float))), net.layers.length ≠ net'.layers.length ∧ d.labels ≠ d'.labels ∧
      plan = drawEpochs [(0.5, 1)] 2 (Array.range 2) (Stream.ofSeed 0) ∧
      net.fitDraws d none ⟨.sgd 1 0, 0, #[]⟩ ⟨2, 1, 0, fun _ => 0⟩ (Stream.ofSeed 0) Receiver.nobody () <+: plan ∧
      net'.fitDraws d' (some d') ⟨.rmsprop 1, 0, #[]⟩ ⟨2, 2, 1, fun _ => 0⟩ (Stream.ofSeed 0)
        (fun e t => (true, t ++ [e])) ([] : List (TrainEvent Float)) <+: plan := by
  obtain ⟨net, hnet⟩ : ∃ net : Network Float, net = ⟨.flat 1, [.dropout ⟨0.5, .flat 1, #[]⟩,
    .dense ⟨⟨1, 2, Array.replicate 2 1⟩, Buffer.zeros 2, .softmax, .zeros 1 2, Buffer.zeros 2, #[], #[]⟩],
    .categoricalCrossentropy, none⟩ := ⟨_, rfl⟩
  obtain ⟨net', hnet'⟩ : ∃ net' : Network Float, net' = ⟨.flat 1, [.pointwise ⟨.relu, .flat 1, #[]⟩,
    .dropout ⟨0.5, .flat 1, #[]⟩,
    .dense ⟨⟨1, 3, Array.replicate 3 1⟩, Buffer.zeros 3, .linear, .zeros 1 3, Buffer.zeros 3, #[], #[]⟩],
    .mse, none⟩ := ⟨_, rfl⟩
  have hbuild : build (fun _ _ n s => .ok (Array.replicate n 1, s))
      ⟨.flat 1, [.dropout 0.5, .dense 2 .softmax], .categoricalCrossentropy⟩ () = .ok (net, ()) := by
    subst hnet
    rfl
  have hbuild' : build (fun _ _ n s => .ok (Array.replicate n 1, s))
      ⟨.flat 1, [.pointwise .relu, .dropout 0.5, .dense 3 .linear], .mse⟩ () = .ok (net', ()) := by
    subst hnet'
    rfl
  obtain ⟨d, hd⟩ : ∃ d : Dataset Float,
    d = ⟨.flat 1, #[⟨.flat 1, #[1]⟩, ⟨.flat 1, #[0]⟩], #[1, 0], 2, none⟩ := ⟨_, rfl⟩
  obtain ⟨d', hd'⟩ : ∃ d' : Dataset Float,
    d' = ⟨.flat 1, #[⟨.flat 1, #[0]⟩, ⟨.flat 1, #[0]⟩], #[2, 2], 3, none⟩ := ⟨_, rfl⟩
  have hw : d.Whole := by
    subst hd
    exact ⟨rfl, by simp [Tensor.Sized, Shape.flat, Shape.size], by simp, by decide⟩
  have hw' : d'.Whole := by
    subst hd'
    exact ⟨rfl, by simp [Tensor.Sized, Shape.flat, Shape.size], by simp, by decide⟩
  have hcheck : net.checkFit d none ⟨2, 1, 0, fun _ => 0⟩ = .ok none := by
    subst hd hnet
    rfl
  have hcheck' : net'.checkFit d' (some d') ⟨2, 2, 1, fun _ => 0⟩ = .ok (some d') := by
    subst hd' hnet'
    rfl
  have hdropouts : net.dropouts = [(0.5, 1)] ∧ net'.dropouts = net.dropouts := by
    subst hnet hnet'
    exact ⟨rfl, rfl⟩
  have hsend : (Receiver.nobody : Receiver Float Unit).Alive := fun _ _ => rfl
  have hsend' : Receiver.Alive fun (e : TrainEvent Float) t => (true, t ++ [e]) := fun _ _ => rfl
  obtain ⟨plan, hplan, hfront, hfront', -, -⟩ := Network.fit_draws_alike Initializer.draws_ones
    Initializer.draws_ones (.built hbuild) (.built hbuild') hw hw' hcheck hcheck' hsend hsend' hdropouts.2
    (by rw [hd, hd']; rfl) rfl ⟨.sgd 1 0, 0, #[]⟩ ⟨.rmsprop 1, 0, #[]⟩ (Stream.ofSeed 0) () []
  rw [hdropouts.1] at hplan
  refine ⟨net, net', d, d', plan, ?_, ?_, ?_, hfront, hfront'⟩
  · rw [hnet, hnet']
    decide
  · rw [hd, hd']
    decide
  · rw [hplan, hd]
    rfl

end Convnet
