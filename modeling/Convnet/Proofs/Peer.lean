import Convnet.Json.Printer
import Convnet.Proofs.Checked

namespace Convnet

/-- Answers that are related, or the same refusal. -/
inductive Alike {β γ : Type} (R : β → γ → Prop) : Result β → Result γ → Prop
  | ok {b : β} {c : γ} (h : R b c) : Alike R (.ok b) (.ok c)
  | error (e : Error) : Alike R (.error e) (.error e)

namespace Alike

variable {β γ β' γ' : Type} {R : β → γ → Prop} {S : β' → γ' → Prop}

theorem of_eq {R : β → β → Prop} (hR : ∀ b, R b b) {x y : Result β} (h : y = x) : Alike R x y := by
  subst h
  cases y with
  | ok b => exact .ok (hR b)
  | error e => exact .error e

theorem mono {R' : β → γ → Prop} {x : Result β} {y : Result γ} (h : Alike R x y) (hR : ∀ b c, R b c → R' b c) :
    Alike R' x y := by
  cases h with
  | ok hbc => exact .ok (hR _ _ hbc)
  | error e => exact .error e

theorem bind {x : Result β} {y : Result γ} {f : β → Result β'} {g : γ → Result γ'} (h : Alike R x y)
    (hfg : ∀ b c, x = .ok b → R b c → Alike S (f b) (g c)) : Alike S (x >>= f) (y >>= g) := by
  cases h with
  | ok hbc => exact hfg _ _ rfl hbc
  | error e => exact .error e

theorem bind_same {x : Result β} {f : β → Result β'} {g : β → Result γ'}
    (hfg : ∀ b, Alike S (f b) (g b)) : Alike S (x >>= f) (x >>= g) := by
  cases x with
  | ok b => exact hfg b
  | error e => exact .error e

end Alike

def Beside {β γ δ : Type} (R : β → γ → Prop) (r : β × δ) (q : γ × δ) : Prop := R r.1 q.1 ∧ q.2 = r.2

theorem Alike.bind_beside {β γ δ β' γ' : Type} {R : β → γ → Prop} {S : β' → γ' → Prop} {x : Result (β × δ)}
    {y : Result (γ × δ)} {f : β × δ → Result β'} {g : γ × δ → Result γ'} (h : Alike (Beside R) x y)
    (hfg : ∀ b c d, x = .ok (b, d) → R b c → Alike S (f (b, d)) (g (c, d))) : Alike S (x >>= f) (y >>= g) := by
  refine h.bind fun r q hr hrq => ?_
  obtain ⟨b, d⟩ := r
  obtain ⟨c, d'⟩ := q
  obtain ⟨hbc, rfl⟩ := hrq
  exact hfg b c d' hr hbc

section Layers

variable {α : Type} [Scalar α]

omit [Scalar α] in
theorem Matrix.ext_data {m m' : Matrix α} (hr : m'.rows = m.rows) (hc : m'.cols = m.cols)
    (hd : m'.data = m.data) : m' = m := by
  cases m
  cases m'
  exact congr (congr (congrArg Matrix.mk hr) hc) hd

theorem Convolution.ready_ready (l : Convolution α) : l.ready.ready = l.ready :=
  ready_of_size l.size_ready_kernelGrad l.size_ready_biasGrad

theorem Convolution.backward_ready (l : Convolution α) (g : Tensor α) :
    l.ready.backward g = l.backward g := by
  simp only [backward, ready_ready]
  rfl

theorem Dense.ready_ready (l : Dense α) : l.ready.ready = l.ready :=
  ready_of_size l.ready_rows l.ready_cols l.size_ready_biasesGrad

theorem Dense.backward_ready (l : Dense α) (g : Tensor α) : l.ready.backward g = l.backward g := by
  simp only [backward, ready?, ready_ready]
  rfl

namespace Layer

structure Peer (l k : Layer α) : Prop where
  bare : k.bare = l.bare
  parameters : k.ready.parameters = l.ready.parameters

/-- What the pass back reads of a layer. -/
def primed : Layer α → Layer α
  | conv l => conv l.ready
  | pool l => pool { l with winners := if l.kind = .max then l.winners else #[] }
  | dense l => dense l.ready
  | l => l

omit [Scalar α] in
theorem toJson_bare [JsonNumber α] (l : Layer α) : l.bare.toJson = l.toJson := by cases l <;> rfl

theorem Peer.refl (l : Layer α) : l.Peer l := ⟨rfl, rfl⟩

variable {l k : Layer α}

theorem conv_peer {l : Convolution α} {kernelGrad biasGrad : Array α} {input preActivation : Option (Tensor α)}
    (h : (conv l).Peer (conv { l with
      kernelGrad := kernelGrad, biasGrad := biasGrad, input := input, preActivation := preActivation })) :
    Buffer.sized kernelGrad l.kernel.size = l.ready.kernelGrad ∧
      Buffer.sized biasGrad l.bias.size = l.ready.biasGrad := by
  have hp := h.parameters
  simp only [ready, parameters, Convolution.ready, List.cons.injEq, Parameter.mk.injEq, true_and, and_true] at hp
  exact hp

theorem dense_peer {l : Dense α} {weightsGrad : Matrix α} {biasesGrad inputs preActivation : Array α}
    (h : (dense l).Peer (dense { l with
      weightsGrad := weightsGrad, biasesGrad := biasesGrad, inputs := inputs, preActivation := preActivation })) :
    ({ l with weightsGrad := weightsGrad } : Dense α).ready.weightsGrad = l.ready.weightsGrad ∧
      Buffer.sized biasesGrad l.biases.size = l.ready.biasesGrad := by
  have hp := h.parameters
  simp only [ready, parameters, List.cons.injEq, Parameter.mk.injEq, and_true] at hp
  obtain ⟨⟨-, hw⟩, -, hb⟩ := hp
  have hr := ({ l with weightsGrad := weightsGrad } : Dense α).ready_rows.trans l.ready_rows.symm
  have hc := ({ l with weightsGrad := weightsGrad } : Dense α).ready_cols.trans l.ready_cols.symm
  exact ⟨Matrix.ext_data hr hc hw, hb⟩

theorem Peer.forward {σ : Type} [RandomSource σ] (h : l.Peer k) (x : Tensor α) (s : σ) :
    Alike (Beside fun l k => k.primed = l.primed) (l.forward x (.train s)) (k.forward x (.train s)) := by
  cases twin_of_bare h.bare with
  | conv l kernelGrad biasGrad i z =>
      obtain ⟨hk, hb⟩ := conv_peer h
      simp only [Layer.forward, Convolution.forward, bind_assoc, pure_bind]
      refine Alike.bind_same fun _ => .ok ⟨?_, rfl⟩
      simp [primed, Phase.isTraining, Convolution.ready, hk, hb]
      rfl
  | pool l w =>
      obtain ⟨kind, p, t, input, v⟩ := l
      simp only [Layer.forward, Pooling.forward, bind_assoc]
      refine Alike.bind_same fun _ => ?_
      cases kind with
      | max => exact .ok ⟨rfl, rfl⟩
      | average => exact .ok ⟨rfl, rfl⟩
  | flatten s => exact .of_eq (fun _ => ⟨rfl, rfl⟩) rfl
  | dense l weightsGrad biasesGrad i z =>
      obtain ⟨hw, hb⟩ := dense_peer h
      simp only [Layer.forward, Dense.forward, bind_assoc, pure_bind]
      refine Alike.bind_same fun _ => .ok ⟨?_, rfl⟩
      simp only [Dense.ready] at hw
      simp [primed, Phase.isTraining, Dense.ready, hw, hb]
      rfl
  | dropout l m => exact .ok ⟨rfl, rfl⟩
  | pointwise l z =>
      simp only [Layer.forward, Pointwise.forward, Tensor.ofBuffer, bind_assoc, pure_bind]
      exact Alike.bind_same fun _ => .ok ⟨rfl, rfl⟩

theorem peer_of_primed (h : k.primed = l.primed) : l.Peer k := by
  have hbare : ∀ l : Layer α, l.primed.bare = l.bare := by
    intro l
    cases l <;> rfl
  have hready : ∀ l : Layer α, l.primed.ready.parameters = l.ready.parameters := by
    intro l
    cases l with
    | conv l => simp [primed, ready, Convolution.ready_ready]
    | dense l => simp [primed, ready, Dense.ready_ready]
    | pool | flatten | dropout | pointwise => rfl
  exact ⟨by rw [← hbare k, h, hbare], by rw [← hready k, h, hready]⟩

theorem backward_alike (h : k.primed = l.primed) (g : Tensor α) :
    Alike (Beside Layer.Peer) (l.backward g) (k.backward g) := by
  have hsame : k.backward g = l.backward g →
      Alike (Beside Layer.Peer) (l.backward g) (k.backward g) :=
    .of_eq fun r => ⟨.refl r.1, rfl⟩
  cases twin_of_bare (peer_of_primed h).bare with
  | conv l kernelGrad biasGrad i z =>
      refine hsame ?_
      rw [Layer.backward, Layer.backward, ← Convolution.backward_ready, conv.inj h, l.backward_ready]
  | pool l w =>
      obtain ⟨kind, p, t, s, v⟩ := l
      cases kind with
      | max =>
          obtain rfl : w = v := by simpa [primed] using h
          exact hsame rfl
      | average =>
          simp only [Layer.backward, Pooling.backward, bind_assoc, pure_bind]
          exact Alike.bind_same fun _ => Alike.bind_same fun _ => .ok ⟨⟨rfl, rfl⟩, rfl⟩
  | flatten s => exact hsame rfl
  | dense l weightsGrad biasesGrad i z =>
      refine hsame ?_
      rw [Layer.backward, Layer.backward, ← Dense.backward_ready, dense.inj h, l.backward_ready]
  | dropout l m => exact hsame (congrArg (Layer.backward · g) (show dropout _ = dropout _ from h))
  | pointwise l z => exact hsame (congrArg (Layer.backward · g) (show pointwise _ = pointwise _ from h))

theorem Peer.withParameters (h : l.Peer k) (ps : List (Parameter α)) :
    (l.ready.withParameters ps).Peer (k.ready.withParameters ps) := by
  cases twin_of_bare h.bare with
  | conv l kernelGrad biasGrad i z =>
      obtain ⟨hk, hb⟩ := conv_peer h
      have hready : Convolution.ready { l with
          kernelGrad := kernelGrad, biasGrad := biasGrad, input := i, preActivation := z } =
          { l.ready with input := i, preActivation := z } := by
        simp only [Convolution.ready] at hk hb ⊢
        rw [hk, hb]
      rw [ready, ready, hready]
      rcases ps with _ | ⟨a, _ | ⟨b, _ | _⟩⟩ <;> exact ⟨rfl, rfl⟩
  | dense l weightsGrad biasesGrad i z =>
      obtain ⟨hw, hb⟩ := dense_peer h
      have hready : Dense.ready { l with
          weightsGrad := weightsGrad, biasesGrad := biasesGrad, inputs := i, preActivation := z } =
          { l.ready with inputs := i, preActivation := z } := by
        simp only [Dense.ready] at hw hb ⊢
        rw [hw, hb]
      rw [ready, ready, hready]
      rcases ps with _ | ⟨a, _ | ⟨b, _ | _⟩⟩ <;> exact ⟨rfl, rfl⟩
  | pool | flatten | dropout | pointwise => exact ⟨rfl, rfl⟩

end Layer

namespace Network

/-- Networks that say the same and whose layers are related one by one. -/
structure Agree (R : Layer α → Layer α → Prop) (net net' : Network α) : Prop where
  inputShape : net'.inputShape = net.inputShape
  loss : net'.loss = net.loss
  metadata : net'.metadata = net.metadata
  layers : List.Forall₂ R net.layers net'.layers

abbrev Peer (net net' : Network α) : Prop := Agree Layer.Peer net net'

section Steps

variable {σ : Type} [RandomSource σ] {ls ks : List (Layer α)}

theorem forwardLayers_alike (h : List.Forall₂ Layer.Peer ls ks) (x : Tensor α) (s : σ) :
    Alike (Beside (List.Forall₂ fun l k => Layer.primed k = l.primed)) (forwardLayers ls x (.train s))
      (forwardLayers ks x (.train s)) := by
  induction h generalizing x s with
  | nil => exact .ok ⟨.nil, rfl⟩
  | cons hl _ ih =>
      refine (hl.forward x s).bind_beside fun l k r hr hlk => ?_
      obtain ⟨y, phase⟩ := r
      obtain ⟨s', rfl⟩ := (Layer.passes_of_forward hr).train
      exact (ih y s').bind_beside fun _ _ _ _ hlks => .ok ⟨.cons hlk hlks, rfl⟩

theorem backwardLayers_alike (h : List.Forall₂ (fun l k => Layer.primed k = l.primed) ls ks) (g : Tensor α) :
    Alike (Beside (List.Forall₂ Layer.Peer)) (backwardLayers ls g) (backwardLayers ks g) := by
  induction h with
  | nil => exact .ok ⟨.nil, rfl⟩
  | cons hl _ ih =>
      refine ih.bind_beside fun _ _ g' _ hls => ?_
      exact (Layer.backward_alike hl g').bind_beside fun _ _ _ _ hlk => .ok ⟨.cons hlk hls, rfl⟩

theorem mapLayerSlots_alike {τ : Type} (f : Nat → Parameter α → τ → Result (Parameter α × τ))
    (h : List.Forall₂ Layer.Peer ls ks) (slot : Nat) (t : τ) :
    Alike (Beside (List.Forall₂ Layer.Peer)) (mapLayerSlots f slot ls t) (mapLayerSlots f slot ks t) := by
  induction h generalizing slot t with
  | nil => exact .ok ⟨.nil, rfl⟩
  | cons hl _ ih =>
      rw [mapLayerSlots, mapLayerSlots]
      dsimp only
      rw [hl.parameters]
      refine Alike.bind_same fun r => ?_
      exact (ih _ r.2).bind_beside fun _ _ _ _ hls => .ok ⟨.cons (hl.withParameters r.1) hls, rfl⟩

variable {net net' : Network α} {d : Dataset α}

omit [Scalar α] [RandomSource σ] in
theorem Agree.withLayers {R S : Layer α → Layer α → Prop} (h : Agree R net net') (hls : List.Forall₂ S ls ks) :
    Agree S { net with layers := ls } { net' with layers := ks } :=
  ⟨h.inputShape, h.loss, h.metadata, hls⟩

theorem Peer.forward (h : Peer net net') (x : Tensor α) (s : σ) :
    Alike (Beside (Agree fun l k => Layer.primed k = l.primed)) (net.forward x (.train s))
      (net'.forward x (.train s)) :=
  (forwardLayers_alike h.layers x s).bind_beside fun _ _ _ _ hls => .ok ⟨h.withLayers hls, rfl⟩

omit [RandomSource σ] in
theorem backward_alike (h : Agree (fun l k => Layer.primed k = l.primed) net net') (g : Array α) :
    Alike Peer (net.backward g) (net'.backward g) :=
  (backwardLayers_alike h.layers (.flat g)).bind_beside fun _ _ _ _ hls => .ok (h.withLayers hls)

omit [RandomSource σ] in
theorem Peer.applyGradients (h : Peer net net') (o : Optimizer α) (scale : α) :
    Alike (Beside Peer) (net.applyGradients o scale) (net'.applyGradients o scale) :=
  (mapLayerSlots_alike _ h.layers 0 o.beginStep).bind_beside fun _ _ _ _ hls =>
    .ok ⟨h.withLayers hls, rfl⟩

theorem Peer.trainSample (h : Peer net net') (image : Tensor α) (label : Nat) (target : Array α) (s : σ) :
    Alike (Beside Peer) (net.trainSample image label target s) (net'.trainSample image label target s) := by
  refine (h.forward image s).bind_beside fun mid mid' r _ hmid => ?_
  obtain ⟨out, phase⟩ := r
  dsimp only
  rw [hmid.loss]
  exact (backward_alike hmid _).bind fun _ _ _ hback => .ok ⟨hback, rfl⟩

theorem Peer.trainSamples (h : Peer net net') (is : List Nat) (s : σ) (t : Tally α) :
    Alike (Beside Peer) (trainSamples d is net s t) (trainSamples d is net' s t) := by
  induction is generalizing net net' s t with
  | nil => exact .ok ⟨h, rfl⟩
  | cons i is ih =>
      rw [Network.trainSamples, Network.trainSamples]
      cases d.labels[i]? with
      | none => exact .error .misuse
      | some label =>
          refine Alike.bind_same fun target => ?_
          cases d.images[i]? with
          | none => exact .error .misuse
          | some image =>
              exact (h.trainSample image label target s).bind_beside fun _ _ r _ hnet =>
                ih hnet r.1 (t.add r.2)

theorem Peer.trainBatch (h : Peer net net') (indices : List Nat) (o : Optimizer α) (s : σ) :
    Alike (Beside Peer) (net.trainBatch d indices o s) (net'.trainBatch d indices o s) := by
  refine Alike.bind_same fun _ => (h.trainSamples indices s .zero).bind_beside fun _ _ r _ hnet => ?_
  exact (hnet.applyGradients o _).bind_beside fun _ _ o' _ hnet' => .ok ⟨hnet', rfl⟩

end Steps

section Measures

variable {net net' : Network α} {d : Dataset α}

omit [Scalar α] in
theorem outputSize_eq (net : Network α) : net.outputSize =
    match (net.layers.map Layer.bare).getLast? with
    | some l => do return (← l.outputShape?).size
    | none => .ok 0 := by
  have hbare : ∀ l : Layer α, l.bare.outputShape? = l.outputShape? := by
    intro l
    cases l <;> rfl
  rw [outputSize, List.getLast?_map]
  cases net.layers.getLast? with
  | none => rfl
  | some l => simp only [Option.map_some, hbare]

theorem Peer.bare (h : Peer net net') : net'.layers.map Layer.bare = net.layers.map Layer.bare := by
  have hls := h.layers
  generalize net.layers = ls at hls
  generalize net'.layers = ks at hls
  induction hls with
  | nil => rfl
  | cons hl _ ih => rw [List.map_cons, List.map_cons, hl.bare, ih]

theorem Peer.parameters (h : Peer net net') : net'.parameters = net.parameters := by
  unfold Network.parameters
  have hls := h.layers
  generalize net.layers = ls at hls
  generalize net'.layers = ks at hls
  induction hls with
  | nil => rfl
  | cons hl _ ih => rw [List.flatMap_cons, List.flatMap_cons, hl.parameters, ih]

theorem Peer.outputSize (h : Peer net net') : net'.outputSize = net.outputSize := by
  rw [outputSize_eq, h.bare, ← outputSize_eq]

theorem Peer.checkCompatible (h : Peer net net') : net'.checkCompatible d = net.checkCompatible d := by
  rw [Network.checkCompatible, checkInput, h.inputShape, h.outputSize]
  rfl

theorem Peer.infer (h : Peer net net') (x : Tensor α) : net'.infer x = net.infer x := by
  unfold Network.infer Network.forward
  rw [forwardLayers_infer h.bare]
  cases forwardLayers net.layers x (.infer : Phase Stream) <;> rfl

theorem Peer.predict (h : Peer net net') (x : Tensor α) : net'.predict x = net.predict x := by
  rw [Network.predict, checkInput, h.inputShape, h.infer]
  rfl

theorem Peer.evaluate (h : Peer net net') : net'.evaluate d = net.evaluate d := by
  have hstep : net'.measureSample d = net.measureSample d := by
    funext sums sample
    rw [measureSample, measureSample, h.infer, h.loss]
  rw [Network.evaluate, h.checkCompatible, hstep]
  rfl

theorem Peer.confusionMatrix (h : Peer net net') : net'.confusionMatrix d = net.confusionMatrix d := by
  rw [Network.confusionMatrix, h.checkCompatible, funext h.infer]
  rfl

theorem Peer.samplePredictions (h : Peer net net') (count : Nat) :
    net'.samplePredictions d count = net.samplePredictions d count := by
  rw [Network.samplePredictions, funext h.predict]
  rfl

theorem Peer.toJson [JsonNumber α] (h : Peer net net') : net'.toJson = net.toJson := by
  have hls : ∀ ls : List (Layer α), ls.map Layer.toJson = (ls.map Layer.bare).map Layer.toJson := by
    intro ls
    simp [Function.comp_def, Layer.toJson_bare]
  rw [Network.toJson, Network.toJson, h.inputShape, h.loss, h.metadata, hls net'.layers, h.bare, ← hls]

theorem Peer.checkFit (h : Peer net net') (train : Dataset α) (validation : Option (Dataset α))
    (schedule : Schedule) : net'.checkFit train validation schedule = net.checkFit train validation schedule := by
  have hvalidation : net'.checkValidation validation = net.checkValidation validation := by
    cases validation with
    | none => rfl
    | some v => simp only [checkValidation, h.checkCompatible]
  simp only [Network.checkFit, h.checkCompatible, hvalidation]

end Measures

end Network

namespace Run

variable {σ τ : Type} [RandomSource σ] {schedule : Schedule} {send : Receiver α τ} {train : Dataset α}
  {validation : Option (Dataset α)} {r q : Run α σ τ}

structure Peer (r q : Run α σ τ) : Prop where
  network : r.network.Peer q.network
  rest : q = { r with network := q.network }

theorem Peer.batch (h : r.Peer q) {epoch total j : Nat} (indices : List Nat) (tally : Tally α) :
    Alike (Beside Peer) (r.batch schedule send train epoch total j indices tally)
      (q.batch schedule send train epoch total j indices tally) := by
  obtain ⟨hnet, hq⟩ := h
  rw [hq]
  refine (hnet.trainBatch indices r.optimizer r.source).bind_beside fun net net' rest _ hnet' => ?_
  obtain ⟨o, s, one⟩ := rest
  dsimp only
  split
  · exact .ok ⟨⟨hnet', rfl⟩, rfl⟩
  · exact .ok ⟨⟨hnet', rfl⟩, rfl⟩

theorem Peer.batches (h : r.Peer q) {epoch total : Nat} (j : Nat) (parts : List (List Nat)) (tally : Tally α) :
    Alike (Beside Peer) (batches schedule send train epoch total j parts r tally)
      (batches schedule send train epoch total j parts q tally) := by
  induction parts generalizing j r q tally with
  | nil => exact .ok ⟨h, rfl⟩
  | cons indices rest ih =>
      rw [Run.batches, Run.batches]
      refine (h.batch indices tally).bind_beside fun r₁ q₁ tally₁ _ h₁ => ?_
      have hstop : q₁.stopped = r₁.stopped := by rw [h₁.rest]
      dsimp only
      rw [hstop]
      split
      · exact .ok ⟨h₁, rfl⟩
      · exact ih h₁ (j + 1) tally₁

omit [RandomSource σ] in
theorem Peer.close (h : r.Peer q) (number : Nat) (tally : Tally α) :
    Alike Peer (r.close schedule send validation number tally) (q.close schedule send validation number tally) := by
  obtain ⟨hnet, hq⟩ := h
  rw [hq]
  cases validation with
  | none => exact .ok ⟨hnet, rfl⟩
  | some v =>
      simp only [Run.close, hnet.evaluate]
      cases r.network.evaluate v with
      | error e => exact .error e
      | ok e => exact .ok ⟨hnet, rfl⟩

theorem Peer.epoch (h : r.Peer q) (number : Nat) :
    Alike Peer (r.epoch schedule send train validation number) (q.epoch schedule send train validation number) := by
  have hparts : q.shuffled.parts schedule = r.shuffled.parts schedule := by rw [h.rest]; rfl
  have hshuffled : r.shuffled.Peer q.shuffled := by
    rw [h.rest]
    exact ⟨h.network, rfl⟩
  unfold Run.epoch
  dsimp only
  rw [hparts]
  refine (hshuffled.batches 1 _ .zero).bind_beside fun r₁ q₁ tally _ h₁ => ?_
  have hstop : q₁.stopped = r₁.stopped := by rw [h₁.rest]
  dsimp only
  rw [hstop]
  split
  · exact .ok h₁
  · exact h₁.close number tally

theorem Peer.epochs (h : r.Peer q) (n k : Nat) :
    Alike Peer (epochs schedule send train validation n k r) (epochs schedule send train validation n k q) := by
  induction n generalizing k r q with
  | zero => exact .ok h
  | succ n ih =>
      rw [Run.epochs, Run.epochs]
      refine (h.epoch k).bind fun r₁ q₁ _ h₁ => ?_
      have hstop : q₁.stopped = r₁.stopped := by rw [h₁.rest]
      rw [hstop]
      split
      · exact .ok h₁
      · exact ih h₁ (k + 1)

end Run

theorem Network.Peer.fit {σ τ : Type} [RandomSource σ] {net net' : Network α} (h : Peer net net')
    (train : Dataset α) (validation : Option (Dataset α)) (o : Optimizer α) (schedule : Schedule) (source : σ)
    (send : Receiver α τ) (receiver : τ) :
    Alike Run.Peer (net.fit train validation o schedule source send receiver)
      (net'.fit train validation o schedule source send receiver) := by
  rw [Network.fit, Network.fit, h.checkFit]
  refine Alike.bind_same fun v => ?_
  exact Run.Peer.epochs ⟨h, rfl⟩ schedule.epochs 1

end Layers

section Requests

variable {α σ τ : Type}

/-- What can be asked of a network. A training pass is followed by the pass back with a gradient that may
depend on its output. -/
inductive Request (α σ τ : Type)
  | predict (image : Tensor α)
  | evaluate (d : Dataset α)
  | confusionMatrix (d : Dataset α)
  | samplePredictions (d : Dataset α) (count : Nat)
  | pass (image : Tensor α) (gradient : Array α → Array α) (s : σ)
  | trainBatch (d : Dataset α) (indices : List Nat) (o : Optimizer α) (s : σ)
  | fit (train : Dataset α) (validation : Option (Dataset α)) (o : Optimizer α) (schedule : Schedule)
      (source : σ) (send : Receiver α τ) (receiver : τ)
  | save

inductive Reply (α σ τ : Type)
  | output (out : Array α)
  | evaluation (e : Evaluation α)
  | table (counts : Array (Array Nat))
  | samples (ss : List (SamplePrediction α))
  | passed (out : Array α) (s : σ)
  | trained (o : Optimizer α) (s : σ) (t : Tally α)
  | fitted (o : Optimizer α) (s : σ) (history : History α) (receiver : τ) (stopped : Bool)
  | saved (text : String)

variable [Scalar α] [JsonNumber α] [RandomSource σ]

def Request.run (net : Network α) : Request α σ τ → Result (Network α × Reply α σ τ)
  | predict x => do return (net, .output (← net.predict x))
  | evaluate d => do return (net, .evaluation (← net.evaluate d))
  | confusionMatrix d => do return (net, .table (← net.confusionMatrix d))
  | samplePredictions d count => do return (net, .samples (← net.samplePredictions d count))
  | pass x gradient s => do
    let (net, out, phase) ← net.forward x (.train s)
    let net ← net.backward (gradient out)
    return (net, .passed out (Network.sourceAfter s phase))
  | trainBatch d indices o s => do
    let (net, o, s, t) ← net.trainBatch d indices o s
    return (net, .trained o s t)
  | fit train validation o schedule source send receiver => do
    let r ← net.fit train validation o schedule source send receiver
    return (r.network, .fitted r.optimizer r.source r.history r.receiver r.stopped)
  | save => return (net, .saved net.toJson.pretty)

/-- So many requests to a network one after the other, each chosen by the replies before it, with the
network after them. A request that is refused leaves the network as it was; a misuse ends the dialogue. -/
def Network.dialogue (next : List (Result (Reply α σ τ)) → Request α σ τ) :
    Nat → List (Result (Reply α σ τ)) → Network α → Network α × List (Result (Reply α σ τ))
  | 0, said, net => (net, said)
  | n + 1, said, net =>
    match (next said).run net with
    | .ok (net', reply) => dialogue next n (said ++ [.ok reply]) net'
    | .error .misuse => (net, said ++ [.error .misuse])
    | .error e => dialogue next n (said ++ [.error e]) net

namespace Network

variable {net net' : Network α}

theorem Peer.run (h : Peer net net') (request : Request α σ τ) :
    Alike (Beside Peer) (request.run net) (request.run net') := by
  cases request with
  | predict x =>
      rw [Request.run, Request.run, h.predict]
      exact Alike.bind_same fun _ => .ok ⟨h, rfl⟩
  | evaluate d =>
      rw [Request.run, Request.run, h.evaluate]
      exact Alike.bind_same fun _ => .ok ⟨h, rfl⟩
  | confusionMatrix d =>
      rw [Request.run, Request.run, h.confusionMatrix]
      exact Alike.bind_same fun _ => .ok ⟨h, rfl⟩
  | samplePredictions d count =>
      rw [Request.run, Request.run, h.samplePredictions]
      exact Alike.bind_same fun _ => .ok ⟨h, rfl⟩
  | pass x gradient s =>
      refine (h.forward x s).bind_beside fun _ _ r _ hmid => ?_
      exact (backward_alike hmid (gradient r.1)).bind fun _ _ _ hback => .ok ⟨hback, rfl⟩
  | trainBatch d indices o s =>
      exact (h.trainBatch indices o s).bind_beside fun _ _ _ _ hnet => .ok ⟨hnet, rfl⟩
  | fit train validation o schedule source send receiver =>
      refine (h.fit train validation o schedule source send receiver).bind fun r q _ hrq => .ok ⟨hrq.network, ?_⟩
      rw [hrq.rest]
  | save =>
      rw [Request.run, Request.run, h.toJson]
      exact .ok ⟨h, rfl⟩

/-- Networks that are peers reply the same to every request of a dialogue, and are peers after it. -/
theorem Peer.dialogue (h : Peer net net') (next : List (Result (Reply α σ τ)) → Request α σ τ) (n : Nat)
    (said : List (Result (Reply α σ τ))) :
    Beside Peer (net.dialogue next n said) (net'.dialogue next n said) := by
  induction n generalizing net net' said with
  | zero => exact ⟨h, rfl⟩
  | succ n ih =>
      have hrun := h.run (next said)
      rw [Network.dialogue, Network.dialogue]
      generalize (next said).run net = r at hrun
      generalize (next said).run net' = q at hrun
      cases hrun with
      | @ok r q hrq =>
          obtain ⟨hnet, hreply⟩ := hrq
          dsimp only
          rw [hreply]
          exact ih hnet _
      | error e =>
          cases e with
          | misuse => exact ⟨h, rfl⟩
          | _ => exact ih h _

end Network

end Requests

end Convnet
