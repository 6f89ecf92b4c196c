import Convnet.Proofs.Checked
import Convnet.Proofs.Trained

namespace Convnet

section Definitions

variable {α : Type}

def Layer.frame : Layer α → Layer α
  | conv l => conv { l with
      kernel := #[], bias := #[], kernelGrad := #[], biasGrad := #[], input := none, preActivation := none }
  | pool l => pool { l with winners := #[] }
  | flatten s => flatten s
  | dense l => dense { l with
      weights := ⟨l.weights.rows, l.weights.cols, #[]⟩, biases := #[],
      weightsGrad := .empty, biasesGrad := #[], inputs := #[], preActivation := #[] }
  | dropout l => dropout { l with mask := #[] }
  | pointwise l => pointwise { l with preActivation := #[] }

namespace Network

/-- What training leaves as it was. -/
structure Frame (net net' : Network α) : Prop where
  inputShape : net'.inputShape = net.inputShape
  loss : net'.loss = net.loss
  layers : net'.layers.map Layer.frame = net.layers.map Layer.frame

/-- Whether the layers of a network, of which there is one at least, are sound and fit together. -/
structure Steady (net : Network α) : Prop where
  layers : net.layers ≠ []
  chained : Chained net.inputShape net.layers

/-- The networks that come up: built from a checked description or read from a document, and then told
what is known of them and trained, on batches and in whole runs, in any order. -/
inductive Arises {σ : Type} [Scalar α] [JsonNumber α] (draw : Initializer α σ) : Network α → Prop
  | built {m : ModelSpec α} {net : Network α} {s s' : σ} (h : build draw m s = .ok (net, s')) : Arises draw net
  | read {v : Json} {net : Network α} (h : ofDocument v = .ok net) : Arises draw net
  | told {net : Network α} (hn : Arises draw net) (known : Option (Metadata α)) :
      Arises draw { net with metadata := known }
  | batch {ρ : Type} [RandomSource ρ] {net net' : Network α} (hn : Arises draw net) {d : Dataset α}
      {indices : List Nat} {o o' : Optimizer α} {s s' : ρ} {t : Tally α}
      (h : net.trainBatch d indices o s = .ok (net', o', s', t)) : Arises draw net'
  | fit {ρ τ : Type} [RandomSource ρ] {net : Network α} (hn : Arises draw net) {train : Dataset α}
      {validation : Option (Dataset α)} {o : Optimizer α} {schedule : Schedule} {source : ρ}
      {send : Receiver α τ} {receiver : τ} {r : Run α ρ τ}
      (h : net.fit train validation o schedule source send receiver = .ok r) : Arises draw r.network

end Network

end Definitions

section Layers

variable {α : Type}

namespace Layer

theorem frame_bare (l : Layer α) : l.bare.frame = l.frame := by cases l <;> rfl

theorem inputShape_frame (l : Layer α) : l.frame.inputShape = l.inputShape := by cases l <;> rfl

theorem outputShape_frame (l : Layer α) : l.frame.outputShape = l.outputShape := by cases l <;> rfl

theorem outputShape?_frame (l : Layer α) : l.frame.outputShape? = l.outputShape? := by cases l <;> rfl

variable [Scalar α]

theorem frame_withParameters (l : Layer α) (ps : List (Parameter α)) :
    (l.ready.withParameters ps).frame = l.frame := by
  cases l with
  | conv | dense => rcases ps with _ | ⟨a, _ | ⟨b, _ | _⟩⟩ <;> rfl
  | pool | flatten | dropout | pointwise => rfl

theorem Sound.withParameters {l : Layer α} (h : l.Sound) {ps : List (Parameter α)}
    (hs : ps.map (·.values.size) = l.ready.parameters.map (·.values.size)) (hm : ∀ p ∈ ps, p.Matched) :
    (l.ready.withParameters ps).Sound ∧ (l.ready.withParameters ps).Tidy := by
  obtain ⟨hparts, hin, hout⟩ := h
  have hframe := l.frame_withParameters ps
  have hin' : (l.ready.withParameters ps).inputShape.isEmpty = false := by
    rwa [← inputShape_frame, hframe, inputShape_frame]
  have hout' : (l.ready.withParameters ps).outputShape.isEmpty = false := by
    rwa [← outputShape_frame, hframe, outputShape_frame]
  cases l with
  | conv l =>
      obtain ⟨k, qs, rfl, hk, hqs⟩ := List.map_eq_cons_iff.mp hs
      obtain ⟨b, rs, rfl, hb, hrs⟩ := List.map_eq_cons_iff.mp hqs
      obtain rfl := List.map_eq_nil_iff.mp hrs
      obtain ⟨hf, hks, hst, hkernel, hbias⟩ : l.Sound := hparts
      exact ⟨⟨⟨hf, hks, hst, hk.trans hkernel, hb.trans hbias⟩, hin', hout'⟩, trivial⟩
  | dense l =>
      obtain ⟨w, qs, rfl, hw, hqs⟩ := List.map_eq_cons_iff.mp hs
      obtain ⟨b, rs, rfl, hb, hrs⟩ := List.map_eq_cons_iff.mp hqs
      obtain rfl := List.map_eq_nil_iff.mp hrs
      obtain ⟨hweights, hbiases⟩ : l.Sound := hparts
      have hsize : w.values.size = l.weights.rows * l.weights.cols := hw.trans hweights
      have hgrad : w.grads.size = w.values.size := hm w (by simp)
      refine ⟨⟨⟨hsize, hb.trans hbiases⟩, hin', hout'⟩, ?_⟩
      change w.grads.size = l.ready.weightsGrad.rows * l.ready.weightsGrad.cols
      rw [hgrad, hsize, Dense.ready_rows, Dense.ready_cols]
  | pool | flatten | dropout | pointwise =>
      obtain rfl := List.map_eq_nil_iff.mp hs
      exact ⟨⟨hparts, hin', hout'⟩, trivial⟩

end Layer

end Layers

namespace Network

section Frames

variable {α : Type} {net net' net'' : Network α}

theorem Frame.refl (net : Network α) : Frame net net := ⟨rfl, rfl, rfl⟩

theorem Frame.trans (h : Frame net net') (h' : Frame net' net'') : Frame net net'' :=
  ⟨h'.inputShape.trans h.inputShape, h'.loss.trans h.loss, h'.layers.trans h.layers⟩

theorem Twins.frame (h : Twins net net') : Frame net net' := by
  refine ⟨h.inputShape, h.loss, ?_⟩
  have hmap : ∀ ls : List (Layer α), ls.map Layer.frame = (ls.map Layer.bare).map Layer.frame := by
    intro ls
    simp [Function.comp_def, Layer.frame_bare]
  rw [hmap, h.bare, ← hmap]

theorem Frame.outputSize (h : Frame net net') : net'.outputSize = net.outputSize := by
  have hlast : net'.layers.getLast?.map Layer.frame = net.layers.getLast?.map Layer.frame := by
    rw [← List.getLast?_map, h.layers, List.getLast?_map]
  unfold Network.outputSize
  cases hl : net.layers.getLast? with
  | none =>
      rw [hl] at hlast
      rw [Option.map_eq_none_iff.mp hlast]
  | some l =>
      rw [hl] at hlast
      obtain ⟨l', hl', hframe⟩ := Option.map_eq_some_iff.mp hlast
      rw [hl']
      dsimp only
      rw [← l'.outputShape?_frame, hframe, l.outputShape?_frame]

theorem Frame.checkCompatible (h : Frame net net') (d : Dataset α) :
    net'.checkCompatible d = net.checkCompatible d := by
  rw [Network.checkCompatible, Network.checkCompatible, h.outputSize, checkInput, checkInput, h.inputShape]

theorem Frame.nonempty (h : Frame net net') (hn : net.layers ≠ []) : net'.layers ≠ [] := by
  intro hnil
  have hlayers := h.layers
  rw [hnil] at hlayers
  exact hn (List.map_eq_nil_iff.mp hlayers.symm)

end Frames

section Training

variable {α : Type} [Scalar α] {σ : Type} [RandomSource σ] {net net' : Network α} {d : Dataset α}
  {indices : List Nat} {o o' : Optimizer α} {s s' : σ} {t t' : Tally α}

omit [RandomSource σ] in
theorem frame_deal (ls : List (Layer α)) (ps : List (Parameter α)) :
    (deal ls ps).map Layer.frame = ls.map Layer.frame := by
  induction ls generalizing ps with
  | nil => rfl
  | cons l ls ih => rw [deal, List.map_cons, List.map_cons, Layer.frame_withParameters, ih]

theorem trainBatch_frame (h : net.trainBatch d indices o s = .ok (net', o', s', t)) : Frame net net' := by
  obtain ⟨-, mid, hrun, hstep⟩ := trainBatch_eq_ok.mp h
  obtain ⟨hk, -⟩ := trainSamples_retains hrun
  obtain ⟨ps, -, rfl⟩ := applyGradients_eq_ok.mp hstep
  exact hk.toTwins.frame.trans ⟨rfl, rfl, frame_deal mid.layers ps⟩

omit [Scalar α] in
theorem Chained.of_bare {shape : Shape} {ls ks : List (Layer α)} (h : Chained shape ls)
    (hb : ks.map Layer.bare = ls.map Layer.bare) (ht : ∀ k ∈ ks, k.Tidy) : Chained shape ks := by
  induction ls generalizing shape ks with
  | nil =>
      obtain rfl : ks = [] := by simpa using hb
      trivial
  | cons l ls ih =>
      cases ks with
      | nil => simp at hb
      | cons k ks =>
          obtain ⟨hl, hls⟩ := List.cons.inj hb
          obtain ⟨hi, hsound, -, hc⟩ := h
          rw [List.forall_mem_cons] at ht
          refine ⟨(Layer.inputShape_eq_of_bare hl).trans hi, hsound.of_bare hl, ht.1, ?_⟩
          rw [Layer.outputShape_eq_of_bare hl]
          exact ih hc hls ht.2

theorem Chained.deal {shape : Shape} {ls : List (Layer α)} (h : Chained shape ls) {ps : List (Parameter α)}
    (hs : ps.map (·.values.size) = (ls.flatMap fun l => l.ready.parameters).map (·.values.size))
    (hm : ∀ p ∈ ps, p.Matched) : Chained shape (deal ls ps) := by
  induction ls generalizing shape ps with
  | nil => trivial
  | cons l ls ih =>
      obtain ⟨hi, hl, -, hc⟩ := h
      obtain ⟨hfront, hrest⟩ := map_take_drop hs l.length_parameters_ready
      obtain ⟨hl', ht'⟩ := hl.withParameters hfront fun p hp => hm p (List.mem_of_mem_take hp)
      have hframe := l.frame_withParameters (ps.take l.parameters.length)
      refine ⟨?_, hl', ht', ?_⟩
      · rw [← Layer.inputShape_frame, hframe, Layer.inputShape_frame, hi]
      · rw [← Layer.outputShape_frame, hframe, Layer.outputShape_frame]
        exact ih hc hrest fun p hp => hm p (List.mem_of_mem_drop hp)

theorem Steady.trainSamples (hn : net.Steady) {is : List Nat}
    (h : trainSamples d is net s t = .ok (net', s', t')) : net'.Steady := by
  obtain ⟨hk, -⟩ := trainSamples_retains h
  refine ⟨hk.toTwins.frame.nonempty hn.layers, ?_⟩
  rw [hk.inputShape]
  exact hn.chained.of_bare hk.bare (hk.tidy hn.chained.tidy)

theorem Steady.trainBatch (hn : net.Steady) (h : net.trainBatch d indices o s = .ok (net', o', s', t)) :
    net'.Steady := by
  have hframe := trainBatch_frame h
  obtain ⟨-, mid, hrun, hstep⟩ := trainBatch_eq_ok.mp h
  have hmid := hn.trainSamples hrun
  obtain ⟨ps, hps, rfl⟩ := applyGradients_eq_ok.mp hstep
  obtain ⟨values, -, rfl, hsizes⟩ := updates_of_mapSlots hps hmid.chained.matched
  refine ⟨hframe.nonempty hn.layers, hmid.chained.deal ?_ fun p hp => ?_⟩
  · rw [List.map_map]
    exact hsizes
  · obtain ⟨v, -, rfl⟩ := List.mem_map.mp hp
    exact Parameter.cleared_matched v

theorem steady_kept (net : Network α) : Kept σ d fun k => k.Steady ∧ Frame net k := by
  rintro k k' is o o' s s' t ⟨hk, hframe⟩ hone
  exact ⟨hk.trainBatch hone, hframe.trans (trainBatch_frame hone)⟩

theorem Steady.fit {τ : Type} {train : Dataset α} {validation : Option (Dataset α)} {schedule : Schedule}
    {source : σ} {send : Receiver α τ} {receiver : τ} {r : Run α σ τ} (hn : net.Steady)
    (h : net.fit train validation o schedule source send receiver = .ok r) : r.network.Steady :=
  fit_invariant (fun _ _ _ _ _ _ _ _ hk hone => Steady.trainBatch hk hone) hn h

omit [Scalar α] in
theorem Steady.outputSize (hn : net.Steady) :
    net.outputSize = .ok (outputFrom net.inputShape net.layers).size :=
  outputSize_of_sound hn.layers hn.chained.sound net.inputShape

theorem trainSamples_fits {is : List Nat} (hne : is ≠ []) (h : trainSamples d is net s t = .ok (net', s', t')) :
    Buffer.fits d.numClasses = true := by
  obtain ⟨i, is, rfl⟩ := List.exists_cons_of_ne_nil hne
  obtain ⟨label, target, image, net₁, s₁, one, -, htarget, -⟩ := trainSamples_cons.mp h
  obtain ⟨hroom, -⟩ := require_bind_eq_ok.mp htarget
  simp only [Bool.and_eq_true] at hroom
  exact hroom.2

/-- What every batch that answers leaves: room for all that its layers give out, and for the classes of
its dataset. -/
theorem trainBatch_room : Given σ d fun k => (∀ l ∈ k.layers, l.Roomy) ∧ Buffer.fits d.numClasses = true := by
  intro net net' indices o o' s s' t h
  obtain ⟨hne, mid, hrun, -⟩ := trainBatch_eq_ok.mp h
  exact ⟨(trainBatch_retains h).2, trainSamples_fits hne hrun⟩

omit [RandomSource σ] in
theorem Steady.infers (hn : net.Steady) {n : Nat} (hroom : ∀ l ∈ net.layers, l.Roomy)
    (hout : net.outputSize = .ok n) (hfits : Buffer.fits n = true) : net.Infers n := by
  obtain rfl : (outputFrom net.inputShape net.layers).size = n := Except.ok.inj (hn.outputSize.symm.trans hout)
  refine infers_of_chained hn.layers (hn.chained.of_bare ?_ fun k hk => ?_) hroom hfits
  · simp [Function.comp_def]
  · obtain ⟨l, -, rfl⟩ := List.mem_map.mp hk
    exact l.tidy_bare

end Training

section Reading

theorem mem_of_collect {β : Type} {f : Json → Option β} {vs : List Json} {acc out : Array β}
    (h : Json.collect f vs acc = some out) : ∀ b ∈ out, b ∈ acc ∨ ∃ v, f v = some b := by
  induction vs generalizing acc with
  | nil =>
      obtain ⟨⟩ := Option.some.inj h
      exact fun b hb => .inl hb
  | cons v vs ih =>
      rw [Json.collect] at h
      cases hv : f v with
      | none => simp [hv] at h
      | some c =>
          rw [hv] at h
          intro b hb
          rcases ih h b hb with hb | hb
          · rcases Array.mem_push.mp hb with hb | rfl
            · exact .inl hb
            · exact .inr ⟨v, hv⟩
          · exact .inr hb

theorem exists_of_mem_list? {β : Type} {f : Json → Option β} {v : Json} {out : List β}
    (h : Json.list? f v = some out) : ∀ b ∈ out, ∃ v, f v = some b := by
  obtain ⟨bs, hbs, rfl⟩ := Option.map_eq_some_iff.mp h
  intro b hb
  cases v with
  | array vs => exact (mem_of_collect hbs b (Array.mem_toList_iff.mp hb)).resolve_left (Array.not_mem_empty b)
  | null | bool | number | string | object => cases hbs

variable {α : Type} [JsonNumber α]

theorem Dense.weightsGrad_of_ofJson? {v : Json} {l : Dense α} (h : Dense.ofJson? v = some l) :
    l.weightsGrad = .empty := by
  unfold Dense.ofJson? at h
  obtain ⟨slots, -, h⟩ := Option.bind_eq_some_iff.mp h
  split at h
  · obtain ⟨w, -, h⟩ := Option.bind_eq_some_iff.mp h
    obtain ⟨b, -, h⟩ := Option.bind_eq_some_iff.mp h
    obtain ⟨a, -, h⟩ := Option.bind_eq_some_iff.mp h
    obtain ⟨⟩ := Option.some.inj h
    rfl
  · cases h

theorem tidy_of_ofJson? {level : Nat} {v : Json} {l : Layer α} (h : Layer.ofJson? level v = some l) :
    l.Tidy := by
  unfold Layer.ofJson? at h
  obtain ⟨⟨tag, w⟩, -, h⟩ := Option.bind_eq_some_iff.mp h
  split at h
  case h_3 =>
    obtain ⟨slots, -, h⟩ := Option.bind_eq_some_iff.mp h
    split at h
    · obtain ⟨x, -, h⟩ := Option.bind_eq_some_iff.mp h
      obtain ⟨⟩ := Option.some.inj h
      trivial
    · cases h
  case h_4 =>
    obtain ⟨d, hd, h⟩ := Option.bind_eq_some_iff.mp h
    obtain ⟨⟩ := Option.some.inj h
    rw [Layer.Tidy, Dense.weightsGrad_of_ofJson? hd]
    exact (Nat.zero_mul 0).symm
  case h_7 => cases h
  all_goals
    obtain ⟨x, -, h⟩ := Option.bind_eq_some_iff.mp h
    obtain ⟨⟩ := Option.some.inj h
    trivial

theorem tidy_of_networkJson? {v : Json} {net : Network α} (h : ofJson? v = some net) :
    ∀ l ∈ net.layers, l.Tidy := by
  unfold Network.ofJson? at h
  obtain ⟨slots, -, h⟩ := Option.bind_eq_some_iff.mp h
  split at h
  case h_2 => cases h
  rename_i i ls lo m
  obtain ⟨x, -, h⟩ := Option.bind_eq_some_iff.mp h
  obtain ⟨layers, hls, h⟩ := Option.bind_eq_some_iff.mp h
  obtain ⟨y, -, h⟩ := Option.bind_eq_some_iff.mp h
  obtain ⟨z, -, h⟩ := Option.bind_eq_some_iff.mp h
  obtain ⟨⟩ := Option.some.inj h
  intro l hl
  cases ls with
  | given w =>
      obtain ⟨u, hu⟩ := exists_of_mem_list? hls l hl
      exact tidy_of_ofJson? hu
  | noMember | noItem => cases hls

variable [Scalar α]

theorem steady_of_ofDocument {v : Json} {net : Network α} (h : ofDocument v = .ok net) : net.Steady := by
  unfold ofDocument at h
  cases hv : (ofJson? v : Option (Network α)) with
  | none => simp [hv] at h
  | some k =>
      rw [hv] at h
      obtain ⟨⟨⟩, hcheck, h⟩ := bind_eq_ok.mp h
      obtain rfl := pure_eq_ok_iff.mp h
      obtain ⟨hne, hfrom⟩ := checkLayersFrom_of_checkLayers hcheck
      refine ⟨hne, (chained_of_check hfrom).of_bare ?_ (tidy_of_networkJson? hv)⟩
      simp [Function.comp_def]

variable {σ : Type} {draw : Initializer α σ}

omit [JsonNumber α] in
theorem Realizes.steady {m : ModelSpec α} {shapes : List Shape} {net : Network α} (hr : net.Realizes m)
    (hv : m.Valid shapes) : net.Steady := by
  refine ⟨fun hnil => hv.layers (hr.layers.nil_of_nil hnil), ?_⟩
  rw [hr.inputShape]
  exact (hr.chained hv).1

theorem Arises.steady (hd : Initializer.Draws draw) {net : Network α} (h : net.Arises draw) : net.Steady := by
  induction h with
  | built h =>
      obtain ⟨shapes, -, hval, -, -⟩ := build_eq_ok.mp h
      exact (build_realizes hd h).steady (ModelSpec.valid_of_validate hval)
  | read h => exact steady_of_ofDocument h
  | told _ _ ih => exact ⟨ih.layers, ih.chained⟩
  | batch _ h ih => exact ih.trainBatch h
  | fit _ h ih => exact ih.fit h

end Reading

end Network

end Convnet
