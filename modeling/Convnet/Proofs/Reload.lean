import Convnet.Proofs.Batch
import Convnet.Proofs.Doubles
import Convnet.Proofs.Files
import Convnet.Proofs.Fit
import Convnet.Proofs.Peer
import Convnet.Proofs.Session

namespace Convnet

section Training

variable {α : Type} [Scalar α] {σ : Type} [RandomSource σ]

omit [Scalar α] in
theorem Layer.roomy_of_bare {l k : Layer α} (h : k.bare = l.bare) : k.Roomy ↔ l.Roomy := by
  rw [← k.roomy_bare, h, l.roomy_bare]

namespace Network

section Passes

variable {ls ks : List (Layer α)}

theorem forwardLayers_retains {x y : Tensor α} {phase phase' : Phase σ}
    (h : forwardLayers ls x phase = .ok (ks, y, phase')) :
    ks.map Layer.bare = ls.map Layer.bare ∧ ((∀ l ∈ ls, l.Tidy) → ∀ k ∈ ks, k.Tidy) ∧ ∀ k ∈ ks, k.Roomy := by
  induction ls generalizing x phase ks with
  | nil =>
      obtain ⟨⟩ := Except.ok.inj h
      exact ⟨rfl, id, by simp⟩
  | cons l ls ih =>
      obtain ⟨l', x', phase₁, ls', hl, hls, rfl⟩ := forwardLayers_cons.mp h
      have hp := Layer.passes_of_forward hl
      obtain ⟨hb, ht, hr⟩ := ih hls
      refine ⟨by rw [List.map_cons, List.map_cons, hp.bare, hb], fun hts => ?_, ?_⟩
      · rw [List.forall_mem_cons] at hts ⊢
        exact ⟨hp.tidy hts.1, ht hts.2⟩
      · exact List.forall_mem_cons.mpr ⟨(Layer.roomy_of_bare hp.bare).mpr hp.roomy, hr⟩

omit [RandomSource σ] in
theorem backwardLayers_retains {g b : Tensor α} (h : backwardLayers ls g = .ok (ks, b)) :
    ks.map Layer.bare = ls.map Layer.bare ∧ ((∀ l ∈ ls, l.Tidy) → ∀ k ∈ ks, k.Tidy) ∧
      ((∀ l ∈ ls, l.Roomy) → ∀ k ∈ ks, k.Roomy) := by
  induction ls generalizing ks b with
  | nil =>
      obtain ⟨⟩ := Except.ok.inj h
      exact ⟨rfl, id, id⟩
  | cons l ls ih =>
      obtain ⟨ls', g', l', hls, hl, rfl⟩ := backwardLayers_cons.mp h
      have hp := Layer.passesBack_of_backward hl
      obtain ⟨hb, ht, hr⟩ := ih hls
      refine ⟨by rw [List.map_cons, List.map_cons, hp.bare, hb], fun hts => ?_, fun hrs => ?_⟩
      · rw [List.forall_mem_cons] at hts ⊢
        exact ⟨hp.tidy hts.1, ht hts.2⟩
      · rw [List.forall_mem_cons] at hrs ⊢
        exact ⟨(Layer.roomy_of_bare hp.bare).mpr hrs.1, hr hrs.2⟩

end Passes

variable {net net' : Network α} {m : ModelSpec α} {shapes : List Shape} {d : Dataset α} {s s' : σ}
  {t t' : Tally α}

/-- What passes over samples keep of a network: everything but what its layers gather. -/
structure Retains (net net' : Network α) : Prop extends Twins net net' where
  metadata : net'.metadata = net.metadata
  tidy : (∀ l ∈ net.layers, l.Tidy) → ∀ l ∈ net'.layers, l.Tidy

omit [Scalar α] in
theorem Retains.refl (net : Network α) : Retains net net := ⟨.refl net, rfl, id⟩

omit [Scalar α] in
theorem Retains.trans {net'' : Network α} (h : Retains net net') (h' : Retains net' net'') : Retains net net'' :=
  ⟨h.toTwins.trans h'.toTwins, h'.metadata.trans h.metadata, h'.tidy ∘ h.tidy⟩

omit [Scalar α] in
theorem Retains.realizes (h : Retains net net') (hr : net.Realizes m) (ht : ∀ l ∈ net.layers, l.Tidy) :
    net'.Realizes m :=
  ⟨h.inputShape.trans hr.inputShape, h.loss.trans hr.loss, hr.layers.of_bare h.bare (h.tidy ht)⟩

theorem forward_retains {x : Tensor α} {out : Array α} {phase phase' : Phase σ}
    (h : net.forward x phase = .ok (net', out, phase')) : Retains net net' ∧ ∀ l ∈ net'.layers, l.Roomy := by
  obtain ⟨ls, y, hls, rfl, -⟩ := forward_eq_ok.mp h
  obtain ⟨hb, ht, hr⟩ := forwardLayers_retains hls
  exact ⟨⟨⟨rfl, rfl, hb⟩, rfl, ht⟩, hr⟩

omit [RandomSource σ] in
theorem backward_retains {g : Array α} (h : net.backward g = .ok net') :
    Retains net net' ∧ ((∀ l ∈ net.layers, l.Roomy) → ∀ l ∈ net'.layers, l.Roomy) := by
  obtain ⟨ls, b, hls, rfl⟩ := backward_eq_ok.mp h
  obtain ⟨hb, ht, hr⟩ := backwardLayers_retains hls
  exact ⟨⟨⟨rfl, rfl, hb⟩, rfl, ht⟩, hr⟩

theorem trainSample_retains {image : Tensor α} {label : Nat} {target : Array α}
    (h : net.trainSample image label target s = .ok (net', s', t)) :
    Retains net net' ∧ ∀ l ∈ net'.layers, l.Roomy := by
  obtain ⟨mid, out, phase, hfor, hback, -, -⟩ := trainSample_eq_ok.mp h
  obtain ⟨hk, hr⟩ := forward_retains hfor
  obtain ⟨hk', hr'⟩ := backward_retains hback
  exact ⟨hk.trans hk', hr' hr⟩

theorem trainSamples_retains {is : List Nat} (h : trainSamples d is net s t = .ok (net', s', t')) :
    Retains net net' ∧ (is = [] ∨ ∀ l ∈ net'.layers, l.Roomy) := by
  induction is generalizing net s t with
  | nil =>
      obtain ⟨⟩ := Except.ok.inj h
      exact ⟨.refl _, .inl rfl⟩
  | cons i is ih =>
      obtain ⟨label, target, image, net₁, s₁, one, -, -, -, hone, hrest⟩ := trainSamples_cons.mp h
      obtain ⟨hk, hr⟩ := trainSample_retains hone
      obtain ⟨hk', hr'⟩ := ih hrest
      refine ⟨hk.trans hk', .inr ?_⟩
      rcases hr' with rfl | hr'
      · obtain ⟨⟩ := Except.ok.inj hrest
        exact hr
      · exact hr'

structure Settled (net : Network α) (m : ModelSpec α) : Prop where
  realizes : net.Realizes m
  cleared : net.Cleared

omit [RandomSource σ] in
theorem Settled.told (hn : net.Settled m) (known : Option (Metadata α)) :
    ({ net with metadata := known } : Network α).Settled m :=
  ⟨⟨hn.realizes.inputShape, hn.realizes.loss, hn.realizes.layers⟩, hn.cleared⟩

omit [RandomSource σ] in
theorem Realizes.step {o o' : Optimizer α} {scale : α} (hr : net.Realizes m) (hv : m.Valid shapes)
    (h : net.applyGradients o scale = .ok (net', o')) : net'.Settled m := by
  obtain ⟨values, -, hpars, hr'⟩ := hr.applyGradients (hr.matched hv) h
  refine ⟨hr', fun p hp => ?_⟩
  rw [hpars] at hp
  obtain ⟨v, -, rfl⟩ := List.mem_map.mp hp
  rfl

theorem Realizes.trainBatch {indices : List Nat} {o o' : Optimizer α} (hr : net.Realizes m) (hv : m.Valid shapes)
    (h : net.trainBatch d indices o s = .ok (net', o', s', t)) : net'.Settled m := by
  obtain ⟨-, mid, hrun, hstep⟩ := trainBatch_eq_ok.mp h
  obtain ⟨hk, -⟩ := trainSamples_retains hrun
  exact (hk.realizes hr (hr.chained hv).1.tidy).step hv hstep

end Network

namespace Run

variable {τ : Type} {schedule : Schedule} {send : Receiver α τ} {train : Dataset α}
  {validation : Option (Dataset α)} {P : Network α → Prop} {r r' : Run α σ τ}

theorem epochs_invariant (hP : Network.Kept σ train P) {n k : Nat} (hr : P r.network)
    (h : epochs schedule send train validation n k r = .ok r') : P r'.network := by
  induction n generalizing k r with
  | zero =>
      obtain ⟨⟩ := Except.ok.inj h
      exact hr
  | succ n ih =>
      obtain ⟨r₁, hone, h⟩ := epochs_succ.mp h
      have hr₁ := epoch_invariant hP hr hone
      split at h
      · rwa [h]
      · exact ih hr₁ h

end Run

namespace Network

variable {m : ModelSpec α} {shapes : List Shape}

theorem fit_invariant {τ : Type} {train : Dataset α} {P : Network α → Prop} (hP : Kept σ train P) {net : Network α}
    (hn : P net) {validation : Option (Dataset α)} {o : Optimizer α} {schedule : Schedule} {source : σ}
    {send : Receiver α τ} {receiver : τ} {r : Run α σ τ}
    (h : net.fit train validation o schedule source send receiver = .ok r) : P r.network := by
  obtain ⟨v, -, h⟩ := bind_eq_ok.mp h
  exact Run.epochs_invariant hP hn h

theorem realizes_kept {d : Dataset α} (hv : m.Valid shapes) : Kept σ d fun k => k.Realizes m :=
  fun _ _ _ _ _ _ _ _ hr hone => (hr.trainBatch hv hone).realizes

theorem settled_kept {d : Dataset α} (hv : m.Valid shapes) : Kept σ d fun k => k.Settled m :=
  fun _ _ _ _ _ _ _ _ hn hone => hn.realizes.trainBatch hv hone

theorem Settled.fit {τ : Type} {net : Network α} {train : Dataset α} {validation : Option (Dataset α)}
    {o : Optimizer α} {schedule : Schedule} {source : σ} {send : Receiver α τ} {receiver : τ} {r : Run α σ τ}
    (hn : net.Settled m) (hv : m.Valid shapes)
    (h : net.fit train validation o schedule source send receiver = .ok r) : r.network.Settled m :=
  fit_invariant (settled_kept hv) hn h

end Network

end Training

namespace Network

section Growth

variable {α σ : Type} [Scalar α]

/-- What becomes of a described model: a network that was built, then trained on batches and in whole
runs, and told what is known of it, in any order. -/
inductive Grown (draw : Initializer α σ) (m : ModelSpec α) : Network α → Prop
  | built {net : Network α} {s s' : σ} (h : build draw m s = .ok (net, s')) : Grown draw m net
  | told {net : Network α} (hg : Grown draw m net) (known : Option (Metadata α)) :
      Grown draw m { net with metadata := known }
  | batch {ρ : Type} [RandomSource ρ] {net net' : Network α} (hg : Grown draw m net) {d : Dataset α}
      {indices : List Nat} {o o' : Optimizer α} {s s' : ρ} {t : Tally α}
      (h : net.trainBatch d indices o s = .ok (net', o', s', t)) : Grown draw m net'
  | fit {ρ τ : Type} [RandomSource ρ] {net : Network α} (hg : Grown draw m net) {train : Dataset α}
      {validation : Option (Dataset α)} {o : Optimizer α} {schedule : Schedule} {source : ρ}
      {send : Receiver α τ} {receiver : τ} {r : Run α ρ τ}
      (h : net.fit train validation o schedule source send receiver = .ok r) : Grown draw m r.network

variable {draw : Initializer α σ} {m : ModelSpec α} {net : Network α}

theorem Grown.settled (hd : Initializer.Draws draw) (h : net.Grown draw m) :
    (∃ shapes, m.Valid shapes) ∧ net.Settled m := by
  induction h with
  | built h =>
      obtain ⟨shapes, -, hv, -, -⟩ := build_eq_ok.mp h
      exact ⟨⟨shapes, ModelSpec.valid_of_validate hv⟩, build_realizes hd h, build_cleared hd h⟩
  | told _ known ih =>
      exact ⟨ih.1, ih.2.told known⟩
  | batch _ h ih =>
      obtain ⟨⟨shapes, hv⟩, hn⟩ := ih
      exact ⟨⟨shapes, hv⟩, hn.realizes.trainBatch hv h⟩
  | fit _ h ih =>
      obtain ⟨⟨shapes, hv⟩, hn⟩ := ih
      exact ⟨⟨shapes, hv⟩, hn.fit hv h⟩

end Growth

end Network

section Bare

variable {α : Type} [Scalar α]

theorem Buffer.sized_empty (n : Nat) : sized (#[] : Array α) n = zeros n := by
  cases n with
  | zero => rfl
  | succ n => rw [sized, if_neg (by simp)]

theorem Parameter.eq_cleared {ps : List (Parameter α)} (h : ∀ p ∈ ps, p = cleared p.values) :
    ps = (ps.map (·.values)).map cleared := by
  rw [List.map_map]
  exact (List.map_id ps).symm.trans (List.map_congr_left h)

namespace Layer

theorem bare_cleared {l : Layer α} (hl : l.PartsSound) :
    ∀ p ∈ l.bare.ready.parameters, p = Parameter.cleared p.values := by
  intro p hp
  cases l with
  | conv l =>
      simp only [bare, ready, parameters, Convolution.ready, Buffer.sized_empty, List.mem_cons,
        List.not_mem_nil, or_false] at hp
      rcases hp with rfl | rfl <;> rfl
  | dense l =>
      have hsize : l.weights.data.size = l.weights.rows * l.weights.cols := Dense.Sound.weights hl
      simp only [bare, ready, parameters, Dense.ready, Buffer.sized_empty, List.mem_cons,
        List.not_mem_nil, or_false] at hp
      rcases hp with rfl | rfl
      · rw [Parameter.cleared, hsize]
        split
        case isTrue h =>
          rw [← h.1, ← h.2]
          rfl
        case isFalse => rfl
      · rfl
  | pool | flatten | dropout | pointwise => exact absurd hp List.not_mem_nil

/-- A layer that holds no gradient is the peer of what is saved of it. -/
theorem peer_bare {l : Layer α} (hl : l.PartsSound)
    (hc : ∀ p ∈ l.ready.parameters, p = Parameter.cleared p.values) : l.Peer l.bare := by
  refine ⟨l.bare_bare, ?_⟩
  rw [Parameter.eq_cleared (bare_cleared hl), Parameter.eq_cleared hc, values_of_bare l.bare_bare]

end Layer

namespace Network

variable {m : ModelSpec α} {shapes : List Shape} {net : Network α}

theorem Chained.peers {s : Shape} {ls : List (Layer α)} (h : Chained s ls)
    (hc : ∀ p ∈ ls.flatMap fun l => l.ready.parameters, p = Parameter.cleared p.values) :
    List.Forall₂ Layer.Peer ls (ls.map Layer.bare) := by
  induction ls generalizing s with
  | nil => exact .nil
  | cons l ls ih =>
      obtain ⟨-, hl, -, h⟩ := h
      rw [List.flatMap_cons, List.forall_mem_append] at hc
      exact .cons (Layer.peer_bare hl.parts hc.1) (ih h hc.2)

theorem Settled.peer (hn : net.Settled m) (hv : m.Valid shapes) :
    net.Peer { net with layers := net.layers.map Layer.bare } :=
  ⟨rfl, rfl, rfl, (hn.realizes.chained hv).1.peers hn.cleared⟩

end Network

theorem Layer.inUnit_of_check {l : Dropout α} {i : Option Nat} (h : (Layer.dropout l).check i = .ok ()) :
    Scalar.inUnit l.rate = true := by
  have hs := (check_eq_ok.mp h).settings
  simpa [settingsFault?] using hs

theorem Network.check_of_mem {i : Nat} {s : Shape} {ls : List (Layer α)} (h : checkLayersFrom i s ls = .ok ()) :
    ∀ l ∈ ls, ∃ j, l.check j = .ok () := by
  induction ls generalizing i s with
  | nil => simp
  | cons l ls ih =>
      obtain ⟨hl, -, h⟩ := checkLayersFrom_cons.mp h
      exact List.forall_mem_cons.mpr ⟨⟨_, hl⟩, ih h⟩

end Bare

section Doubles

variable {m : ModelSpec Float} {shapes : List Shape} {net : Network Float}

theorem Layer.numbers_finite {l : Layer Float} (hl : ∃ i, l.check i = .ok ())
    (hp : ∀ p ∈ l.ready.parameters, ∀ x ∈ p.values, x.isFinite = true) : ∀ x ∈ l.numbers, x.isFinite = true := by
  intro x hx
  cases l with
  | conv l =>
      simp only [ready, parameters, List.forall_mem_cons] at hp
      rcases List.mem_append.mp hx with hx | hx
      · exact hp.1 x (Array.mem_toList_iff.mp hx)
      · exact hp.2.1 x (Array.mem_toList_iff.mp hx)
  | dense l =>
      simp only [ready, parameters, List.forall_mem_cons] at hp
      rcases List.mem_append.mp hx with hx | hx
      · exact hp.1 x (Array.mem_toList_iff.mp hx)
      · exact hp.2.1 x (Array.mem_toList_iff.mp hx)
  | dropout l =>
      obtain rfl := List.mem_singleton.mp hx
      obtain ⟨i, hi⟩ := hl
      exact Binary64.isFinite_of_inUnit (inUnit_of_check hi)
  | pool | flatten | pointwise => exact absurd hx List.not_mem_nil

namespace Network

/-- Whether all parameters of a network, and the numbers of what is known of it, are finite. -/
structure Finite (net : Network Float) : Prop where
  parameters : ∀ p ∈ net.parameters, ∀ x ∈ p.values, x.isFinite = true
  metadata : ∀ k, net.metadata = some k → ∀ x ∈ k.numbers, x.isFinite = true

theorem Finite.numbers (hf : net.Finite) (hcheck : net.checkLayers = .ok ()) :
    ∀ x ∈ net.numbers, x.isFinite = true := by
  intro x hx
  rcases List.mem_append.mp hx with hx | hx
  · obtain ⟨l, hl, hx⟩ := List.mem_flatMap.mp hx
    exact Layer.numbers_finite (check_of_mem (checkLayersFrom_of_checkLayers hcheck).2 l hl)
      (fun p hp => hf.parameters p (List.mem_flatMap_of_mem hl hp)) x hx
  · cases hk : net.metadata with
    | none => simp [hk] at hx
    | some k =>
        rw [hk] at hx
        exact hf.metadata k hk x hx

theorem ofDocument_toJson (hcheck : net.checkLayers = .ok ()) (hc : net.Counted)
    (hf : ∀ x ∈ net.numbers, x.isFinite = true) :
    ofDocument net.toJson.reread = .ok { net with layers := net.layers.map Layer.bare } := by
  rw [ofDocument, ofJson?_toJson hc fun x hx => JsonNumber.returns_of_isFinite (hf x hx)]
  exact bind_eq_ok.mpr ⟨(), (unseen_bare.checkLayers net net.loss).trans hcheck, rfl⟩

theorem Settled.ofDocument (hn : net.Settled m) (hv : m.Valid shapes) (hc : net.Counted) (hf : net.Finite) :
    ofDocument net.toJson.reread = .ok { net with layers := net.layers.map Layer.bare } :=
  have hcheck := (hn.realizes.fits hv).check
  ofDocument_toJson hcheck hc (hf.numbers hcheck)

end Network

/-- Saving and reading back cannot be told: what is read back of a network that was built and trained, all
of whose numbers are finite, says the same, has the same parameters, and replies the same to whatever
it is asked next, with the same parameters after it. -/
theorem Network.Grown.reloads {σ ω : Type} {draw : Initializer Float σ} (hd : Initializer.Draws draw)
    {m : ModelSpec Float} {net : Network Float} (hg : net.Grown draw m) (hc : net.Counted) (hf : net.Finite)
    {path : String} {s s' : Session ω} (hs : (Action.save path net.toJson).on s = (.ok (), s')) :
    ∃ net' : Network Float,
      (Action.reading fun d => do Network.ofDocument (← d.readJson path)).on s' = (.ok net', s') ∧
      net'.inputShape = net.inputShape ∧ net'.loss = net.loss ∧ net'.metadata = net.metadata ∧
      net'.layers = net.layers.map Layer.bare ∧ net'.parameters = net.parameters ∧
      ∀ (ρ τ : Type) [RandomSource ρ] (next : List (Result (Reply Float ρ τ)) → Request Float ρ τ) (n : Nat),
        (net'.dialogue next n []).2 = (net.dialogue next n []).2 ∧
        (net'.dialogue next n []).1.parameters = (net.dialogue next n []).1.parameters := by
  obtain ⟨⟨shapes, hv⟩, hn⟩ := hg.settled hd
  obtain ⟨d, hwrite, rfl⟩ := Action.save_on_eq_ok.mp hs
  have hread := Disk.readJson_write hwrite (Json.ofBytes?_write true net.toJson)
  have hpeer := hn.peer hv
  refine ⟨_, Action.reading_on_eq_ok.mpr ⟨bind_eq_ok.mpr ⟨_, hread, hn.ofDocument hv hc hf⟩, rfl⟩, rfl, rfl, rfl, rfl,
    hpeer.parameters, fun ρ τ _ next n => ?_⟩
  obtain ⟨hafter, hreplies⟩ := hpeer.dialogue next n []
  exact ⟨hreplies, hafter.parameters⟩

theorem Network.Grown.reloads_small : ∃ (net net' : Network Float) (s : Session String),
    (Action.save "m" net.toJson).on ⟨.empty [], ""⟩ = (.ok (), s) ∧
      (Action.reading fun d => do Network.ofDocument (← d.readJson "m")).on s = (.ok net', s) ∧
      net'.metadata = some .empty ∧ net'.parameters = net.parameters ∧
      ∀ image, ((net'.dialogue (σ := Stream) (τ := Unit) (fun _ => .predict image) 1 []).2 =
        (net.dialogue (fun _ => .predict image) 1 []).2) := by
  obtain ⟨m, hm⟩ : ∃ m : ModelSpec Float, m = ⟨.flat 1, [.dropout 0.5, .dense 2 .softmax],
    .categoricalCrossentropy⟩ := ⟨_, rfl⟩
  obtain ⟨net, hnet⟩ : ∃ net : Network Float, net = ⟨.flat 1, [.dropout ⟨0.5, .flat 1, #[]⟩,
    .dense ⟨⟨1, 2, Array.replicate 2 1⟩, Buffer.zeros 2, .softmax, .zeros 1 2, Buffer.zeros 2, #[], #[]⟩],
    .categoricalCrossentropy, none⟩ := ⟨_, rfl⟩
  have hbuild : build (fun _ _ n s => .ok (Array.replicate n 1, s)) m () = .ok (net, ()) := by
    subst hm hnet
    rfl
  have hc : ({ net with metadata := some .empty } : Network Float).Counted := by
    subst hnet
    have hone : (Shape.flat 1).Counted := ⟨by decide, by decide, by decide⟩
    refine ⟨hone, ?_, ?_⟩
    · simp [Layer.Counted, hone]
    · rintro k ⟨⟩ t ⟨⟩
  have hf : ({ net with metadata := some .empty } : Network Float).Finite := by
    subst hnet
    refine ⟨?_, ?_⟩
    · have hzero : (0 : Float).isFinite = true := by decide
      have hone : (1 : Float).isFinite = true := by decide
      simp [Network.parameters, Layer.ready, Layer.parameters, Dense.ready, Buffer.zeros, hone]
      exact hzero
    · rintro k ⟨⟩ x hx
      cases hx
  have hplace : (Disk.empty []).locate "m" = .free ["m"] := by cbv
  have hwrite : ∃ d, (Disk.empty []).write "m"
      (Network.toJson { net with metadata := some .empty }).pretty.toUTF8 = .ok d := by
    rw [Disk.write, Disk.writable?, hplace]
    exact ⟨_, rfl⟩
  obtain ⟨d, hd⟩ := hwrite
  have hsave : (Action.save "m" (Network.toJson { net with metadata := some .empty })).on
      (⟨.empty [], ""⟩ : Session String) = (.ok (), ⟨d, ""⟩) := Action.save_on_eq_ok.mpr ⟨d, hd, rfl⟩
  obtain ⟨net', hload, -, -, hknown, -, hpars, hsame⟩ :=
    Network.Grown.reloads Initializer.draws_ones ((Grown.built hbuild).told (some .empty)) hc hf hsave
  exact ⟨_, net', _, hsave, hload, hknown, hpars, fun image => (hsame Stream Unit _ 1).1⟩

end Doubles

end Convnet
