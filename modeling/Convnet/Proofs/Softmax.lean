import Convnet.Proofs.Derivative
import Convnet.Proofs.Reload

namespace Convnet

namespace Layer

variable {α : Type}

theorem beforeSoftmax_eq_iff {l : Layer α} : l.beforeSoftmax = l ↔ l.activation? ≠ some .softmax := by
  refine ⟨fun h ha => ?_, beforeSoftmax_of_ne⟩
  have hkeep : l.beforeSoftmax.activation? = l.activation?.map Activation.beforeSoftmax := by
    cases l <;> rfl
  rw [h, ha] at hkeep
  exact absurd (Option.some.inj hkeep) nofun

theorem activation_bare (l : Layer α) : l.bare.activation? = l.activation? := by
  cases l <;> rfl

def withActivation (a : Activation) : Layer α → Layer α
  | conv l => conv { l with activation := a }
  | dense l => dense { l with activation := a }
  | pointwise l => pointwise { l with activation := a }
  | l => l

end Layer

theorem ModelSpec.outputsSoftmax_iff_of_validate {α : Type} [Scalar α] {m : ModelSpec α} {shapes : List Shape}
    (h : m.validate = .ok shapes) : m.outputsSoftmax = true ↔ m.loss = .categoricalCrossentropy := by
  have hv := valid_of_validate h
  have h := (requireWord_bind_eq_ok.mp h).2
  dsimp only at h
  rw [if_neg (by simp [hv.input]), if_neg (by simpa using hv.layers)] at h
  obtain ⟨shapes', -, h⟩ := bind_eq_ok.mp h
  cases hloss : m.loss <;> cases ho : m.outputsSoftmax <;> simp [hloss, ho] at h ⊢

namespace Network

variable {α : Type}

/-- Whether the softmaxes of a network are those that its loss takes the derivative of. -/
structure SoftmaxPaired (net : Network α) : Prop where
  inner : ∀ l ∈ net.layers.dropLast, l.activation? ≠ some .softmax
  last : net.layers.getLast?.bind Layer.activation? = some .softmax ↔ net.loss = .categoricalCrossentropy

instance (net : Network α) : Decidable net.SoftmaxPaired :=
  decidable_of_iff ((∀ l ∈ net.layers.dropLast, l.activation? ≠ some .softmax) ∧
      (net.layers.getLast?.bind Layer.activation? = some .softmax ↔ net.loss = .categoricalCrossentropy))
    ⟨fun h => ⟨h.1, h.2⟩, fun h => ⟨h.inner, h.last⟩⟩

theorem SoftmaxPaired.softmaxLast {net : Network α} (h : net.SoftmaxPaired) : SoftmaxLast net.layers :=
  fun l hl => Layer.beforeSoftmax_eq_iff.mpr (h.inner l hl)

theorem softmaxPaired_iff {net : Network α} : net.SoftmaxPaired ↔
    (∀ a ∈ (net.layers.map Layer.activation?).dropLast, a ≠ some .softmax) ∧
      ((net.layers.map Layer.activation?).getLast?.join = some .softmax ↔ net.loss = .categoricalCrossentropy) := by
  have hlast : (net.layers.map Layer.activation?).getLast?.join = net.layers.getLast?.bind Layer.activation? := by
    rw [List.getLast?_map]
    cases net.layers.getLast? <;> rfl
  rw [← List.map_dropLast, List.forall_mem_map, hlast]
  exact ⟨fun h => ⟨h.inner, h.last⟩, fun h => ⟨h.1, h.2⟩⟩

theorem SoftmaxPaired.twin {net net' : Network α} (h : net.SoftmaxPaired) (ht : Twins net net') : net'.SoftmaxPaired := by
  have hbare : ∀ ls : List (Layer α), ls.map Layer.activation? = (ls.map Layer.bare).map Layer.activation? := by
    intro ls
    rw [List.map_map]
    exact List.map_congr_left fun l _ => l.activation_bare.symm
  rw [softmaxPaired_iff] at h ⊢
  rwa [hbare net'.layers, ht.bare, ← hbare, ht.loss]

section Training

variable [Scalar α]

/-- In a pass back over some layers, what one of them is handed. -/
inductive Handed (g : Tensor α) : List (Layer α) → Layer α → Tensor α → Prop
  | here {l : Layer α} {ls ls' : List (Layer α)} {g' : Tensor α} (h : backwardLayers ls g = .ok (ls', g')) :
      Handed g (l :: ls) l g'
  | behind {k l : Layer α} {ls : List (Layer α)} {g' : Tensor α} (h : Handed g ls l g') : Handed g (k :: ls) l g'

theorem Handed.of_softmax {g g' : Tensor α} {ls : List (Layer α)} {l : Layer α} (h : Handed g ls l g')
    (hlast : SoftmaxLast ls) (hl : l.activation? = some .softmax) :
    ls.getLast?.bind Layer.activation? = some .softmax ∧ g' = g := by
  induction h with
  | @here l ls ls' g' hback =>
      -- with a layer behind it, the layer is not the last one
      cases ls with
      | nil =>
          obtain ⟨⟩ := Except.ok.inj hback
          exact ⟨hl, rfl⟩
      | cons k ls => exact absurd hl (Layer.beforeSoftmax_eq_iff.mp (hlast.head (List.cons_ne_nil k ls)))
  | @behind k l ls g' h ih =>
      cases ls with
      | nil => cases h
      | cons k' ls => exact ih hlast.tail hl

variable {σ : Type} [RandomSource σ]

/-- In training on some places of a dataset, a sample whose turn comes: the network after its pass forward, the
output, and the target. -/
def Sampled (net : Network α) (d : Dataset α) (indices : List Nat) (s : σ) (mid : Network α) (out target : Array α) :
    Prop :=
  ∃ before i after label image net₁ s₁ t phase, indices = before ++ i :: after ∧
    trainSamples d before net s .zero = .ok (net₁, s₁, t) ∧ d.labels[i]? = some label ∧
    d.target label = .ok target ∧ d.images[i]? = some image ∧ net₁.forward image (.train s₁) = .ok (mid, out, phase)

theorem Sampled.twins {net mid : Network α} {d : Dataset α} {indices : List Nat} {s : σ} {out target : Array α}
    (h : net.Sampled d indices s mid out target) : Twins net mid := by
  obtain ⟨before, i, after, label, image, net₁, s₁, t, phase, -, hrun, -, -, -, hfor⟩ := h
  obtain ⟨ls, y, hls, rfl, -⟩ := forward_eq_ok.mp hfor
  exact (trainSamples_retains hrun).1.toTwins.trans ⟨rfl, rfl, (forwardLayers_retains hls).1⟩

theorem SoftmaxPaired.handed {net mid : Network α} (hp : net.SoftmaxPaired) {d : Dataset α} {indices : List Nat}
    {s : σ} {out target : Array α} (hs : net.Sampled d indices s mid out target) {l : Layer α} {g : Tensor α}
    (hg : Handed (.flat (mid.loss.derivative out target)) mid.layers l g) (hl : l.activation? = some .softmax) :
    g = .flat (Array.zipWith (fun p e => p - e) out target) := by
  have hmid := hp.twin hs.twins
  obtain ⟨hlast, rfl⟩ := hg.of_softmax hmid.softmaxLast hl
  rw [hmid.last.mp hlast]
  rfl

end Training

section Gates

variable {σ : Type} [Scalar α] {draw : Initializer α σ} {m : ModelSpec α} {net net' : Network α}

theorem Grown.validated (hg : net.Grown draw m) : ∃ shapes, m.validate = .ok shapes := by
  induction hg with
  | built h =>
      obtain ⟨shapes, -, hv, -⟩ := build_eq_ok.mp h
      exact ⟨shapes, hv⟩
  | told _ _ ih | batch _ _ ih | fit _ _ ih => exact ih

theorem Grown.softmaxPaired (hd : Initializer.Draws draw) (hg : net.Grown draw m) : net.SoftmaxPaired := by
  obtain ⟨shapes, hval⟩ := hg.validated
  obtain ⟨-, hn⟩ := hg.settled hd
  have hlayers := hn.realizes.layers
  have hlast := hlayers.softmaxLast (ModelSpec.valid_of_validate hval).chain (by omega)
  refine ⟨fun l hl => Layer.beforeSoftmax_eq_iff.mp (hlast l hl), ?_⟩
  rw [hlayers.activation_getLast, hn.realizes.loss, ← ModelSpec.outputsSoftmax_iff_of_validate hval,
    ModelSpec.outputsSoftmax, beq_iff_eq]

theorem unseen_withActivation (f : Layer α → Activation) : Unseen fun l => l.withActivation (f l) where
  check l i := by cases l <;> rfl
  kind l := by cases l <;> rfl
  inputShape l := by cases l <;> rfl
  outputShape? l := by cases l <;> rfl

/-- A network that was built and trained uses softmax where the loss takes its derivative, and so does what is
read back of it. In training, a softmax is handed nothing but the difference between output and target. What is read
is not looked at for this: it passes the check with any activations and any loss. -/
theorem Grown.softmax_handed (hd : Initializer.Draws draw) (hg : net.Grown draw m) (ht : Twins net net') :
    (net'.SoftmaxPaired ∧ ∀ {ρ : Type} [RandomSource ρ] {d : Dataset α} {indices : List Nat} {s : ρ}
      {mid : Network α} {out target : Array α}, net'.Sampled d indices s mid out target → ∀ l g,
        Handed (.flat (mid.loss.derivative out target)) mid.layers l g → l.activation? = some .softmax →
          g = .flat (Array.zipWith (fun p e => p - e) out target)) ∧
    ∀ (read : Network α) (f : Layer α → Activation) (loss : Loss),
      ({ read with layers := read.layers.map fun l => l.withActivation (f l), loss := loss } : Network α).checkLayers =
        read.checkLayers := by
  have hp := (hg.softmaxPaired hd).twin ht
  exact ⟨⟨hp, fun hs l g hg hl => hp.handed hs hg hl⟩, fun read f loss => (unseen_withActivation f).checkLayers read loss⟩

theorem Grown.softmax_handed_alone : ∃ (net mid : Network Float) (d : Dataset Float) (out target : Array Float)
    (l : Layer Float) (g : Tensor Float), net.SoftmaxPaired ∧ net.Sampled d [0] (Stream.ofSeed 0) mid out target ∧
      Handed (.flat (mid.loss.derivative out target)) mid.layers l g ∧ l.activation? = some .softmax ∧
      g = .flat (Array.zipWith (fun p e => p - e) out target) := by
  obtain ⟨m, hm⟩ : ∃ m : ModelSpec Float, m = ⟨.flat 1, [.dense 2 .softmax], .categoricalCrossentropy⟩ := ⟨_, rfl⟩
  obtain ⟨net, hnet⟩ : ∃ net : Network Float, net = ⟨.flat 1, [.dense ⟨⟨1, 2, Array.replicate 2 1⟩, Buffer.zeros 2,
    .softmax, .zeros 1 2, Buffer.zeros 2, #[], #[]⟩], .categoricalCrossentropy, none⟩ := ⟨_, rfl⟩
  have hbuild : build (fun _ _ n s => .ok (Array.replicate n 1, s)) m () = .ok (net, ()) := by
    subst hm hnet
    rfl
  obtain ⟨⟨hp, hhanded⟩, -⟩ := Grown.softmax_handed Initializer.draws_ones (.built hbuild) (.refl net)
  obtain ⟨d, hd⟩ : ∃ d : Dataset Float, d = ⟨.flat 1, #[.flat #[1]], #[0], 2, none⟩ := ⟨_, rfl⟩
  obtain ⟨mid, out, target, phase, htarget, hfor, l, hl, hsoft⟩ : ∃ mid out target phase, d.target 0 = .ok target ∧
      net.forward (.flat #[1]) (.train (Stream.ofSeed 0)) = .ok (mid, out, phase) ∧
      ∃ l, mid.layers = [l] ∧ l.activation? = some .softmax := by
    subst hd hnet
    exact ⟨_, _, _, _, rfl, rfl, _, rfl, rfl⟩
  have hs : net.Sampled d [0] (Stream.ofSeed 0) mid out target := by
    subst hd
    exact ⟨[], 0, [], 0, _, net, _, _, phase, rfl, rfl, rfl, htarget, rfl, hfor⟩
  have hg : Handed (.flat (mid.loss.derivative out target)) mid.layers l
      (.flat (mid.loss.derivative out target)) := by
    rw [hl]
    exact .here rfl
  exact ⟨net, mid, d, out, target, l, _, hp, hs, hg, hsoft, hhanded hs l _ hg hsoft⟩

end Gates

/-- A softmax in front of another layer is read. -/
theorem ofDocument_softmax_inside : ∃ (v : Json) (net : Network Float), ofDocument v = .ok net ∧
    (net.layers.map Layer.activation?, net.loss) = ([some .softmax, some .linear], .mse) ∧ ¬ net.SoftmaxPaired := by
  obtain ⟨net, hnet⟩ : ∃ net : Network Float, net = ⟨.flat 1, [.dense ⟨⟨1, 1, #[1]⟩, #[0], .softmax, default, #[], #[],
    #[]⟩, .dense ⟨⟨1, 1, #[1]⟩, #[0], .linear, default, #[], #[], #[]⟩], .mse, none⟩ := ⟨_, rfl⟩
  have hcounted : net.Counted := by
    subst hnet
    exact ⟨⟨by decide, by decide, by decide⟩, by simp [Layer.Counted], nofun⟩
  have hfinite : ∀ x ∈ net.numbers, x.isFinite = true := by
    have hzero : (0 : Float).isFinite = true := by decide
    have hone : (1 : Float).isFinite = true := by decide
    subst hnet
    simp [numbers, Layer.numbers, hzero, hone]
  have hcheck : net.checkLayers = .ok () := by
    subst hnet
    rfl
  have hload := ofDocument_toJson hcheck hcounted hfinite
  subst hnet
  exact ⟨_, _, hload, rfl, by decide⟩

end Network

end Convnet
