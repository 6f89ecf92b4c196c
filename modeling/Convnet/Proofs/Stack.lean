import Convnet.Model.Network
import Convnet.Proofs.Pass

namespace Convnet

variable {α : Type} [Scalar α] {σ : Type} [RandomSource σ]

namespace Layer

/-- The passes forward that are not refused. -/
inductive Passes : Layer α → Tensor α → Phase σ → Layer α → Tensor α → Phase σ → Prop
  | conv (l : Convolution α) (x : Tensor α) (phase : Phase σ)
      (hf : Buffer.fits l.outputShape.size = true) :
      Passes (.conv l) x phase (.conv (l.remember x phase.isTraining))
        ⟨l.outputShape, l.activation.apply (l.response x).data⟩ phase
  | pool (l : Pooling) (x : Tensor α) (phase : Phase σ)
      (hf : Buffer.fits l.outputShape.size = true) :
      Passes (.pool l) x phase (.pool (l.remember x phase.isTraining)) ⟨l.outputShape, l.output x⟩ phase
  | flatten (s : Shape) (x : Tensor α) (phase : Phase σ) (hs : x.data.size = (Shape.flat s.size).size) :
      Passes (.flatten s) x phase (.flatten s) ⟨.flat s.size, x.data⟩ phase
  | dense (l : Dense α) (x : Tensor α) (phase : Phase σ) (hs : x.data.size = l.weights.rows)
      (hf : Buffer.fits l.weights.cols = true) :
      Passes (.dense l) x phase (.dense (l.remember x phase.isTraining))
        (.flat (l.activation.apply (l.response x.data))) phase
  | keep (l : Dropout α) (x : Tensor α) : Passes (.dropout l) x .infer (.dropout l) x .infer
  | drop (l : Dropout α) (x : Tensor α) (s : σ) :
      Passes (.dropout l) x (.train s)
        (.dropout { l with mask := (Dropout.drawMask l.rate x.data.size s).1 })
        ⟨x.shape, Buffer.zipKeep (· * ·) x.data (Dropout.drawMask l.rate x.data.size s).1⟩
        (.train (Dropout.drawMask l.rate x.data.size s).2)
  | pointwise (l : Pointwise α) (x : Tensor α) (phase : Phase σ) (hs : x.Sized) :
      Passes (.pointwise l) x phase (.pointwise (l.remember x phase.isTraining))
        ⟨x.shape, l.activation.apply x.data⟩ phase

inductive PassesBack : Layer α → Tensor α → Layer α → Tensor α → Prop
  | conv (l : Convolution α) (g x z : Tensor α) (hx : l.input = some x)
      (hz : l.preActivation = some z) (hf : Buffer.fits l.inputShape.size = true) :
      PassesBack (.conv l) g (.conv (l.gather x (l.activation.backprop g.data z.data)))
        (l.inputGradient (l.activation.backprop g.data z.data))
  | pool (l : Pooling) (g : Tensor α) (hr : l.RunsBack g)
      (hf : Buffer.fits l.inputShape.size = true) :
      PassesBack (.pool l) g (.pool l) ⟨l.inputShape, l.route g⟩
  | flatten (s : Shape) (g : Tensor α) (hs : g.data.size = s.size) :
      PassesBack (.flatten s) g (.flatten s) ⟨s, g.data⟩
  | dense (l : Dense α) (g : Tensor α)
      (hr : l.RunsBack (l.activation.backprop g.data l.preActivation)) :
      PassesBack (.dense l) g (.dense (l.gather (l.activation.backprop g.data l.preActivation)))
        (.flat (l.weights.mulVec (l.activation.backprop g.data l.preActivation)))
  | dropout (l : Dropout α) (g : Tensor α) (hs : l.mask.size = g.data.size) :
      PassesBack (.dropout l) g (.dropout l) ⟨g.shape, Buffer.zipKeep (· * ·) g.data l.mask⟩
  | pointwise (l : Pointwise α) (g : Tensor α) :
      PassesBack (.pointwise l) g (.pointwise l)
        ⟨g.shape, l.activation.backprop g.data l.preActivation⟩

theorem passes_of_forward {l l' : Layer α} {x y : Tensor α} {phase phase' : Phase σ}
    (h : l.forward x phase = .ok (l', y, phase')) : l.Passes x phase l' y phase' := by
  cases l with
  | conv l =>
      obtain ⟨r, hr, h⟩ := bind_eq_ok.mp h
      obtain ⟨hg, rfl⟩ := Convolution.forward_eq_ok.mp hr
      obtain ⟨⟩ := pure_eq_ok_iff.mp h
      simp only [Convolution.Runs, Bool.and_eq_true] at hg
      exact .conv l x phase hg.1.1.2
  | pool l =>
      obtain ⟨r, hr, h⟩ := bind_eq_ok.mp h
      obtain ⟨hg, rfl⟩ := Pooling.forward_eq_ok.mp hr
      obtain ⟨⟩ := pure_eq_ok_iff.mp h
      simp only [Bool.and_eq_true] at hg
      exact .pool l x phase hg.1.2
  | flatten s =>
      obtain ⟨out, hr, h⟩ := bind_eq_ok.mp h
      obtain ⟨hs, rfl⟩ := Tensor.ofBuffer_eq_ok.mp hr
      obtain ⟨⟩ := pure_eq_ok_iff.mp h
      exact .flatten s x phase hs
  | dense l =>
      obtain ⟨r, hr, h⟩ := bind_eq_ok.mp h
      obtain ⟨hg, rfl⟩ := Dense.forward_eq_ok.mp hr
      obtain ⟨⟩ := pure_eq_ok_iff.mp h
      simp only [Bool.and_eq_true, beq_iff_eq] at hg
      exact .dense l x phase hg.1.1 hg.1.2
  | dropout l =>
      cases phase with
      | infer =>
          obtain ⟨⟩ := pure_eq_ok_iff.mp h
          exact .keep l x
      | train s =>
          obtain ⟨⟩ := pure_eq_ok_iff.mp h
          exact .drop l x s
  | pointwise l =>
      obtain ⟨r, hr, h⟩ := bind_eq_ok.mp h
      obtain ⟨hs, rfl⟩ := Pointwise.forward_eq_ok.mp hr
      obtain ⟨⟩ := pure_eq_ok_iff.mp h
      exact .pointwise l x phase hs

theorem passesBack_of_backward {l l' : Layer α} {g b : Tensor α}
    (h : l.backward g = .ok (l', b)) : l.PassesBack g l' b := by
  cases l with
  | conv l =>
      obtain ⟨r, hr, h⟩ := bind_eq_ok.mp h
      obtain ⟨⟩ := pure_eq_ok_iff.mp h
      cases hx : l.input with
      | none => simp [Convolution.backward, hx] at hr
      | some x =>
          cases hz : l.preActivation with
          | none => simp [Convolution.backward, hx, hz] at hr
          | some z =>
              obtain ⟨hg, rfl⟩ := (Convolution.backward_eq_ok hx hz).mp hr
              rw [Bool.and_eq_true] at hg
              exact .conv l g x z hx hz hg.1
  | pool l =>
      obtain ⟨r, hr, h⟩ := bind_eq_ok.mp h
      obtain ⟨hf, hg, rfl⟩ := Pooling.backward_eq_ok.mp hr
      obtain ⟨⟩ := pure_eq_ok_iff.mp h
      exact .pool l g hg hf
  | flatten s =>
      obtain ⟨out, hr, h⟩ := bind_eq_ok.mp h
      obtain ⟨hs, rfl⟩ := Tensor.ofBuffer_eq_ok.mp hr
      obtain ⟨⟩ := pure_eq_ok_iff.mp h
      exact .flatten s g hs
  | dense l =>
      obtain ⟨r, hr, h⟩ := bind_eq_ok.mp h
      obtain ⟨hg, rfl⟩ := Dense.backward_eq_ok.mp hr
      obtain ⟨⟩ := pure_eq_ok_iff.mp h
      exact .dense l g hg
  | dropout l =>
      obtain ⟨out, hr, h⟩ := bind_eq_ok.mp h
      obtain ⟨hs, rfl⟩ := Dropout.backward_eq_ok.mp hr
      obtain ⟨⟩ := pure_eq_ok_iff.mp h
      exact .dropout l g hs
  | pointwise l =>
      obtain ⟨⟩ := pure_eq_ok_iff.mp h
      exact .pointwise l g

section Forward

variable {l l' : Layer α} {x y : Tensor α} {phase phase' : Phase σ}

theorem Passes.bare (h : l.Passes x phase l' y phase') : l'.bare = l.bare := by
  cases h with
  | conv l =>
      unfold Convolution.remember
      split <;> rfl
  | pool l =>
      unfold Pooling.remember
      split
      · split <;> rfl
      · rfl
  | dense l =>
      unfold Dense.remember
      split <;> rfl
  | pointwise l =>
      unfold Pointwise.remember
      split <;> rfl
  | flatten | keep | drop => rfl

theorem Passes.tidy (h : l.Passes x phase l' y phase') (ht : l.Tidy) : l'.Tidy := by
  cases h with
  | dense l =>
      unfold Dense.remember
      split <;> exact ht
  | conv | pool | flatten | keep | drop | pointwise => trivial

theorem Passes.isTraining (h : l.Passes x phase l' y phase') : phase'.isTraining = phase.isTraining := by
  cases h <;> rfl

theorem Passes.train {s : σ} (h : l.Passes x (.train s) l' y phase') : ∃ s', phase' = .train s' := by
  cases phase' with
  | train s' => exact ⟨s', rfl⟩
  | infer => exact absurd h.isTraining (by simp [Phase.isTraining])

theorem Passes.infer (h : l.Passes x .infer l' y phase') : l' = l ∧ phase' = (.infer : Phase σ) := by
  cases h with
  | pool l =>
      unfold Pooling.remember
      split <;> exact ⟨rfl, rfl⟩
  | conv | flatten | dense | keep | pointwise => exact ⟨rfl, rfl⟩

theorem Passes.shape (h : l.Passes x phase l' y phase') (hx : x.shape = l.inputShape) :
    y.shape = l.outputShape := by
  cases h with
  | dense l => simp [Tensor.flat, outputShape]
  | keep | drop | pointwise => exact hx
  | conv | pool | flatten => rfl

theorem Passes.sized (h : l.Passes x phase l' y phase') (hs : x.Sized) : y.Sized := by
  cases h with
  | conv l => simp [Tensor.Sized]
  | pool l => simp [Tensor.Sized]
  | flatten s x _ hs => exact hs
  | dense l => simp [Tensor.Sized, Tensor.flat, Shape.flat, Shape.size]
  | keep l => exact hs
  | drop l x s => simpa [Tensor.Sized] using hs
  | pointwise l x _ hs => simpa [Tensor.Sized] using hs

theorem Passes.roomy (h : l.Passes x phase l' y phase') : l.Roomy := by
  cases h with
  | conv | pool | dense => assumption
  | flatten | keep | drop | pointwise => trivial

theorem forward_answers (h : l.Sound) (hf : l.Roomy) (hx : x.shape = l.inputShape) (hs : x.Sized)
    (phase : Phase σ) : ∃ l' y phase', l.forward x phase = .ok (l', y, phase') := by
  have hsize : x.data.size = l.inputShape.size := hx ▸ hs
  cases l with
  | conv l =>
      have hr := (Convolution.forward_eq_ok (t := phase.isTraining)).mpr
        ⟨Convolution.Sound.runs h.parts h.input hf hx hs, rfl⟩
      exact ⟨_, _, _, bind_eq_ok.mpr ⟨_, hr, rfl⟩⟩
  | pool l =>
      have hr := (Pooling.forward_eq_ok (t := phase.isTraining)).mpr
        ⟨Pooling.Sound.runs h.parts hf hx hs, rfl⟩
      exact ⟨_, _, _, bind_eq_ok.mpr ⟨_, hr, rfl⟩⟩
  | flatten s =>
      have hz : x.data.size = (Shape.flat s.size).size := hsize.trans (Shape.size_flat _).symm
      exact ⟨_, _, _, bind_eq_ok.mpr ⟨_, Tensor.ofBuffer_eq_ok.mpr ⟨hz, rfl⟩, rfl⟩⟩
  | dense l =>
      have hr := (Dense.forward_eq_ok (t := phase.isTraining)).mpr
        ⟨Dense.Sound.runs h.parts hf (hsize.trans (Shape.size_flat _)), rfl⟩
      exact ⟨_, _, _, bind_eq_ok.mpr ⟨_, hr, rfl⟩⟩
  | dropout l =>
      cases phase with
      | infer => exact ⟨_, _, _, rfl⟩
      | train s => exact ⟨_, _, _, rfl⟩
  | pointwise l =>
      have hr := (Pointwise.forward_eq_ok (l := l) (t := phase.isTraining)).mpr ⟨hs, rfl⟩
      exact ⟨_, _, _, bind_eq_ok.mpr ⟨_, hr, rfl⟩⟩

end Forward

section Backward

variable {l l' : Layer α} {g b : Tensor α}

theorem PassesBack.bare (h : l.PassesBack g l' b) : l'.bare = l.bare := by cases h <;> rfl

theorem PassesBack.tidy (h : l.PassesBack g l' b) (ht : l.Tidy) : l'.Tidy := by
  cases h with
  | dense l => exact Matrix.addOuter_sized (Dense.ready_sized ht) _ _
  | conv | pool | flatten | dropout | pointwise => trivial

theorem PassesBack.shape (h : l.PassesBack g l' b) (hg : g.shape = l.outputShape) :
    b.shape = l.inputShape := by
  cases h with
  | dense l => simp [Tensor.flat, inputShape]
  | dropout | pointwise => exact hg
  | conv | pool | flatten => rfl

theorem PassesBack.sized (h : l.PassesBack g l' b) (hg : g.Sized) : b.Sized := by
  cases h with
  | conv l => exact Convolution.inputGradient_sized _ _
  | pool l => simp [Tensor.Sized]
  | flatten s g hs => exact hs
  | dense l => simp [Tensor.Sized, Tensor.flat]
  | dropout l => simpa [Tensor.Sized] using hg
  | pointwise l => simpa [Tensor.Sized] using hg

theorem PassesBack.roomyBack (h : l.PassesBack g l' b) : l.RoomyBack := by
  cases h with
  | conv | pool => assumption
  | dense l _ hr =>
      have hb := hr.back
      simp only [Bool.and_eq_true] at hb
      exact ⟨hr.room, hb.1.2⟩
  | flatten | dropout | pointwise => trivial

theorem backward_answers {x y : Tensor α} {s : σ} {phase : Phase σ}
    (hp : l.Passes x (.train s) l' y phase) (h : l.Sound) (ht : l.Tidy) (hf : l.RoomyBack)
    (hx : x.shape = l.inputShape) (hs : x.Sized) (hg : g.shape = l.outputShape) (hgs : g.Sized) :
    ∃ l'' b, l'.backward g = .ok (l'', b) := by
  have hsize : x.data.size = l.inputShape.size := hx ▸ hs
  have hgsize : g.data.size = l.outputShape.size := hg ▸ hgs
  cases hp with
  | conv l =>
      have hd : (l.activation.backprop g.data (l.response x).data).size = l.outputShape.size := by
        rw [Activation.size_backprop]
        exact hgsize
      have hr := (Convolution.backward_eq_ok (l := l.remember x true) (g := g) rfl rfl).mpr
        ⟨Convolution.Sound.runsBack h.parts hf hx hs hd, rfl⟩
      exact ⟨_, _, bind_eq_ok.mpr ⟨_, hr, rfl⟩⟩
  | pool l x _ hroom =>
      have hi : (l.remember x true).inputShape = l.inputShape :=
        inputShape_eq_of_bare (Passes.pool l x (.train s) hroom).bare
      have hr := (Pooling.backward_eq_ok (l := l.remember x true) (g := g)).mpr
        ⟨hi ▸ hf, Pooling.remember_runsBack h.input hx hg hgs, rfl⟩
      exact ⟨_, _, bind_eq_ok.mpr ⟨_, hr, rfl⟩⟩
  | flatten s =>
      have hz : g.data.size = s.size := hgsize.trans (Shape.size_flat _)
      exact ⟨_, _, bind_eq_ok.mpr ⟨_, Tensor.ofBuffer_eq_ok.mpr ⟨hz, rfl⟩, rfl⟩⟩
  | dense l =>
      have hd : (l.activation.backprop g.data (l.response x.data)).size = l.weights.cols := by
        rw [Activation.size_backprop]
        exact hgsize.trans (Shape.size_flat _)
      have hp : l.Sound := h.parts
      have hsound : (l.remember x true).Sound := ⟨hp.weights, hp.biases⟩
      have hr := (Dense.backward_eq_ok (l := l.remember x true) (g := g)).mpr
        ⟨Dense.Sound.runsBack hsound ht hf.1 hf.2
          (hsize.trans (Shape.size_flat _)) hd, rfl⟩
      exact ⟨_, _, bind_eq_ok.mpr ⟨_, hr, rfl⟩⟩
  | drop l x s =>
      have hz : x.data.size = g.data.size := hsize.trans hgsize.symm
      have hr := (Dropout.backward_eq_ok
        (l := { l with mask := (Dropout.drawMask l.rate x.data.size s).1 }) (g := g)).mpr
        ⟨by simpa using hz, rfl⟩
      exact ⟨_, _, bind_eq_ok.mpr ⟨_, hr, rfl⟩⟩
  | pointwise l => exact ⟨_, _, rfl⟩

end Backward

end Layer

namespace Network

/-- Layers that are sound and each take what the one before gives out, the first of them `s`. -/
def Chained : Shape → List (Layer α) → Prop
  | _, [] => True
  | s, l :: ls => l.inputShape = s ∧ l.Sound ∧ l.Tidy ∧ Chained l.outputShape ls

def outputFrom : Shape → List (Layer α) → Shape
  | s, [] => s
  | _, l :: ls => outputFrom l.outputShape ls

theorem forwardLayers_cons {l : Layer α} {ls rs : List (Layer α)} {x y : Tensor α}
    {phase phase' : Phase σ} :
    forwardLayers (l :: ls) x phase = .ok (rs, y, phase') ↔
      ∃ l' x' phase₁ ls', l.forward x phase = .ok (l', x', phase₁) ∧
        forwardLayers ls x' phase₁ = .ok (ls', y, phase') ∧ rs = l' :: ls' := by
  rw [forwardLayers, bind_eq_ok]
  constructor
  · rintro ⟨⟨l', x', phase₁⟩, hl, h⟩
    obtain ⟨⟨ls', y', phase₂⟩, hls, h⟩ := bind_eq_ok.mp h
    obtain ⟨⟩ := pure_eq_ok_iff.mp h
    exact ⟨l', x', phase₁, ls', hl, hls, rfl⟩
  · rintro ⟨l', x', phase₁, ls', hl, hls, rfl⟩
    exact ⟨_, hl, bind_eq_ok.mpr ⟨_, hls, rfl⟩⟩

theorem backwardLayers_cons {l : Layer α} {ls rs : List (Layer α)} {g b : Tensor α} :
    backwardLayers (l :: ls) g = .ok (rs, b) ↔
      ∃ ls' g' l', backwardLayers ls g = .ok (ls', g') ∧ l.backward g' = .ok (l', b) ∧
        rs = l' :: ls' := by
  rw [backwardLayers, bind_eq_ok]
  constructor
  · rintro ⟨⟨ls', g'⟩, hls, h⟩
    obtain ⟨⟨l', b'⟩, hl, h⟩ := bind_eq_ok.mp h
    obtain ⟨⟩ := pure_eq_ok_iff.mp h
    exact ⟨ls', g', l', hls, hl, rfl⟩
  · rintro ⟨ls', g', l', hls, hl, rfl⟩
    exact ⟨_, hls, bind_eq_ok.mpr ⟨_, hl, rfl⟩⟩

omit [Scalar α] in
theorem outputFrom_eq_of_bare {ls ls' : List (Layer α)} (h : ls'.map Layer.bare = ls.map Layer.bare)
    (s : Shape) : outputFrom s ls' = outputFrom s ls := by
  induction ls generalizing s ls' with
  | nil => simp_all
  | cons l ls ih =>
      cases ls' with
      | nil => simp at h
      | cons l' ls' =>
          obtain ⟨hl, hls⟩ := List.cons.inj h
          rw [outputFrom, outputFrom, Layer.outputShape_eq_of_bare hl]
          exact ih hls _

theorem forward_eq_ok {net net' : Network α} {x : Tensor α} {phase phase' : Phase σ} {out : Array α} :
    net.forward x phase = .ok (net', out, phase') ↔
      ∃ ls y, forwardLayers net.layers x phase = .ok (ls, y, phase') ∧
        net' = { net with layers := ls } ∧ out = y.data := by
  rw [forward, bind_eq_ok]
  constructor
  · rintro ⟨⟨ls, y, phase₁⟩, hf, h⟩
    obtain ⟨⟩ := pure_eq_ok_iff.mp h
    exact ⟨ls, y, hf, rfl, rfl⟩
  · rintro ⟨ls, y, hf, rfl, rfl⟩
    exact ⟨_, hf, rfl⟩

theorem backward_eq_ok {net net' : Network α} {d : Array α} :
    net.backward d = .ok net' ↔
      ∃ ls b, backwardLayers net.layers (.flat d) = .ok (ls, b) ∧ net' = { net with layers := ls } := by
  rw [backward, bind_eq_ok]
  constructor
  · rintro ⟨⟨ls, b⟩, hb, h⟩
    exact ⟨ls, b, hb, pure_eq_ok_iff.mp h⟩
  · rintro ⟨ls, b, hb, rfl⟩
    exact ⟨_, hb, rfl⟩

omit [Scalar α] in
theorem outputFrom_eq_getLastD (s : Shape) (ls : List (Layer α)) :
    outputFrom s ls = (ls.map Layer.outputShape).getLastD s := by
  induction ls generalizing s with
  | nil => rfl
  | cons l ls ih => rw [outputFrom, ih, List.map_cons, List.getLastD_cons]

omit [Scalar α] in
theorem outputFrom_take_drop (s : Shape) (ls : List (Layer α)) (n : Nat) :
    outputFrom (outputFrom s (ls.take n)) (ls.drop n) = outputFrom s ls := by
  induction ls generalizing s n with
  | nil => simp [outputFrom]
  | cons l ls ih =>
      cases n with
      | zero => rfl
      | succ n => exact ih l.outputShape n

omit [Scalar α] in
theorem outputFrom_take_succ {ls : List (Layer α)} {i : Nat} {l : Layer α} (h : ls[i]? = some l)
    (s : Shape) : outputFrom s (ls.take (i + 1)) = l.outputShape := by
  induction ls generalizing s i with
  | nil => simp at h
  | cons k ls ih =>
      cases i with
      | zero =>
          obtain ⟨⟩ := Option.some.inj h
          rfl
      | succ i => exact ih h k.outputShape

omit [Scalar α] in
theorem Chained.take {s : Shape} {ls : List (Layer α)} (h : Chained s ls) (n : Nat) :
    Chained s (ls.take n) := by
  induction ls generalizing s n with
  | nil => simpa using h
  | cons l ls ih =>
      cases n with
      | zero => trivial
      | succ n =>
          obtain ⟨hi, hl, ht, hc⟩ := h
          exact ⟨hi, hl, ht, ih hc n⟩

omit [Scalar α] in
theorem Chained.drop {s : Shape} {ls : List (Layer α)} (h : Chained s ls) (n : Nat) :
    Chained (outputFrom s (ls.take n)) (ls.drop n) := by
  induction ls generalizing s n with
  | nil =>
      rw [List.drop_nil]
      trivial
  | cons l ls ih =>
      cases n with
      | zero => exact h
      | succ n => exact ih h.2.2.2 n

omit [Scalar α] in
theorem Chained.sound {s : Shape} {ls : List (Layer α)} (h : Chained s ls) : ∀ l ∈ ls, l.Sound := by
  induction ls generalizing s with
  | nil => simp
  | cons l ls ih =>
      obtain ⟨-, hl, -, hc⟩ := h
      intro k hk
      rcases List.mem_cons.mp hk with rfl | hk
      · exact hl
      · exact ih hc k hk

omit [Scalar α] in
theorem Chained.tidy {s : Shape} {ls : List (Layer α)} (h : Chained s ls) : ∀ l ∈ ls, l.Tidy := by
  induction ls generalizing s with
  | nil => simp
  | cons l ls ih =>
      obtain ⟨-, -, ht, hc⟩ := h
      intro k hk
      rcases List.mem_cons.mp hk with rfl | hk
      · exact ht
      · exact ih hc k hk

omit [Scalar α] in
theorem Chained.inputShape {s : Shape} {ls : List (Layer α)} (h : Chained s ls) {i : Nat}
    {l : Layer α} (hl : ls[i]? = some l) :
    (s :: ls.map Layer.outputShape)[i]? = some l.inputShape := by
  induction ls generalizing s i with
  | nil => simp at hl
  | cons k ls ih =>
      obtain ⟨hk, -, -, hc⟩ := h
      cases i with
      | zero =>
          obtain ⟨⟩ := Option.some.inj hl
          simp [hk]
      | succ i => exact ih hc hl

section Forward

variable {s : Shape} {ls ls' : List (Layer α)} {x y : Tensor α} {phase phase' : Phase σ}

theorem forwardLayers_answers (hc : Chained s ls) (hf : ∀ l ∈ ls, l.Roomy) (hx : x.shape = s)
    (hs : x.Sized) (phase : Phase σ) :
    ∃ ls' y phase', forwardLayers ls x phase = .ok (ls', y, phase') := by
  induction ls generalizing s x phase with
  | nil => exact ⟨_, _, _, rfl⟩
  | cons l ls ih =>
      obtain ⟨hi, hl, -, hc⟩ := hc
      have hxl : x.shape = l.inputShape := hx.trans hi.symm
      obtain ⟨l', x', phase₁, hp⟩ := l.forward_answers hl (hf l (by simp)) hxl hs phase
      have hpass := Layer.passes_of_forward hp
      obtain ⟨ls', y, phase', hls⟩ := ih hc (fun k hk => hf k (by simp [hk])) (hpass.shape hxl)
        (hpass.sized hs) phase₁
      exact ⟨_, _, _, forwardLayers_cons.mpr ⟨l', x', phase₁, ls', hp, hls, rfl⟩⟩

theorem forwardLayers_roomy (h : forwardLayers ls x phase = .ok (ls', y, phase')) :
    ∀ l ∈ ls, l.Roomy := by
  induction ls generalizing x phase ls' with
  | nil => simp
  | cons l ls ih =>
      obtain ⟨l', x', phase₁, ls₁, hl, hls, rfl⟩ := forwardLayers_cons.mp h
      intro k hk
      rcases List.mem_cons.mp hk with rfl | hk
      · exact (Layer.passes_of_forward hl).roomy
      · exact ih hls k hk

theorem forwardLayers_keeps (h : forwardLayers ls x phase = .ok (ls', y, phase')) (hc : Chained s ls)
    (hx : x.shape = s) (hs : x.Sized) :
    ls'.map Layer.bare = ls.map Layer.bare ∧ Chained s ls' ∧ y.shape = outputFrom s ls ∧ y.Sized ∧
      phase'.isTraining = phase.isTraining := by
  induction ls generalizing s x phase ls' with
  | nil =>
      obtain ⟨⟩ := Except.ok.inj h
      exact ⟨rfl, trivial, hx, hs, rfl⟩
  | cons l ls ih =>
      obtain ⟨l', x', phase₁, ls₁, hl, hls, rfl⟩ := forwardLayers_cons.mp h
      obtain ⟨hi, hsound, ht, hc⟩ := hc
      have hxl : x.shape = l.inputShape := hx.trans hi.symm
      have hp := Layer.passes_of_forward hl
      obtain ⟨hb, hc', hy, hys, hph⟩ := ih hls hc (hp.shape hxl) (hp.sized hs)
      refine ⟨by simp [hp.bare, hb], ?_, hy, hys, hph.trans hp.isTraining⟩
      exact ⟨(Layer.inputShape_eq_of_bare hp.bare).trans hi, hsound.of_bare hp.bare, hp.tidy ht,
        (Layer.outputShape_eq_of_bare hp.bare).symm ▸ hc'⟩

theorem forwardLayers_split (h : forwardLayers ls x phase = .ok (ls', y, phase')) (n : Nat) :
    ∃ x' phase₁, forwardLayers (ls.take n) x phase = .ok (ls'.take n, x', phase₁) ∧
      forwardLayers (ls.drop n) x' phase₁ = .ok (ls'.drop n, y, phase') := by
  induction ls generalizing x phase ls' n with
  | nil =>
      obtain ⟨⟩ := Except.ok.inj h
      refine ⟨y, phase', ?_, ?_⟩ <;> simp [forwardLayers]
  | cons l ls ih =>
      obtain ⟨l', x₁, phase₁, ls₁, hl, hls, rfl⟩ := forwardLayers_cons.mp h
      cases n with
      | zero => exact ⟨x, phase, rfl, h⟩
      | succ n =>
          obtain ⟨x', phase₂, htake, hdrop⟩ := ih hls n
          exact ⟨x', phase₂, forwardLayers_cons.mpr ⟨l', x₁, phase₁, _, hl, htake, rfl⟩, hdrop⟩

end Forward

section Backward

variable {s : Shape} {ls ls' ls'' : List (Layer α)} {x y g b : Tensor α} {source : σ}
  {phase : Phase σ}

theorem backwardLayers_keeps (h : backwardLayers ls g = .ok (ls', b)) (hc : Chained s ls)
    (hg : g.shape = outputFrom s ls) (hgs : g.Sized) :
    ls'.map Layer.bare = ls.map Layer.bare ∧ Chained s ls' ∧ b.shape = s ∧ b.Sized := by
  induction ls generalizing s ls' b with
  | nil =>
      obtain ⟨⟩ := Except.ok.inj h
      exact ⟨rfl, trivial, hg, hgs⟩
  | cons l ls ih =>
      obtain ⟨ls₁, g', l', hls, hl, rfl⟩ := backwardLayers_cons.mp h
      obtain ⟨hi, hsound, ht, hc⟩ := hc
      have hp := Layer.passesBack_of_backward hl
      obtain ⟨hb, hc', hg', hgs'⟩ := ih hls hc hg
      refine ⟨by simp [hp.bare, hb], ?_, (hp.shape hg').trans hi, hp.sized hgs'⟩
      exact ⟨(Layer.inputShape_eq_of_bare hp.bare).trans hi, hsound.of_bare hp.bare, hp.tidy ht,
        (Layer.outputShape_eq_of_bare hp.bare).symm ▸ hc'⟩

theorem backwardLayers_answers (h : forwardLayers ls x (.train source) = .ok (ls', y, phase))
    (hc : Chained s ls) (hf : ∀ l ∈ ls, l.RoomyBack) (hx : x.shape = s) (hs : x.Sized)
    (hg : g.shape = outputFrom s ls) (hgs : g.Sized) :
    ∃ ls'' b, backwardLayers ls' g = .ok (ls'', b) := by
  induction ls generalizing s x source ls' with
  | nil =>
      obtain ⟨⟩ := Except.ok.inj h
      exact ⟨_, _, rfl⟩
  | cons l ls ih =>
      obtain ⟨l', x', phase₁, ls₁, hl, hls, rfl⟩ := forwardLayers_cons.mp h
      obtain ⟨hi, hsound, ht, hc⟩ := hc
      have hxl : x.shape = l.inputShape := hx.trans hi.symm
      have hp := Layer.passes_of_forward hl
      obtain ⟨source', rfl⟩ := hp.train
      obtain ⟨hb, hc₁, -, -, -⟩ := forwardLayers_keeps hls hc (hp.shape hxl) (hp.sized hs)
      have hout := outputFrom_eq_of_bare hb l.outputShape
      obtain ⟨ls'', g', hback⟩ := ih hls hc (fun k hk => hf k (by simp [hk])) (hp.shape hxl)
        (hp.sized hs) hg
      obtain ⟨-, -, hg', hgs'⟩ := backwardLayers_keeps hback hc₁ (hg.trans hout.symm) hgs
      obtain ⟨l'', b, hlb⟩ := Layer.backward_answers hp hsound ht (hf l (by simp)) hxl hs hg' hgs'
      exact ⟨_, _, backwardLayers_cons.mpr ⟨ls'', g', l'', hback, hlb, rfl⟩⟩

/-- After a training pass, what reaches a layer on the way back has the shape of what it gave out. -/
theorem backwardLayers_drop (h : forwardLayers ls x (.train source) = .ok (ls', y, phase))
    (hc : Chained s ls) (hf : ∀ l ∈ ls, l.RoomyBack) (hx : x.shape = s) (hs : x.Sized)
    (hg : g.shape = outputFrom s ls) (hgs : g.Sized) (n : Nat) :
    ∃ rs b, backwardLayers (ls'.drop n) g = .ok (rs, b) ∧ b.shape = outputFrom s (ls.take n) ∧
      b.Sized := by
  obtain ⟨x', phase₁, htake, hdrop⟩ := forwardLayers_split h n
  obtain ⟨-, -, hx', hs', htrain⟩ := forwardLayers_keeps htake (hc.take n) hx hs
  have hg' : g.shape = outputFrom (outputFrom s (ls.take n)) (ls.drop n) :=
    hg.trans (outputFrom_take_drop s ls n).symm
  cases phase₁ with
  | infer => exact absurd htrain (by simp [Phase.isTraining])
  | train source' =>
      obtain ⟨rs, b, hback⟩ := backwardLayers_answers hdrop (hc.drop n)
        (fun l hl => hf l (List.mem_of_mem_drop hl)) hx' hs' hg' hgs
      obtain ⟨hb, hc', -, -, -⟩ := forwardLayers_keeps hdrop (hc.drop n) hx' hs'
      obtain ⟨-, -, hbs, hbs'⟩ :=
        backwardLayers_keeps hback hc' (hg'.trans (outputFrom_eq_of_bare hb _).symm) hgs
      exact ⟨rs, b, hback, hbs, hbs'⟩

end Backward

end Network
end Convnet
