import Convnet.Layer
import Convnet.Proofs.Buffer
import Convnet.Proofs.Result
import Convnet.Proofs.Window

namespace Convnet

variable {α : Type}

structure Convolution.Sound (l : Convolution α) : Prop where
  filters : 0 < l.filters
  kernelSize : 0 < l.kernelSize
  stride : 0 < l.stride
  kernel : l.kernel.size = l.kernelLength
  bias : l.bias.size = l.filters

structure Pooling.Sound (l : Pooling) : Prop where
  poolSize : 0 < l.poolSize
  stride : 0 < l.stride

structure Dense.Sound (l : Dense α) : Prop where
  weights : l.weights.Sized
  biases : l.biases.size = l.weights.cols

namespace Layer

def outputShape : Layer α → Shape
  | conv l => l.outputShape
  | pool l => l.outputShape
  | flatten s => .flat s.size
  | dense l => .flat l.weights.cols
  | dropout l => l.shape
  | pointwise l => l.shape

/-- What a layer is apart from what it has gathered: its sizes and parameters. -/
def bare : Layer α → Layer α
  | conv l => conv { l with kernelGrad := #[], biasGrad := #[], input := none, preActivation := none }
  | pool l => pool { l with winners := #[] }
  | flatten s => flatten s
  | dense l => dense { l with
      weightsGrad := .empty, biasesGrad := #[], inputs := #[], preActivation := #[] }
  | dropout l => dropout { l with mask := #[] }
  | pointwise l => pointwise { l with preActivation := #[] }

def PartsSound : Layer α → Prop
  | conv l => l.Sound
  | pool l => l.Sound
  | dense l => l.Sound
  | flatten _ | dropout _ | pointwise _ => True

/-- A layer whose parts are sound and that turns something into something. -/
structure Sound (l : Layer α) : Prop where
  parts : l.PartsSound
  input : l.inputShape.isEmpty = false
  output : l.outputShape.isEmpty = false

/-- Whether a buffer can hold the input of a layer, its output, and each of its parameters. -/
structure Storable [Scalar α] (l : Layer α) : Prop where
  input : Buffer.fits l.inputShape.size = true
  output : Buffer.fits l.outputShape.size = true
  parameters : ∀ p ∈ l.parameters, Buffer.fits p.values.size = true

/-- Whether a buffer can hold the output, where the pass forward makes one for it. -/
def Roomy : Layer α → Prop
  | conv l => Buffer.fits l.outputShape.size = true
  | pool l => Buffer.fits l.outputShape.size = true
  | dense l => Buffer.fits l.weights.cols = true
  | flatten _ | dropout _ | pointwise _ => True

def RoomyBack : Layer α → Prop
  | conv l => Buffer.fits l.inputShape.size = true
  | pool l => Buffer.fits l.inputShape.size = true
  | dense l => Buffer.fits (l.weights.rows * l.weights.cols) = true ∧
      Buffer.fits l.weights.rows = true
  | flatten _ | dropout _ | pointwise _ => True

theorem roomy_of_fits {l : Layer α} (h : Buffer.fits l.outputShape.size = true) : l.Roomy := by
  cases l with
  | conv | pool => exact h
  | dense l => rwa [outputShape, Shape.size_flat] at h
  | flatten | dropout | pointwise => trivial

theorem Storable.roomy [Scalar α] {l : Layer α} (h : l.Storable) : l.Roomy :=
  roomy_of_fits h.output

theorem Storable.roomyBack [Scalar α] {l : Layer α} (h : l.Storable) (hp : l.PartsSound) :
    l.RoomyBack := by
  cases l with
  | conv | pool => exact h.input
  | dense l =>
      have hw : l.weights.data.size = l.weights.rows * l.weights.cols := Dense.Sound.weights hp
      have hi := h.input
      rw [inputShape, Shape.size_flat] at hi
      have hroom := h.parameters ⟨l.weights.data, l.weightsGrad.data⟩ (by simp [Layer.parameters])
      rw [hw] at hroom
      exact ⟨hroom, hi⟩
  | flatten | dropout | pointwise => trivial

def Tidy : Layer α → Prop
  | dense l => l.weightsGrad.Sized
  | _ => True

/-- The places that a pass in either direction names lie in their buffers. -/
def InBounds : Layer α → Prop
  | conv l => ∀ t ∈ l.taps, l.inputShape.index t.y t.x t.channel < l.inputShape.size ∧
      t.weight + l.filters ≤ l.kernel.size ∧ t.out + l.filters ≤ l.outputShape.size
  | pool l => ∀ o < l.outputShape.size, ∀ i ∈ l.windowOf l.inputShape l.outputShape o,
      i < l.inputShape.size
  | dense l => ∀ i < l.weights.rows, l.weights.hasRow i = true
  | flatten _ | dropout _ | pointwise _ => True

@[simp] theorem bare_bare (l : Layer α) : l.bare.bare = l.bare := by cases l <;> rfl

theorem tidy_bare (l : Layer α) : l.bare.Tidy := by
  cases l with
  | dense l => exact (Nat.zero_mul 0).symm
  | conv | pool | flatten | dropout | pointwise => trivial

theorem inputShape_bare (l : Layer α) : l.bare.inputShape = l.inputShape := by cases l <;> rfl

theorem outputShape_bare (l : Layer α) : l.bare.outputShape = l.outputShape := by cases l <;> rfl

theorem partsSound_bare (l : Layer α) : l.bare.PartsSound ↔ l.PartsSound := by
  cases l with
  | conv l => exact ⟨fun ⟨a, b, c, d, e⟩ => ⟨a, b, c, d, e⟩, fun ⟨a, b, c, d, e⟩ => ⟨a, b, c, d, e⟩⟩
  | pool l => exact ⟨fun ⟨a, b⟩ => ⟨a, b⟩, fun ⟨a, b⟩ => ⟨a, b⟩⟩
  | dense l => exact ⟨fun ⟨a, b⟩ => ⟨a, b⟩, fun ⟨a, b⟩ => ⟨a, b⟩⟩
  | flatten | dropout | pointwise => exact Iff.rfl

theorem roomy_bare (l : Layer α) : l.bare.Roomy ↔ l.Roomy := by cases l <;> exact Iff.rfl

theorem roomyBack_bare (l : Layer α) : l.bare.RoomyBack ↔ l.RoomyBack := by cases l <;> exact Iff.rfl

theorem length_parameters_ready [Scalar α] (l : Layer α) :
    l.ready.parameters.length = l.parameters.length := by
  cases l <;> rfl

theorem length_parameters_of_bare {l l' : Layer α} (h : l'.bare = l.bare) :
    l'.parameters.length = l.parameters.length := by
  have hbare : ∀ k : Layer α, k.bare.parameters.length = k.parameters.length := by
    intro k
    cases k <;> rfl
  rw [← hbare l', h, hbare]

theorem length_ready_of_bare [Scalar α] {l l' : Layer α} (h : l'.bare = l.bare) :
    l'.ready.parameters.length = l.ready.parameters.length := by
  rw [length_parameters_ready, length_parameters_ready, length_parameters_of_bare h]

theorem inputShape_eq_of_bare {l l' : Layer α} (h : l'.bare = l.bare) :
    l'.inputShape = l.inputShape := by
  rw [← inputShape_bare l', h, inputShape_bare]

theorem outputShape_eq_of_bare {l l' : Layer α} (h : l'.bare = l.bare) :
    l'.outputShape = l.outputShape := by
  rw [← outputShape_bare l', h, outputShape_bare]

theorem Sound.of_bare {l l' : Layer α} (h : l'.bare = l.bare) (hl : l.Sound) : l'.Sound where
  parts := (partsSound_bare l').mp (h ▸ (partsSound_bare l).mpr hl.parts)
  input := inputShape_eq_of_bare h ▸ hl.input
  output := outputShape_eq_of_bare h ▸ hl.output

theorem Sound.inBounds {l : Layer α} (h : l.Sound) : l.InBounds := by
  cases l with
  | conv l =>
      intro t ht
      have hk : l.kernel.size = l.kernelLength := Convolution.Sound.kernel h.parts
      rw [hk]
      exact Convolution.tap_bounds ht
  | pool l => exact fun o ho i hi => Pooling.windowOf_lt ho hi
  | dense l =>
      intro i hi
      have hw : l.weights.data.size = l.weights.rows * l.weights.cols := Dense.Sound.weights h.parts
      simp only [Matrix.hasRow, hw, decide_eq_true_eq]
      exact Nat.mul_le_mul_right _ hi
  | flatten | dropout | pointwise => trivial

end Layer

theorem Padding.counts_of_pos {p : Padding} {input kernel stride : Nat} (hi : 0 < input)
    (hs : 0 < stride) : p.counts input kernel stride = true := by
  cases p <;> simp [counts] <;> omega

theorem Convolution.countsWindows_of_pos {l : Convolution α} (hs : 0 < l.stride)
    (hi : l.inputShape.isEmpty = false) : l.countsWindows = true := by
  obtain ⟨hh, hw, -⟩ := Shape.pos_of_not_isEmpty hi
  simp [countsWindows, Padding.counts_of_pos, hs, hh, hw]

theorem Layer.PartsSound.outputShape? {l : Layer α} (h : l.PartsSound)
    (hi : l.inputShape.isEmpty = false) : l.outputShape? = .ok l.outputShape := by
  cases l with
  | conv l =>
      have hc := Convolution.countsWindows_of_pos (Convolution.Sound.stride h) hi
      simp [Layer.outputShape?, Convolution.outputShape?, Layer.outputShape, hc]
  | pool l =>
      have hs : (l.stride != 0) = true := bne_iff_ne.mpr (Nat.ne_of_gt (Pooling.Sound.stride h))
      simp [Layer.outputShape?, Pooling.outputShape?, Layer.outputShape, Pooling.countsWindows, hs]
  | flatten | dense | dropout | pointwise => rfl

theorem Layer.Sound.outputShape? {l : Layer α} (h : l.Sound) : l.outputShape? = .ok l.outputShape :=
  h.parts.outputShape? h.input

section Check

variable [Scalar α] {l : Layer α}

namespace Layer

theorem partsSound_of_faults (hs : l.settingsFault? = none) (hb : l.buffersFault? = none) : l.PartsSound := by
  cases l with
  | conv l =>
      simp only [settingsFault?, ite_eq_right_iff, reduceCtorEq, imp_false, not_or] at hs
      by_cases hk : l.kernel.size = l.kernelLength
      · by_cases hbias : l.bias.size = l.filters
        · exact ⟨Nat.pos_of_ne_zero hs.1, Nat.pos_of_ne_zero hs.2.1, Nat.pos_of_ne_zero hs.2.2, hk, hbias⟩
        · simp [buffersFault?, hk, hbias] at hb
      · simp [buffersFault?, hk] at hb
  | pool l =>
      simp only [settingsFault?, ite_eq_right_iff, reduceCtorEq, imp_false, not_or] at hs
      exact ⟨Nat.pos_of_ne_zero hs.1, Nat.pos_of_ne_zero hs.2⟩
  | dense l =>
      by_cases hw : l.weights.data.size = l.weights.rows * l.weights.cols
      · by_cases hbiases : l.biases.size = l.weights.cols
        · exact ⟨hw, hbiases⟩
        · simp [buffersFault?, hw, hbiases] at hb
      · simp [buffersFault?, hw] at hb
  | flatten | dropout | pointwise => trivial

/-- Whether the sizes of a layer are numbers of 64 bits. -/
structure Countable (l : Layer α) : Prop where
  input : l.inputShape.isCountable = true
  weights : isUnsigned l.weightCount = true
  windows : l.windowsCountable = true
  output : l.outputShape.isCountable = true

/-- What a layer is checked for. -/
structure Passing (l : Layer α) : Prop where
  countable : l.Countable
  input : l.inputShape.isEmpty = false
  settings : l.settingsFault? = none
  buffers : l.buffersFault? = none
  output : l.outputShape.isEmpty = false

theorem Passing.sound (h : l.Passing) : l.Sound :=
  ⟨partsSound_of_faults h.settings h.buffers, h.input, h.output⟩

theorem Passing.fault (h : l.Passing) : l.fault? = .ok none := by
  simp [fault?, requireWord, h.countable.input, h.input, h.settings, h.countable.weights, h.buffers,
    h.countable.windows, h.sound.outputShape?, h.countable.output, h.output]

/-- Looking for a fault finds one, or comes to sizes that cannot be counted, or finds that the layer is in order. -/
theorem fault_cases (l : Layer α) : (∃ cause, l.fault? = .ok (some cause)) ∨
    (l.fault? = .error .overflow ∧ ¬l.Countable) ∨ l.Passing := by
  unfold fault?
  cases hci : l.inputShape.isCountable with
  | false => exact .inr (.inl ⟨rfl, fun h => Bool.false_ne_true (hci.symm.trans h.input)⟩)
  | true =>
      cases hi : l.inputShape.isEmpty with
      | true => exact .inl ⟨_, rfl⟩
      | false =>
          cases hs : l.settingsFault? with
          | some cause => exact .inl ⟨_, rfl⟩
          | none =>
              cases hw : isUnsigned l.weightCount with
              | false => exact .inr (.inl ⟨rfl, fun h => Bool.false_ne_true (hw.symm.trans h.weights)⟩)
              | true =>
                  cases hb : l.buffersFault? with
                  | some cause => exact .inl ⟨_, rfl⟩
                  | none =>
                      rw [(partsSound_of_faults hs hb).outputShape? hi]
                      cases hwindows : l.windowsCountable with
                      | false => exact .inr (.inl ⟨rfl, fun h => Bool.false_ne_true (hwindows.symm.trans h.windows)⟩)
                      | true =>
                          cases hco : l.outputShape.isCountable with
                          | false =>
                              refine .inr (.inl ⟨?_, fun h => Bool.false_ne_true (hco.symm.trans h.output)⟩)
                              simp [requireWord, hco]
                          | true =>
                              cases ho : l.outputShape.isEmpty with
                              | true => exact .inl ⟨.emptyOutput l.inputShape, by simp [requireWord, hco, ho]⟩
                              | false => exact .inr (.inr ⟨⟨hci, hw, hwindows, hco⟩, hi, hs, hb, ho⟩)

theorem check_eq_ok {i : Option Nat} : l.check i = .ok () ↔ l.Passing := by
  constructor
  · intro h
    rcases l.fault_cases with ⟨cause, hf⟩ | ⟨hf, -⟩ | hp
    · rw [check, hf] at h
      cases h
    · rw [check, hf] at h
      cases h
    · exact hp
  · intro h
    rw [check, h.fault]
    rfl

theorem check_refuses {i : Option Nat} {e : Error} (h : l.check i = .error e) :
    (∃ cause, e = .invalidSpec cause) ∨ e = .overflow ∧ ¬l.Countable := by
  rcases l.fault_cases with ⟨cause, hf⟩ | ⟨hf, hc⟩ | hp
  · rw [check, hf] at h
    exact .inl ⟨_, (Except.error.inj h).symm⟩
  · rw [check, hf] at h
    exact .inr ⟨(Except.error.inj h).symm, hc⟩
  · rw [check_eq_ok.mpr hp] at h
    cases h

end Layer

end Check

end Convnet
