import Convnet.Proofs.Stack

namespace Convnet

variable {α : Type} {σ : Type}

/-- An initializer that gives as many numbers as it is asked for, and that does give them as long as
there is a fan on both sides and a buffer for the numbers. -/
structure Initializer.Draws (draw : Initializer α σ) : Prop where
  size : ∀ {fanIn fanOut n s xs s'}, draw fanIn fanOut n s = .ok (xs, s') → xs.size = n
  answers : ∀ {fanIn fanOut n}, 0 < fanIn → 0 < fanOut → fanIn ≤ n → fanOut ≤ n →
    Buffer.fits n = true → ∀ s, ∃ xs s', draw fanIn fanOut n s = .ok (xs, s')

namespace LayerSpec

/-- The shape that a layer turns a shape into. -/
def Turns (l : LayerSpec α) (s s' : Shape) : Prop :=
  match l with
  | conv f k t p _ => s.isFlat = false ∧ s' = ⟨p.windows s.height k t, p.windows s.width k t, f⟩
  | pool k p t => s' = Pooling.outputShape ⟨k, p, t.getD p, s, #[]⟩
  | flatten => s' = .flat s.size
  | dense u _ => s.isFlat = true ∧ s' = .flat u
  | dropout _ | pointwise _ => s' = s

/-- Whether the numbers on the way to the windows of a layer have 64 bits. -/
def windowsCountable (l : LayerSpec α) (s : Shape) : Bool :=
  match l with
  | conv _ k t p _ => p.isCountable s k t
  | pool .. | flatten | dense .. | dropout _ | pointwise _ => true

def bufferSizes (l : LayerSpec α) (input : Shape) : List Nat :=
  match l with
  | conv f k _ _ _ => [k * k * input.channels * f, f]
  | dense u _ => [input.size * u, u]
  | pool .. | flatten | dropout _ | pointwise _ => []

/-- Whether every shape can be counted that layers turn a shape to, and every number on the way there. -/
def Countable : Shape → List (LayerSpec α) → Prop
  | _, [] => True
  | s, l :: ls => l.windowsCountable s = true ∧ ∀ s', l.Turns s s' → s'.isCountable = true ∧ Countable s' ls

theorem poolWindows_eq_ok {p t n : Nat} (ht : t ≠ 0) (k : PoolKind) (s : Shape) :
    poolWindows p t n = .ok (Pooling.windows ⟨k, p, t, s, #[]⟩ n) := by
  unfold poolWindows Pooling.windows
  by_cases h : n < p
  · simp [h]
  · have hr : (t != 0) = true := bne_iff_ne.mpr ht
    simp [h, hr]

theorem poolWindows_eq {p t n m : Nat} (h : poolWindows p t n = .ok m) (k : PoolKind) (s : Shape) :
    m = Pooling.windows ⟨k, p, t, s, #[]⟩ n := by
  unfold poolWindows at h
  unfold Pooling.windows
  by_cases hn : n < p
  · simp only [hn, if_true] at h ⊢
    exact pure_eq_ok_iff.mp h
  · simp only [hn, if_false] at h ⊢
    exact pure_eq_ok_iff.mp (require_bind_eq_ok.mp h).2

theorem filled_eq_ok {l : LayerSpec α} {s r s' : Shape} :
    l.filled s r = .ok (.ok s') ↔ r = s' ∧ r.isCountable = true ∧ r.isEmpty = false := by
  rw [filled, requireWord_bind_eq_ok, pure_eq_ok_iff]
  cases r.isEmpty with
  | true => simp
  | false =>
      rw [if_neg Bool.false_ne_true, Except.ok.injEq, eq_comm]
      exact ⟨fun h => ⟨h.2.symm, h.1, rfl⟩, fun h => ⟨h.2.1, h.1.symm⟩⟩

theorem filled_eq_error {l : LayerSpec α} {s r : Shape} {e : Error} :
    l.filled s r = .error e ↔ r.isCountable = false ∧ e = .overflow := by
  rw [filled, bind_eq_error, requireWord_eq_error, or_iff_left]
  rintro ⟨-, -, ⟨⟩⟩

theorem resolveUnsigned_eq_ok {p : Padding} {n k t h lead : Nat} (hr : p.resolveUnsigned n k t = .ok (h, lead)) :
    h = p.windows n k t ∧ isUnsigned (p.largest n k t) = true := by
  obtain ⟨r, hresolve, hr⟩ := bind_eq_ok.mp hr
  obtain ⟨hword, hr⟩ := requireWord_bind_eq_ok.mp hr
  obtain ⟨⟩ := pure_eq_ok_iff.mp (require_bind_eq_ok.mp hresolve).2
  obtain ⟨⟩ := pure_eq_ok_iff.mp hr
  exact ⟨rfl, hword⟩

theorem turns_of_outputShape {l : LayerSpec α} {s s' : Shape} (h : l.outputShape s = .ok (.ok s')) :
    l.Turns s s' ∧ l.windowsCountable s = true ∧ s'.isCountable = true ∧ s'.isEmpty = false := by
  unfold outputShape at h
  cases l with
  | conv f k t p a =>
      dsimp only at h
      by_cases hf : s.isFlat = true
      · simp [hf] at h
      · rw [if_neg hf] at h
        obtain ⟨⟨rows, _⟩, hh, h⟩ := bind_eq_ok.mp h
        obtain ⟨⟨columns, _⟩, hw, h⟩ := bind_eq_ok.mp h
        obtain ⟨rfl, hrows⟩ := resolveUnsigned_eq_ok hh
        obtain ⟨rfl, hcolumns⟩ := resolveUnsigned_eq_ok hw
        obtain ⟨rfl, hfull⟩ := filled_eq_ok.mp h
        exact ⟨⟨by simpa using hf, rfl⟩, Bool.and_eq_true_iff.mpr ⟨hrows, hcolumns⟩, hfull⟩
  | pool k p t =>
      obtain ⟨h₁, hh, h⟩ := bind_eq_ok.mp h
      obtain ⟨w₁, hw, h⟩ := bind_eq_ok.mp h
      obtain ⟨rfl, hfull⟩ := filled_eq_ok.mp h
      refine ⟨?_, rfl, hfull⟩
      rw [poolWindows_eq hh k s, poolWindows_eq hw k s]
      rfl
  | dense u a =>
      dsimp only at h
      by_cases hf : s.isFlat = true
      · rw [if_pos hf] at h
        obtain ⟨rfl, hfull⟩ := filled_eq_ok.mp h
        exact ⟨⟨hf, rfl⟩, rfl, hfull⟩
      · rw [if_neg hf] at h
        cases h
  | flatten | dropout | pointwise =>
      obtain ⟨rfl, hfull⟩ := filled_eq_ok.mp h
      exact ⟨rfl, rfl, hfull⟩

variable [Scalar α]

theorem outputShape_of_turns {l : LayerSpec α} {s s' : Shape} (hl : l.fault? = none) (hs : s.isEmpty = false)
    (ht : l.Turns s s') :
    l.outputShape s = requireWord (l.windowsCountable s) >>= fun _ => l.filled s s' := by
  obtain ⟨hh, hw, -⟩ := Shape.pos_of_not_isEmpty hs
  cases l with
  | conv f k t p a =>
      simp only [fault?, ite_eq_right_iff, reduceCtorEq, imp_false, not_or] at hl
      have hstride : 0 < t := Nat.pos_of_ne_zero hl.2.2
      obtain ⟨hf, rfl⟩ := ht
      simp only [outputShape, hf, Bool.false_eq_true, if_false, Padding.resolveUnsigned, Padding.resolve,
        Padding.counts_of_pos, hh, hw, hstride, windowsCountable, Padding.isCountable]
      cases isUnsigned (p.largest s.height k t) <;> cases isUnsigned (p.largest s.width k t) <;> rfl
  | pool k p t =>
      simp only [fault?, ite_eq_right_iff, reduceCtorEq, imp_false, not_or] at hl
      have hstride : t.getD p ≠ 0 := by
        cases t with
        | none => exact hl.1
        | some t => exact fun h => hl.2 (congrArg some h)
      obtain rfl := ht
      simp only [outputShape, poolWindows_eq_ok hstride k s, ok_bind]
      rfl
  | dense u a =>
      obtain ⟨hf, rfl⟩ := ht
      rw [outputShape, if_pos hf]
      rfl
  | flatten | dropout | pointwise =>
      obtain rfl := ht
      rfl

omit [Scalar α] in
theorem exists_turns (l : LayerSpec α) (s : Shape) :
    (∃ cause, l.outputShape s = .ok (.error cause)) ∨ ∃ s', l.Turns s s' := by
  cases l with
  | conv f k t p a =>
      cases hf : s.isFlat with
      | true => exact .inl ⟨_, if_pos hf⟩
      | false => exact .inr ⟨_, hf, rfl⟩
  | dense u a =>
      cases hf : s.isFlat with
      | true => exact .inr ⟨_, hf, rfl⟩
      | false => exact .inl ⟨_, if_neg (by simp [hf])⟩
  | pool | flatten | dropout | pointwise => exact .inr ⟨_, rfl⟩

end LayerSpec

namespace ModelSpec

/-- Whether the sizes of a description are numbers of 64 bits, from its images to its outputs. -/
structure Countable (m : ModelSpec α) : Prop where
  input : m.inputShape.isCountable = true
  layers : LayerSpec.Countable m.inputShape m.layers

variable [Scalar α]

theorem validateLayers_cons {last i : Nat} {s : Shape} {l : LayerSpec α} {ls : List (LayerSpec α)}
    {shapes : List Shape} :
    validateLayers last i s (l :: ls) = .ok shapes ↔
      l.fault? = none ∧ ¬(l.activation? = some .softmax ∧ i ≠ last) ∧
        ∃ s' rest, l.outputShape s = .ok (.ok s') ∧ validateLayers last (i + 1) s' ls = .ok rest ∧
          shapes = s' :: rest := by
  rw [validateLayers]
  cases hl : l.fault? with
  | some e => simp
  | none =>
      by_cases ha : l.activation? = some .softmax ∧ i ≠ last
      · simp [ha]
      · simp only [ha, if_false, not_false_eq_true, true_and]
        constructor
        · intro h
          obtain ⟨r, hr, h⟩ := bind_eq_ok.mp h
          cases r with
          | error e => cases h
          | ok s' =>
              obtain ⟨rest, hrest, h⟩ := bind_eq_ok.mp h
              exact ⟨s', rest, hr, hrest, pure_eq_ok_iff.mp h⟩
        · rintro ⟨s', rest, hr, hrest, rfl⟩
          exact bind_eq_ok.mpr ⟨_, hr, bind_eq_ok.mpr ⟨_, hrest, rfl⟩⟩

theorem validateLayers_refuses {last i : Nat} {s : Shape} {ls : List (LayerSpec α)} {e : Error}
    (hs : s.isEmpty = false) (h : validateLayers last i s ls = .error e) :
    (∃ cause, e = .invalidSpec cause) ∨ e = .overflow ∧ ¬LayerSpec.Countable s ls := by
  induction ls generalizing i s with
  | nil => cases h
  | cons l ls ih =>
      rw [validateLayers] at h
      cases hl : l.fault? with
      | some cause =>
          rw [hl] at h
          exact .inl ⟨_, (Except.error.inj h).symm⟩
      | none =>
          simp only [hl] at h
          by_cases ha : l.activation? = some .softmax ∧ i ≠ last
          · rw [if_pos ha] at h
            exact .inl ⟨_, (Except.error.inj h).symm⟩
          · rw [if_neg ha] at h
            rcases bind_eq_error.mp h with h | ⟨r, hr, h⟩
            · rcases l.exists_turns s with ⟨cause, hc⟩ | ⟨s', ht⟩
              · rw [hc] at h
                cases h
              · rw [LayerSpec.outputShape_of_turns hl hs ht] at h
                rcases bind_eq_error.mp h with h | ⟨-, -, h⟩
                · obtain ⟨hwindows, rfl⟩ := requireWord_eq_error.mp h
                  exact .inr ⟨rfl, fun hall => Bool.false_ne_true (hwindows.symm.trans hall.1)⟩
                · obtain ⟨hcount, rfl⟩ := LayerSpec.filled_eq_error.mp h
                  exact .inr ⟨rfl, fun hall => Bool.false_ne_true (hcount.symm.trans (hall.2 s' ht).1)⟩
            · cases r with
              | error cause => exact .inl ⟨_, (Except.error.inj h).symm⟩
              | ok s' =>
                  obtain ⟨ht, -, -, hs'⟩ := LayerSpec.turns_of_outputShape hr
                  rcases bind_eq_error.mp h with h | ⟨rest, -, ⟨⟩⟩
                  exact (ih hs' h).imp_right fun hn => ⟨hn.1, fun hall => hn.2 (hall.2 s' ht).2⟩

/-- A description is refused for what is wrong with it, or because its sizes cannot be counted. -/
theorem validate_refuses {m : ModelSpec α} {e : Error} (h : m.validate = .error e) :
    (∃ cause, e = .invalidSpec cause) ∨ e = .overflow ∧ ¬m.Countable := by
  rcases bind_eq_error.mp h with h | ⟨-, -, h⟩
  · obtain ⟨hcount, rfl⟩ := requireWord_eq_error.mp h
    exact .inr ⟨rfl, fun hm => Bool.false_ne_true (hcount.symm.trans hm.input)⟩
  dsimp only at h
  by_cases hi : m.inputShape.isEmpty = true
  · rw [if_pos hi] at h
    exact .inl ⟨_, (Except.error.inj h).symm⟩
  rw [if_neg hi] at h
  by_cases hl : m.layers.isEmpty = true
  · rw [if_pos hl] at h
    exact .inl ⟨_, (Except.error.inj h).symm⟩
  rw [if_neg hl] at h
  rcases bind_eq_error.mp h with h | ⟨shapes, -, h⟩
  · exact (validateLayers_refuses (by simpa using hi) h).imp_right fun hn => ⟨hn.1, fun hm => hn.2 hm.layers⟩
  · refine .inl ?_
    cases hloss : m.loss <;> cases ho : m.outputsSoftmax <;>
      cases hf : (shapes.getLastD m.inputShape).isFlat <;> simp only [hloss, ho, hf] at h <;> cases h <;> exact ⟨_, rfl⟩

theorem validate_ne_misuse (m : ModelSpec α) : m.validate ≠ .error .misuse := by
  intro h
  rcases validate_refuses h with ⟨_, ⟨⟩⟩ | ⟨⟨⟩, -⟩

theorem validate_ne_overflow {m : ModelSpec α} (hm : m.Countable) : m.validate ≠ .error .overflow := by
  intro h
  rcases validate_refuses h with ⟨_, ⟨⟩⟩ | ⟨-, hn⟩
  exact hn hm

structure Valid (m : ModelSpec α) (shapes : List Shape) : Prop where
  countable : m.inputShape.isCountable = true
  input : m.inputShape.isEmpty = false
  layers : m.layers ≠ []
  chain : validateLayers (m.layers.length - 1) 0 m.inputShape m.layers = .ok shapes
  output : (shapes.getLastD m.inputShape).isFlat = true

theorem valid_of_validate {m : ModelSpec α} {shapes : List Shape} (h : m.validate = .ok shapes) :
    m.Valid shapes := by
  obtain ⟨hcount, h⟩ := requireWord_bind_eq_ok.mp h
  dsimp only at h
  by_cases hi : m.inputShape.isEmpty = true
  · simp [hi] at h
  · rw [if_neg hi] at h
    by_cases hl : m.layers.isEmpty = true
    · simp [hl] at h
    · rw [if_neg hl] at h
      obtain ⟨shapes', hs, h⟩ := bind_eq_ok.mp h
      have hlast : (shapes'.getLastD m.inputShape).isFlat = true ∧ shapes' = shapes := by
        cases hf : (shapes'.getLastD m.inputShape).isFlat with
        | false =>
            cases hloss : m.loss <;> cases ho : m.outputsSoftmax <;>
              simp only [hloss, ho, hf] at h <;> cases h
        | true =>
            cases hloss : m.loss <;> cases ho : m.outputsSoftmax <;>
              simp only [hloss, ho, hf] at h <;> cases h <;> exact ⟨rfl, rfl⟩
      obtain ⟨hf, rfl⟩ := hlast
      exact ⟨hcount, by simpa using hi, by simpa using hl, hs, hf⟩

end ModelSpec

/-- A layer that a description describes for an input shape, whatever the values of its parameters and
whatever it has gathered. Its weights can be counted. -/
inductive Layer.Realizes : Layer α → LayerSpec α → Shape → Prop
  | conv (l : Convolution α) (hk : l.kernel.size = l.kernelLength) (hb : l.bias.size = l.filters)
      (hw : isUnsigned l.kernelLength = true) :
      Realizes (.conv l) (.conv l.filters l.kernelSize l.stride l.padding l.activation) l.inputShape
  | pool (l : Pooling) (t : Option Nat) (ht : l.stride = t.getD l.poolSize) :
      Realizes (.pool l) (.pool l.kind l.poolSize t) l.inputShape
  | flatten (s : Shape) : Realizes (.flatten s) .flatten s
  | dense (l : Dense α) (hl : l.Sound) (hw : isUnsigned (l.weights.rows * l.weights.cols) = true) :
      Realizes (.dense l) (.dense l.weights.cols l.activation) (.flat l.weights.rows)
  | dropout (l : Dropout α) : Realizes (.dropout l) (.dropout l.rate) l.shape
  | pointwise (l : Pointwise α) : Realizes (.pointwise l) (.pointwise l.activation) l.shape

namespace Layer.Realizes

variable {spec : LayerSpec α} {s s' : Shape} {l l' : Layer α}

theorem inputShape (h : l.Realizes spec s) : l.inputShape = s := by cases h <;> rfl

theorem eq_conv {f k t : Nat} {p : Padding} {a : Activation} (h : l.Realizes (.conv f k t p a) s) :
    ∃ c, l = .conv c := by
  generalize hspec : LayerSpec.conv f k t p a = spec at h
  cases h with
  | conv c => exact ⟨c, rfl⟩
  | _ => cases hspec

theorem outputShape (h : l.Realizes spec s) (ht : spec.Turns s s') : l.outputShape = s' := by
  cases h with
  | conv l => exact ht.2.symm
  | pool l t hs =>
      have hw : ∀ n, Pooling.windows l n =
          Pooling.windows ⟨l.kind, l.poolSize, t.getD l.poolSize, l.inputShape, #[]⟩ n := by
        intro n
        simp only [Pooling.windows, hs]
      rw [ht]
      simp only [Layer.outputShape, Pooling.outputShape, hw]
  | dense l => exact ht.2.symm
  | flatten | dropout | pointwise => exact ht.symm

theorem windows (h : l.Realizes spec s) : l.windowsCountable = spec.windowsCountable s := by
  cases h <;> rfl

theorem weights (h : l.Realizes spec s) : isUnsigned l.weightCount = true := by
  cases h with
  | conv l hk hb hw => exact hw
  | dense l hl hw => exact hw
  | pool | flatten | dropout | pointwise => rfl

theorem settings [Scalar α] (h : l.Realizes spec s) (hf : spec.fault? = none) : l.settingsFault? = none := by
  cases h with
  | conv =>
      simp only [LayerSpec.fault?, ite_eq_right_iff, reduceCtorEq, imp_false] at hf
      exact if_neg hf
  | pool l t hst =>
      simp only [LayerSpec.fault?, ite_eq_right_iff, reduceCtorEq, imp_false, not_or] at hf
      refine if_neg (not_or.mpr ⟨hf.1, ?_⟩)
      rw [hst]
      cases t with
      | none => exact hf.1
      | some t => exact fun h => hf.2 (congrArg some h)
  | dropout l =>
      simp only [LayerSpec.fault?, ite_eq_left_iff, reduceCtorEq, imp_false, Classical.not_not] at hf
      exact if_pos hf
  | flatten | dense | pointwise => rfl

theorem buffers (h : l.Realizes spec s) : l.buffersFault? = none := by
  cases h with
  | conv l hk hb hw => simp [buffersFault?, hk, hb]
  | dense l hl hw =>
      have hsize : l.weights.data.size = l.weights.rows * l.weights.cols := hl.weights
      simp [buffersFault?, hsize, hl.biases]
  | pool | flatten | dropout | pointwise => rfl

theorem sound [Scalar α] (h : l.Realizes spec s) (hf : spec.fault? = none) (hs : s.isEmpty = false)
    (ht : spec.Turns s s') (hs' : s'.isEmpty = false) : l.Sound where
  parts := partsSound_of_faults (h.settings hf) h.buffers
  input := h.inputShape ▸ hs
  output := h.outputShape ht ▸ hs'

theorem check [Scalar α] (h : l.Realizes spec s) (hf : spec.fault? = none) (hs : s.isEmpty = false)
    (hc : s.isCountable = true) (ht : spec.Turns s s') (hw : spec.windowsCountable s = true)
    (hs' : s'.isEmpty = false) (hc' : s'.isCountable = true) (i : Option Nat) : l.check i = .ok () := by
  have hsound := h.sound hf hs ht hs'
  have hcountable : l.Countable :=
    ⟨h.inputShape.symm ▸ hc, h.weights, h.windows.trans hw, (h.outputShape ht).symm ▸ hc'⟩
  exact check_eq_ok.mpr ⟨hcountable, hsound.input, h.settings hf, h.buffers, hsound.output⟩

theorem storable [Scalar α] (h : l.Realizes spec s) (hs : Buffer.fits s.size = true)
    (ho : Buffer.fits l.outputShape.size = true)
    (hp : ∀ n ∈ spec.bufferSizes s, Buffer.fits n = true) : l.Storable where
  input := h.inputShape.symm ▸ hs
  output := ho
  parameters := by
    intro p hmem
    cases h with
    | conv l hk hb hw =>
        simp only [parameters, List.mem_cons, List.not_mem_nil, or_false] at hmem
        rcases hmem with rfl | rfl
        · rw [hk]
          exact hp _ (by simp [LayerSpec.bufferSizes, Convolution.kernelLength])
        · rw [hb]
          exact hp _ (by simp [LayerSpec.bufferSizes])
    | dense l hl hw =>
        have hsize : l.weights.data.size = l.weights.rows * l.weights.cols := hl.weights
        simp only [parameters, List.mem_cons, List.not_mem_nil, or_false] at hmem
        rcases hmem with rfl | rfl
        · rw [hsize]
          exact hp _ (by simp [LayerSpec.bufferSizes])
        · rw [hl.biases]
          exact hp _ (by simp [LayerSpec.bufferSizes])
    | pool | flatten | dropout | pointwise => simp [parameters] at hmem

theorem bare_iff : l.bare.Realizes spec s ↔ l.Realizes spec s := by
  constructor
  · intro h
    cases l with
    | conv l =>
        cases h with
        | conv _ hk hb hw => exact .conv l hk hb hw
    | pool l =>
        cases h with
        | pool _ t ht => exact .pool l t ht
    | flatten => exact h
    | dense l =>
        cases h with
        | dense _ hl hw => exact .dense l ⟨hl.weights, hl.biases⟩ hw
    | dropout l =>
        cases h with
        | dropout => exact .dropout l
    | pointwise l =>
        cases h with
        | pointwise => exact .pointwise l
  · intro h
    cases h with
    | conv l hk hb hw => exact .conv { l with kernelGrad := #[], biasGrad := #[], input := none, preActivation := none } hk hb hw
    | pool l t ht => exact .pool { l with winners := #[] } t ht
    | flatten => exact .flatten _
    | dense l hl hw =>
        exact .dense { l with
          weightsGrad := .empty, biasesGrad := #[], inputs := #[], preActivation := #[] }
          ⟨hl.weights, hl.biases⟩ hw
    | dropout l => exact .dropout { l with mask := #[] }
    | pointwise l => exact .pointwise { l with preActivation := #[] }

theorem of_bare (hb : l'.bare = l.bare) (h : l.Realizes spec s) : l'.Realizes spec s :=
  bare_iff.mp (hb ▸ bare_iff.mpr h)

end Layer.Realizes

namespace Network

def LayersRealize : Shape → List (LayerSpec α) → List (Layer α) → Prop
  | _, [], [] => True
  | s, spec :: specs, l :: ls =>
      l.Realizes spec s ∧ l.Tidy ∧ LayersRealize l.outputShape specs ls
  | _, _, _ => False

/-- A network that a description describes, whatever the values of its parameters and whatever its
layers have gathered. -/
structure Realizes (net : Network α) (m : ModelSpec α) : Prop where
  inputShape : net.inputShape = m.inputShape
  loss : net.loss = m.loss
  layers : LayersRealize m.inputShape m.layers net.layers

variable {specs : List (LayerSpec α)} {s : Shape} {shapes : List Shape} {ls ls' : List (Layer α)}

theorem LayersRealize.nil_of_nil (h : LayersRealize s specs ls) (hls : ls = []) : specs = [] := by
  subst hls
  cases specs with
  | nil => rfl
  | cons spec specs => exact h.elim

theorem LayersRealize.of_bare (hb : ls'.map Layer.bare = ls.map Layer.bare)
    (ht : ∀ l ∈ ls', l.Tidy) (h : LayersRealize s specs ls) : LayersRealize s specs ls' := by
  induction ls generalizing s specs ls' with
  | nil =>
      obtain rfl : ls' = [] := by simpa using hb
      exact h
  | cons l ls ih =>
      cases ls' with
      | nil => simp at hb
      | cons l' ls' =>
          cases specs with
          | nil => exact h.elim
          | cons spec specs =>
              obtain ⟨hl, hls⟩ := List.cons.inj hb
              obtain ⟨hr, -, hrest⟩ := h
              refine ⟨hr.of_bare hl, ht l' (by simp), ?_⟩
              rw [Layer.outputShape_eq_of_bare hl]
              exact ih hls (fun k hk => ht k (by simp [hk])) hrest

/-- Layers that realize checked descriptions fit together, and give out the shapes of the check. -/
theorem LayersRealize.chained [Scalar α] {last i : Nat}
    (hv : ModelSpec.validateLayers last i s specs = .ok shapes) (hs : s.isEmpty = false)
    (h : LayersRealize s specs ls) : Chained s ls ∧ shapes = ls.map Layer.outputShape := by
  induction ls generalizing i s specs shapes with
  | nil =>
      cases specs with
      | nil => exact ⟨trivial, (Except.ok.inj hv).symm⟩
      | cons spec specs => exact h.elim
  | cons l ls ih =>
      cases specs with
      | nil => exact h.elim
      | cons spec specs =>
          obtain ⟨hf, -, s', rest, ho, hrest, rfl⟩ := ModelSpec.validateLayers_cons.mp hv
          obtain ⟨hr, htidy, hls⟩ := h
          obtain ⟨ht, -, -, hs'⟩ := LayerSpec.turns_of_outputShape ho
          obtain rfl := hr.outputShape ht
          obtain ⟨hc, rfl⟩ := ih hrest hs' hls
          exact ⟨⟨hr.inputShape, hr.sound hf hs ht hs', htidy, hc⟩, rfl⟩

theorem LayersRealize.checkLayersFrom [Scalar α] {last i : Nat}
    (hv : ModelSpec.validateLayers last i s specs = .ok shapes) (hs : s.isEmpty = false)
    (hc : s.isCountable = true) (h : LayersRealize s specs ls) (j : Nat) : checkLayersFrom j s ls = .ok () := by
  induction ls generalizing i j s specs shapes with
  | nil => rfl
  | cons l ls ih =>
      cases specs with
      | nil => exact h.elim
      | cons spec specs =>
          obtain ⟨hf, -, s', rest, ho, hrest, rfl⟩ := ModelSpec.validateLayers_cons.mp hv
          obtain ⟨hr, htidy, hls⟩ := h
          obtain ⟨ht, hwindows, hc', hs'⟩ := LayerSpec.turns_of_outputShape ho
          have hsound := hr.sound hf hs ht hs'
          obtain rfl := hr.outputShape ht
          have hcheck := hr.check hf hs hc ht hwindows hs' hc' (some j)
          have hin := hr.inputShape
          simp [Network.checkLayersFrom, hcheck, hin, hsound.outputShape?, ih hrest hs' hc' hls (j + 1)]

theorem LayersRealize.storable [Scalar α] {last i : Nat}
    (hv : ModelSpec.validateLayers last i s specs = .ok shapes) (hs : s.isEmpty = false)
    (h : LayersRealize s specs ls) (hf : ∀ r ∈ s :: shapes, Buffer.fits r.size = true)
    (hroom : ∀ p ∈ specs.zip (s :: shapes), ∀ n ∈ p.1.bufferSizes p.2, Buffer.fits n = true) :
    ∀ l ∈ ls, l.Storable := by
  induction ls generalizing i s specs shapes with
  | nil => simp
  | cons l ls ih =>
      cases specs with
      | nil => exact h.elim
      | cons spec specs =>
          obtain ⟨-, -, s', rest, ho, hrest, rfl⟩ := ModelSpec.validateLayers_cons.mp hv
          obtain ⟨hr, -, hls⟩ := h
          obtain ⟨ht, -, -, hs'⟩ := LayerSpec.turns_of_outputShape ho
          obtain rfl := hr.outputShape ht
          rw [List.zip_cons_cons] at hroom
          intro k hk
          rcases List.mem_cons.mp hk with rfl | hk
          · exact hr.storable (hf s (by simp)) (hf _ (by simp)) (hroom (spec, s) (by simp))
          · exact ih hrest hs' hls (fun r hr => hf r (List.mem_cons_of_mem _ hr))
              (fun p hp => hroom p (List.mem_cons_of_mem _ hp)) k hk

end Network

section Build

variable [Scalar α] {draw : Initializer α σ}

theorem Initializer.draws_ones :
    Initializer.Draws (fun _ _ n s => .ok (Array.replicate n 1, s) : Initializer α σ) where
  size := by
    rintro fanIn fanOut n s xs s' h
    obtain ⟨⟩ := Except.ok.inj h
    exact Array.size_replicate
  answers _ _ _ _ _ s := ⟨_, s, rfl⟩

theorem isUnsigned_of_fits {n : Nat} (h : Buffer.fits n = true) : isUnsigned n = true := by
  have h : 8 * n < 2 ^ 63 := of_decide_eq_true h
  exact isUnsigned_iff.mpr (show n < 2 ^ 64 by omega)

theorem LayerSpec.build_realizes (hd : Initializer.Draws draw) {spec : LayerSpec α} {s s' : Shape}
    (ht : spec.Turns s s') {source source' : σ} {l : Layer α}
    (h : spec.build draw s source = .ok (l, source')) : l.Realizes spec s ∧ l.Tidy := by
  cases spec with
  | conv f k t p a =>
      obtain ⟨hfits, h⟩ := require_bind_eq_ok.mp h
      obtain ⟨⟨kernel, source₁⟩, hk, h⟩ := bind_eq_ok.mp h
      obtain ⟨⟩ := pure_eq_ok_iff.mp h
      exact ⟨.conv _ (hd.size hk) (Buffer.size_zeros f) (isUnsigned_of_fits hfits), trivial⟩
  | pool k p t =>
      obtain ⟨⟩ := pure_eq_ok_iff.mp h
      exact ⟨.pool _ t rfl, trivial⟩
  | flatten =>
      obtain ⟨⟩ := pure_eq_ok_iff.mp h
      exact ⟨.flatten _, trivial⟩
  | dense u a =>
      obtain ⟨hfits, h⟩ := require_bind_eq_ok.mp h
      obtain ⟨⟨weights, source₁⟩, hw, h⟩ := bind_eq_ok.mp h
      obtain ⟨m, hm, h⟩ := bind_eq_ok.mp h
      obtain ⟨⟩ := pure_eq_ok_iff.mp h
      obtain ⟨hsize, h⟩ := require_bind_eq_ok.mp hm
      obtain ⟨⟩ := pure_eq_ok_iff.mp h
      have hs : s = .flat s.size := Shape.eq_flat ht.1
      have hl : Layer.Realizes (.dense ⟨⟨s.size, u, weights⟩, Buffer.zeros u, a, .zeros s.size u,
          Buffer.zeros u, #[], #[]⟩) (.dense u a) (.flat s.size) :=
        .dense _ ⟨by simpa [Matrix.Sized] using hsize, Buffer.size_zeros u⟩ (isUnsigned_of_fits hfits)
      refine ⟨?_, Matrix.zeros_sized _ _⟩
      rwa [← hs] at hl
  | dropout r =>
      obtain ⟨⟩ := pure_eq_ok_iff.mp h
      exact ⟨.dropout _, trivial⟩
  | pointwise a =>
      obtain ⟨⟩ := pure_eq_ok_iff.mp h
      exact ⟨.pointwise _, trivial⟩

theorem LayerSpec.build_answers (hd : Initializer.Draws draw) {spec : LayerSpec α} {s : Shape}
    (hf : spec.fault? = none) (hs : s.isEmpty = false)
    (hroom : ∀ n ∈ spec.bufferSizes s, Buffer.fits n = true) (source : σ) :
    ∃ l source', spec.build draw s source = .ok (l, source') := by
  obtain ⟨hh, hw, hc⟩ := Shape.pos_of_not_isEmpty hs
  have hsize : 0 < s.size := Nat.mul_pos (Nat.mul_pos hh hw) hc
  cases spec with
  | conv f k t p a =>
      simp only [fault?, ite_eq_right_iff, reduceCtorEq, imp_false, not_or] at hf
      have hfil : 0 < f := Nat.pos_of_ne_zero hf.1
      have harea : 0 < k * k := Nat.mul_pos (Nat.pos_of_ne_zero hf.2.1) (Nat.pos_of_ne_zero hf.2.1)
      have hin : k * k * s.channels ≤ k * k * s.channels * f := Nat.le_mul_of_pos_right _ hfil
      have hout : k * k * f ≤ k * k * s.channels * f :=
        Nat.mul_le_mul_right _ (Nat.le_mul_of_pos_right _ hc)
      obtain ⟨kernel, source₁, hk⟩ := hd.answers (Nat.mul_pos harea hc) (Nat.mul_pos harea hfil)
        hin hout (hroom _ (by simp [bufferSizes])) source
      exact ⟨_, _, require_bind_eq_ok.mpr ⟨hroom _ (by simp [bufferSizes]), bind_eq_ok.mpr ⟨_, hk, rfl⟩⟩⟩
  | dense u a =>
      simp only [fault?, ite_eq_right_iff, reduceCtorEq, imp_false] at hf
      have hu : 0 < u := Nat.pos_of_ne_zero hf
      obtain ⟨weights, source₁, hk⟩ := hd.answers hsize hu (Nat.le_mul_of_pos_right _ hu)
        (Nat.le_mul_of_pos_left _ hsize) (hroom _ (by simp [bufferSizes])) source
      have hm : Matrix.ofBuffer s.size u weights = .ok ⟨s.size, u, weights⟩ := by
        simp [Matrix.ofBuffer, hd.size hk]
      exact ⟨_, _, require_bind_eq_ok.mpr ⟨hroom _ (by simp [bufferSizes]),
        bind_eq_ok.mpr ⟨_, hk, bind_eq_ok.mpr ⟨_, hm, rfl⟩⟩⟩⟩
  | pool | flatten | dropout | pointwise => exact ⟨_, _, rfl⟩

theorem LayerSpec.exists_build (hd : Initializer.Draws draw) {spec : LayerSpec α} {s s' : Shape}
    (hf : spec.fault? = none) (hs : s.isEmpty = false) (ht : spec.Turns s s') (hs' : s'.isEmpty = false)
    (hroom : ∀ n ∈ spec.bufferSizes s, Buffer.fits n = true) (source : σ) :
    ∃ l source', spec.build draw s source = .ok (l, source') ∧ l.outputShape? = .ok s' := by
  obtain ⟨l, source', hl⟩ := build_answers hd hf hs hroom source
  obtain ⟨hr, -⟩ := build_realizes hd ht hl
  obtain rfl := hr.outputShape ht
  exact ⟨l, source', hl, (hr.sound hf hs ht hs').outputShape?⟩

namespace Network

theorem buildLayers_cons {spec : LayerSpec α} {specs : List (LayerSpec α)} {s : Shape}
    {source source' : σ} {rs : List (Layer α)} :
    buildLayers draw s source (spec :: specs) = .ok (rs, source') ↔
      ∃ l source₁ s' ls, spec.build draw s source = .ok (l, source₁) ∧ l.outputShape? = .ok s' ∧
        buildLayers draw s' source₁ specs = .ok (ls, source') ∧ rs = l :: ls := by
  rw [buildLayers, bind_eq_ok]
  constructor
  · rintro ⟨⟨l, source₁⟩, hl, h⟩
    obtain ⟨s', hs', h⟩ := bind_eq_ok.mp h
    obtain ⟨⟨ls, source₂⟩, hls, h⟩ := bind_eq_ok.mp h
    obtain ⟨⟩ := pure_eq_ok_iff.mp h
    exact ⟨l, source₁, s', ls, hl, hs', hls, rfl⟩
  · rintro ⟨l, source₁, s', ls, hl, hs', hls, rfl⟩
    exact ⟨_, hl, bind_eq_ok.mpr ⟨_, hs', bind_eq_ok.mpr ⟨_, hls, rfl⟩⟩⟩

theorem buildLayers_realize (hd : Initializer.Draws draw) {last i : Nat} {s : Shape}
    {specs : List (LayerSpec α)} {shapes : List Shape}
    (hv : ModelSpec.validateLayers last i s specs = .ok shapes) (hs : s.isEmpty = false)
    {source source' : σ} {ls : List (Layer α)}
    (h : buildLayers draw s source specs = .ok (ls, source')) : LayersRealize s specs ls := by
  induction specs generalizing i s shapes source ls with
  | nil =>
      obtain ⟨⟩ := Except.ok.inj h
      trivial
  | cons spec specs ih =>
      obtain ⟨hf, -, s', rest, ho, hrest, rfl⟩ := ModelSpec.validateLayers_cons.mp hv
      obtain ⟨l, source₁, s₁, ls, hl, hs₁, hls, rfl⟩ := buildLayers_cons.mp h
      obtain ⟨ht, -, -, hs'⟩ := LayerSpec.turns_of_outputShape ho
      obtain ⟨hr, htidy⟩ := LayerSpec.build_realizes hd ht hl
      have hout : s₁ = l.outputShape :=
        Except.ok.inj (hs₁.symm.trans (hr.sound hf hs ht hs').outputShape?)
      obtain rfl := hr.outputShape ht
      exact ⟨hr, htidy, ih hrest hs' (hout ▸ hls)⟩

theorem buildLayers_answers (hd : Initializer.Draws draw) {last i : Nat} {s : Shape}
    {specs : List (LayerSpec α)} {shapes : List Shape}
    (hv : ModelSpec.validateLayers last i s specs = .ok shapes) (hs : s.isEmpty = false)
    (hroom : ∀ p ∈ specs.zip (s :: shapes), ∀ n ∈ p.1.bufferSizes p.2, Buffer.fits n = true)
    (source : σ) : ∃ ls source', buildLayers draw s source specs = .ok (ls, source') := by
  induction specs generalizing i s shapes source with
  | nil => exact ⟨_, _, rfl⟩
  | cons spec specs ih =>
      obtain ⟨hf, -, s', rest, ho, hrest, rfl⟩ := ModelSpec.validateLayers_cons.mp hv
      rw [List.zip_cons_cons] at hroom
      obtain ⟨ht, -, -, hs'⟩ := LayerSpec.turns_of_outputShape ho
      obtain ⟨l, source₁, hl, hout⟩ := LayerSpec.exists_build hd hf hs ht hs' (hroom (spec, s) (by simp)) source
      obtain ⟨ls, source', hls⟩ := ih hrest hs' (fun p hp => hroom p (by simp [hp])) source₁
      exact ⟨_, _, buildLayers_cons.mpr ⟨l, source₁, _, ls, hl, hout, hls, rfl⟩⟩

end Network

end Build
end Convnet
