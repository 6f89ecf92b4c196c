import Convnet.Proofs.Layer

namespace Convnet

variable {α : Type} [Scalar α]

/-- What is kept of marked numbers was kept before them or is one of them. -/
theorem Scalar.foldl_prefer {ι : Type} (f : ι → α) (is : List ι) (kept : Option (α × ι)) :
    is.foldl (fun kept i => prefer kept (f i) i) kept = kept ∨
      ∃ i ∈ is, is.foldl (fun kept i => prefer kept (f i) i) kept = some (f i, i) := by
  induction is generalizing kept with
  | nil => exact .inl rfl
  | cons j js ih =>
      rw [List.foldl_cons]
      rcases ih (prefer kept (f j) j) with h | ⟨i, hi, h⟩
      · have hj : prefer kept (f j) j = kept ∨ prefer kept (f j) j = some (f j, j) := by
          unfold prefer
          split <;> split <;> simp
        rcases hj with hj | hj
        · exact .inl (h.trans hj)
        · exact .inr ⟨j, by simp, h.trans hj⟩
      · exact .inr ⟨i, by simp [hi], h⟩

namespace Activation

@[simp] theorem size_apply (a : Activation) (z : Array α) : (a.apply z).size = z.size := by
  cases a <;> simp [apply, softmaxVector]

@[simp] theorem size_backprop (a : Activation) (g z : Array α) : (a.backprop g z).size = g.size := by
  cases a <;> simp [backprop]

end Activation

namespace Convolution

@[simp] theorem size_biasMap (l : Convolution α) : l.biasMap.size = l.outputShape.size := by
  simp [biasMap]

@[simp] theorem size_response (l : Convolution α) (x : Tensor α) :
    (l.response x).data.size = l.outputShape.size :=
  (Buffer.size_foldl _ (fun z t => by dsimp only; split <;> simp) _ _).trans l.size_biasMap

@[simp] theorem size_kernelGradient (l : Convolution α) (x : Tensor α) (delta : Array α) :
    (l.kernelGradient x delta).size = l.kernelGrad.size :=
  Buffer.size_foldl _ (fun _ _ => Buffer.size_axpy _ _ _ _ _ _) _ _

@[simp] theorem size_biasGradient (l : Convolution α) (delta : Array α) :
    (l.biasGradient delta).size = l.biasGrad.size :=
  Buffer.size_fold _ _ (fun _ _ _ => Buffer.size_addRow _ _ _ _ _) _

theorem inputGradient_sized (l : Convolution α) (delta : Array α) : (l.inputGradient delta).Sized :=
  (Buffer.size_foldl _ (fun _ _ => Buffer.size_bump _ _ _) _ _).trans (Buffer.size_zeros _)

def remember (l : Convolution α) (x : Tensor α) (training : Bool) : Convolution α :=
  if training then { l with input := some x, preActivation := some (l.response x) } else l

/-- The guard of a pass forward. -/
def Runs (l : Convolution α) (x : Tensor α) : Prop :=
  (l.countsWindows && Buffer.fits l.outputShape.size &&
    (l.rows * l.columns == 0 || l.bias.size == l.filters) && l.reaches x) = true

theorem forward_eq_ok {l : Convolution α} {x : Tensor α} {t : Bool} {r : Convolution α × Tensor α} :
    l.forward x t = .ok r ↔
      l.Runs x ∧ r = (l.remember x t, ⟨l.outputShape, l.activation.apply (l.response x).data⟩) := by
  rw [forward, require_bind_eq_ok]
  exact and_congr_right fun _ => pure_eq_ok_iff

theorem forward_misuse {l : Convolution α} (h : Buffer.fits l.outputShape.size = false) (x : Tensor α) (t : Bool) :
    l.forward x t = .error .misuse := by
  simp [forward, h]

theorem Sound.runs {l : Convolution α} (h : l.Sound) (hi : l.inputShape.isEmpty = false)
    (hf : Buffer.fits l.outputShape.size = true) {x : Tensor α} (hx : x.shape = l.inputShape)
    (hs : x.Sized) : l.Runs x := by
  simp [Runs, countsWindows_of_pos h.stride hi, hf, h.bias, reaches, hx, hs, h.kernel]

def gather (l : Convolution α) (x : Tensor α) (delta : Array α) : Convolution α :=
  { l.ready with
    kernelGrad := l.ready.kernelGradient x delta
    biasGrad := l.ready.biasGradient delta
    input := none
    preActivation := none }

@[simp] theorem size_ready_kernelGrad (l : Convolution α) : l.ready.kernelGrad.size = l.kernel.size :=
  Buffer.size_sized _ _

@[simp] theorem size_ready_biasGrad (l : Convolution α) : l.ready.biasGrad.size = l.bias.size :=
  Buffer.size_sized _ _

theorem ready_of_size {l : Convolution α} (hk : l.kernelGrad.size = l.kernel.size)
    (hb : l.biasGrad.size = l.bias.size) : l.ready = l := by
  rw [ready, Buffer.sized_of_size hk, Buffer.sized_of_size hb]

theorem ready_gather (l : Convolution α) (x : Tensor α) (delta : Array α) :
    (l.gather x delta).ready = l.gather x delta :=
  ready_of_size ((size_kernelGradient _ _ _).trans l.size_ready_kernelGrad)
    ((size_biasGradient _ _).trans l.size_ready_biasGrad)

theorem backward_eq_ok {l : Convolution α} {g x z : Tensor α} (hx : l.input = some x)
    (hz : l.preActivation = some z) {r : Convolution α × Tensor α} :
    l.backward g = .ok r ↔
      (Buffer.fits l.inputShape.size && l.reachesBack x (l.activation.backprop g.data z.data)) = true ∧
        r = (l.gather x (l.activation.backprop g.data z.data),
          l.inputGradient (l.activation.backprop g.data z.data)) := by
  simp only [backward, hx, hz]
  rw [require_bind_eq_ok]
  exact and_congr_right fun _ => pure_eq_ok_iff

omit [Scalar α] in
theorem Sound.runsBack {l : Convolution α} (h : l.Sound) (hf : Buffer.fits l.inputShape.size = true)
    {x : Tensor α} (hx : x.shape = l.inputShape) (hs : x.Sized) {delta : Array α}
    (hd : delta.size = l.outputShape.size) :
    (Buffer.fits l.inputShape.size && l.reachesBack x delta) = true := by
  simp [hf, reachesBack, hx, hs, h.kernel, hd]

end Convolution

namespace Matrix

theorem coversRows_of_sized {m : Matrix α} (h : m.Sized) (x : Array α) : m.coversRows x = true := by
  simp [coversRows, h]

omit [Scalar α] in
theorem coversAll_of_sized {m : Matrix α} (h : m.Sized) : m.coversAll = true := by
  have hs : m.data.size = m.rows * m.cols := h
  simp [coversAll, hs]

@[simp] theorem size_vecMul (m : Matrix α) (x : Array α) : (m.vecMul x).size = m.cols :=
  (Buffer.size_fold _ _ (fun _ _ _ => by dsimp only; split <;> simp) _).trans (Buffer.size_zeros _)

@[simp] theorem size_mulVec (m : Matrix α) (d : Array α) : (m.mulVec d).size = m.rows := by
  simp [mulVec]

theorem addOuter_sized {m : Matrix α} (h : m.Sized) (x d : Array α) : (m.addOuter x d).Sized :=
  (Buffer.size_fold _ _ (fun _ _ _ => by dsimp only; split <;> simp) _).trans h

theorem zeros_sized (rows cols : Nat) : (zeros rows cols : Matrix α).Sized := Buffer.size_zeros _

end Matrix

namespace Dense

@[simp] theorem size_response (l : Dense α) (x : Array α) : (l.response x).size = l.weights.cols := by
  simp [response]

theorem ready_sized {l : Dense α} (h : l.weightsGrad.Sized) : l.ready.weightsGrad.Sized := by
  unfold ready
  dsimp only
  split
  · exact h
  · exact Matrix.zeros_sized _ _

theorem ready_rows (l : Dense α) : l.ready.weightsGrad.rows = l.weights.rows := by
  unfold ready
  dsimp only
  split
  · exact And.left ‹_›
  · rfl

theorem ready_cols (l : Dense α) : l.ready.weightsGrad.cols = l.weights.cols := by
  unfold ready
  dsimp only
  split
  · exact And.right ‹_›
  · rfl

def remember (l : Dense α) (x : Tensor α) (training : Bool) : Dense α :=
  if training then { l with inputs := x.data, preActivation := l.response x.data } else l

theorem forward_eq_ok {l : Dense α} {x : Tensor α} {t : Bool} {r : Dense α × Tensor α} :
    l.forward x t = .ok r ↔
      (x.data.size == l.weights.rows && Buffer.fits l.weights.cols && l.weights.coversRows x.data) = true ∧
        r = (l.remember x t, .flat (l.activation.apply (l.response x.data))) := by
  rw [forward, require_bind_eq_ok]
  exact and_congr_right fun _ => pure_eq_ok_iff

theorem Sound.runs {l : Dense α} (h : l.Sound) (hf : Buffer.fits l.weights.cols = true)
    {x : Tensor α} (hx : x.data.size = l.weights.rows) :
    (x.data.size == l.weights.rows && Buffer.fits l.weights.cols &&
      l.weights.coversRows x.data) = true := by
  simp [hx, hf, Matrix.coversRows_of_sized h.weights]

def gather (l : Dense α) (delta : Array α) : Dense α :=
  { l.ready with
    weightsGrad := l.ready.weightsGrad.addOuter l.inputs delta
    biasesGrad := Buffer.zipKeep (· + ·) l.ready.biasesGrad delta
    inputs := #[] }

@[simp] theorem size_ready_biasesGrad (l : Dense α) : l.ready.biasesGrad.size = l.biases.size :=
  Buffer.size_sized _ _

theorem ready_of_size {l : Dense α} (hr : l.weightsGrad.rows = l.weights.rows)
    (hc : l.weightsGrad.cols = l.weights.cols) (hb : l.biasesGrad.size = l.biases.size) :
    l.ready = l := by
  rw [ready, if_pos ⟨hr, hc⟩, Buffer.sized_of_size hb]

theorem ready_gather (l : Dense α) (delta : Array α) : (l.gather delta).ready = l.gather delta :=
  ready_of_size l.ready_rows l.ready_cols ((Buffer.size_zipKeep _ _ _).trans l.size_ready_biasesGrad)

structure RunsBack (l : Dense α) (delta : Array α) : Prop where
  inputs : l.inputs.size = l.weights.rows
  room : Buffer.fits (l.weights.rows * l.weights.cols) = true
  outer : (l.inputs.size == l.ready.weightsGrad.rows && delta.size == l.ready.weightsGrad.cols &&
    l.ready.weightsGrad.coversRows l.inputs) = true
  back : (delta.size == l.weights.cols && Buffer.fits l.weights.rows && l.weights.coversAll) = true

theorem backward_eq_ok {l : Dense α} {g : Tensor α} {r : Dense α × Tensor α} :
    l.backward g = .ok r ↔
      l.RunsBack (l.activation.backprop g.data l.preActivation) ∧
        r = (l.gather (l.activation.backprop g.data l.preActivation),
          .flat (l.weights.mulVec (l.activation.backprop g.data l.preActivation))) := by
  simp only [backward, ready?, Matrix.addOuter?, Matrix.mulVec?, bind_assoc, require_bind_eq_ok,
    pure_bind]
  constructor
  · rintro ⟨hi, hr, ho, hb, h⟩
    exact ⟨⟨by simpa using hi, hr, ho, hb⟩, pure_eq_ok_iff.mp h⟩
  · rintro ⟨⟨hi, hr, ho, hb⟩, h⟩
    exact ⟨by simpa using hi, hr, ho, hb, pure_eq_ok_iff.mpr h⟩

theorem Sound.runsBack {l : Dense α} (h : l.Sound) (ht : l.weightsGrad.Sized)
    (hf : Buffer.fits (l.weights.rows * l.weights.cols) = true)
    (hr : Buffer.fits l.weights.rows = true) (hi : l.inputs.size = l.weights.rows) {delta : Array α}
    (hd : delta.size = l.weights.cols) : l.RunsBack delta where
  inputs := hi
  room := hf
  outer := by
    simp [hi, hd, ready_rows, ready_cols, Matrix.coversRows_of_sized (ready_sized ht)]
  back := by simp [hd, hr, Matrix.coversAll_of_sized h.weights]

end Dense

namespace Pooling

def found (l : Pooling) (x : Tensor α) : Array (α × Nat) :=
  Array.ofFn fun (o : Fin l.outputShape.size) => best x.data (l.windowOf x.shape l.outputShape o)

def output (l : Pooling) (x : Tensor α) : Array α :=
  match l.kind with
  | .max => (l.found x).map (·.1)
  | .average => Array.ofFn fun (o : Fin l.outputShape.size) =>
      l.mean x.data (l.windowOf x.shape l.outputShape o)

def remember (l : Pooling) (x : Tensor α) (training : Bool) : Pooling :=
  match l.kind with
  | .max => if training then { l with winners := (l.found x).map (·.2) } else l
  | .average => l

@[simp] theorem size_output (l : Pooling) (x : Tensor α) : (l.output x).size = l.outputShape.size := by
  unfold output
  split <;> simp [found]

theorem forward_eq_ok {l : Pooling} {x : Tensor α} {t : Bool} {r : Pooling × Tensor α} :
    l.forward x t = .ok r ↔
      (l.countsWindows && Buffer.fits l.outputShape.size &&
        l.reaches x.shape l.outputShape x.data.size) = true ∧
        r = (l.remember x t, ⟨l.outputShape, l.output x⟩) := by
  rw [forward, require_bind_eq_ok]
  refine and_congr_right fun _ => ?_
  cases hk : l.kind with
  | max =>
      simp only [remember, output, hk]
      exact pure_eq_ok_iff
  | average =>
      simp only [remember, output, hk]
      exact pure_eq_ok_iff

omit [Scalar α] in
theorem Sound.runs {l : Pooling} (h : l.Sound) (hf : Buffer.fits l.outputShape.size = true)
    {x : Tensor α} (hx : x.shape = l.inputShape) (hs : x.Sized) :
    (l.countsWindows && Buffer.fits l.outputShape.size &&
      l.reaches x.shape l.outputShape x.data.size) = true := by
  have hw : (l.stride != 0) = true := bne_iff_ne.mpr (Nat.ne_of_gt h.stride)
  have hsize : x.data.size = l.inputShape.size := hx ▸ hs
  simp [countsWindows, hw, hf, hsize, hx, l.reaches_outputShape]

def route (l : Pooling) (g : Tensor α) : Array α :=
  match l.kind with
  | .max => l.routeMax g.data
  | .average => l.routeAverage g

def RunsBack (l : Pooling) (g : Tensor α) : Prop :=
  match l.kind with
  | .max => (l.winners.size == g.data.size && l.winners.all (· < l.inputShape.size)) = true
  | .average => (decide g.Sized && l.reaches l.inputShape g.shape l.inputShape.size) = true

theorem backward_eq_ok {l : Pooling} {g : Tensor α} {r : Pooling × Tensor α} :
    l.backward g = .ok r ↔
      Buffer.fits l.inputShape.size = true ∧ l.RunsBack g ∧ r = (l, ⟨l.inputShape, l.route g⟩) := by
  rw [backward, require_bind_eq_ok]
  refine and_congr_right fun _ => ?_
  cases hk : l.kind with
  | max =>
      simp only [RunsBack, route, hk]
      rw [require_bind_eq_ok]
      exact and_congr_right fun _ => pure_eq_ok_iff
  | average =>
      simp only [RunsBack, route, hk]
      rw [require_bind_eq_ok]
      exact and_congr_right fun _ => pure_eq_ok_iff

/-- A window's winner is one of its places, or the first place of all. -/
theorem best_place (data : Array α) (places : List Nat) :
    (best data places).2 ∈ places ∨ (best data places).2 = 0 := by
  rcases Scalar.foldl_prefer (Buffer.read data) places none with h | ⟨i, hi, h⟩
  · exact .inr (by simp [best, h])
  · exact .inl (by simpa [best, h] using hi)

theorem remember_runsBack {l : Pooling} (hi : l.inputShape.isEmpty = false) {x g : Tensor α}
    (hx : x.shape = l.inputShape) (hg : g.shape = l.outputShape) (hgs : g.Sized) :
    (l.remember x true).RunsBack g := by
  have hsize : g.data.size = l.outputShape.size := hg ▸ hgs
  cases hk : l.kind with
  | max =>
      have hpos : 0 < l.inputShape.size := Nat.pos_of_ne_zero (by simpa [Shape.isEmpty] using hi)
      have hw : ((l.found x).map (·.2)).all (· < l.inputShape.size) = true := by
        rw [Array.all_eq_true]
        intro o ho
        simp only [found, Array.size_map, Array.size_ofFn] at ho
        simp only [found, Array.getElem_map, Array.getElem_ofFn, decide_eq_true_eq]
        rcases best_place x.data (l.windowOf x.shape l.outputShape o) with h | h
        · exact windowOf_lt ho (hx ▸ h)
        · rw [h]
          exact hpos
      simp only [RunsBack, remember, hk, if_true, Bool.and_eq_true, beq_iff_eq]
      exact ⟨by simp [found, hsize], hw⟩
  | average =>
      have hr : l.reaches l.inputShape g.shape l.inputShape.size = true := hg ▸ l.reaches_outputShape
      simp [RunsBack, remember, hk, hgs, hr]

theorem size_routeMax (l : Pooling) (g : Array α) : (l.routeMax g).size = l.inputShape.size := by
  rw [routeMax, ← Array.foldl_toList]
  exact (Buffer.size_foldl _ (fun _ _ => Buffer.size_bump _ _ _) _ _).trans (Buffer.size_zeros _)

theorem size_routeAverage (l : Pooling) (g : Tensor α) :
    (l.routeAverage g).size = l.inputShape.size :=
  (Buffer.size_fold _ _ (fun _ _ _ => Buffer.size_foldl _ (fun _ _ => Buffer.size_bump _ _ _) _ _)
    _).trans (Buffer.size_zeros _)

@[simp] theorem size_route (l : Pooling) (g : Tensor α) : (l.route g).size = l.inputShape.size := by
  unfold route
  split
  · exact size_routeMax _ _
  · exact size_routeAverage _ _

end Pooling

namespace Dropout

variable {σ : Type} [RandomSource σ]

@[simp] theorem size_drawMask (rate : α) (n : Nat) (s : σ) : (drawMask rate n s).1.size = n := by
  refine (Buffer.count_fold (fun acc : Array α × σ => acc.1.size) n _ ?_ _).trans (Nat.zero_add n)
  intro i hi acc
  exact Array.size_push _

theorem backward_eq_ok {l : Dropout α} {g r : Tensor α} :
    l.backward g = .ok r ↔
      l.mask.size = g.data.size ∧ r = ⟨g.shape, Buffer.zipKeep (· * ·) g.data l.mask⟩ := by
  rw [backward, require_bind_eq_ok, beq_iff_eq]
  exact and_congr_right fun _ => pure_eq_ok_iff

end Dropout

namespace Tensor

omit [Scalar α] in
theorem ofBuffer_eq_ok {s : Shape} {data : Array α} {t : Tensor α} :
    ofBuffer s data = .ok t ↔ data.size = s.size ∧ t = ⟨s, data⟩ := by
  rw [ofBuffer, require_bind_eq_ok, beq_iff_eq]
  exact and_congr_right fun _ => pure_eq_ok_iff

end Tensor

namespace Pointwise

def remember (l : Pointwise α) (x : Tensor α) (training : Bool) : Pointwise α :=
  if training then { l with preActivation := x.data } else l

theorem forward_eq_ok {l : Pointwise α} {x : Tensor α} {t : Bool} {r : Pointwise α × Tensor α} :
    l.forward x t = .ok r ↔ x.Sized ∧ r = (l.remember x t, ⟨x.shape, l.activation.apply x.data⟩) := by
  simp only [forward, bind_eq_ok, Tensor.ofBuffer_eq_ok, Activation.size_apply]
  constructor
  · rintro ⟨out, ⟨hs, rfl⟩, h⟩
    exact ⟨hs, pure_eq_ok_iff.mp h⟩
  · rintro ⟨hs, h⟩
    exact ⟨_, ⟨hs, rfl⟩, pure_eq_ok_iff.mpr h⟩

end Pointwise
end Convnet
