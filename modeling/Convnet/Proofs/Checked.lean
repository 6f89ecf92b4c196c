import Convnet.Proofs.Curves
import Convnet.Proofs.Saved

namespace Convnet

section Definitions

variable {α : Type} [Scalar α]

/-- Whether the values that each layer gives out can be counted as bytes of a buffer. -/
def Network.Addressable (net : Network α) : Prop :=
  ∀ l ∈ net.layers, Buffer.fits l.outputShape.size = true

/-- What every dataset satisfies that was put together, over whole images. -/
structure Dataset.Whole (d : Dataset α) : Prop where
  labels : d.labels.size = d.images.size
  images : ∀ x ∈ d.images, x.shape = d.shape ∧ x.Sized
  classes : ∀ c ∈ d.labels, c < d.numClasses
  several : 2 ≤ d.numClasses

/-- An answer, or a refusal on account of shapes or of the dataset. -/
def Mild {β : Type} (r : Result β) : Prop :=
  ∀ e, r = .error e → (∃ expected actual, e = .shapeMismatch expected actual) ∨ ∃ cause, e = .dataset cause

end Definitions

section Mild

variable {β γ : Type}

theorem require_bind_map (b : Bool) (f : Unit → Result β) (g : β → γ) :
    (require b >>= f).map g = (require b >>= fun u => (f u).map g) := by
  cases b <;> rfl

theorem mild_of_ok {r : Result β} {b : β} (h : r = .ok b) : Mild r := by
  rintro e rfl
  cases h

theorem Mild.ne_misuse {r : Result β} (h : Mild r) : r ≠ .error .misuse := by
  rintro rfl
  rcases h _ rfl with ⟨_, _, he⟩ | ⟨_, he⟩ <;> cases he

theorem Mild.bind {r : Result β} {f : β → Result γ} (hr : Mild r) (hf : ∀ b, r = .ok b → Mild (f b)) :
    Mild (r >>= f) := by
  cases r with
  | error e =>
      rintro _ ⟨⟩
      exact hr e rfl
  | ok b => exact hf b rfl

theorem Mild.mapM {f : β → Result γ} {xs : List β} (h : ∀ x ∈ xs, Mild (f x)) : Mild (xs.mapM f) := by
  induction xs with
  | nil => exact mild_of_ok rfl
  | cons x xs ih =>
      rw [List.mapM_cons]
      refine (h x (by simp)).bind fun y _ => ?_
      exact (ih fun z hz => h z (by simp [hz])).bind fun ys _ => mild_of_ok rfl

theorem foldlM_answers {f : γ → β → Result γ} {xs : List β} (P : γ → Prop)
    (h : ∀ c x, P c → x ∈ xs → ∃ c', f c x = .ok c' ∧ P c') {c : γ} (hc : P c) :
    ∃ c', xs.foldlM f c = .ok c' := by
  induction xs generalizing c with
  | nil => exact ⟨c, rfl⟩
  | cons x xs ih =>
      obtain ⟨c₁, hone, hc₁⟩ := h c x hc (by simp)
      obtain ⟨c', hrest⟩ := ih (fun d y hd hy => h d y hd (by simp [hy])) hc₁
      exact ⟨c', by rw [List.foldlM_cons, hone]; exact hrest⟩

end Mild

section Check

variable {α : Type} [Scalar α]

theorem Layer.sound_of_check {l : Layer α} {i : Option Nat} (h : l.check i = .ok ()) : l.Sound :=
  (check_eq_ok.mp h).sound

namespace Network

theorem checkLayersFrom_cons {i : Nat} {s : Shape} {l : Layer α} {ls : List (Layer α)} :
    checkLayersFrom i s (l :: ls) = .ok () ↔ l.check (some i) = .ok () ∧ l.inputShape = s ∧
      checkLayersFrom (i + 1) l.outputShape ls = .ok () := by
  rw [checkLayersFrom, bind_eq_ok]
  constructor
  · rintro ⟨⟨⟩, hl, h⟩
    by_cases hs : l.inputShape = s
    · rw [if_neg (not_not.mpr hs), (Layer.sound_of_check hl).outputShape?] at h
      exact ⟨hl, hs, h⟩
    · rw [if_pos hs] at h
      cases h
  · rintro ⟨hl, hs, h⟩
    refine ⟨(), hl, ?_⟩
    rw [if_neg (not_not.mpr hs), (Layer.sound_of_check hl).outputShape?]
    exact h

/-- Whether a change of layers is nothing that the check of a network looks at. -/
structure Unseen (f : Layer α → Layer α) : Prop where
  check : ∀ l i, (f l).check i = l.check i
  kind : ∀ l, (f l).kind = l.kind
  inputShape : ∀ l, (f l).inputShape = l.inputShape
  outputShape? : ∀ l, (f l).outputShape? = l.outputShape?

theorem unseen_bare : Unseen (Layer.bare (α := α)) where
  check l i := by cases l <;> rfl
  kind l := by cases l <;> rfl
  inputShape l := by cases l <;> rfl
  outputShape? l := by cases l <;> rfl

theorem Unseen.checkLayersFrom {f : Layer α → Layer α} (hf : Unseen f) (i : Nat) (s : Shape) (ls : List (Layer α)) :
    checkLayersFrom i s (ls.map f) = Network.checkLayersFrom i s ls := by
  induction ls generalizing i s with
  | nil => rfl
  | cons l ls ih =>
      rw [List.map_cons, Network.checkLayersFrom, Network.checkLayersFrom, hf.check, hf.kind, hf.inputShape,
        hf.outputShape?]
      simp only [ih]

theorem Unseen.checkLayers {f : Layer α → Layer α} (hf : Unseen f) (net : Network α) (loss : Loss) :
    ({ net with layers := net.layers.map f, loss := loss } : Network α).checkLayers = net.checkLayers := by
  rw [Network.checkLayers, Network.checkLayers, hf.checkLayersFrom, List.isEmpty_map]

/-- What the check of the layers refuses for sizes is refused for sizes that cannot be counted. -/
theorem checkLayersFrom_refuses {i : Nat} {s : Shape} {ls : List (Layer α)} {e : Error}
    (h : checkLayersFrom i s ls = .error e) :
    (∃ cause, e = .invalidSpec cause) ∨ e = .overflow ∧ ∃ l ∈ ls, ¬l.Countable := by
  induction ls generalizing i s with
  | nil => cases h
  | cons l ls ih =>
      rcases bind_eq_error.mp h with h | ⟨⟨⟩, hl, h⟩
      · exact (Layer.check_refuses h).imp_right fun hn => ⟨hn.1, l, List.mem_cons_self, hn.2⟩
      · by_cases hs : l.inputShape = s
        · rw [if_neg (not_not.mpr hs), (Layer.sound_of_check hl).outputShape?] at h
          exact (ih h).imp_right fun ⟨he, k, hk, hn⟩ => ⟨he, k, List.mem_cons_of_mem _ hk, hn⟩
        · rw [if_pos hs] at h
          exact .inl ⟨_, (Except.error.inj h).symm⟩

theorem checkLayers_refuses {net : Network α} {e : Error} (h : net.checkLayers = .error e) :
    (∃ cause, e = .invalidSpec cause) ∨ e = .overflow ∧ ∃ l ∈ net.layers, ¬l.Countable := by
  rw [checkLayers] at h
  split at h
  · exact .inl ⟨_, (Except.error.inj h).symm⟩
  · exact checkLayersFrom_refuses h

theorem chained_of_check {i : Nat} {s : Shape} {ls : List (Layer α)}
    (h : checkLayersFrom i s ls = .ok ()) : Chained s (ls.map Layer.bare) := by
  induction ls generalizing i s with
  | nil => trivial
  | cons l ls ih =>
      obtain ⟨hl, hs, h⟩ := checkLayersFrom_cons.mp h
      refine ⟨l.inputShape_bare.trans hs, (Layer.sound_of_check hl).of_bare l.bare_bare, l.tidy_bare, ?_⟩
      rw [l.outputShape_bare]
      exact ih h

end Network

end Check

section Inference

variable {α : Type} [Scalar α] {σ : Type} [RandomSource σ]

theorem Layer.forward_infer {l k : Layer α} (h : k.bare = l.bare) (x : Tensor α) :
    k.forward x (.infer : Phase σ) = (l.forward x .infer).map fun r => (k, r.2) := by
  cases twin_of_bare h with
  | conv l kg bg i z =>
      have hl : Convolution.forward { l with kernelGrad := kg, biasGrad := bg, input := i, preActivation := z }
          x false = (l.forward x false).map fun r =>
            ({ l with kernelGrad := kg, biasGrad := bg, input := i, preActivation := z }, r.2) := by
        rw [Convolution.forward, Convolution.forward, require_bind_map]
        rfl
      simp only [Layer.forward, Phase.isTraining, hl]
      cases l.forward x false <;> rfl
  | pool l w =>
      have hl : Pooling.forward { l with winners := w } x false =
          (l.forward x false).map fun r => ({ l with winners := w }, r.2) := by
        rw [Pooling.forward, Pooling.forward, require_bind_map]
        congr 1
        funext _
        dsimp only
        cases l.kind <;> rfl
      simp only [Layer.forward, Phase.isTraining, hl]
      cases l.forward x false <;> rfl
  | flatten s =>
      simp only [Layer.forward]
      cases x.reshape (.flat s.size) <;> rfl
  | dense l wg bg i z =>
      have hl : Dense.forward { l with weightsGrad := wg, biasesGrad := bg, inputs := i, preActivation := z }
          x false = (l.forward x false).map fun r =>
            ({ l with weightsGrad := wg, biasesGrad := bg, inputs := i, preActivation := z }, r.2) := by
        rw [Dense.forward, Dense.forward, require_bind_map]
        rfl
      simp only [Layer.forward, Phase.isTraining, hl]
      cases l.forward x false <;> rfl
  | dropout l m => rfl
  | pointwise l z =>
      simp only [Layer.forward, Phase.isTraining, Pointwise.forward]
      cases Tensor.ofBuffer x.shape (l.activation.apply x.data) <;> rfl

namespace Network

theorem forwardLayers_infer {ls ks : List (Layer α)} (h : ks.map Layer.bare = ls.map Layer.bare)
    (x : Tensor α) :
    forwardLayers ks x (.infer : Phase σ) = (forwardLayers ls x .infer).map fun r => (ks, r.2) := by
  induction ls generalizing ks x with
  | nil =>
      obtain rfl : ks = [] := by simpa using h
      rfl
  | cons l ls ih =>
      cases ks with
      | nil => simp at h
      | cons k ks =>
          obtain ⟨hl, hls⟩ := List.cons.inj h
          rw [forwardLayers, forwardLayers, Layer.forward_infer hl]
          cases hone : l.forward x (.infer : Phase σ) with
          | error e => rfl
          | ok r =>
              obtain ⟨l', y, phase⟩ := r
              obtain ⟨rfl, rfl⟩ := (Layer.passes_of_forward hone).infer
              simp only [Except.map, ok_bind, ih hls y]
              cases forwardLayers ls y (.infer : Phase σ) <;> rfl

theorem forwardLayers_infers {s : Shape} {ls : List (Layer α)} (hc : Chained s (ls.map Layer.bare))
    (hroom : ∀ l ∈ ls, l.Roomy) {x : Tensor α} (hx : x.shape = s) (hs : x.Sized) :
    ∃ y, forwardLayers ls x (.infer : Phase σ) = .ok (ls, y, .infer) ∧ y.shape = outputFrom s ls ∧ y.Sized := by
  have hroom' : ∀ l ∈ ls.map Layer.bare, l.Roomy := by
    intro l hl
    obtain ⟨k, hk, rfl⟩ := List.mem_map.mp hl
    exact k.roomy_bare.mpr (hroom k hk)
  have hbare : ls.map Layer.bare = (ls.map Layer.bare).map Layer.bare := by
    simp [Function.comp_def, Layer.bare_bare]
  obtain ⟨ls', y, phase, hrun⟩ := forwardLayers_answers hc hroom' hx hs (.infer : Phase σ)
  obtain ⟨-, -, hy, hys, htrain⟩ := forwardLayers_keeps hrun hc hx hs
  obtain rfl : phase = .infer := by
    cases phase with
    | infer => rfl
    | train s => cases htrain
  refine ⟨y, ?_, hy.trans (outputFrom_eq_of_bare hbare.symm s), hys⟩
  rw [forwardLayers_infer hbare x, hrun]
  rfl

end Network

end Inference

section Places

variable {α : Type} [Scalar α]

theorem argmax_lt {v : Array α} (h : 0 < v.size) : argmax v < v.size := by
  have hplaces : ∀ x i, v.zipIdx.foldl (fun kept (p : α × Nat) => Scalar.prefer kept p.1 p.2) none = some (x, i) →
      i < v.size := by
    refine Array.foldl_induction
      (motive := fun _ (kept : Option (α × Nat)) => ∀ x i, kept = some (x, i) → i < v.size) (by simp) ?_
    intro j kept hkept x i hnext
    have hj : j.1 < v.size := by simpa using j.2
    unfold Scalar.prefer at hnext
    cases kept with
    | none =>
        simp only [Option.ite_none_right_eq_some, Fin.getElem_fin, Array.getElem_zipIdx] at hnext
        obtain ⟨-, ⟨⟩⟩ := hnext
        simpa using hj
    | some p =>
        dsimp only at hnext
        split at hnext
        · obtain ⟨⟩ := hnext
          simpa using hj
        · exact hkept x i hnext
  unfold argmax
  split
  · exact h
  · exact hplaces _ _ ‹_›

def Square (n : Nat) (table : Array (Array Nat)) : Prop :=
  table.size = n ∧ ∀ row ∈ table, row.size = n

theorem countAt_answers {n i j : Nat} {table : Array (Array Nat)} (h : Square n table) (hi : i < n) (hj : j < n) :
    ∃ table', Network.countAt table i j = .ok table' ∧ Square n table' := by
  obtain ⟨hsize, hrows⟩ := h
  have hrow : (table.getD i #[]).size = n := by
    rw [Array.getD_eq_getD_getElem?, Array.getElem?_eq_getElem (by omega)]
    exact hrows _ (Array.getElem_mem _)
  refine ⟨table.modify i (·.modify j (· + 1)), ?_, ?_, ?_⟩
  · rw [Network.countAt, hrow, decide_eq_true hj]
    rfl
  · simpa using hsize
  · intro row hrow
    obtain ⟨k, hk, rfl⟩ := Array.mem_iff_getElem.mp hrow
    rw [Array.getElem_modify]
    split <;> simp [hrows]

end Places

section Measures

variable {α : Type} {net : Network α} {d : Dataset α} {n : Nat}

theorem mem_of_mem_take {β : Type} {xs : Array β} {x : β} (h : x ∈ xs.take n) : x ∈ xs := by
  rw [← Array.mem_toList_iff] at h ⊢
  rw [Array.take_eq_extract, Array.toList_extract] at h
  exact List.mem_of_mem_take h

theorem Dataset.Whole.take (h : d.Whole) (n : Nat) : (d.take n).Whole where
  labels := by simp [Dataset.take, h.labels]
  images x hx := h.images x (mem_of_mem_take hx)
  classes c hc := h.classes c (mem_of_mem_take hc)
  several := h.several

theorem Dataset.build_eq_ok {shape : Shape} {images : Array (Tensor α)} {labels : Array Nat} :
    build shape images labels n = .ok d ↔ images.size = labels.size ∧ 2 ≤ n ∧ (∀ x ∈ images, x.shape = shape) ∧
      (∀ c ∈ labels, c < n) ∧ d = ⟨shape, images, labels, n, none⟩ := by
  unfold build
  by_cases hcount : images.size = labels.size
  · by_cases hfew : n < 2
    · simp [hcount, hfew]
    · simp only [hcount, hfew, ne_eq, not_true, if_false, bind_pure_comp, true_and, Nat.le_of_not_lt hfew]
      cases hshape : images.find? fun t => t.shape != shape with
      | some t =>
          have ht := Array.find?_some hshape
          simp only [bne_iff_ne, ne_eq] at ht
          simp only [throw_eq_error, Except.map_error, error_bind, reduceCtorEq, false_iff]
          exact fun h => ht (h.1 t (Array.mem_of_find?_eq_some hshape))
      | none =>
          simp only [Array.find?_eq_none, bne_iff_ne, ne_eq, not_not] at hshape
          cases hclass : labels.findIdx? fun l => n ≤ l with
          | some i =>
              obtain ⟨hi, hl, -⟩ := Array.findIdx?_eq_some_iff_getElem.mp hclass
              simp only [decide_eq_true_eq] at hl
              simp only [throw_eq_error, Except.map_error, reduceCtorEq, false_iff]
              exact fun h => absurd (h.2.1 _ (Array.getElem_mem hi)) (Nat.not_lt.mpr hl)
          | none =>
              simp only [Array.findIdx?_eq_none_iff, decide_eq_false_iff_not, not_le] at hclass
              simp only [pure_eq_ok, Except.ok.injEq]
              exact ⟨fun h => ⟨hshape, hclass, h.symm⟩, fun h => h.2.2.symm⟩
  · simp [hcount]

theorem Dataset.whole_of_build {shape : Shape} {images : Array (Tensor α)} {labels : Array Nat}
    (hs : ∀ x ∈ images, x.Sized) (h : build shape images labels n = .ok d) : d.Whole := by
  obtain ⟨hcount, hn, hi, hl, rfl⟩ := build_eq_ok.mp h
  exact ⟨hcount.symm, fun x hx => ⟨hi x hx, hs x hx⟩, hl, hn⟩

namespace Network

theorem checkInput_mild (shape : Shape) : Mild (net.checkInput shape) := by
  unfold checkInput
  split
  · exact mild_of_ok rfl
  · rintro _ ⟨⟩
    exact .inl ⟨_, _, rfl⟩

theorem checkCompatible_mild (hn : net.outputSize = .ok n) : Mild (net.checkCompatible d) := by
  unfold checkCompatible
  refine (checkInput_mild d.shape).bind fun _ _ => ?_
  rw [hn, ok_bind]
  split
  · rintro _ ⟨⟩
    exact .inl ⟨_, _, rfl⟩
  · exact mild_of_ok rfl

variable [Scalar α]

/-- A network that gives out `n` values for every image of its shape. -/
structure Infers (net : Network α) (n : Nat) : Prop where
  outputs : net.outputSize = .ok n
  positive : 1 ≤ n
  room : Buffer.fits n = true
  answers : ∀ x : Tensor α, x.shape = net.inputShape → x.Sized → ∃ out, net.infer x = .ok out ∧ out.size = n

theorem predict_eq_ok {x : Tensor α} {out : Array α} :
    net.predict x = .ok out ↔ x.shape = net.inputShape ∧ net.infer x = .ok out := by
  rw [predict, checkInput]
  by_cases hx : x.shape = net.inputShape <;> simp [hx]

theorem predict_misuse {l : Layer α} {ls : List (Layer α)} {x : Tensor α} (hlayers : net.layers = l :: ls)
    (hx : x.shape = net.inputShape) (h : l.forward x (.infer : Phase Stream) = .error .misuse) :
    net.predict x = .error .misuse := by
  rw [predict, checkInput, if_pos hx, ok_bind, infer, forward, hlayers, forwardLayers, h]
  rfl

theorem Infers.predict_answers (hi : net.Infers n) {x : Tensor α} (hx : x.shape = net.inputShape)
    (hs : x.Sized) : ∃ out, net.predict x = .ok out ∧ out.size = n := by
  obtain ⟨out, hout, hsize⟩ := hi.answers x hx hs
  exact ⟨out, predict_eq_ok.mpr ⟨hx, hout⟩, hsize⟩

theorem Infers.predict_mild (hi : net.Infers n) {x : Tensor α} (hs : x.Sized) : Mild (net.predict x) := by
  by_cases hx : x.shape = net.inputShape
  · obtain ⟨out, hout, -⟩ := hi.predict_answers hx hs
    exact mild_of_ok hout
  · rw [predict, checkInput, if_neg hx]
    rintro _ ⟨⟩
    exact .inl ⟨_, _, rfl⟩

theorem Infers.sample (hi : net.Infers n) (hd : d.Whole) (hc : net.checkCompatible d = .ok ())
    {p : Tensor α × Nat} (hp : p ∈ samplesOf d) :
    (∃ out, net.infer p.1 = .ok out ∧ out.size = n) ∧ p.2 < n ∧ d.numClasses = n := by
  obtain ⟨hshape, hout⟩ := checkCompatible_eq_ok.mp hc
  obtain rfl : n = d.numClasses := Except.ok.inj (hi.outputs.symm.trans hout)
  obtain ⟨himage, hlabel⟩ := mem_samplesOf hp
  obtain ⟨hx, hs⟩ := hd.images p.1 himage
  exact ⟨hi.answers p.1 (hx.trans hshape) hs, hd.classes p.2 hlabel, rfl⟩

theorem Infers.measures (hi : net.Infers n) (hd : d.Whole) (hc : net.checkCompatible d = .ok ()) :
    ∃ sums, (samplesOf d).foldlM (net.measureSample d) ((0 : α), 0) = .ok sums := by
  have hstep : ∀ (sums : α × Nat) p, True → p ∈ samplesOf d →
      ∃ sums', net.measureSample d sums p = .ok sums' ∧ True := by
    intro sums p _ hp
    obtain ⟨⟨out, hout, -⟩, hlabel, hclasses⟩ := hi.sample hd hc hp
    have htarget : d.target p.2 = .ok ((Buffer.zeros d.numClasses).setIfInBounds p.2 1) := by
      simp [Dataset.target, Dataset.oneHot, hclasses, hlabel, hi.room]
    exact ⟨_, measureSample_eq_ok.mpr ⟨out, _, hout, htarget, rfl⟩, trivial⟩
  exact foldlM_answers (fun _ => True) hstep (c := ((0 : α), 0)) trivial

theorem Infers.evaluate_mild (hi : net.Infers n) (hd : d.Whole) : Mild (net.evaluate d) := by
  unfold evaluate
  refine (checkCompatible_mild hi.outputs).bind fun _ hc => ?_
  split
  · rintro _ ⟨⟩
    exact .inr ⟨_, rfl⟩
  · obtain ⟨sums, hsums⟩ := hi.measures hd hc
    rw [hsums]
    exact mild_of_ok rfl

theorem Infers.evaluates (hi : net.Infers n) (hd : d.Whole) (hc : net.checkCompatible d = .ok ())
    (hne : d.isEmpty = false) : ∃ e, net.evaluate d = .ok e := by
  obtain ⟨⟨loss, hits⟩, hfold⟩ := hi.measures hd hc
  exact ⟨_, evaluate_eq_ok.mpr ⟨hc, hne, loss, hits, hfold, rfl⟩⟩

theorem Infers.confusionMatrix_mild (hi : net.Infers n) (hd : d.Whole) (hroom : fitsTable d.numClasses = true) :
    Mild (net.confusionMatrix d) := by
  unfold confusionMatrix
  refine (checkCompatible_mild hi.outputs).bind fun _ hc => ?_
  obtain ⟨-, hout⟩ := checkCompatible_eq_ok.mp hc
  obtain rfl : n = d.numClasses := Except.ok.inj (hi.outputs.symm.trans hout)
  rw [hroom, require_true, ok_bind]
  have hsquare : Square d.numClasses (Array.replicate d.numClasses (Array.replicate d.numClasses 0)) := by
    refine ⟨Array.size_replicate, fun row hrow => ?_⟩
    rw [(Array.mem_replicate.mp hrow).2, Array.size_replicate]
  have hstep : ∀ table p, Square d.numClasses table → p ∈ samplesOf d →
      ∃ table', (do countAt table p.2 (argmax (← net.infer p.1))) = .ok table' ∧ Square d.numClasses table' := by
    intro table p htable hp
    obtain ⟨⟨out, hout, hsize⟩, hlabel, -⟩ := hi.sample hd hc hp
    have hplace : argmax out < d.numClasses := hsize ▸ argmax_lt (hsize ▸ hi.positive)
    rw [hout]
    exact countAt_answers htable hlabel hplace
  obtain ⟨table, htable⟩ := foldlM_answers (Square d.numClasses) hstep hsquare
  exact mild_of_ok htable

theorem Infers.samplePredictions_mild (hi : net.Infers n) (hd : d.Whole) (count : Nat) :
    Mild (net.samplePredictions d count) := by
  unfold samplePredictions
  refine Mild.mapM ?_
  rintro ⟨⟨image, actual⟩, index⟩ hp
  have hmem : (image, actual) ∈ samplesOf (d.take count) := List.fst_mem_of_mem_zipIdx hp
  obtain ⟨-, hs⟩ := (hd.take count).images image (mem_samplesOf hmem).1
  refine (hi.predict_mild hs).bind fun out hpredict => ?_
  obtain ⟨hx, hinfer⟩ := predict_eq_ok.mp hpredict
  obtain ⟨out', hout, hsize⟩ := hi.answers image hx hs
  obtain rfl : out' = out := Except.ok.inj (hout.symm.trans hinfer)
  have hplace : argmax out' < out'.size := argmax_lt (hsize ▸ hi.positive)
  dsimp only
  rw [Array.getElem?_eq_getElem hplace]
  exact mild_of_ok rfl

omit [Scalar α] in
theorem exists_last_output {ls : List (Layer α)} (hne : ls ≠ []) (s : Shape) :
    ∃ l ∈ ls, outputFrom s ls = l.outputShape := by
  refine ⟨ls.getLast hne, List.getLast_mem hne, ?_⟩
  rw [outputFrom_eq_getLastD, List.getLastD_eq_getLast?, List.getLast?_map, List.getLast?_eq_some_getLast hne]
  rfl

omit [Scalar α] in
theorem one_le_outputs {ls : List (Layer α)} (hne : ls ≠ []) (hsound : ∀ l ∈ ls, l.Sound) (s : Shape) :
    1 ≤ (outputFrom s ls).size := by
  obtain ⟨last, hlast, hout⟩ := exists_last_output hne s
  have hfull := (hsound last hlast).output
  rw [← hout] at hfull
  exact Nat.one_le_iff_ne_zero.mpr (by simpa [Shape.isEmpty] using hfull)

theorem infers_of_chained (hne : net.layers ≠ []) (hc : Chained net.inputShape (net.layers.map Layer.bare))
    (hroom : ∀ l ∈ net.layers, l.Roomy) (hfits : Buffer.fits (outputFrom net.inputShape net.layers).size = true) :
    net.Infers (outputFrom net.inputShape net.layers).size := by
  have hsound : ∀ l ∈ net.layers, l.Sound := fun l hl =>
    (hc.sound l.bare (List.mem_map_of_mem hl)).of_bare l.bare_bare.symm
  refine ⟨outputSize_of_sound hne hsound _, one_le_outputs hne hsound _, hfits, fun x hx hs => ?_⟩
  obtain ⟨y, hrun, hy, hys⟩ := forwardLayers_infers (σ := Stream) hc hroom hx hs
  refine ⟨y.data, ?_, hys.trans (congrArg Shape.size hy)⟩
  rw [infer, bind_eq_ok]
  exact ⟨_, forward_eq_ok.mpr ⟨_, y, hrun, rfl, rfl⟩, rfl⟩

section Accepted

variable (hcheck : net.checkLayers = .ok ())

include hcheck

theorem checkLayersFrom_of_checkLayers : net.layers ≠ [] ∧ checkLayersFrom 0 net.inputShape net.layers = .ok () := by
  unfold checkLayers at hcheck
  cases hempty : net.layers.isEmpty with
  | true => simp [hempty] at hcheck
  | false =>
      simp only [hempty, Bool.false_eq_true, if_false] at hcheck
      exact ⟨by simpa using hempty, hcheck⟩

theorem sound_of_checkLayers : ∀ l ∈ net.layers, l.Sound := by
  intro l hl
  have hc := chained_of_check (checkLayersFrom_of_checkLayers hcheck).2
  exact (hc.sound l.bare (List.mem_map_of_mem hl)).of_bare l.bare_bare.symm

/-- Each layer of a checked network gives out a filled buffer of its shape. -/
theorem reaches_of_checkLayers (hroom : net.Addressable) {x : Tensor α} (hx : x.shape = net.inputShape)
    (hs : x.Sized) {i : Nat} {l : Layer α} (hl : net.layers[i]? = some l) :
    ∃ y, forwardLayers (net.layers.take (i + 1)) x (.infer : Phase Stream) =
      .ok (net.layers.take (i + 1), y, .infer) ∧ l.outputShape? = .ok y.shape ∧ y.Sized := by
  have hc := (chained_of_check (checkLayersFrom_of_checkLayers hcheck).2).take (i + 1)
  rw [← List.map_take] at hc
  obtain ⟨y, hrun, hy, hys⟩ := forwardLayers_infers (σ := Stream) hc
    (fun k hk => Layer.roomy_of_fits (hroom k (List.mem_of_mem_take hk))) hx hs
  refine ⟨y, hrun, ?_, hys⟩
  rw [hy, outputFrom_take_succ hl]
  exact (sound_of_checkLayers hcheck l (List.mem_of_getElem? hl)).outputShape?

theorem infers_of_checkLayers (hroom : net.Addressable) :
    net.Infers (outputFrom net.inputShape net.layers).size := by
  obtain ⟨hne, hfrom⟩ := checkLayersFrom_of_checkLayers hcheck
  obtain ⟨last, hlast, hout⟩ := exists_last_output hne net.inputShape
  exact infers_of_chained hne (chained_of_check hfrom) (fun l hl => Layer.roomy_of_fits (hroom l hl))
    (hout ▸ hroom last hlast)

end Accepted

theorem checkLayers_ne_misuse (net : Network α) : net.checkLayers ≠ .error .misuse := by
  intro h
  rcases checkLayers_refuses h with ⟨_, ⟨⟩⟩ | ⟨⟨⟩, -⟩

theorem checkLayers_ne_overflow {net : Network α} (hc : ∀ l ∈ net.layers, l.Countable) :
    net.checkLayers ≠ .error .overflow := by
  intro h
  rcases checkLayers_refuses h with ⟨_, ⟨⟩⟩ | ⟨-, l, hl, hn⟩
  exact hn (hc l hl)

end Network

end Measures

/-- Checking a network divides by no zero and takes nothing below zero, and so reading one from a document does not
either; where the sizes are numbers of 64 bits it comes to no larger one. A network that passes the check, as long as
what its layers give out can be counted, answers for every image of its shape with as many values as it has outputs;
each of its layers then gives out what it declares. Measuring it on a dataset refuses nothing but shapes and the
dataset, and neither does counting what it confuses where there is room for the table. -/
theorem Network.checked_infers {α : Type} [Scalar α] [JsonNumber α] (net : Network α) :
    (net.checkLayers ≠ .error .misuse ∧ ((∀ l ∈ net.layers, l.Countable) → net.checkLayers ≠ .error .overflow)) ∧
    (∀ v, (ofDocument v : Result (Network α)) ≠ .error .misuse ∧
      (ofJson? v = some net → (∀ l ∈ net.layers, l.Countable) → (ofDocument v : Result (Network α)) ≠ .error .overflow) ∧
      (ofDocument v = .ok net ↔ ofJson? v = some net ∧ net.checkLayers = .ok ())) ∧
    (net.checkLayers = .ok () → net.Addressable → (∀ l ∈ net.layers, l.InBounds) ∧
      ∃ n, net.outputSize = .ok n ∧ 1 ≤ n ∧
        (∀ x : Tensor α, x.shape = net.inputShape → x.Sized →
          (∃ out, net.predict x = .ok out ∧ out.size = n) ∧
          ∀ (i : Nat) (l : Layer α), net.layers[i]? = some l → ∃ y,
            forwardLayers (net.layers.take (i + 1)) x (.infer : Phase Stream) =
              .ok (net.layers.take (i + 1), y, .infer) ∧ l.outputShape? = .ok y.shape ∧ y.Sized) ∧
        ∀ d : Dataset α, d.Whole → Mild (net.evaluate d) ∧
          (fitsTable d.numClasses = true → Mild (net.confusionMatrix d)) ∧
          Mild (net.predictMany d.images.toList) ∧ ∀ count, Mild (net.samplePredictions d count)) := by
  refine ⟨⟨net.checkLayers_ne_misuse, checkLayers_ne_overflow⟩, fun v => ?_, fun hcheck hroom => ?_⟩
  · unfold ofDocument
    cases hv : (ofJson? v : Option (Network α)) with
    | none => exact ⟨nofun, nofun, by simp⟩
    | some k =>
        refine ⟨bind_ne_misuse k.checkLayers_ne_misuse fun _ => by simp, ?_, ?_⟩
        · rintro ⟨⟩ hc h
          rcases bind_eq_error.mp h with h | ⟨-, -, ⟨⟩⟩
          exact checkLayers_ne_overflow hc h
        simp only [bind_eq_ok, pure_eq_ok, Except.ok.injEq, Option.some.injEq]
        constructor
        · rintro ⟨⟨⟩, hcheck, rfl⟩
          exact ⟨rfl, hcheck⟩
        · rintro ⟨rfl, hcheck⟩
          exact ⟨(), hcheck, rfl⟩
  · have hi := infers_of_checkLayers hcheck hroom
    refine ⟨fun l hl => (sound_of_checkLayers hcheck l hl).inBounds, _, hi.outputs, hi.positive,
      fun x hx hs => ⟨hi.predict_answers hx hs, fun i l hl => reaches_of_checkLayers hcheck hroom hx hs hl⟩,
      fun d hd => ⟨hi.evaluate_mild hd, hi.confusionMatrix_mild hd, ?_, hi.samplePredictions_mild hd⟩⟩
    exact Mild.mapM fun x hx => hi.predict_mild (hd.images x (Array.mem_toList_iff.mp hx)).2

theorem Network.checked_infers_small : ∃ (net : Network Float) (d : Dataset Float),
    Dataset.build ⟨4, 4, 1⟩ #[⟨⟨4, 4, 1⟩, Buffer.zeros 16⟩, ⟨⟨4, 4, 1⟩, Array.replicate 16 1⟩] #[0, 1] 2 = .ok d ∧
      net.checkLayers = .ok () ∧ (∀ x ∈ d.images, ∃ out, net.predict x = .ok out ∧ out.size = 2) ∧
      Mild (net.evaluate d) ∧ Mild (net.confusionMatrix d) := by
  obtain ⟨net, hnet⟩ : ∃ net : Network Float, net = ⟨⟨4, 4, 1⟩, [
      .conv ⟨2, 3, 1, .same, .relu, ⟨4, 4, 1⟩, Buffer.zeros 18, Buffer.zeros 2, #[], #[], none, none⟩,
      .pool ⟨.max, 2, 2, ⟨4, 4, 2⟩, #[]⟩, .flatten ⟨2, 2, 2⟩,
      .dense ⟨.zeros 8 2, Buffer.zeros 2, .softmax, .empty, #[], #[], #[]⟩], .categoricalCrossentropy, none⟩ :=
    ⟨_, rfl⟩
  obtain ⟨d, hd⟩ : ∃ d : Dataset Float, d = ⟨⟨4, 4, 1⟩, #[⟨⟨4, 4, 1⟩, Buffer.zeros 16⟩,
    ⟨⟨4, 4, 1⟩, Array.replicate 16 1⟩], #[0, 1], 2, none⟩ := ⟨_, rfl⟩
  have hbuild : Dataset.build ⟨4, 4, 1⟩ #[⟨⟨4, 4, 1⟩, Buffer.zeros 16⟩, ⟨⟨4, 4, 1⟩, Array.replicate 16 1⟩]
      #[0, 1] 2 = .ok d := by
    subst hd
    simp [Dataset.build]
    rfl
  have hwhole : d.Whole := Dataset.whole_of_build (by simp [Tensor.Sized, Shape.size]) hbuild
  have hcheck : net.checkLayers = .ok () := by
    subst hnet
    rfl
  have hroom : net.Addressable := by
    subst hnet
    unfold Addressable
    decide
  have hshape : d.shape = net.inputShape := by rw [hd, hnet]
  obtain ⟨-, -, haccepted⟩ := Network.checked_infers net
  obtain ⟨-, n, hn, -, hpredict, hmeasure⟩ := haccepted hcheck hroom
  have hsize : net.outputSize = .ok 2 := by
    subst hnet
    rfl
  obtain rfl : n = 2 := Except.ok.inj (hn.symm.trans hsize)
  refine ⟨net, d, hbuild, hcheck, fun x hx => ?_, (hmeasure d hwhole).1, (hmeasure d hwhole).2.1 ?_⟩
  · obtain ⟨hxshape, hxs⟩ := hwhole.images x hx
    exact (hpredict x (hxshape.trans hshape) hxs).1
  · subst hd
    decide

theorem Network.predict_without_room : ∃ (net : Network Float) (x : Tensor Float), net.checkLayers = .ok () ∧
    x.shape = net.inputShape ∧ x.Sized ∧ net.predict x = .error .misuse := by
  obtain ⟨l, hl⟩ : ∃ l : Convolution Float, l = ⟨2 ^ 30, 1, 1, .valid, .linear, ⟨2 ^ 15, 2 ^ 15, 1⟩,
    Buffer.zeros (2 ^ 30), Buffer.zeros (2 ^ 30), #[], #[], none, none⟩ := ⟨_, rfl⟩
  obtain ⟨x, hx⟩ : ∃ x : Tensor Float, x = ⟨⟨2 ^ 15, 2 ^ 15, 1⟩, Buffer.zeros (2 ^ 30)⟩ := ⟨_, rfl⟩
  have hkernel : l.kernel.size = l.kernelLength := by simp [hl, Buffer.size_zeros, Convolution.kernelLength]
  have hbias : l.bias.size = l.filters := by simp [hl, Buffer.size_zeros]
  have hcheck : (Layer.conv l).check (some 0) = .ok () := by
    refine (Layer.Realizes.conv l hkernel hbias ?_).check ?_ ?_ ?_ ⟨?_, rfl⟩ ?_ ?_ ?_ _
    all_goals
      subst hl
      rfl
  have hfull : Buffer.fits l.outputShape.size = false := by
    subst hl
    decide
  refine ⟨⟨⟨2 ^ 15, 2 ^ 15, 1⟩, [.conv l], .mse, none⟩, x, ?_, by rw [hx], ?_, ?_⟩
  · exact checkLayersFrom_cons.mpr ⟨hcheck, by rw [hl]; rfl, rfl⟩
  · simp [hx, Tensor.Sized, Shape.size, Buffer.size_zeros]
  · refine predict_misuse rfl (by rw [hx]) ?_
    rw [Layer.forward, l.forward_misuse hfull, error_bind]

/-- The check sets no bound on sizes: it accepts a network with more outputs than a table can have rows, where a
dataset may have as many classes, and one whose outputs no buffer can hold. -/
theorem Network.checked_without_room :
    (∃ (v : Json) (net : Network Float) (d : Dataset Float), ofDocument v = .ok net ∧ net.checkLayers = .ok () ∧
      Dataset.build (.flat (2 ^ 60)) #[] #[] (2 ^ 60) = .ok d ∧ d.Whole ∧ net.checkCompatible d = .ok () ∧
      net.confusionMatrix d = .error .misuse) ∧
    ∃ (net : Network Float) (x : Tensor Float), net.checkLayers = .ok () ∧ x.shape = net.inputShape ∧ x.Sized ∧
      net.predict x = .error .misuse := by
  refine ⟨?_, predict_without_room⟩
  obtain ⟨net, hnet⟩ : ∃ net : Network Float, net = ⟨.flat (2 ^ 60), [.flatten (.flat (2 ^ 60))], .mse, none⟩ :=
    ⟨_, rfl⟩
  obtain ⟨d, hd⟩ : ∃ d : Dataset Float, d = ⟨.flat (2 ^ 60), #[], #[], 2 ^ 60, none⟩ := ⟨_, rfl⟩
  have hbuild : Dataset.build (.flat (2 ^ 60)) #[] #[] (2 ^ 60) = .ok d :=
    Dataset.build_eq_ok.mpr ⟨rfl, by decide, by simp, by simp, hd⟩
  have hcheck : net.checkLayers = .ok () := by
    subst hnet
    rfl
  have hdocument : ofDocument net.toJson.reread = .ok net := by
    have hflat : (Shape.flat (2 ^ 60)).Counted := ⟨by decide, by decide, by decide⟩
    have hcounted : net.Counted := by
      subst hnet
      exact ⟨hflat, by simpa [Layer.Counted] using hflat, nofun⟩
    have hread := ofJson?_toJson hcounted (by subst hnet; simp [numbers, Layer.numbers])
    have hbare : net.layers.map Layer.bare = net.layers := by
      subst hnet
      rfl
    rw [ofDocument, hread, hbare]
    exact bind_eq_ok.mpr ⟨(), hcheck, rfl⟩
  have hc : net.checkCompatible d = .ok () := by
    subst hnet hd
    rfl
  have hroom : fitsTable d.numClasses = false := by
    subst hd
    decide
  refine ⟨_, net, d, hdocument, hcheck, hbuild, Dataset.whole_of_build (by simp) hbuild, hc, ?_⟩
  rw [confusionMatrix, hc, ok_bind, hroom, require_false, error_bind]

end Convnet
