import Convnet.Proofs.Checked

namespace Convnet

section Lists

variable {β γ : Type} {f : β → Result γ} {xs : List β} {ys : List γ}

theorem mapM_eq_ok : xs.mapM f = .ok ys ↔ List.Forall₂ (fun x y => f x = .ok y) xs ys := by
  induction xs generalizing ys with
  | nil =>
      rw [List.mapM_nil, List.forall₂_nil_left_iff, pure_eq_ok_iff]
  | cons x xs ih =>
      rw [List.mapM_cons, bind_eq_ok, List.forall₂_cons_left_iff]
      constructor
      · rintro ⟨y, hy, h⟩
        obtain ⟨zs, hzs, h⟩ := bind_eq_ok.mp h
        exact ⟨y, zs, hy, ih.mp hzs, pure_eq_ok_iff.mp h⟩
      · rintro ⟨y, zs, hy, hzs, rfl⟩
        exact ⟨y, hy, bind_eq_ok.mpr ⟨zs, ih.mpr hzs, rfl⟩⟩

theorem mapM_answers (h : ∀ x ∈ xs, ∃ y, f x = .ok y) : ∃ ys, xs.mapM f = .ok ys := by
  induction xs with
  | nil => exact ⟨[], rfl⟩
  | cons x xs ih =>
      obtain ⟨y, hy⟩ := h x List.mem_cons_self
      obtain ⟨ys, hys⟩ := ih fun z hz => h z (List.mem_cons_of_mem _ hz)
      exact ⟨y :: ys, by rw [List.mapM_cons, hy, ok_bind, hys, ok_bind]; rfl⟩

theorem mapM_getElem? (h : xs.mapM f = .ok ys) {i : Nat} {y : γ} (hy : ys[i]? = some y) :
    ∃ x, xs[i]? = some x ∧ f x = .ok y := by
  have hall := mapM_eq_ok.mp h
  obtain ⟨hi, rfl⟩ := List.getElem?_eq_some_iff.mp hy
  have hlen := hall.length_eq
  exact ⟨xs[i], List.getElem?_eq_getElem (hlen ▸ hi), hall.get (hlen ▸ hi) hi⟩

theorem mapM_congr {g : β → Result γ} (h : ∀ x ∈ xs, f x = g x) : xs.mapM f = xs.mapM g := by
  induction xs with
  | nil => rfl
  | cons x xs ih =>
      rw [List.mapM_cons, List.mapM_cons, h x List.mem_cons_self, ih fun z hz => h z (List.mem_cons_of_mem _ hz)]

theorem foldlM_congr {f g : γ → β → Result γ} (h : ∀ x ∈ xs, ∀ c, f c x = g c x) (c : γ) :
    xs.foldlM f c = xs.foldlM g c := by
  induction xs generalizing c with
  | nil => rfl
  | cons x xs ih =>
      rw [List.foldlM_cons, List.foldlM_cons, h x List.mem_cons_self]
      exact congrArg _ (funext fun d => ih (fun z hz => h z (List.mem_cons_of_mem _ hz)) d)

theorem getElem?_of_take {β : Type} {xs : Array β} {n i : Nat} {x : β} (h : (xs.take n).toList[i]? = some x) :
    xs[i]? = some x := by
  rw [Array.take_eq_extract, Array.toList_extract, List.extract_eq_take_drop, List.drop_zero, List.getElem?_take] at h
  split at h
  · rwa [Array.getElem?_toList] at h
  · cases h

end Lists

structure Dataset.Front {α : Type} (d' d : Dataset α) : Prop where
  images : ∀ (i : Nat) x, d'.images[i]? = some x → d.images[i]? = some x
  labels : ∀ (i : Nat) c, d'.labels[i]? = some c → d.labels[i]? = some c
  names : d'.classNames = d.classNames

theorem Dataset.Front.take {α : Type} {d' d : Dataset α} (h : d'.Front d) (n : Nat) : (d'.take n).Front d where
  images i x hx := h.images i x (getElem?_of_take (by rwa [Array.getElem?_toList]))
  labels i c hc := h.labels i c (getElem?_of_take (by rwa [Array.getElem?_toList]))
  names := h.names

namespace Network

variable {α : Type} [Scalar α] {net : Network α} {d d' : Dataset α} {count : Nat} {ss ss' : List (SamplePrediction α)}

def describe (net : Network α) (d : Dataset α) (p : (Tensor α × Nat) × Nat) : Result (SamplePrediction α) := do
  let out ← net.predict p.1.1
  match out[argmax out]? with
  | none => throw .misuse
  | some confidence =>
    return ⟨p.2, argmax out, p.1.2, confidence, d.className (argmax out), d.className p.1.2⟩

theorem samplePredictions_eq (net : Network α) (d : Dataset α) (count : Nat) :
    net.samplePredictions d count = (samplesOf (d.take count)).zipIdx.mapM (net.describe d) := rfl

theorem length_samplePredictions (hd : d.labels.size = d.images.size) (h : net.samplePredictions d count = .ok ss) :
    ss.length = min count d.size := by
  have hlen := (mapM_eq_ok.mp h).length_eq
  simp [samplesOf, Dataset.take, hd] at hlen
  exact hlen.symm

theorem samplePredictions_front (hd : d'.Front d) (h : net.samplePredictions d' count = .ok ss) {i : Nat}
    {s : SamplePrediction α} (hs : ss[i]? = some s) :
    ∃ x c, d.images[i]? = some x ∧ d.labels[i]? = some c ∧ net.describe d ((x, c), i) = .ok s := by
  rw [samplePredictions_eq] at h
  obtain ⟨⟨⟨x, c⟩, j⟩, hp, hone⟩ := mapM_getElem? h hs
  rw [List.getElem?_zipIdx, Option.map_eq_some_iff] at hp
  obtain ⟨p, hp, heq⟩ := hp
  simp only [Prod.mk.injEq, Nat.zero_add] at heq
  obtain ⟨rfl, rfl⟩ := heq
  simp only [samplesOf, Dataset.take, Array.toList_zip, List.getElem?_zip_eq_some] at hp
  obtain ⟨hx, hc⟩ := hp
  refine ⟨x, c, hd.images i x (getElem?_of_take hx), hd.labels i c (getElem?_of_take hc), ?_⟩
  have hnames : d.className = d'.className := by
    funext k
    rw [Dataset.className, Dataset.className, hd.names]
  rw [← hone, describe, describe, hnames]

/-- Two datasets that start alike get the same predictions as far as both reach. -/
theorem samplePredictions_agree {d₁ d₂ : Dataset α} {n₁ n₂ : Nat} {ss₁ ss₂ : List (SamplePrediction α)}
    (hd₁ : d₁.Front d) (hd₂ : d₂.Front d) (h₁ : net.samplePredictions d₁ n₁ = .ok ss₁)
    (h₂ : net.samplePredictions d₂ n₂ = .ok ss₂) {i : Nat} (hi₁ : i < ss₁.length) (hi₂ : i < ss₂.length) :
    ss₁[i]? = ss₂[i]? := by
  have hs₁ := List.getElem?_eq_getElem hi₁
  have hs₂ := List.getElem?_eq_getElem hi₂
  obtain ⟨x, c, hx, hc, hone⟩ := samplePredictions_front hd₁ h₁ hs₁
  obtain ⟨y, e, hy, he, htwo⟩ := samplePredictions_front hd₂ h₂ hs₂
  obtain rfl : x = y := Option.some.inj (hx.symm.trans hy)
  obtain rfl : c = e := Option.some.inj (hc.symm.trans he)
  rw [hs₁, hs₂, Except.ok.inj (hone.symm.trans htwo)]

theorem samplePredictions_answers (h : ∀ x ∈ d.images, ∃ out, net.predict x = .ok out ∧ 0 < out.size) (count : Nat) :
    ∃ ss, net.samplePredictions d count = .ok ss := by
  rw [samplePredictions_eq]
  refine mapM_answers fun p hp => ?_
  obtain ⟨⟨image, actual⟩, index⟩ := p
  have hmem : (image, actual) ∈ samplesOf (d.take count) := List.fst_mem_of_mem_zipIdx hp
  obtain ⟨out, hout, hpos⟩ := h image (mem_of_mem_take (mem_samplesOf hmem).1)
  have hplace : argmax out < out.size := argmax_lt hpos
  have hconf : out[argmax out]? = some out[argmax out] := Array.getElem?_eq_getElem hplace
  simp only [describe, hout, ok_bind, hconf]
  exact ⟨_, rfl⟩

theorem Infers.samplePredictions_answers {n : Nat} (hi : net.Infers n) (hd : d.Whole) (hs : d.shape = net.inputShape)
    (count : Nat) : ∃ ss, net.samplePredictions d count = .ok ss := by
  refine Network.samplePredictions_answers (fun x hx => ?_) count
  obtain ⟨hshape, hsized⟩ := hd.images x hx
  obtain ⟨out, hout, hsize⟩ := hi.predict_answers (hshape.trans hs) hsized
  exact ⟨out, hout, hsize ▸ hi.positive⟩

end Network

end Convnet
