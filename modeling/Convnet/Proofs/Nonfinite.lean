import Convnet.Proofs.Reload
import Convnet.Training.History

namespace Convnet

/-- Whether the saved form of a number is not read as a number. -/
def JsonNumber.Lost {α : Type} [JsonNumber α] (x : α) : Prop := Json.number? (α := α) (Json.ofNumber x).reread = none

open JsonNumber (Lost)

namespace Json

variable {α β γ : Type} {f : Json → Option γ} {g : β → Json}

theorem collect_eq_none {xs : List β} (h : ∃ x ∈ xs, f (g x) = none) (acc : Array γ) :
    collect f (xs.map g) acc = none := by
  induction xs generalizing acc with
  | nil => exact absurd h (by simp)
  | cons x xs ih =>
      rw [List.map_cons, collect]
      cases hx : f (g x) with
      | none => rfl
      | some b =>
          rw [List.exists_mem_cons_iff] at h
          exact ih (h.resolve_left (by simp [hx])) _

theorem list?_eq_none {xs : List β} (h : ∃ x ∈ xs, f (g x) = none) : list? f (.array (xs.map g)) = none := by
  rw [list?, array?, collect_eq_none h, Option.map_none]

theorem tagged_of_not_keepable {level : Nat} {tag : String} {v : Json} (h : keepable (nestingLimit - level) v = false) :
    tagged level tag v = none := by
  simp [tagged, h]

variable [JsonNumber α]

theorem numbers?_eq_none {xs : Array α} (h : ∃ x ∈ xs, Lost x) : numbers? (α := α) (ofNumbers xs).reread = none := by
  have hlost : ∃ x ∈ xs.toList, number? (α := α) ((reread ∘ JsonNumber.toJson) x) = none := by
    obtain ⟨x, hx, hlost⟩ := h
    exact ⟨x, Array.mem_toList_iff.mpr hx, hlost⟩
  rw [ofNumbers, reread_array, List.map_map, numbers?, array?, collect_eq_none hlost]

end Json

section Numbers

variable {α : Type} [JsonNumber α]

theorem Matrix.ofJson?_eq_none {m : Matrix α} (h : ∃ x ∈ m.data, Lost x) :
    Matrix.ofJson? (α := α) m.toJson.reread = none := by
  simp [toJson, ofJson?, Json.slots_record, Json.Slot.required, Json.numbers?_eq_none h]

theorem Layer.ofJson?_eq_none {l : Layer α} (h : ∃ x ∈ l.numbers, Lost x) :
    Layer.ofJson? (α := α) 2 l.toJson.reread = none := by
  cases hk : Json.keepable 125 l.toJson.reread with
  | false =>
      -- its kind is not even told
      rw [ofJson?, Json.tagged_of_not_keepable hk]
      rfl
  | true =>
      cases l with
      | conv l =>
          rw [toJson] at hk ⊢
          rw [ofJson?, Json.tagged_members hk (by simp [Convolution.members])]
          have hlost : (∃ x ∈ l.kernel, Lost x) ∨ ∃ x ∈ l.bias, Lost x := by
            simpa [numbers, or_and_right, exists_or] using h
          rcases hlost with hlost | hlost <;>
            simp [Convolution.ofJson?, Convolution.members, Json.slots_record, Json.Slot.required,
              Json.numbers?_eq_none hlost]
      | dense l =>
          rw [toJson] at hk ⊢
          rw [ofJson?, Json.tagged_members hk (by simp [Dense.members])]
          have hlost : (∃ x ∈ l.weights.data, Lost x) ∨ ∃ x ∈ l.biases, Lost x := by
            simpa [numbers, or_and_right, exists_or] using h
          rcases hlost with hlost | hlost
          · simp [Dense.ofJson?, Dense.members, Json.slots_record, Json.Slot.required, Matrix.ofJson?_eq_none hlost]
          · simp [Dense.ofJson?, Dense.members, Json.slots_record, Json.Slot.required, Json.numbers?_eq_none hlost]
      | dropout l =>
          rw [toJson] at hk ⊢
          rw [ofJson?, Json.tagged_members hk (by simp [Dropout.members])]
          have hlost : Json.number? (α := α) (Json.ofNumber l.rate).reread = none := by
            simpa [numbers, Lost] using h
          simp [Dropout.ofJson?, Dropout.members, Json.slots_record, Json.Slot.required, hlost]
      | pool | flatten | pointwise => simp [numbers] at h

theorem Scaling.ofJson?_eq_none {s : Scaling α} (h : Lost s.offset ∨ Lost s.scale) :
    Scaling.ofJson? (α := α) s.toJson.reread = none := by
  unfold Lost at h
  rcases h with h | h <;> simp [toJson, ofJson?, Json.slots_record, Json.Slot.required, h]

theorem Metadata.ofJson?_eq_none {m : Metadata α} (h : ∃ x ∈ m.numbers, Lost x) :
    Metadata.ofJson? (α := α) 1 m.toJson.reread = none := by
  cases hs : m.scaling with
  | none => simp [numbers, hs] at h
  | some s =>
      have hlost : Scaling.ofJson? (α := α) s.toJson.reread = none := by
        refine Scaling.ofJson?_eq_none ?_
        simpa [numbers, hs] using h
      have hscaling : Json.option? (Scaling.ofJson? (α := α)) (Json.ofOption Scaling.toJson m.scaling).reread = none := by
        rw [hs, Json.ofOption, Json.option?, hlost]
        · rfl
        · simp [Scaling.toJson]
      simp [toJson, ofJson?, Json.slots_record, Json.Slot.optional, Json.Slot.optionalAnywhere, hscaling]

theorem Network.ofJson?_eq_none {net : Network α} (h : ∃ x ∈ net.numbers, Lost x) :
    Network.ofJson? (α := α) net.toJson.reread = none := by
  obtain ⟨x, hx, hlost⟩ := h
  rcases List.mem_append.mp hx with hx | hx
  · obtain ⟨l, hl, hx⟩ := List.mem_flatMap.mp hx
    have hlayers : Json.list? (Layer.ofJson? (α := α) 2) (.array (net.layers.map (Json.reread ∘ Layer.toJson))) = none :=
      Json.list?_eq_none ⟨l, hl, Layer.ofJson?_eq_none ⟨x, hx, hlost⟩⟩
    simp [toJson, ofJson?, Json.slots_record, Json.Slot.required, hlayers]
  · cases hk : net.metadata with
    | none => simp [hk] at hx
    | some k =>
        rw [hk] at hx
        have hknown : Json.option? (Metadata.ofJson? (α := α) 1) (Json.ofOption Metadata.toJson net.metadata).reread =
            none := by
          rw [hk, Json.ofOption, Json.option?, Metadata.ofJson?_eq_none ⟨x, hx, hlost⟩]
          · rfl
          · simp [Metadata.toJson]
        simp [toJson, ofJson?, Json.slots_record, Json.Slot.optionalAnywhere, hknown]

namespace History

def numbers (h : History α) : List α :=
  h.loss.toList ++ h.accuracy.toList ++ h.valLoss.toList ++ h.valAccuracy.toList

theorem ofJson?_toJson {h : History α} (hn : ∀ x ∈ h.numbers, JsonNumber.Returns x) :
    ofJson? h.toJson.reread = some h := by
  have hcurve : ∀ xs : Array α, (∀ x ∈ xs, x ∈ h.numbers) → Json.numbers? (Json.ofNumbers xs).reread = some xs :=
    fun xs hxs => Json.numbers?_ofNumbers fun x hx => hn x (hxs x hx)
  have hloss := hcurve h.loss (by simp +contextual [numbers])
  have haccuracy := hcurve h.accuracy (by simp +contextual [numbers])
  have hvalLoss := hcurve h.valLoss (by simp +contextual [numbers])
  have hvalAccuracy := hcurve h.valAccuracy (by simp +contextual [numbers])
  simp [toJson, ofJson?, Json.slots_record, Json.Slot.required, Json.Slot.withDefault, hloss, haccuracy, hvalLoss,
    hvalAccuracy]

theorem ofJson?_eq_none {h : History α} (hn : ∃ x ∈ h.numbers, Lost x) :
    History.ofJson? (α := α) h.toJson.reread = none := by
  have hlost : (∃ x ∈ h.loss, Lost x) ∨ (∃ x ∈ h.accuracy, Lost x) ∨ (∃ x ∈ h.valLoss, Lost x) ∨
      ∃ x ∈ h.valAccuracy, Lost x := by
    simpa [numbers, or_and_right, exists_or] using hn
  rcases hlost with hlost | hlost | hlost | hlost <;>
    simp [toJson, ofJson?, Json.slots_record, Json.Slot.required, Json.Slot.withDefault, Json.numbers?_eq_none hlost]

def ofDocument (v : Json) : Result (History α) :=
  match ofJson? v with
  | none => .error .json
  | some h => .ok h

end History

end Numbers

section Doubles

open Binary64

theorem Json.ofFloat_of_not_isFinite {x : Float} (hx : x.isFinite = false) : ofFloat x = .null := by
  have he : x.toBits.toNat / Nat.pow 2 52 % Nat.pow 2 11 = 2047 := by
    by_contra hne
    rw [(isFinite_iff x).mpr hne] at hx
    cases hx
  have hword : ∀ b, ofWord x.toBits.toNat = b → ∀ negative m q, b ≠ .finite negative m q := by
    rintro b rfl negative m q
    rw [ofWord]
    simp only [he, if_true]
    split <;> exact Binary64.noConfusion
  rw [ofFloat]
  split
  · exact absurd ‹_› (hword _ rfl _ _ _)
  · exact absurd ‹_› (hword _ rfl _ _ _)
  · rfl

theorem JsonNumber.lost_of_not_isFinite {x : Float} (hx : x.isFinite = false) : Lost x := by
  have hnull : Json.ofNumber x = .null := Json.ofFloat_of_not_isFinite hx
  rw [Lost, hnull]
  rfl

theorem exists_lost {xs : List Float} (h : ¬ ∀ x ∈ xs, x.isFinite = true) : ∃ x ∈ xs, Lost x := by
  simp only [not_forall, Bool.not_eq_true] at h
  obtain ⟨x, hx, hfinite⟩ := h
  exact ⟨x, hx, JsonNumber.lost_of_not_isFinite hfinite⟩

theorem Network.ofDocument_toJson_eq {net : Network Float} (hcheck : net.checkLayers = .ok ()) (hc : net.Counted) :
    ofDocument net.toJson.reread = if ∀ x ∈ net.numbers, x.isFinite = true then
      .ok { net with layers := net.layers.map Layer.bare } else .error .json := by
  split
  case isTrue h => exact ofDocument_toJson hcheck hc h
  case isFalse h =>
    rw [ofDocument, ofJson?_eq_none (exists_lost h)]
    rfl

theorem History.ofDocument_toJson_eq (h : History Float) :
    ofDocument h.toJson.reread = if ∀ x ∈ h.numbers, x.isFinite = true then .ok h else .error .json := by
  split
  case isTrue hn => rw [ofDocument, ofJson?_toJson fun x hx => JsonNumber.returns_of_isFinite (hn x hx)]
  case isFalse hn => rw [ofDocument, ofJson?_eq_none (exists_lost hn)]

theorem Action.reading_saved {ω β : Type} {path : String} {v : Json} {s s' : Session ω} (f : Json → Result β)
    (h : (save path v).on s = (.ok (), s')) :
    (reading fun d => do f (← d.readJson path)).on s' = (f v.reread, s') := by
  obtain ⟨d, hwrite, rfl⟩ := save_on_eq_ok.mp h
  rw [on_reading, Disk.readJson_write hwrite (Json.ofBytes?_write true v)]
  rfl

/-- A network or a record of curves that was saved is read back if and only if all its numbers are finite, and
then it is the same, less what the layers have gathered. Otherwise the file is refused. -/
theorem reading_saved_eq {ω : Type} {path : String} {s s' : Session ω} :
    (∀ net : Network Float, net.checkLayers = .ok () → net.Counted →
      (Action.save path net.toJson).on s = (.ok (), s') →
      (Action.reading fun d => do Network.ofDocument (← d.readJson path)).on s' =
        (if ∀ x ∈ net.numbers, x.isFinite = true then .ok { net with layers := net.layers.map Layer.bare }
          else .error .json, s')) ∧
    ∀ h : History Float, (Action.save path h.toJson).on s = (.ok (), s') →
      (Action.reading fun d => do History.ofDocument (← d.readJson path)).on s' =
        (if ∀ x ∈ h.numbers, x.isFinite = true then .ok h else .error .json, s') := by
  refine ⟨fun net hcheck hc hs => ?_, fun h hs => ?_⟩
  · rw [Action.reading_saved _ hs, Network.ofDocument_toJson_eq hcheck hc]
  · rw [Action.reading_saved _ hs, h.ofDocument_toJson_eq]

theorem Action.save_on_empty (v : Json) : ∃ s', (save "m" v).on (⟨.empty [], ""⟩ : Session String) = (.ok (), s') :=
  ⟨_, save_on_eq_ok.mpr ⟨_, Disk.write_plain (by decide) rfl _, rfl⟩⟩

def Network.ofWeight (w : Float) : Network Float :=
  ⟨.flat 1, [.dense ⟨⟨1, 1, #[w]⟩, #[0], .linear, .empty, #[], #[], #[]⟩], .mse, none⟩

theorem Network.ofWeight_counted (w : Float) : (ofWeight w).Counted := by
  have hinput : (Shape.flat 1).Counted := ⟨by decide, by decide, by decide⟩
  exact ⟨hinput, by simp [ofWeight, Layer.Counted], nofun⟩

theorem reading_saved_eq_weight : ∃ s₁ s₂ : Session String,
    (Action.reading fun d => do Network.ofDocument (← d.readJson "m")).on s₁ = (.ok (Network.ofWeight 1), s₁) ∧
      (Action.reading fun d => do History.ofDocument (← d.readJson "m")).on s₂ =
        (.ok (⟨#[1], #[0], #[], #[]⟩ : History Float), s₂) := by
  have hzero : (0 : Float).isFinite = true := by decide
  have hone : (1 : Float).isFinite = true := by decide
  obtain ⟨s₁, hs₁⟩ := Action.save_on_empty (Network.ofWeight 1).toJson
  obtain ⟨s₂, hs₂⟩ := Action.save_on_empty (⟨#[1], #[0], #[], #[]⟩ : History Float).toJson
  have hnet := reading_saved_eq.1 _ rfl (Network.ofWeight_counted 1) hs₁
  have hcurves := reading_saved_eq.2 _ hs₂
  rw [if_pos (by simp [Network.ofWeight, Network.numbers, Layer.numbers, hzero, hone])] at hnet
  rw [if_pos (by simp [History.numbers, hzero, hone])] at hcurves
  exact ⟨s₁, s₂, hnet, hcurves⟩

/-- A weight and a loss that are no numbers are saved, and then not read. -/
theorem reading_saved_nan : ∃ (net : Network Float) (h : History Float) (s s₁ s₂ : Session String),
    net.checkLayers = .ok () ∧ (Action.save "m" net.toJson).on s = (.ok (), s₁) ∧
      (Action.reading fun d => do Network.ofDocument (α := Float) (← d.readJson "m")).on s₁ = (.error .json, s₁) ∧
      (Action.save "m" h.toJson).on s = (.ok (), s₂) ∧
      (Action.reading fun d => do History.ofDocument (α := Float) (← d.readJson "m")).on s₂ = (.error .json, s₂) := by
  have hnan : (0 / 0 : Float).isFinite = false := by decide
  obtain ⟨s₁, hs₁⟩ := Action.save_on_empty (Network.ofWeight (0 / 0)).toJson
  obtain ⟨s₂, hs₂⟩ := Action.save_on_empty (⟨#[0 / 0], #[0], #[], #[]⟩ : History Float).toJson
  refine ⟨Network.ofWeight (0 / 0), ⟨#[0 / 0], #[0], #[], #[]⟩, _, s₁, s₂, rfl, hs₁, ?_, hs₂, ?_⟩
  · rw [Action.reading_saved _ hs₁, Network.ofDocument_toJson_eq rfl (Network.ofWeight_counted _),
      if_neg (by simp [Network.ofWeight, Network.numbers, Layer.numbers, hnan])]
  · rw [Action.reading_saved _ hs₂, History.ofDocument_toJson_eq, if_neg (by simp [History.numbers, hnan])]

end Doubles

end Convnet
