import Convnet.Model.Network
import Convnet.Proofs.Layer
import Convnet.Proofs.Text

namespace Convnet

namespace Json

theorem rereadItems_eq (vs : List Json) : rereadItems vs = vs.map reread := by
  induction vs with
  | nil => rfl
  | cons v vs ih => rw [rereadItems, ih, List.map_cons]

theorem rereadMembers_eq (ms : List (Option String × Json)) : rereadMembers ms = ms.map rereadMember := by
  induction ms with
  | nil => rfl
  | cons m ms ih => rw [rereadMembers, ih, List.map_cons]

@[simp] theorem reread_ofString (s : String) : (ofString s).reread = ofString s := rfl

@[simp] theorem reread_ofNat (n : Nat) : (ofNat n).reread = ofNat n := rfl

@[simp] theorem reread_bool (b : Bool) : (bool b).reread = bool b := rfl

@[simp] theorem reread_array (vs : List Json) : (array vs).reread = array (vs.map reread) := by
  rw [reread, rereadItems_eq]

@[simp] theorem reread_record (ms : List (String × Json)) :
    (record ms).reread = record (ms.map fun m => (m.1, m.2.reread)) := by
  rw [record, reread, rereadMembers_eq, record, List.map_map, List.map_map]
  rfl

@[simp] theorem ofString_ne_null (s : String) : ofString s ≠ .null := Json.noConfusion

@[simp] theorem record_ne_null (ms : List (String × Json)) : record ms ≠ .null := Json.noConfusion

theorem once_record {ms : List (String × Json)} (hn : (ms.map Prod.fst).Nodup) {m : String × Json} (hm : m ∈ ms) :
    once m.1 (ms.map fun m => (some m.1, m.2)) = some (.given m.2) := by
  have hfilter : (ms.map fun m => (some m.1, m.2)).filter (fun k => k.1 == some m.1) = [(some m.1, m.2)] := by
    induction ms with
    | nil => exact absurd hm (List.not_mem_nil)
    | cons a ms ih =>
        rw [List.map_cons, List.nodup_cons] at hn
        rw [List.map_cons]
        rcases List.mem_cons.mp hm with rfl | hm
        · have hrest : (ms.map fun m => (some m.1, m.2)).filter (fun k => k.1 == some m.1) = [] := by
            refine List.filter_eq_nil_iff.mpr fun k hk h => hn.1 ?_
            obtain ⟨b, hb, rfl⟩ := List.mem_map.mp hk
            have hkey : b.1 = m.1 := by simpa using h
            exact hkey ▸ List.mem_map_of_mem hb
          rw [List.filter_cons_of_pos (by simp), hrest]
        · have hne : a.1 ≠ m.1 := fun h => hn.1 (h ▸ List.mem_map_of_mem hm)
          rw [List.filter_cons_of_neg (by simpa using hne)]
          exact ih hn.2 hm
  rw [once, hfilter]

theorem slots_of_once {ks ms : List (String × Json)} {g : String × Json → Slot}
    (h : ∀ m ∈ ms, once m.1 (ks.map fun k => (some k.1, k.2)) = some (g m)) :
    slots (ms.map Prod.fst) (record ks) = some (ms.map g) := by
  have hall : (ks.map fun k => (some k.1, k.2)).all (·.1.isSome) = true := by simp
  have hfound : (ms.map Prod.fst).mapM (once · (ks.map fun k => (some k.1, k.2))) = some (ms.map g) := by
    induction ms with
    | nil => rfl
    | cons m ms ih =>
        rw [List.map_cons, List.mapM_cons, h m (by simp), ih fun k hk => h k (by simp [hk])]
        rfl
  exact (if_pos hall).trans hfound

theorem slots_record {names : List String} {ms : List (String × Json)} (h : ms.map Prod.fst = names)
    (hn : names.Nodup) : slots names (record ms) = some (ms.map fun m => .given m.2) := by
  subst h
  exact slots_of_once fun _ hm => once_record hn hm

theorem keepable_of_zero {v : Json} (h : keepable 0 v = true) (room : Nat) : keepable room v = true := by
  cases v with
  | null | bool => rfl
  | number | string => rwa [keepable] at h ⊢
  | array | object => simp [keepable] at h

theorem keepable_ofNat {n : Nat} (hn : n < Nat.pow 2 64) (room : Nat) : keepable room (ofNat n) = true := by
  have hlt : ∀ e, 64 ≤ e → n < Nat.pow 2 e := fun e he => Nat.lt_of_lt_of_le hn (Nat.pow_le_pow_right (by decide) he)
  rw [ofNat, keepable, Numeral.isRepresentable, decide_eq_true (hlt 1000 (by decide)), Bool.true_or]

theorem keepable_ofString (s : String) (room : Nat) : keepable room (ofString s) = true := rfl

theorem keepable_array {vs : List Json} {room : Nat} (h : ∀ v ∈ vs, keepable room v = true) :
    keepable (room + 1) (array vs) = true := by
  have hall : keepableAll room vs = true := by
    induction vs with
    | nil => rfl
    | cons v vs ih =>
        rw [keepableAll, h v (by simp), ih fun w hw => h w (by simp [hw])]
        rfl
  simp [keepable, hall]

theorem keepable_record {ms : List (String × Json)} {room : Nat} (h : ∀ m ∈ ms, keepable room m.2 = true) :
    keepable (room + 1) (record ms) = true := by
  have hall : keepableMembers room (ms.map fun m => (some m.1, m.2)) = true := by
    induction ms with
    | nil => rfl
    | cons m ms ih =>
        rw [List.map_cons, keepableMembers, h m (by simp), ih fun k hk => h k (by simp [hk])]
        rfl
  have hroom : keepable (room + 1) (record ms) = keepableMembers room (ms.map fun m => (some m.1, m.2)) := by
    simp [keepable, record]
  rw [hroom, hall]

/-- A marked record is told by its mark. -/
theorem tagged_record {level : Nat} {tag s : String} {ms : List (String × Json)}
    (hk : keepable (nestingLimit - level) (record ((tag, ofString s) :: ms)) = true)
    (hn : ((tag :: ms.map Prod.fst)).Nodup) :
    tagged level tag (record ((tag, ofString s) :: ms)) = some (s, record ms) := by
  have hn' : (((tag, ofString s) :: ms).map Prod.fst).Nodup := hn
  have honce := once_record hn' List.mem_cons_self
  have hfilter : ((some tag, ofString s) :: ms.map fun m => (some m.1, m.2)).filter (fun m => m.1 != some tag) =
      ms.map fun m => (some m.1, m.2) := by
    rw [List.filter_cons_of_neg (by simp), List.filter_eq_self]
    intro k hk
    obtain ⟨m, hm, rfl⟩ := List.mem_map.mp hk
    have hne : m.1 ≠ tag := fun h => (List.nodup_cons.mp hn).1 (h ▸ List.mem_map_of_mem hm)
    simpa using hne
  rw [record, List.map_cons] at hk ⊢
  rw [tagged, if_pos hk]
  rw [List.map_cons] at honce
  simp only [honce]
  exact congrArg (fun ks => some (s, object ks)) hfilter

theorem tagged_members {mark : String} {ms : List (String × Json)}
    (hk : keepable 125 (record (("type", .ofString mark) :: ms)).reread = true)
    (hn : ("type" :: ms.map Prod.fst).Nodup) :
    (record (("type", .ofString mark) :: ms)).reread.tagged 2 "type" = some (mark, (record ms).reread) := by
  rw [reread_record, List.map_cons, reread_ofString] at hk ⊢
  rw [tagged_record hk (by rwa [List.map_map]), reread_record]

@[simp] theorem string?_ofString (s : String) : string? (ofString s) = some s := rfl

@[simp] theorem bool?_bool (b : Bool) : bool? (bool b) = some b := rfl

theorem size?_ofNat {n : Nat} (h : n < Nat.pow 2 64) : size? (ofNat n) = some n := by
  simp [size?, nat?, ofNat, Numeral.toNat?, h]

variable {β γ : Type}

theorem collect_map {f : Json → Option γ} {g : β → Json} {b : β → γ} {xs : List β}
    (h : ∀ x ∈ xs, f (g x) = some (b x)) (acc : Array γ) :
    collect f (xs.map g) acc = some (acc ++ (xs.map b).toArray) := by
  induction xs generalizing acc with
  | nil => simp [collect]
  | cons x xs ih =>
      rw [List.map_cons, collect, h x (by simp)]
      simp [ih fun y hy => h y (by simp [hy])]

theorem list?_array {f : Json → Option γ} {g : β → Json} {b : β → γ} {xs : List β}
    (h : ∀ x ∈ xs, f (g x) = some (b x)) : list? f (.array (xs.map g)) = some (xs.map b) := by
  simp [list?, array?, collect_map h]

theorem option?_ofOption {f : Json → Option β} {g : β → Json} {o : Option β}
    (h : ∀ b, o = some b → (g b).reread ≠ .null ∧ f (g b).reread = some b) :
    option? f (ofOption g o).reread = some o := by
  cases o with
  | none => rfl
  | some b =>
      obtain ⟨hne, hb⟩ := h b rfl
      rw [ofOption, option?, hb]
      · rfl
      · exact hne

theorem option?_ofNat {o : Option Nat} (h : ∀ n ∈ o, n < Nat.pow 2 64) :
    option? size? (ofOption ofNat o).reread = some o :=
  option?_ofOption fun n hn => ⟨Json.noConfusion, size?_ofNat (h n hn)⟩

end Json

/-- Whether a number is read back from a document, wherever it is kept. -/
structure JsonNumber.Returns {α : Type} [JsonNumber α] (x : α) : Prop where
  reads : Json.number? (Json.ofNumber x).reread = some x
  keepable : Json.keepable 0 (Json.ofNumber x).reread = true

open JsonNumber (Returns)

structure Shape.Counted (s : Shape) : Prop where
  height : s.height < Nat.pow 2 64
  width : s.width < Nat.pow 2 64
  channels : s.channels < Nat.pow 2 64

theorem Shape.ofJson?_toJson {s : Shape} (h : s.Counted) : Shape.ofJson? s.toJson.reread = some s := by
  simp [toJson, ofJson?, Json.slots_record, Json.Slot.required, Json.size?_ofNat h.height,
    Json.size?_ofNat h.width, Json.size?_ofNat h.channels]

theorem Shape.keepable_toJson {s : Shape} (h : s.Counted) (room : Nat) :
    Json.keepable (room + 1) s.toJson.reread = true := by
  rw [toJson, Json.reread_record]
  refine Json.keepable_record ?_
  simp [Json.keepable_ofNat h.height, Json.keepable_ofNat h.width, Json.keepable_ofNat h.channels]

section Numbers

variable {α : Type} [JsonNumber α]

theorem Json.numbers?_ofNumbers {xs : Array α} (h : ∀ x ∈ xs, Returns x) :
    numbers? (ofNumbers xs).reread = some xs := by
  have hreads : ∀ x ∈ xs.toList, number? ((reread ∘ JsonNumber.toJson) x) = some (id x) :=
    fun x hx => (h x (by simpa using hx)).reads
  rw [ofNumbers, reread_array, List.map_map, numbers?, array?, collect_map hreads]
  simp

theorem Json.keepable_ofNumbers {xs : Array α} (h : ∀ x ∈ xs, Returns x) (room : Nat) :
    keepable (room + 1) (ofNumbers xs).reread = true := by
  rw [ofNumbers, reread_array, List.map_map]
  refine keepable_array fun v hv => ?_
  obtain ⟨x, hx, rfl⟩ := List.mem_map.mp hv
  exact keepable_of_zero (h x (by simpa using hx)).keepable room

theorem Matrix.ofJson?_toJson {m : Matrix α} (hr : m.rows < Nat.pow 2 64) (hc : m.cols < Nat.pow 2 64)
    (h : ∀ x ∈ m.data, Returns x) : Matrix.ofJson? m.toJson.reread = some m := by
  simp [toJson, ofJson?, Json.slots_record, Json.Slot.required, Json.size?_ofNat hr, Json.size?_ofNat hc,
    Json.numbers?_ofNumbers h]

theorem Matrix.keepable_toJson {m : Matrix α} (hr : m.rows < Nat.pow 2 64) (hc : m.cols < Nat.pow 2 64)
    (h : ∀ x ∈ m.data, Returns x) (room : Nat) : Json.keepable (room + 2) m.toJson.reread = true := by
  rw [toJson, Json.reread_record]
  refine Json.keepable_record ?_
  simp [Json.keepable_ofNat hr, Json.keepable_ofNat hc, Json.keepable_ofNumbers h]

end Numbers

def LayerSpec.Counted {α : Type} : LayerSpec α → Prop
  | conv filters kernelSize strides _ _ =>
    filters < Nat.pow 2 64 ∧ kernelSize < Nat.pow 2 64 ∧ strides < Nat.pow 2 64
  | pool _ poolSize strides => poolSize < Nat.pow 2 64 ∧ ∀ n ∈ strides, n < Nat.pow 2 64
  | dense units _ => units < Nat.pow 2 64
  | flatten | dropout _ | pointwise _ => True

namespace Layer

variable {α : Type}

def numbers : Layer α → List α
  | conv l => l.kernel.toList ++ l.bias.toList
  | dense l => l.weights.data.toList ++ l.biases.toList
  | dropout l => [l.rate]
  | pool _ | flatten _ | pointwise _ => []

/-- Whether the sizes of a layer are machine words. -/
def Counted : Layer α → Prop
  | conv l => l.filters < Nat.pow 2 64 ∧ l.kernelSize < Nat.pow 2 64 ∧ l.stride < Nat.pow 2 64 ∧
      l.inputShape.Counted
  | pool l => l.poolSize < Nat.pow 2 64 ∧ l.stride < Nat.pow 2 64 ∧ l.inputShape.Counted
  | flatten s => s.Counted
  | dense l => l.weights.rows < Nat.pow 2 64 ∧ l.weights.cols < Nat.pow 2 64
  | dropout l => l.shape.Counted
  | pointwise l => l.shape.Counted

variable [JsonNumber α] {l : Layer α}

theorem keepable_toJson (hc : l.Counted) (hn : ∀ x ∈ l.numbers, Returns x) (room : Nat) :
    Json.keepable (room + 3) l.toJson.reread = true := by
  cases l with
  | conv l =>
      obtain ⟨hf, hk, hs, hi⟩ := hc
      have hkernel : ∀ x ∈ l.kernel, Returns x := fun x hx => hn x (by simp [numbers, hx])
      have hbias : ∀ x ∈ l.bias, Returns x := fun x hx => hn x (by simp [numbers, hx])
      rw [toJson, Json.reread_record]
      refine Json.keepable_record ?_
      simp [Convolution.members, Padding.toJson, Activation.toJson, Json.keepable_ofString,
        Json.keepable_ofNat hf, Json.keepable_ofNat hk, Json.keepable_ofNat hs, Shape.keepable_toJson hi,
        Json.keepable_ofNumbers hkernel, Json.keepable_ofNumbers hbias]
  | pool l =>
      obtain ⟨hp, hs, hi⟩ := hc
      rw [toJson, Json.reread_record]
      refine Json.keepable_record ?_
      simp [Pooling.members, PoolKind.toJson, Json.keepable_ofString, Json.keepable_ofNat hp,
        Json.keepable_ofNat hs, Shape.keepable_toJson hi]
  | flatten s =>
      rw [toJson, Json.reread_record]
      refine Json.keepable_record ?_
      simp [Json.keepable_ofString, Shape.keepable_toJson hc]
  | dense l =>
      have hweights : ∀ x ∈ l.weights.data, Returns x := fun x hx => hn x (by simp [numbers, hx])
      have hbiases : ∀ x ∈ l.biases, Returns x := fun x hx => hn x (by simp [numbers, hx])
      rw [toJson, Json.reread_record]
      refine Json.keepable_record ?_
      simp [Dense.members, Activation.toJson, Json.keepable_ofString,
        Matrix.keepable_toJson hc.1 hc.2 hweights, Json.keepable_ofNumbers hbiases]
  | dropout l =>
      have hrate : Json.keepable (room + 2) (Json.ofNumber l.rate).reread = true :=
        Json.keepable_of_zero (hn l.rate (by simp [numbers])).keepable _
      rw [toJson, Json.reread_record]
      refine Json.keepable_record ?_
      simp [Dropout.members, Json.keepable_ofString, hrate, Shape.keepable_toJson hc]
  | pointwise l =>
      rw [toJson, Json.reread_record]
      refine Json.keepable_record ?_
      simp [Pointwise.members, Activation.toJson, Json.keepable_ofString, Shape.keepable_toJson hc]

end Layer

@[simp] theorem Activation.ofKept?_toJson (a : Activation) : ofKept? a.toJson.reread = some a := by
  cases a <;> rfl

@[simp] theorem Padding.ofKept?_toJson (p : Padding) : ofKept? p.toJson.reread = some p := by
  cases p <;> rfl

@[simp] theorem PoolKind.ofKept?_toJson (k : PoolKind) : ofKept? k.toJson.reread = some k := by
  cases k <;> rfl

theorem Layer.ofJson?_toJson {α : Type} [JsonNumber α] {l : Layer α} (hc : l.Counted)
    (hn : ∀ x ∈ l.numbers, Returns x) : Layer.ofJson? 2 l.toJson.reread = some l.bare := by
  have hk := keepable_toJson hc hn 122
  cases l with
  | conv l =>
      obtain ⟨hf, hk', hs, hi⟩ := hc
      have hkernel : ∀ x ∈ l.kernel, Returns x := fun x hx => hn x (by simp [numbers, hx])
      have hbias : ∀ x ∈ l.bias, Returns x := fun x hx => hn x (by simp [numbers, hx])
      rw [toJson] at hk ⊢
      rw [ofJson?, Json.tagged_members hk (by simp [Convolution.members])]
      simp [Convolution.ofJson?, Convolution.members, Json.slots_record, Json.Slot.required, Json.size?_ofNat hf,
        Json.size?_ofNat hk', Json.size?_ofNat hs, Shape.ofJson?_toJson hi,
        Json.numbers?_ofNumbers hkernel, Json.numbers?_ofNumbers hbias, bare]
  | pool l =>
      obtain ⟨hp, hs, hi⟩ := hc
      rw [toJson] at hk ⊢
      rw [ofJson?, Json.tagged_members hk (by simp [Pooling.members])]
      simp [Pooling.ofJson?, Pooling.members, Json.slots_record, Json.Slot.required, Json.size?_ofNat hp,
        Json.size?_ofNat hs, Shape.ofJson?_toJson hi, bare]
  | flatten s =>
      rw [toJson] at hk ⊢
      rw [ofJson?, Json.tagged_members hk (by simp)]
      simp [Json.slots_record, Json.Slot.required, Shape.ofJson?_toJson hc, bare]
  | dense l =>
      have hweights : ∀ x ∈ l.weights.data, Returns x := fun x hx => hn x (by simp [numbers, hx])
      have hbiases : ∀ x ∈ l.biases, Returns x := fun x hx => hn x (by simp [numbers, hx])
      rw [toJson] at hk ⊢
      rw [ofJson?, Json.tagged_members hk (by simp [Dense.members])]
      simp [Dense.ofJson?, Dense.members, Json.slots_record, Json.Slot.required,
        Matrix.ofJson?_toJson hc.1 hc.2 hweights, Json.numbers?_ofNumbers hbiases, bare]
  | dropout l =>
      have hrate := (hn l.rate (by simp [numbers])).reads
      rw [toJson] at hk ⊢
      rw [ofJson?, Json.tagged_members hk (by simp [Dropout.members])]
      simp [Dropout.ofJson?, Dropout.members, Json.slots_record, Json.Slot.required, hrate,
        Shape.ofJson?_toJson hc, bare]
  | pointwise l =>
      rw [toJson] at hk ⊢
      rw [ofJson?, Json.tagged_members hk (by simp [Pointwise.members])]
      simp [Pointwise.ofJson?, Pointwise.members, Json.slots_record, Json.Slot.required,
        Shape.ofJson?_toJson hc, bare]

theorem Loss.ofJson?_toJson (l : Loss) : ofJson? l.toJson.reread = some l := by
  cases l <;> rfl

theorem Preprocessing.ofJson?_toJson (p : Preprocessing) : ofJson? p.toJson.reread = some p := by
  cases p <;> rfl

theorem Benchmark.ofJson?_toJson (k : Benchmark) : ofJson? k.toJson.reread = some k := by
  cases k <;> rfl

def InputType.Counted : InputType → Prop
  | numeric => True
  | grayscale w h | rgb w h => w < Nat.pow 2 32 ∧ h < Nat.pow 2 32

theorem InputType.ofJson?_toJson {t : InputType} (h : t.Counted) : ofJson? 2 t.toJson.reread = some t := by
  have hside : ∀ n, n < Nat.pow 2 32 → Json.nat? (Nat.pow 2 32) (.ofNat n) = some n := by
    intro n hn
    simp [Json.nat?, Json.ofNat, Numeral.toNat?, hn]
  have hword : ∀ n, n < Nat.pow 2 32 → ∀ room, Json.keepable room (.ofNat n) = true :=
    fun n hn => Json.keepable_ofNat (Nat.lt_trans hn (by decide))
  cases t with
  | numeric => rfl
  | grayscale w h' | rgb w h' =>
      obtain ⟨hw, hh⟩ := h
      have hk : ∀ mark, Json.keepable 125 (Json.record
          [("type", .ofString mark), ("width", .ofNat w), ("height", .ofNat h')]).reread = true := by
        intro mark
        rw [Json.reread_record]
        refine Json.keepable_record ?_
        simp [Json.keepable_ofString, hword _ hw, hword _ hh]
      rw [toJson, ofJson?, Json.tagged_members (hk _) (by simp)]
      simp [Json.slots_record, Json.Slot.required, hside _ hw, hside _ hh]

section Metadata

variable {α : Type} [JsonNumber α]

theorem Scaling.ofJson?_toJson {s : Scaling α} (ho : Returns s.offset) (hs : Returns s.scale) :
    ofJson? s.toJson.reread = some s := by
  simp [toJson, ofJson?, Json.slots_record, Json.Slot.required, ho.reads, hs.reads]

def Metadata.numbers (m : Metadata α) : List α :=
  match m.scaling with
  | none => []
  | some s => [s.offset, s.scale]

def Metadata.Counted (m : Metadata α) : Prop := ∀ t, m.inputType = some t → t.Counted

theorem Metadata.ofJson?_toJson {m : Metadata α} (hc : m.Counted) (hn : ∀ x ∈ m.numbers, Returns x) :
    ofJson? 1 m.toJson.reread = some m := by
  have hd : Json.option? Json.string? (.ofOption .ofString m.description : Json).reread = some m.description :=
    Json.option?_ofOption fun s _ => ⟨by simp, rfl⟩
  have hi : Json.option? (InputType.ofJson? 2) (Json.ofOption InputType.toJson m.inputType).reread =
      some m.inputType :=
    Json.option?_ofOption fun t ht => ⟨by cases t <;> simp [InputType.toJson],
      InputType.ofJson?_toJson (hc t ht)⟩
  have hl : Json.option? (Json.list? Json.string?)
      (Json.ofOption (fun ls => .array (ls.map .ofString)) m.outputLabels).reread = some m.outputLabels := by
    refine Json.option?_ofOption fun ls _ => ⟨by simp, ?_⟩
    have hnames : ∀ s ∈ ls, Json.string? ((Json.reread ∘ Json.ofString) s) = some (id s) := fun _ _ => rfl
    rw [Json.reread_array, List.map_map, Json.list?_array hnames, List.map_id]
  have hk : Json.option? Benchmark.ofJson? (Json.ofOption Benchmark.toJson m.dataset).reread = some m.dataset :=
    Json.option?_ofOption fun k _ => ⟨by simp [Benchmark.toJson], Benchmark.ofJson?_toJson k⟩
  have hs : Json.option? Scaling.ofJson? (Json.ofOption Scaling.toJson m.scaling).reread = some m.scaling := by
    refine Json.option?_ofOption fun s hs => ⟨by simp [Scaling.toJson], ?_⟩
    rw [numbers, hs] at hn
    exact Scaling.ofJson?_toJson (hn _ (by simp)) (hn _ (by simp))
  simp [toJson, ofJson?, Json.slots_record, Json.Slot.optional, Json.Slot.optionalAnywhere, hd, hi, hl, hk, hs]

end Metadata

namespace Network

variable {α : Type} [JsonNumber α]

def numbers (net : Network α) : List α :=
  net.layers.flatMap Layer.numbers ++ (net.metadata.map Metadata.numbers).getD []

/-- Whether all sizes of a network are machine words. -/
structure Counted (net : Network α) : Prop where
  input : net.inputShape.Counted
  layers : ∀ l ∈ net.layers, l.Counted
  metadata : ∀ m, net.metadata = some m → m.Counted

theorem ofJson?_toJson {net : Network α} (hc : net.Counted) (hn : ∀ x ∈ net.numbers, Returns x) :
    ofJson? net.toJson.reread = some { net with layers := net.layers.map Layer.bare } := by
  have hl : Json.list? (Layer.ofJson? 2) (.array (net.layers.map (Json.reread ∘ Layer.toJson))) =
      some (net.layers.map Layer.bare) := by
    refine Json.list?_array fun l hl => Layer.ofJson?_toJson (hc.layers l hl) fun x hx => hn x ?_
    exact List.mem_append_left _ (List.mem_flatMap_of_mem hl hx)
  have hm : Json.option? (Metadata.ofJson? 1) (Json.ofOption Metadata.toJson net.metadata).reread =
      some net.metadata := by
    refine Json.option?_ofOption fun m hm => ⟨by simp [Metadata.toJson], ?_⟩
    refine Metadata.ofJson?_toJson (hc.metadata m hm) fun x hx => hn x ?_
    simp [numbers, hm, hx]
  simp [toJson, ofJson?, Json.slots_record, Json.Slot.required, Json.Slot.optionalAnywhere,
    Shape.ofJson?_toJson hc.input, Loss.ofJson?_toJson, hl, hm]

end Network

end Convnet
