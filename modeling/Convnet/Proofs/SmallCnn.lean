import Convnet.Proofs.Preparing

namespace Convnet

theorem Shape.isEmpty_eq_false {s : Shape} : s.isEmpty = false ↔ 0 < s.height ∧ 0 < s.width ∧ 0 < s.channels := by
  refine ⟨pos_of_not_isEmpty, fun ⟨hh, hw, hc⟩ => ?_⟩
  exact beq_false_of_ne (Nat.mul_pos (Nat.mul_pos hh hw) hc).ne'

theorem Shape.isFlat_eq_false {s : Shape} : s.isFlat = false ↔ ¬ (s.height = 1 ∧ s.width = 1) := by
  simp [isFlat]

namespace LayerSpec

section Shapes

variable {α : Type} {s s' : Shape} {ls : List (LayerSpec α)} {shapes : List Shape} {a b : Activation} {k : PoolKind}
  {f n units : Nat} {rate : α}

/-- Whether layers, one after the other, turn a shape into shapes with something in them. -/
def Reaches (s : Shape) : List (LayerSpec α) → List Shape → Prop
  | [], shapes => shapes = []
  | l :: ls, shapes => ∃ s' rest, l.Turns s s' ∧ s'.isEmpty = false ∧ Reaches s' ls rest ∧ shapes = s' :: rest

theorem turns_conv_same : (conv f 3 1 .same a : LayerSpec α).Turns s s' ↔
    s.isFlat = false ∧ s' = ⟨s.height, s.width, f⟩ := by
  simp [Turns, Padding.windows]

theorem windows_halved (s : Shape) : Pooling.windows ⟨k, 2, 2, s, #[]⟩ n = n / 2 := by
  simp only [Pooling.windows]
  by_cases h : n < 2
  · rw [if_pos h, Nat.div_eq_of_lt h]
  · rw [if_neg h]
    omega

theorem turns_pool_halved : (pool k 2 (some 2) : LayerSpec α).Turns s s' ↔
    s' = ⟨s.height / 2, s.width / 2, s.channels⟩ := by
  simp only [Turns, Option.getD_some, Pooling.outputShape, windows_halved]

/-- A convolution that keeps the size and a pooling that halves it: two pixels are needed on both sides, and then the
image is none that the convolution would take for a vector. -/
theorem reaches_block (hf : 0 < f) : Reaches s (conv f 3 1 .same a :: pool k 2 (some 2) :: ls) shapes ↔
    2 ≤ s.height ∧ 2 ≤ s.width ∧ ∃ rest, Reaches ⟨s.height / 2, s.width / 2, f⟩ ls rest ∧
      shapes = ⟨s.height, s.width, f⟩ :: ⟨s.height / 2, s.width / 2, f⟩ :: rest := by
  constructor
  · rintro ⟨s₁, rest₁, h₁, -, ⟨s₂, rest, h₂, hfull, hrest, rfl⟩, rfl⟩
    obtain ⟨-, rfl⟩ := turns_conv_same.mp h₁
    obtain rfl := turns_pool_halved.mp h₂
    obtain ⟨hh, hw, -⟩ := Shape.isEmpty_eq_false.mp hfull
    exact ⟨(Nat.div_pos_iff.mp hh).2, (Nat.div_pos_iff.mp hw).2, rest, hrest, rfl⟩
  · rintro ⟨hh, hw, rest, hrest, rfl⟩
    have hspatial : s.isFlat = false := Shape.isFlat_eq_false.mpr (by omega)
    refine ⟨_, _, turns_conv_same.mpr ⟨hspatial, rfl⟩, ?_, ⟨_, rest, turns_pool_halved.mpr rfl, ?_, hrest, rfl⟩, rfl⟩
    · exact Shape.isEmpty_eq_false.mpr ⟨two_pos.trans_le hh, two_pos.trans_le hw, hf⟩
    · exact Shape.isEmpty_eq_false.mpr ⟨Nat.div_pos hh two_pos, Nat.div_pos hw two_pos, hf⟩

theorem reaches_classifier (hs : s.isEmpty = false) (hu : 0 < units) :
    Reaches s [flatten, dense units a, dropout rate, dense n b] shapes ↔
      0 < n ∧ shapes = [.flat s.size, .flat units, .flat units, .flat n] := by
  have hfull : ∀ m, (Shape.flat m).isEmpty = false ↔ 0 < m := fun m => by
    simp [Shape.isEmpty_eq_false, Shape.flat]
  have hsize : 0 < s.size := Nat.pos_of_ne_zero (by simpa [Shape.isEmpty] using hs)
  constructor
  · rintro ⟨_, _, rfl, -, ⟨_, _, ⟨-, rfl⟩, -, ⟨_, _, rfl, -, ⟨_, _, ⟨-, rfl⟩, hn, rfl, rfl⟩, rfl⟩, rfl⟩, rfl⟩
    exact ⟨(hfull n).mp hn, rfl⟩
  · rintro ⟨hn, rfl⟩
    have hout : Reaches (.flat units) [(dense n b : LayerSpec α)] [.flat n] :=
      ⟨_, _, ⟨rfl, rfl⟩, (hfull n).mpr hn, rfl, rfl⟩
    exact ⟨_, _, rfl, (hfull _).mpr hsize, ⟨_, _, ⟨rfl, rfl⟩, (hfull _).mpr hu,
      ⟨_, _, rfl, (hfull _).mpr hu, hout, rfl⟩, rfl⟩, rfl⟩

end Shapes

end LayerSpec

namespace ModelSpec

variable {α : Type} [Scalar α] {last i : Nat} {s : Shape} {ls : List (LayerSpec α)} {shapes : List Shape}
  {m : ModelSpec α}

theorem fault_of_validateLayers (h : validateLayers last i s ls = .ok shapes) : ∀ l ∈ ls, l.fault? = none := by
  induction ls generalizing i s shapes with
  | nil => simp
  | cons l ls ih =>
      obtain ⟨hl, -, s', rest, -, hrest, -⟩ := validateLayers_cons.mp h
      exact List.forall_mem_cons.mpr ⟨hl, ih hrest⟩

theorem validateLayers_eq_ok (hs : s.isEmpty = false) (hl : ∀ l ∈ ls, l.fault? = none)
    (ha : ∀ l ∈ ls.dropLast, l.activation? ≠ some .softmax) (hlast : i + ls.length = last + 1) :
    validateLayers last i s ls = .ok shapes ↔
      LayerSpec.Reaches s ls shapes ∧ (∀ r ∈ shapes, r.isCountable = true) ∧
        ∀ p ∈ ls.zip (s :: shapes), p.1.windowsCountable p.2 = true := by
  induction ls generalizing i s shapes with
  | nil =>
      rw [validateLayers, Except.ok.injEq, LayerSpec.Reaches, eq_comm]
      exact ⟨fun h => ⟨h, by simp [h], by simp⟩, And.left⟩
  | cons l ls ih =>
      obtain ⟨hfault, hfaults⟩ := List.forall_mem_cons.mp hl
      have hinner : ¬(l.activation? = some .softmax ∧ i ≠ last) := by
        rintro ⟨hsoft, hi⟩
        cases ls with
        | nil => exact hi (Nat.succ.inj hlast)
        | cons k ls => exact (List.forall_mem_cons.mp ha).1 hsoft
      have hiff : ∀ {s' rest}, s'.isEmpty = false → (validateLayers last (i + 1) s' ls = .ok rest ↔
          LayerSpec.Reaches s' ls rest ∧ (∀ r ∈ rest, r.isCountable = true) ∧
            ∀ p ∈ ls.zip (s' :: rest), p.1.windowsCountable p.2 = true) := fun hs' => by
        refine ih hs' hfaults (fun k hk => ha k ?_) ?_
        · cases ls with
          | nil => cases hk
          | cons => exact List.mem_cons_of_mem _ hk
        · rw [← hlast, List.length_cons, Nat.add_assoc, Nat.add_comm 1]
      rw [validateLayers_cons]
      constructor
      · rintro ⟨-, -, s', rest, ho, h, rfl⟩
        obtain ⟨ht, hwindow, hcount, hs'⟩ := LayerSpec.turns_of_outputShape ho
        obtain ⟨hreach, hcounts, hwindows⟩ := (hiff hs').mp h
        rw [List.zip_cons_cons]
        exact ⟨⟨s', rest, ht, hs', hreach, rfl⟩, List.forall_mem_cons.mpr ⟨hcount, hcounts⟩,
          List.forall_mem_cons.mpr ⟨hwindow, hwindows⟩⟩
      · rintro ⟨⟨s', rest, ht, hs', hreach, rfl⟩, hall, hwindows⟩
        rw [List.zip_cons_cons] at hwindows
        obtain ⟨hcount, hcounts⟩ := List.forall_mem_cons.mp hall
        obtain ⟨hwindow, hwindows⟩ := List.forall_mem_cons.mp hwindows
        refine ⟨hfault, hinner, s', rest, ?_, (hiff hs').mpr ⟨hreach, hcounts, hwindows⟩, rfl⟩
        rw [LayerSpec.outputShape_of_turns hfault hs ht]
        exact requireWord_bind_eq_ok.mpr ⟨hwindow, LayerSpec.filled_eq_ok.mpr ⟨rfl, hcount, hs'⟩⟩

theorem validate_of_valid (hv : m.Valid shapes) (hloss : m.loss = .categoricalCrossentropy)
    (ho : m.outputsSoftmax = true) : m.validate = .ok shapes := by
  refine requireWord_bind_eq_ok.mpr ⟨hv.countable, ?_⟩
  dsimp only
  rw [if_neg (by simp [hv.input]), if_neg (by simpa using hv.layers), hv.chain, ok_bind, hloss, ho]
  dsimp only
  rw [hv.output]
  rfl

end ModelSpec

section Count

variable {α : Type} {s : Shape} {specs : List (LayerSpec α)} {ls : List (Layer α)}

theorem Layer.Realizes.parameterCount {l : Layer α} {spec : LayerSpec α} (h : l.Realizes spec s) :
    l.parameterCount = (spec.bufferSizes s).sum := by
  cases h with
  | conv l hk hb => simp [Layer.parameterCount, LayerSpec.bufferSizes, hk, hb, Convolution.kernelLength]
  | dense l hl =>
      have hweights : l.weights.data.size = l.weights.rows * l.weights.cols := hl.weights
      have hinput : (Shape.flat l.weights.rows).size = l.weights.rows := by simp [Shape.flat, Shape.size]
      simp [Layer.parameterCount, LayerSpec.bufferSizes, hweights, hl.biases, hinput]
  | pool | flatten | dropout | pointwise => rfl

namespace Network

theorem LayersRealize.parameterCount (h : LayersRealize s specs ls) : ls.map Layer.parameterCount =
    (specs.zip (s :: ls.map Layer.outputShape)).map fun p => (p.1.bufferSizes p.2).sum := by
  induction ls generalizing s specs with
  | nil =>
      obtain rfl := h.nil_of_nil rfl
      rfl
  | cons l ls ih =>
      cases specs with
      | nil => exact h.elim
      | cons spec specs =>
          obtain ⟨hr, -, hrest⟩ := h
          rw [List.map_cons, List.map_cons, List.zip_cons_cons, List.map_cons, hr.parameterCount, ih hrest]

theorem parameterCount_eq (net : Network α) : net.parameterCount = (net.layers.map Layer.parameterCount).sum := by
  rw [Network.parameterCount, List.sum_eq_foldl, List.foldl_map]

theorem Realizes.parameterCount [Scalar α] {net : Network α} {m : ModelSpec α} {shapes : List Shape}
    (hr : net.Realizes m) (hv : m.Valid shapes) : net.parameterCount =
      ((m.layers.zip (m.inputShape :: shapes)).map fun p => (p.1.bufferSizes p.2).sum).sum := by
  rw [parameterCount_eq, hr.layers.parameterCount, ← (hr.chained hv).2]

end Network

end Count

namespace ModelSpec

variable {s : Shape} {n : Nat} {shapes : List Shape}

def smallCnnShapes (s : Shape) (n : Nat) : List Shape :=
  [⟨s.height, s.width, 32⟩, ⟨s.height / 2, s.width / 2, 32⟩, ⟨s.height / 2, s.width / 2, 64⟩,
    ⟨s.height / 4, s.width / 4, 64⟩, .flat (64 * (s.height / 4) * (s.width / 4)), .flat 128, .flat 128, .flat n]

theorem smallCnn_faults (hn : 1 ≤ n) : ∀ l ∈ (smallCnn s n : ModelSpec Float).layers, l.fault? = none := by
  have hhalf : Scalar.inUnit (0.5 : Float) = true := by rfl
  simp [smallCnn, hhalf, LayerSpec.fault?, Nat.one_le_iff_ne_zero.mp hn]

theorem reaches_smallCnn : LayerSpec.Reaches s (smallCnn s n : ModelSpec Float).layers shapes ↔
    4 ≤ s.height ∧ 4 ≤ s.width ∧ 1 ≤ n ∧ shapes = smallCnnShapes s n := by
  have hquarter : ∀ m : Nat, m / 2 / 2 = m / 4 := fun m => Nat.div_div_eq_div_mul m 2 2
  have hhalf : ∀ m : Nat, 2 ≤ m / 2 ↔ 4 ≤ m := fun m => by omega
  have hsize : (⟨s.height / 4, s.width / 4, 64⟩ : Shape).size = 64 * (s.height / 4) * (s.width / 4) := by
    simp only [Shape.size]
    ring
  have hfull : 4 ≤ s.height → 4 ≤ s.width → (⟨s.height / 4, s.width / 4, 64⟩ : Shape).isEmpty = false := fun hh hw =>
    Shape.isEmpty_eq_false.mpr ⟨Nat.div_pos hh (by decide), Nat.div_pos hw (by decide), Nat.succ_pos 63⟩
  constructor
  · intro h
    obtain ⟨-, -, rest₁, h₁, rfl⟩ := (LayerSpec.reaches_block (by decide)).mp h
    obtain ⟨hh, hw, rest₂, h₂, rfl⟩ := (LayerSpec.reaches_block (by decide)).mp h₁
    rw [hhalf] at hh hw
    rw [hquarter, hquarter] at h₂
    obtain ⟨hn, rfl⟩ := (LayerSpec.reaches_classifier (hfull hh hw) (by decide)).mp h₂
    refine ⟨hh, hw, hn, ?_⟩
    rw [hquarter, hquarter, hsize, smallCnnShapes]
  · rintro ⟨hh, hw, hn, rfl⟩
    have hrest : LayerSpec.Reaches ⟨s.height / 4, s.width / 4, 64⟩
        [.flatten, .dense 128 .relu, .dropout (0.5 : Float), .dense n .softmax] _ :=
      (LayerSpec.reaches_classifier (hfull hh hw) (by decide)).mpr ⟨hn, rfl⟩
    rw [← hquarter, ← hquarter] at hrest
    have hsecond := (LayerSpec.reaches_block (s := ⟨s.height / 2, s.width / 2, 32⟩) (f := 64) (a := .relu) (k := .max)
      (by decide)).mpr ⟨(hhalf _).mpr hh, (hhalf _).mpr hw, _, hrest, rfl⟩
    have hfirst := (LayerSpec.reaches_block (s := s) (f := 32) (a := .relu) (k := .max) (by decide)).mpr
      ⟨by omega, by omega, _, hsecond, rfl⟩
    rw [hquarter, hquarter, hsize] at hfirst
    exact hfirst

/-- Whether the sizes of the small network are numbers of 64 bits. The largest are the image and what the first layer
makes of it. -/
def SmallCnnCountable (s : Shape) (n : Nat) : Prop := s.height * s.width * max s.channels 32 < 2 ^ 64 ∧ n < 2 ^ 64

theorem isCountable_of_le {r : Shape} {m : Nat} (hr : r.height * r.width ≤ m) (hsize : r.size ≤ m) (hm : m < 2 ^ 64) :
    r.isCountable = true := by
  simp only [Shape.isCountable, Bool.and_eq_true, isUnsigned_iff]
  exact ⟨hr.trans_lt hm, hsize.trans_lt hm⟩

theorem lt_of_isCountable {r : Shape} (h : r.isCountable = true) : r.size < 2 ^ 64 := by
  simp only [Shape.isCountable, Bool.and_eq_true, isUnsigned_iff] at h
  exact h.2

theorem isCountable_flat {n : Nat} : (Shape.flat n).isCountable = true ↔ n < 2 ^ 64 := by
  simp [Shape.isCountable, Shape.flat, Shape.size]

theorem smallCnn_countable : (s.isCountable = true ∧ ∀ r ∈ smallCnnShapes s n, r.isCountable = true) ↔
    SmallCnnCountable s n := by
  constructor
  · rintro ⟨hs, hall⟩
    refine ⟨?_, isCountable_flat.mp (hall _ (by simp [smallCnnShapes]))⟩
    rcases max_cases s.channels 32 with ⟨hmax, -⟩ | ⟨hmax, -⟩
    · rw [hmax]
      exact lt_of_isCountable hs
    · rw [hmax]
      exact lt_of_isCountable (hall ⟨s.height, s.width, 32⟩ (by simp [smallCnnShapes]))
  · rintro ⟨hs, hn⟩
    obtain ⟨area, harea⟩ : ∃ area, area = s.height * s.width := ⟨_, rfl⟩
    have hquarter : ∀ k, 0 < k → k * k * (s.height / k * (s.width / k)) ≤ area := fun k hk => by
      calc k * k * (s.height / k * (s.width / k)) = s.height / k * k * (s.width / k * k) := by ring
        _ ≤ s.height * s.width := Nat.mul_le_mul (Nat.div_mul_le_self _ _) (Nat.div_mul_le_self _ _)
        _ = area := harea.symm
    have h₂ := hquarter 2 two_pos
    have h₄ := hquarter 4 (by decide)
    have hall : area * 32 < 2 ^ 64 := harea ▸ (Nat.mul_le_mul_left _ (le_max_right _ _)).trans_lt hs
    have hsize : s.size ≤ s.height * s.width * max s.channels 32 := Nat.mul_le_mul_left _ (le_max_left _ _)
    refine ⟨isCountable_of_le (Nat.le_mul_of_pos_right _ (lt_max_of_lt_right (by decide))) hsize hs, ?_⟩
    simp only [smallCnnShapes, List.forall_mem_cons, List.not_mem_nil, false_imp_iff, implies_true, and_true,
      isCountable_flat]
    have hmap : ∀ {a b c : Nat}, 0 < c → a * b * c ≤ area * 32 → (⟨a, b, c⟩ : Shape).isCountable = true :=
      fun hc h => isCountable_of_le ((Nat.le_mul_of_pos_right _ hc).trans h) h hall
    refine ⟨hmap (by decide) ?_, hmap (by decide) ?_, hmap (by decide) ?_, hmap (by decide) ?_, ?_, by decide,
      by decide, hn⟩
    · rw [harea]
    · omega
    · omega
    · omega
    · rw [Nat.mul_assoc]
      omega

theorem smallCnn_windows (hcount : SmallCnnCountable s n) (hh : 4 ≤ s.height) (hw : 4 ≤ s.width) :
    ∀ p ∈ (smallCnn s n : ModelSpec Float).layers.zip (s :: smallCnnShapes s n), p.1.windowsCountable p.2 = true := by
  have harea : s.height * s.width * 32 < 2 ^ 64 := (Nat.mul_le_mul_left _ (le_max_right _ _)).trans_lt hcount.1
  have hheight : s.height * 4 ≤ s.height * s.width := Nat.mul_le_mul_left _ hw
  have hwidth : 4 * s.width ≤ s.height * s.width := Nat.mul_le_mul_right _ hh
  have hsides : ∀ {a b : Nat}, a ≤ s.height → b ≤ s.width → ∀ c,
      Padding.same.isCountable ⟨a, b, c⟩ 3 1 = true := fun ha hb c => by
    simp only [Padding.isCountable, Padding.largest, Padding.windows, Bool.and_eq_true, isUnsigned_iff, Nat.pow_eq]
    omega
  simp only [smallCnn, smallCnnShapes, List.zip_cons_cons, List.zip_nil_left, List.forall_mem_cons, List.not_mem_nil,
    false_imp_iff, implies_true, true_and, and_true, LayerSpec.windowsCountable]
  exact ⟨hsides le_rfl le_rfl _, hsides (Nat.div_le_self _ _) (Nat.div_le_self _ _) _⟩

theorem smallCnn_valid : (smallCnn s n : ModelSpec Float).Valid shapes ↔
    (4 ≤ s.height ∧ 4 ≤ s.width ∧ 1 ≤ s.channels ∧ 1 ≤ n) ∧ SmallCnnCountable s n ∧ shapes = smallCnnShapes s n := by
  have hsoftmax : ∀ l ∈ (smallCnn s n : ModelSpec Float).layers.dropLast, l.activation? ≠ some .softmax := by
    simp [smallCnn, LayerSpec.activation?]
  have hchain : s.isEmpty = false → 1 ≤ n → (validateLayers 7 0 s (smallCnn s n : ModelSpec Float).layers = .ok shapes ↔
      LayerSpec.Reaches s (smallCnn s n : ModelSpec Float).layers shapes ∧ (∀ r ∈ shapes, r.isCountable = true) ∧
        ∀ p ∈ (smallCnn s n : ModelSpec Float).layers.zip (s :: shapes), p.1.windowsCountable p.2 = true) :=
    fun hs hn => validateLayers_eq_ok hs (smallCnn_faults hn) hsoftmax rfl
  constructor
  · intro h
    have hn : 1 ≤ n := by
      have hdense := fault_of_validateLayers h.chain (.dense n .softmax) (by simp [smallCnn])
      simpa [LayerSpec.fault?, Nat.one_le_iff_ne_zero] using hdense
    obtain ⟨hreach, hcounts, -⟩ := (hchain h.input hn).mp h.chain
    obtain ⟨hh, hw, -, rfl⟩ := reaches_smallCnn.mp hreach
    have hc := (Shape.isEmpty_eq_false.mp h.input).2.2
    exact ⟨⟨hh, hw, hc, hn⟩, smallCnn_countable.mp ⟨h.countable, hcounts⟩, rfl⟩
  · rintro ⟨⟨hh, hw, hc, hn⟩, hcount, rfl⟩
    obtain ⟨hcs, hcounts⟩ := smallCnn_countable.mpr hcount
    have hs : s.isEmpty = false := Shape.isEmpty_eq_false.mpr ⟨by omega, by omega, hc⟩
    have hreach := reaches_smallCnn.mpr ⟨hh, hw, hn, rfl⟩
    exact ⟨hcs, hs, List.cons_ne_nil _ _, (hchain hs hn).mpr ⟨hreach, hcounts, smallCnn_windows hcount hh hw⟩, rfl⟩

theorem smallCnn_sizes : (((smallCnn s n : ModelSpec Float).layers.zip (s :: smallCnnShapes s n)).map fun p =>
    (p.1.bufferSizes p.2).sum).sum = 9 * s.channels * 32 + 32 + 9 * 32 * 64 + 64 +
      64 * (s.height / 4) * (s.width / 4) * 128 + 128 + 128 * n + n := by
  simp only [smallCnn, smallCnnShapes, List.zip_cons_cons, List.zip_nil_left, List.map_cons, List.map_nil,
    List.sum_cons, List.sum_nil, LayerSpec.bufferSizes, Shape.flat, Shape.size]
  ring

/-- The small network is described rightly for just the images of four by four pixels and more, with a channel and a
class at least, whose sizes are numbers of 64 bits. Its layers then halve the image twice, and what is built, where
there are buffers for it, has as many parameters as the layers say. -/
theorem smallCnn_fits (s : Shape) (n : Nat) :
    ((∃ shapes, (smallCnn s n : ModelSpec Float).validate = .ok shapes) ↔
      (4 ≤ s.height ∧ 4 ≤ s.width ∧ 1 ≤ s.channels ∧ 1 ≤ n) ∧ SmallCnnCountable s n) ∧
    ∀ shapes, (smallCnn s n : ModelSpec Float).validate = .ok shapes →
      shapes = [⟨s.height, s.width, 32⟩, ⟨s.height / 2, s.width / 2, 32⟩, ⟨s.height / 2, s.width / 2, 64⟩,
        ⟨s.height / 4, s.width / 4, 64⟩, .flat (64 * (s.height / 4) * (s.width / 4)), .flat 128, .flat 128, .flat n] ∧
      (smallCnn s n : ModelSpec Float).outputSize = .ok n ∧
      ((smallCnn s n : ModelSpec Float).Storable shapes → ∀ source, ∃ net source',
        Network.build Weights.glorotUniform (smallCnn s n) source = .ok (net, source')) ∧
      ∀ source net source', Network.build Weights.glorotUniform (smallCnn s n) source = .ok (net, source') →
        net.parameterCount = 9 * s.channels * 32 + 32 + 9 * 32 * 64 + 64 + 64 * (s.height / 4) * (s.width / 4) * 128 +
          128 + 128 * n + n := by
  refine ⟨⟨?_, ?_⟩, fun shapes h => ?_⟩
  · rintro ⟨shapes, h⟩
    obtain ⟨hsizes, hcount, -⟩ := smallCnn_valid.mp (valid_of_validate h)
    exact ⟨hsizes, hcount⟩
  · rintro ⟨hsizes, hcount⟩
    exact ⟨_, validate_of_valid (smallCnn_valid.mpr ⟨hsizes, hcount, rfl⟩) rfl rfl⟩
  have hv := valid_of_validate h
  obtain ⟨-, -, rfl⟩ := smallCnn_valid.mp hv
  refine ⟨rfl, outputSize_eq_ok.mpr ⟨_, h, ?_⟩, fun hroom source => ?_, fun source net source' hbuild => ?_⟩
  · simp [smallCnnShapes, Shape.flat, Shape.size]
  · exact Network.build_answers Weights.glorotUniform_draws h hroom source
  · have hr := Network.build_realizes Weights.glorotUniform_draws hbuild
    exact (hr.parameterCount hv).trans smallCnn_sizes

theorem smallCnn_fits_narrow : ∃ net source, Network.build Weights.glorotUniform (smallCnn ⟨5, 9, 3⟩ 4) (.ofSeed 0) =
    .ok (net, source) ∧ net.parameterCount = 36420 ∧ (smallCnn ⟨5, 9, 3⟩ 4 : ModelSpec Float).validate = .ok
      [⟨5, 9, 32⟩, ⟨2, 4, 32⟩, ⟨2, 4, 64⟩, ⟨1, 2, 64⟩, .flat 128, .flat 128, .flat 128, .flat 4] := by
  obtain ⟨haccepts, hrest⟩ := smallCnn_fits ⟨5, 9, 3⟩ 4
  obtain ⟨shapes, h⟩ := haccepts.mpr ⟨by decide, by decide, by decide⟩
  obtain ⟨rfl, -, hbuilds, hcount⟩ := hrest shapes h
  obtain ⟨net, source, hbuild⟩ := hbuilds ⟨by decide, by decide⟩ (.ofSeed 0)
  exact ⟨net, source, hbuild, hcount _ _ _ hbuild, h⟩

theorem buildLayers_append {ls rest : List (LayerSpec Float)} {s : Shape} {shapes : List Shape} (hs : s.isEmpty = false)
    (hl : ∀ l ∈ ls, l.fault? = none) (hr : LayerSpec.Reaches s ls shapes)
    (hroom : ∀ p ∈ ls.zip (s :: shapes), ∀ n ∈ p.1.bufferSizes p.2, Buffer.fits n = true)
    (h : ∀ source, Network.buildLayers Weights.glorotUniform (shapes.getLastD s) source rest = .error .misuse)
    (source : Stream) : Network.buildLayers Weights.glorotUniform s source (ls ++ rest) = .error .misuse := by
  induction ls generalizing s shapes source with
  | nil =>
      obtain rfl := hr
      exact h source
  | cons l ls ih =>
      obtain ⟨hfault, hfaults⟩ := List.forall_mem_cons.mp hl
      obtain ⟨s', shapes', ht, hs', hr', rfl⟩ := hr
      rw [List.zip_cons_cons] at hroom
      obtain ⟨hone, hrooms⟩ := List.forall_mem_cons.mp hroom
      obtain ⟨k, source', hk, hout⟩ := LayerSpec.exists_build Weights.glorotUniform_draws hfault hs ht hs' hone source
      rw [List.getLastD_cons] at h
      rw [List.cons_append, Network.buildLayers, hk, ok_bind]
      dsimp only
      rw [hout, ok_bind, ih hs' hfaults hr' hrooms h source', error_bind]

/-- An image of `2 ^ 32` by `2 ^ 32` pixels has a size of more than 64 bits, and its description is not accepted. One of
`2 ^ 26` by `2 ^ 26` is, but no buffer holds the weights behind it. -/
theorem smallCnn_without_room : (smallCnn ⟨2 ^ 32, 2 ^ 32, 1⟩ 10 : ModelSpec Float).validate = .error .overflow ∧
    (∃ shapes, (smallCnn ⟨2 ^ 26, 2 ^ 26, 1⟩ 10 : ModelSpec Float).validate = .ok shapes) ∧
    ∀ source, Network.build Weights.glorotUniform (smallCnn ⟨2 ^ 26, 2 ^ 26, 1⟩ 10) source = .error .misuse := by
  obtain ⟨s, hs⟩ : ∃ s : Shape, s = ⟨2 ^ 26, 2 ^ 26, 1⟩ := ⟨_, rfl⟩
  have hval : (smallCnn s 10 : ModelSpec Float).validate = .ok (smallCnnShapes s 10) := by
    subst hs
    exact validate_of_valid (smallCnn_valid.mpr ⟨by decide, ⟨by decide, by decide⟩, rfl⟩) rfl rfl
  have hmaps : LayerSpec.Reaches s ((smallCnn s 10 : ModelSpec Float).layers.take 5) ((smallCnnShapes s 10).take 5) := by
    subst hs
    refine (LayerSpec.reaches_block (by decide)).mpr ⟨by decide, by decide, _, ?_, rfl⟩
    refine (LayerSpec.reaches_block (by decide)).mpr ⟨by decide, by decide, _, ?_, rfl⟩
    exact ⟨_, _, rfl, by decide, rfl, rfl⟩
  have hlast : ∀ source, Network.buildLayers Weights.glorotUniform (((smallCnnShapes s 10).take 5).getLastD s) source
      [.dense 128 .relu, .dropout (0.5 : Float), .dense 10 .softmax] = .error .misuse := fun source => by
    have hfull : Buffer.fits ((Shape.flat (64 * 2 ^ 24 * 2 ^ 24)).size * 128) = false := by decide
    have hshape : ((smallCnnShapes s 10).take 5).getLastD s = .flat (64 * 2 ^ 24 * 2 ^ 24) := by
      subst hs
      rfl
    rw [hshape, Network.buildLayers, LayerSpec.build]
    simp only [hfull, require_false, error_bind]
  rw [← hs]
  refine ⟨by rfl, ⟨_, hval⟩, fun source => ?_⟩
  have hlayers := buildLayers_append (by rw [hs]; decide)
    (fun l hl => smallCnn_faults (s := s) (n := 10) (by decide) l (List.mem_of_mem_take hl)) hmaps
    (by subst hs; decide) hlast source
  rw [Network.build, hval, ok_bind]
  exact congrArg (· >>= _) hlayers

end ModelSpec

end Convnet
