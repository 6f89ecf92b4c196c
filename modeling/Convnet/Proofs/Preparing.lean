import Convnet.Proofs.Spread
import Convnet.Proofs.Steady
import Convnet.Run.Experiment

namespace Convnet

section Datasets

variable {α : Type} {d : Dataset α} {k : Benchmark}

/-- A dataset as one of a kind is to be: whole images of its shape, and its classes. -/
structure Dataset.Of (k : Benchmark) (d : Dataset α) : Prop where
  whole : d.Whole
  shape : d.shape = k.inputShape
  classes : d.numClasses = k.numClasses

theorem mem_of_mem_drop {β : Type} {xs : Array β} {n : Nat} {x : β} (h : x ∈ xs.drop n) : x ∈ xs := by
  rw [Array.drop_eq_extract, ← Array.mem_toList_iff, Array.toList_extract] at h
  exact Array.mem_toList_iff.mp (List.mem_of_mem_drop (List.mem_of_mem_take h))

theorem Dataset.Of.take (h : d.Of k) (n : Nat) : (d.take n).Of k := ⟨h.whole.take n, h.shape, h.classes⟩

theorem Dataset.Of.drop (h : d.Of k) (n : Nat) : (d.drop n).Of k where
  whole := {
    labels := by simp [Dataset.drop, h.whole.labels]
    images x hx := h.whole.images x (mem_of_mem_drop hx)
    classes c hc := h.whole.classes c (mem_of_mem_drop hc)
    several := h.whole.several }
  shape := h.shape
  classes := h.classes

theorem Dataset.Of.limit (h : d.Of k) (n : Option Nat) : (Experiment.limit n d).Of k := by
  cases n with
  | none => exact h
  | some n => exact h.take n

theorem Dataset.size_limit_le (n : Option Nat) (d : Dataset α) : (Experiment.limit n d).size ≤ d.size := by
  cases n with
  | none => exact le_rfl
  | some n =>
      rw [Experiment.limit, Dataset.size, Dataset.take, Array.take_eq_extract, Array.size_extract]
      exact (Nat.sub_le _ _).trans (Nat.min_le_right _ _)

variable [Scalar α]

theorem Dataset.Raw.limit (h : d.Raw) (n : Option Nat) : (Experiment.limit n d).Raw := by
  cases n with
  | none => exact h
  | some n => exact ⟨h.whole.take n, fun x hx => h.images x (mem_of_mem_take hx)⟩

theorem Scaling.shape_applyTensor (s : Scaling α) (x : Tensor α) : (s.applyTensor x).shape = x.shape := by
  rw [applyTensor]
  split <;> rfl

theorem Scaling.sized_applyTensor (s : Scaling α) {x : Tensor α} (h : x.Sized) : (s.applyTensor x).Sized := by
  rw [applyTensor]
  split
  · exact h
  · exact Array.size_map.trans h

theorem Dataset.Of.scaled (h : d.Of k) (s : Scaling α) : (s.apply d).Of k where
  whole := {
    labels := by simp [Scaling.apply, h.whole.labels]
    images x hx := by
      obtain ⟨y, hy, rfl⟩ := Array.mem_map.mp hx
      obtain ⟨hshape, hsized⟩ := h.whole.images y hy
      exact ⟨(s.shape_applyTensor y).trans hshape, s.sized_applyTensor hsized⟩
    classes := h.whole.classes
    several := h.whole.several }
  shape := h.shape
  classes := h.classes

theorem Benchmark.load_of {directory : String} {disk : Disk} {train test : Dataset α}
    (h : k.load disk directory = .ok (train, test)) : (train.Raw ∧ train.Of k) ∧ test.Raw ∧ test.Of k := by
  obtain ⟨htrain, htest⟩ := load_eq_ok.mp h
  obtain ⟨hraw, hshape, hclasses, -⟩ := loadSplit_raw htrain
  obtain ⟨hraw', hshape', hclasses', -⟩ := loadSplit_raw htest
  exact ⟨⟨hraw, hraw.whole, hshape, hclasses⟩, hraw', hraw'.whole, hshape', hclasses'⟩

theorem Scaling.size_apply (s : Scaling α) (d : Dataset α) : (s.apply d).size = d.size := Array.size_map

end Datasets

section Settings

variable {α : Type} [Scalar α]

theorem ModelSpec.outputSize_eq_ok {m : ModelSpec α} {n : Nat} :
    m.outputSize = .ok n ↔ ∃ shapes, m.validate = .ok shapes ∧ (shapes.getLast?.map Shape.size).getD 0 = n := by
  rw [outputSize, bind_eq_ok]
  refine exists_congr fun shapes => and_congr_right fun _ => ?_
  rw [pure_eq_ok_iff, eq_comm]
  cases shapes.getLast? <;> rfl

structure RunConfig.Accepted (c : RunConfig α) : Prop where
  epochs : c.training.epochs ≠ 0
  batchSize : c.training.batchSize ≠ 0
  split : Scalar.inUnit c.training.validationSplit = true
  input : c.modelSpec.inputShape = c.data.kind.inputShape
  outputs : c.modelSpec.outputSize = .ok c.data.kind.numClasses

theorem RunConfig.accepted_of_validate {c : RunConfig α} (h : c.validate = .ok ()) : c.Accepted := by
  obtain ⟨_, htraining, hmodel⟩ := bind_eq_ok.mp h
  unfold checkTraining at htraining
  unfold checkModel at hmodel
  by_cases hepochs : c.training.epochs = 0
  · simp [hepochs] at htraining
  by_cases hbatch : c.training.batchSize = 0
  · simp [hepochs, hbatch] at htraining
  cases hsplit : Scalar.inUnit c.training.validationSplit with
  | false => simp [hepochs, hbatch, hsplit] at htraining
  | true =>
      by_cases hinput : c.modelSpec.inputShape = c.data.kind.inputShape
      · simp only [hinput, ne_eq, not_true, if_false] at hmodel
        obtain ⟨n, hn, hmodel⟩ := bind_eq_ok.mp hmodel
        by_cases hclasses : n = c.data.kind.numClasses
        · exact ⟨hepochs, hbatch, hsplit, hinput, hclasses ▸ hn⟩
        · simp [hclasses] at hmodel
      · simp [hinput] at hmodel

end Settings

section Doubles

open Rounding

def Dataset.Held {α : Type} (d : Dataset α) : Prop := 8 * (d.size * d.shape.size) < 2 ^ 64

theorem number_of_inUnit {x : Float} (h : Scalar.inUnit x = true) : 0 ≤ number x ∧ number x < 1 := by
  obtain ⟨hlow, hhigh⟩ : ¬ x < (0.0 : Float) ∧ x < (1.0 : Float) := by
    rw [Scalar.inUnit, Bool.and_eq_true, Bool.not_eq_true', decide_eq_false_iff_not, decide_eq_true_eq] at h
    exact h
  have hx := Binary64.isFinite_of_inUnit h
  rw [lt_iff_number hx rfl, number_zero, not_lt] at hlow
  rw [lt_iff_number hx rfl, number_one] at hhigh
  exact ⟨hlow, hhigh⟩

/-- A share of a count that doubles can tell from its neighbours is not rounded above the count. -/
theorem floor_share_le {n : Nat} {f : Float} (hn : n < 2 ^ 53) (hf : Scalar.inUnit f = true) :
    (Binary64.ofFloat (Float.ofNat n * (1.0 - f))).floorNat ≤ n := by
  obtain ⟨hlow, hhigh⟩ := number_of_inUnit hf
  have hcount := nearest_small hn
  have hnumber := hcount.exact (grid_natCast hn)
  have hone : |number 1.0 - number f| ≤ 1 := by
    rw [number_one, abs_le]
    constructor <;> linarith
  have hlimit : (1 : ℝ) ≤ 2 ^ (1023 : ℤ) := one_le_zpow₀ (by norm_num) (by norm_num)
  have hrest := nearest_sub (x := 1.0) rfl (Binary64.isFinite_of_inUnit hf) (hone.trans hlimit)
  have hunit : |number (1.0 - f)| ≤ 1 := hrest.closest.bound (by exact_mod_cast grid_natCast (n := 1) (by decide)) hone
  have hshare : |number (Float.ofNat n) * number (1.0 - f)| ≤ n := by
    rw [abs_mul, hnumber, Nat.abs_cast]
    exact mul_le_of_le_one_right (Nat.cast_nonneg n) hunit
  have hprod := nearest_mul hcount.finite hrest.finite (hshare.trans ((le_abs_self _).trans
    (natCast_le_two_zpow (hn.trans (by norm_num)))))
  exact floorNat_le hprod.finite ((le_abs_self _).trans (hprod.closest.bound (grid_natCast hn) hshare))

theorem Dataset.splitValidation_eq {d : Dataset Float} {f : Float} (hd : d.size < 2 ^ 53)
    (hf : Scalar.inUnit f = true) : ∃ kept, d.splitValidation f = .ok (d.take kept, d.drop kept) := by
  refine ⟨Scalar.floor ((d.size : Float) * (1 - f)), ?_⟩
  have hle : Scalar.floor ((d.size : Float) * (1 - f)) ≤ d.size := floor_share_le hd hf
  simp only [splitValidation, hf, Bool.not_true, Bool.false_eq_true, if_false]
  exact require_bind_eq_ok.mpr ⟨decide_eq_true hle, rfl⟩

theorem Dataset.size_of_splitValidation {α : Type} [Scalar α] {d kept rest : Dataset α} {f : α}
    (h : d.splitValidation f = .ok (kept, rest)) : kept.size ≤ d.size := by
  unfold splitValidation at h
  dsimp only at h
  split at h
  · cases h
  · obtain ⟨-, h⟩ := require_bind_eq_ok.mp h
    obtain ⟨⟩ := pure_eq_ok_iff.mp h
    exact size_limit_le (some _) d

theorem Preprocessing.length_pixels {d : Dataset Float} (h : d.Whole) : (pixels d).length = d.size * d.shape.size := by
  have hsize : ∀ x ∈ d.images.toList, x.data.toList.length = d.shape.size := by
    intro x hx
    obtain ⟨hshape, hsized⟩ := h.images x (Array.mem_toList_iff.mp hx)
    rw [Array.length_toList, ← hshape]
    exact hsized
  rw [pixels, List.length_flatMap, List.map_congr_left hsize, List.map_const', List.sum_replicate, smul_eq_mul,
    Array.length_toList]
  rfl

def Scaling.Finite (s : Scaling Float) : Prop := s.offset.isFinite = true ∧ s.scale.isFinite = true

namespace Preprocessing

variable {p : Preprocessing} {d : Dataset Float}

theorem fit_finite (hd : d.Raw) {s : Scaling Float} (h : p.fit d = .ok s) : s.Finite := by
  cases p with
  | normalize =>
      obtain rfl := Except.ok.inj h
      exact ⟨rfl, (within_byte (n := 255) (by decide)).1.finite⟩
  | none =>
      obtain rfl := Except.ok.inj h
      exact ⟨rfl, rfl⟩
  | standardize =>
      have hm := measured_of_bytes (bytes_of_raw hd.images)
      rw [fit] at h
      dsimp only at h
      split at h
      · obtain rfl := Except.ok.inj h
        exact ⟨hm.mean.finite, hm.deviation.finite⟩
      · cases h

theorem equal_of_fit (hd : d.Raw) (hheld : d.Held) {e : Error} (h : p.fit d = .error e) :
    e = .dataset .zeroVariance ∧ p = .standardize ∧ ∀ v ∈ pixels d, ∀ w ∈ pixels d, v = w := by
  cases p with
  | normalize | none => cases h
  | standardize =>
      rw [fit] at h
      dsimp only at h
      split at h
      case isTrue => cases h
      case isFalse hvar =>
        refine ⟨(Except.error.inj h).symm, rfl, fun v hv w hw => ?_⟩
        by_contra hne
        have hlength : (pixels d).length < 2 ^ 64 := by
          rw [length_pixels hd.whole]
          rw [Dataset.Held] at hheld
          omega
        exact hvar (deviation_pos (bytes_of_raw hd.images) hlength hv hw hne)

end Preprocessing

end Doubles

section Networks

variable {α : Type} [Scalar α] {net : Network α} {m : ModelSpec α} {shapes : List Shape}

/-- Whether there is room for the buffers of the model, and for the rows of its optimizer. -/
structure RunConfig.Roomy (c : RunConfig α) : Prop where
  model : ∀ shapes, c.modelSpec.validate = .ok shapes → c.modelSpec.Storable shapes
  optimizer : Optimizer.rowBytes * (2 * c.modelSpec.layers.length) < Nat.pow 2 63

omit [Scalar α] in
theorem Network.LayersRealize.length {s : Shape} {specs : List (LayerSpec α)} {ls : List (Layer α)}
    (h : LayersRealize s specs ls) : ls.length = specs.length := by
  induction ls generalizing s specs with
  | nil =>
      obtain rfl := h.nil_of_nil rfl
      rfl
  | cons l ls ih =>
      cases specs with
      | nil => exact h.elim
      | cons spec specs => rw [List.length_cons, List.length_cons, ih h.2.2]

theorem Network.length_parameters_le (net : Network α) : net.parameters.length ≤ 2 * net.layers.length := by
  rw [parameters]
  induction net.layers with
  | nil => exact Nat.le_refl 0
  | cons l ls ih =>
      have hl : l.ready.parameters.length ≤ 2 := by cases l <;> simp [Layer.ready, Layer.parameters]
      rw [List.flatMap_cons, List.length_append, List.length_cons]
      omega

omit [Scalar α] in
theorem Summary.rowsFrom_answers (before : List String) {ls : List (Layer α)} (h : ∀ l ∈ ls, l.Sound) :
    ∃ rows, rowsFrom before ls = .ok rows := by
  induction ls generalizing before with
  | nil => exact ⟨[], rfl⟩
  | cons l ls ih =>
      rw [List.forall_mem_cons] at h
      obtain ⟨rows, hrows⟩ := ih (l.kind :: before) h.2
      exact ⟨_, bind_eq_ok.mpr ⟨_, h.1.outputShape?, bind_eq_ok.mpr ⟨rows, hrows, rfl⟩⟩⟩

theorem Summary.ofNetwork_answers (hr : net.Realizes m) (hv : m.Valid shapes) :
    ∃ summary, Summary.ofNetwork net = .ok summary := by
  obtain ⟨hc, -⟩ := hr.chained hv
  obtain ⟨rows, hrows⟩ := rowsFrom_answers [] hc.sound
  exact ⟨_, bind_eq_ok.mpr ⟨rows, hrows, rfl⟩⟩

theorem RunConfig.Accepted.outputSize {c : RunConfig α} (hc : c.Accepted) (hr : net.Realizes c.modelSpec) :
    net.outputSize = .ok c.data.kind.numClasses := by
  obtain ⟨shapes, hval, hsize⟩ := ModelSpec.outputSize_eq_ok.mp hc.outputs
  have hlast : (shapes.getLastD c.modelSpec.inputShape).size = c.data.kind.numClasses := by
    cases hnone : shapes.getLast? with
    | none =>
        rw [hnone] at hsize
        cases hsize
    | some s =>
        rw [hnone] at hsize
        rw [List.getLastD_eq_getLast?, hnone]
        exact hsize
  rw [hr.outputSize (ModelSpec.valid_of_validate hval), hlast]

theorem RunConfig.Accepted.suits {c : RunConfig α} (hc : c.Accepted) (hr : net.Realizes c.modelSpec)
    {d : Dataset α} (hd : d.Of c.data.kind) : d.Suits net where
  compatible := Network.checkCompatible_eq_ok.mpr
    ⟨hd.shape.trans (hc.input.symm.trans hr.inputShape.symm), hd.classes ▸ hc.outputSize hr⟩
  labels := hd.whole.labels
  images := hd.whole.images
  classes := hd.whole.classes

theorem RunConfig.Accepted.infers {c : RunConfig α} (hc : c.Accepted) (hr : net.Realizes c.modelSpec)
    (hroom : ∀ l ∈ net.layers, l.Roomy) : net.Infers c.data.kind.numClasses := by
  obtain ⟨shapes, hval, -⟩ := ModelSpec.outputSize_eq_ok.mp hc.outputs
  exact (hr.steady (ModelSpec.valid_of_validate hval)).infers hroom (hc.outputSize hr) (by cases c.data.kind <;> decide)

theorem RunConfig.Roomy.layers {c : RunConfig α} (h : c.Roomy) (hc : c.Accepted) (hr : net.Realizes c.modelSpec) :
    ∀ l ∈ net.layers, l.Roomy := by
  obtain ⟨shapes, hval, -⟩ := ModelSpec.outputSize_eq_ok.mp hc.outputs
  intro l hl
  exact (hr.storable (ModelSpec.valid_of_validate hval) (h.model shapes hval) l hl).roomy

end Networks

namespace Experiment

section Preparation

variable {α σ : Type} [Scalar α] [RandomSource σ] {world : Surroundings α σ} {c : RunConfig α}
  {train test : Dataset α} {p : Prepared α}

omit [RandomSource σ] in
theorem prepareData_eq_ok : prepareData world c train test = .ok p ↔ ∃ scaling kept rest net s',
    c.data.preprocessing.fit (limit c.data.limitTrain train) = .ok scaling ∧
    (scaling.apply (limit c.data.limitTrain train)).splitValidation c.training.validationSplit = .ok (kept, rest) ∧
    Network.build world.draw c.modelSpec (world.source c.training.seed) = .ok (net, s') ∧
    p = ⟨{ net with metadata := some (metadata c scaling) }, kept, rest,
      scaling.apply (limit c.data.limitTest test)⟩ := by
  rw [prepareData, bind_eq_ok]
  constructor
  · rintro ⟨⟨scaling, train', test'⟩, happly, h⟩
    obtain ⟨_, hfit, hdata⟩ := bind_eq_ok.mp happly
    obtain ⟨⟩ := pure_eq_ok_iff.mp hdata
    obtain ⟨⟨kept, rest⟩, hsplit, h⟩ := bind_eq_ok.mp h
    obtain ⟨net, hbuild, h⟩ := bind_eq_ok.mp h
    obtain ⟨⟨_, s'⟩, hbuild, hnet⟩ := bind_eq_ok.mp hbuild
    obtain ⟨⟩ := pure_eq_ok_iff.mp hnet
    exact ⟨scaling, kept, rest, _, s', hfit, hsplit, hbuild, pure_eq_ok_iff.mp h⟩
  · rintro ⟨scaling, kept, rest, net, s', hfit, hsplit, hbuild, rfl⟩
    refine ⟨(scaling, _, _), bind_eq_ok.mpr ⟨scaling, hfit, rfl⟩, bind_eq_ok.mpr ⟨(kept, rest), hsplit, ?_⟩⟩
    exact bind_eq_ok.mpr ⟨net, bind_eq_ok.mpr ⟨(net, s'), hbuild, rfl⟩, rfl⟩

omit [RandomSource σ] in
theorem size_of_prepareData (h : prepareData world c train test = .ok p) : p.train.size ≤ train.size := by
  obtain ⟨scaling, kept, rest, net, s', -, hsplit, -, rfl⟩ := prepareData_eq_ok.mp h
  have hkept := Dataset.size_of_splitValidation hsplit
  rw [Scaling.size_apply] at hkept
  exact hkept.trans (Dataset.size_limit_le _ _)

/-- Data that is ready to be trained on: datasets of one kind, and a network that the settings describe. -/
structure Ready (c : RunConfig α) (p : Prepared α) : Prop where
  train : p.train.Of c.data.kind
  validation : p.validation.Of c.data.kind
  test : p.test.Of c.data.kind
  network : p.network.Settled c.modelSpec

end Preparation

section Doubles

variable {σ : Type} [RandomSource σ] {world : Surroundings Float σ} {c : RunConfig Float}
  {train test : Dataset Float}

omit [RandomSource σ] in
/-- What was loaded is made ready, unless its pixels cannot be standardized. -/
theorem prepareData_cases (hdraw : Initializer.Draws world.draw) (hc : c.Accepted) (hroom : c.Roomy)
    (hraw : train.Raw) (hheld : train.Held) (htrain : train.Of c.data.kind) (htest : test.Of c.data.kind) :
    (prepareData world c train test = .error (.dataset .zeroVariance) ∧ c.data.preprocessing = .standardize ∧
      ∀ v ∈ Preprocessing.pixels (limit c.data.limitTrain train),
        ∀ w ∈ Preprocessing.pixels (limit c.data.limitTrain train), v = w) ∨
    ∃ p, prepareData world c train test = .ok p ∧ Ready c p := by
  have hle : (limit c.data.limitTrain train).size * train.shape.size ≤ train.size * train.shape.size :=
    Nat.mul_le_mul_right _ (Dataset.size_limit_le _ _)
  have hshape : (limit c.data.limitTrain train).shape = train.shape := by cases c.data.limitTrain <;> rfl
  have hheld' : (limit c.data.limitTrain train).Held := by
    rw [Dataset.Held] at hheld ⊢
    rw [hshape]
    omega
  have hfew : (limit c.data.limitTrain train).size < 2 ^ 53 := by
    have hpixels : 784 ≤ train.shape.size := by
      rw [htrain.shape]
      cases c.data.kind <;> decide
    rw [Dataset.Held] at hheld
    have := Nat.mul_le_mul_left (limit c.data.limitTrain train).size hpixels
    omega
  cases hfit : c.data.preprocessing.fit (limit c.data.limitTrain train) with
  | error e =>
      obtain ⟨rfl, hkind, hsame⟩ := Preprocessing.equal_of_fit (hraw.limit _) hheld' hfit
      refine .inl ⟨?_, hkind, hsame⟩
      rw [prepareData, Preprocessing.apply, hfit]
      rfl
  | ok scaling =>
      obtain ⟨shapes, hval, -⟩ := ModelSpec.outputSize_eq_ok.mp hc.outputs
      obtain ⟨kept, hsplit⟩ := Dataset.splitValidation_eq (d := scaling.apply (limit c.data.limitTrain train))
        (by rwa [Scaling.size_apply]) hc.split
      obtain ⟨net, s', hbuild⟩ := Network.build_answers hdraw hval (hroom.model shapes hval)
        (world.source c.training.seed)
      have hn : net.Settled c.modelSpec := ⟨Network.build_realizes hdraw hbuild, Network.build_cleared hdraw hbuild⟩
      have hof := (htrain.limit c.data.limitTrain).scaled scaling
      exact .inr ⟨_, prepareData_eq_ok.mpr ⟨scaling, _, _, net, s', hfit, hsplit, hbuild, rfl⟩, hof.take kept,
        hof.drop kept, (htest.limit c.data.limitTest).scaled scaling, hn.told _⟩

end Doubles

end Experiment

end Convnet
