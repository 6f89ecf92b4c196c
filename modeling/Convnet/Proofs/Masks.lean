import Mathlib
import Convnet.Proofs.Draws
import Convnet.Proofs.Operations

namespace Convnet

section Definitions

namespace RandomSource

variable {σ : Type} [RandomSource σ]

def after (s : σ) : Nat → σ
  | 0 => s
  | n + 1 => (fraction (after s n)).2

def nth {α : Type} [Scalar α] (s : σ) (n : Nat) : α := (unit (after s n)).1

end RandomSource

/-- A layer that infers, or factors for the values that come to it. -/
inductive MaskedLayer (α : Type)
  | layer (l : Layer α)
  | factors (mask : Array α)

namespace MaskedLayer

variable {α : Type} [Scalar α]

def run : MaskedLayer α → Tensor α → Result (Tensor α)
  | layer l, x => (l.forward x (.infer : Phase Stream)).map fun r => r.2.1
  | factors mask, x => .ok ⟨x.shape, Array.zipWith (· * ·) x.data mask⟩

def runAll : List (MaskedLayer α) → Tensor α → Result (Tensor α)
  | [], x => .ok x
  | k :: ks, x => do runAll ks (← k.run x)

end MaskedLayer

variable {α : Type} [Scalar α] {σ : Type} [RandomSource σ]

def Dropout.factorsFrom (l : Dropout α) (s : σ) (k : Nat) : Array α :=
  Array.ofFn fun i : Fin l.shape.size => if RandomSource.nth s (k + i) < l.rate then 0 else 1 / (1 - l.rate)

/-- Layers with factors in the place of each dropout layer. Layer by layer they take the draws of a source, from
draw `k` on. -/
def Layer.masked (s : σ) : Nat → List (Layer α) → List (MaskedLayer α)
  | _, [] => []
  | k, dropout l :: ls => .factors (l.factorsFrom s k) :: masked s (k + l.shape.size) ls
  | k, l :: ls => .layer l :: masked s k ls

def Network.drawCount (net : Network α) : Nat := (net.dropouts.map (·.2)).sum

end Definitions

section Draws

variable {α : Type} [Scalar α] {σ : Type} [RandomSource σ]

namespace RandomSource

theorem after_after (s : σ) (k n : Nat) : after (after s k) n = after s (k + n) := by
  induction n with
  | zero => rfl
  | succ n ih => rw [after, ih, ← Nat.add_assoc, after]

theorem nth_after (s : σ) (k n : Nat) : (nth (after s k) n : α) = nth s (k + n) := by
  rw [nth, nth, after_after]

end RandomSource

open RandomSource

theorem Dropout.drawMask_eq (rate : α) (n : Nat) (s : σ) :
    drawMask rate n s = (Array.ofFn fun i : Fin n => factor rate (nth s i), after s n) := by
  unfold drawMask
  induction n with
  | zero => rfl
  | succ n ih =>
      rw [Nat.fold_succ, ih, Array.ofFn_succ]
      rfl

theorem Dropout.drawMask_after (l : Dropout α) (s : σ) (k : Nat) :
    drawMask l.rate l.shape.size (after s k) = (l.factorsFrom s k, after s (k + l.shape.size)) := by
  rw [drawMask_eq, after_after]
  simp only [nth_after]
  rfl

omit [Scalar α] [RandomSource σ] in
theorem Buffer.zipKeep_eq_zipWith (f : α → α → α) {a b : Array α} (h : b.size = a.size) :
    zipKeep f a b = Array.zipWith f a b := by
  apply Array.ext
  · simp [h]
  · intro i hi _
    have hb : i < b.size := by simpa [h] using hi
    simp [zipKeep, hb]

theorem drawMasks_after (ds : List (α × Nat)) (s : σ) : (drawMasks ds s).2 = after s (ds.map (·.2)).sum := by
  induction ds generalizing s with
  | nil => rfl
  | cons d ds ih =>
      obtain ⟨rate, n⟩ := d
      rw [drawMasks, Dropout.drawMask_eq, List.map_cons, List.sum_cons, ← after_after]
      exact ih (after s n)

end Draws

section Stages

variable {α : Type} [Scalar α] {σ : Type} [RandomSource σ] {l : Layer α} {ls : List (Layer α)} {x : Tensor α} {s : σ}
  {shape : Shape}

open RandomSource

omit [RandomSource σ] in
theorem Convolution.map_forward (l : Convolution α) (x : Tensor α) :
    (l.forward x true).map (·.2) = (l.forward x false).map (·.2) := by
  rw [forward, forward, require_bind_map, require_bind_map]
  rfl

theorem Pooling.map_forward (l : Pooling) (x : Tensor α) :
    (l.forward x true).map (·.2) = (l.forward x false).map (·.2) := by
  rw [forward, forward, require_bind_map, require_bind_map]
  congr 1
  funext _
  dsimp only
  cases l.kind <;> rfl

theorem Dense.map_forward (l : Dense α) (x : Tensor α) :
    (l.forward x true).map (·.2) = (l.forward x false).map (·.2) := by
  rw [forward, forward, require_bind_map, require_bind_map]
  rfl

theorem Pointwise.map_forward (l : Pointwise α) (x : Tensor α) :
    (l.forward x true).map (·.2) = (l.forward x false).map (·.2) := by
  rw [forward, forward]
  cases Tensor.ofBuffer x.shape (l.activation.apply x.data) <;> rfl

omit [Scalar α] [RandomSource σ] in
theorem map_output {β γ ρ τ : Type} {r r' : Result (β × Tensor α)} (h : r.map (·.2) = r'.map (·.2)) (f : β → γ)
    (p : ρ) (q : τ) :
    (do let (l, y) ← r; return (f l, y, p)).map (fun t : γ × Tensor α × ρ => t.2.1) =
      (do let (l, y) ← r'; return (f l, y, q)).map (fun t : γ × Tensor α × τ => t.2.1) := by
  cases r with
  | error e =>
      cases r' with
      | error e' => exact congrArg Except.error (Except.error.inj h)
      | ok _ => cases h
  | ok _ =>
      cases r' with
      | error _ => cases h
      | ok _ => exact congrArg Except.ok (Except.ok.inj h)

namespace Layer

theorem forward_train (hl : l.dropout? = none) (x : Tensor α) (s : σ) :
    (l.forward x (.train s)).map (fun r => r.2.1) = (MaskedLayer.layer l).run x := by
  cases l with
  | conv l => exact map_output (l.map_forward x) _ _ _
  | pool l => exact map_output (l.map_forward x) _ _ _
  | flatten shape =>
      simp only [MaskedLayer.run, forward]
      cases x.reshape (.flat shape.size) <;> rfl
  | dense l => exact map_output (l.map_forward x) _ _ _
  | dropout l => cases hl
  | pointwise l => exact map_output (l.map_forward x) _ _ _

theorem masked_cons (hl : l.dropout? = none) (s : σ) (k : Nat) (ls : List (Layer α)) :
    masked s k (l :: ls) = .layer l :: masked s k ls := by
  cases l with
  | dropout l => cases hl
  | conv | pool | flatten | dense | pointwise => rfl

theorem forward_dropout (l : Dropout α) (hx : x.data.size = l.shape.size) (s : σ) (k : Nat) :
    (dropout l).forward x (.train (after s k)) =
      .ok (dropout { l with mask := l.factorsFrom s k },
        ⟨x.shape, Array.zipWith (· * ·) x.data (l.factorsFrom s k)⟩, .train (after s (k + l.shape.size))) := by
  have hsize : (l.factorsFrom s k).size = x.data.size := Array.size_ofFn.trans hx.symm
  rw [← Buffer.zipKeep_eq_zipWith _ hsize, forward, Dropout.forwardTraining, hx, l.drawMask_after]
  rfl

end Layer

namespace Network

theorem map_forwardLayers {l' : Layer α} {y : Tensor α} {phase phase' : Phase σ}
    (h : l.forward x phase = .ok (l', y, phase')) (ls : List (Layer α)) :
    (forwardLayers (l :: ls) x phase).map (fun r => r.2.1) = (forwardLayers ls y phase').map fun r => r.2.1 := by
  rw [forwardLayers, h, ok_bind]
  dsimp only
  cases forwardLayers ls y phase' <;> rfl

theorem forwardLayers_masked (hc : Chained shape ls) (hx : x.shape = shape) (hs : x.Sized) (s : σ) (k : Nat) :
    (forwardLayers ls x (.train (after s k))).map (fun r => r.2.1) = MaskedLayer.runAll (Layer.masked s k ls) x := by
  induction ls generalizing shape x k with
  | nil => rfl
  | cons l ls ih =>
      obtain ⟨hi, -, -, hc⟩ := hc
      have hxl : x.shape = l.inputShape := hx.trans hi.symm
      have hsize : x.data.size = l.inputShape.size := hxl ▸ hs
      by_cases hd : l.dropout? = none
      · rw [Layer.masked_cons hd, MaskedLayer.runAll, ← l.forward_train hd x (after s k)]
        cases hone : l.forward x (.train (after s k)) with
        | error e =>
            rw [forwardLayers, hone]
            rfl
        | ok r =>
            obtain ⟨l', y, phase⟩ := r
            have hp := Layer.passes_of_forward hone
            obtain ⟨-, -, rfl⟩ | ⟨_, _, hd', -⟩ := hp.draws hsize
            · rw [map_forwardLayers hone]
              exact ih hc (hp.shape hxl) (hp.sized hs) k
            · rw [hd] at hd'
              cases hd'
      · cases l with
        | conv | pool | flatten | dense | pointwise => exact absurd rfl hd
        | dropout l =>
            have hone := Layer.forward_dropout l hsize s k
            have hp := Layer.passes_of_forward hone
            rw [map_forwardLayers hone]
            exact ih hc (hp.shape hxl) (hp.sized hs) (k + l.shape.size)

/-- What a training pass leaves behind: each dropout layer keeps the factors that stand in its place. -/
theorem forwardLayers_factors {ks : List (Layer α)} {y : Tensor α} {phase : Phase σ} (hc : Chained shape ls)
    (hx : x.shape = shape) (hs : x.Sized) {s : σ} {k : Nat}
    (h : forwardLayers ls x (.train (after s k)) = .ok (ks, y, phase)) {i : Nat} {mask : Array α}
    (hi : (Layer.masked s k ls)[i]? = some (.factors mask)) :
    ∃ l : Dropout α, ks[i]? = some (.dropout l) ∧ l.mask = mask := by
  induction ls generalizing shape x k ks i with
  | nil => cases hi
  | cons l ls ih =>
      obtain ⟨l', x', phase₁, ks, hone, hrest, rfl⟩ := forwardLayers_cons.mp h
      obtain ⟨hil, -, -, hc⟩ := hc
      have hxl : x.shape = l.inputShape := hx.trans hil.symm
      have hsize : x.data.size = l.inputShape.size := hxl ▸ hs
      have hp := Layer.passes_of_forward hone
      by_cases hd : l.dropout? = none
      · rw [Layer.masked_cons hd] at hi
        obtain ⟨-, -, rfl⟩ | ⟨_, _, hd', -⟩ := hp.draws hsize
        · cases i with
          | zero => cases hi
          | succ i => exact ih hc (hp.shape hxl) (hp.sized hs) hrest hi
        · exact absurd (hd.symm.trans hd') nofun
      · cases l with
        | conv | pool | flatten | dense | pointwise => exact absurd rfl hd
        | dropout l =>
            have hdrop := Layer.forward_dropout l hsize s k
            obtain ⟨rfl, rfl, rfl⟩ : _ = l' ∧ _ = x' ∧ _ = phase₁ := by
              simpa using hdrop.symm.trans hone
            cases i with
            | zero =>
                obtain ⟨⟩ := Option.some.inj hi
                exact ⟨_, rfl, rfl⟩
            | succ i => exact ih hc (hp.shape hxl) (hp.sized hs) hrest hi

end Network

omit [RandomSource σ] in
theorem Layer.backward_dropout (l : Dropout α) (g : Tensor α) : (dropout l).backward g =
    if g.data.size = l.mask.size then .ok (dropout l, ⟨g.shape, Array.zipWith (· * ·) g.data l.mask⟩)
    else .error .misuse := by
  rw [backward, Dropout.backward]
  split
  case isTrue h =>
    rw [← Buffer.zipKeep_eq_zipWith _ h.symm, h, beq_self_eq_true]
    rfl
  case isFalse h =>
    have hne : (l.mask.size == g.data.size) = false := beq_eq_false_iff_ne.mpr (Ne.symm h)
    rw [hne]
    rfl

end Stages

namespace Rounding

open Float.Model UnpackedFloat

section One

theorem mul_one_canonical {u : UnpackedFloat} (hu : Canonical u) :
    UnpackedFloat.mul Format.binary64 u (.finite .positive (2 ^ 52) (-52) (by decide)) = u := by
  cases u with
  | infinity | notANumber => exact hu.elim
  | zero s => cases s <;> rfl
  | finite s m e hm =>
      obtain ⟨hlt, he, hfull⟩ := hu
      have hne : m ≠ 0 := Nat.ne_of_gt hm
      have hexp : e + -52 + ((52 : Nat) : Int) = e := by omega
      have hlog : (m * 2 ^ 52).log2 = m.log2 + 52 := by
        apply log2_eq
        · rw [Nat.pow_add]
          exact Nat.mul_le_mul_right _ (Nat.log2_self_le hne)
        · rw [Nat.add_right_comm, Nat.pow_add]
          exact Nat.mul_lt_mul_of_pos_right Nat.lt_log2_self (by decide)
      -- The product has 52 more digits than the number, all of them zero, and these are shifted out again.
      have htarget : Format.binary64.targetExponent (totalExponent (m * 2 ^ 52) (e + -52)) =
          e + -52 + ((52 : Nat) : Int) := by
        have hle : m.log2 < 53 := (Nat.log2_lt hne).mpr hlt
        rw [target_eq, hlog, hexp]
        rcases hfull with rfl | hmany
        · omega
        · have hge := log2_ge_of_le hmany
          omega
      have hr := Near.eq_of_mul (near_shiftRight (m * 2 ^ 52) 52)
      have hround := round_eq_settled (s := s) (a := .exact) htarget (by omega) (by omega)
      rw [hr, hexp, settled, dif_neg hne, if_pos hlt] at hround
      have hsign : s * Sign.positive = s := by cases s <;> rfl
      change roundWithAccuracy Format.binary64 (s * .positive) (m * 2 ^ 52) (e + -52) .exact = _
      rw [hsign]
      exact hround

theorem mul_one_float (x : Float) : x * 1.0 = x := by
  have hone : (1.0 : Float).toModel.unpack = .finite .positive (2 ^ 52) (-52) (by decide) := by rfl
  have hmul : UnpackedFloat.mul Format.binary64 x.toModel.unpack (1.0 : Float).toModel.unpack = x.toModel.unpack := by
    rw [hone]
    by_cases hx : x.isFinite = true
    · exact mul_one_canonical (canonical_unpack hx)
    · change ¬ x.toModel.unpack.isFinite = true at hx
      cases h : x.toModel.unpack with
      | infinity s => cases s <;> rfl
      | notANumber => rfl
      | zero | finite => exact absurd (by rw [h]; rfl) hx
  calc x * 1.0
      = .ofModel (.pack (UnpackedFloat.mul Format.binary64 x.toModel.unpack (1.0 : Float).toModel.unpack)) := rfl
    _ = .ofModel (.pack x.toModel.unpack) := by rw [hmul]
    _ = x := Float.ofBits_toBits x

end One

section Zero

variable {rate : Float}

/-- There are two zeros among the doubles. -/
theorem eq_zero_of_beq (h : (rate == 0) = true) : rate = 0.0 ∨ rate = -0.0 := by
  have hself : Float.ofModel (.pack rate.toModel.unpack) = rate := Float.ofBits_toBits rate
  have hzero : (0.0 : Float).toModel.unpack = .zero .positive := by rfl
  have hbeq : rate.toModel.unpack.beq (0.0 : Float).toModel.unpack = true := h
  rw [hzero] at hbeq
  rw [← hself]
  cases hu : rate.toModel.unpack with
  | zero s =>
      cases s with
      | positive => exact .inl rfl
      | negative => exact .inr rfl
  | infinity s | finite s =>
      rw [hu] at hbeq
      cases s <;> cases hbeq
  | notANumber =>
      rw [hu] at hbeq
      cases hbeq

theorem number_eq_zero (h : (rate == 0) = true) : rate.isFinite = true ∧ number rate = 0 := by
  rcases eq_zero_of_beq h with rfl | rfl
  · exact ⟨rfl, number_zero⟩
  · have hu : (-0.0 : Float).toModel.unpack = .zero .negative := by rfl
    refine ⟨rfl, ?_⟩
    rw [number, hu]
    rfl

end Zero

end Rounding

section Zero

open RandomSource

theorem Stream.fraction_lt (s : Stream) : s.fraction.1 < 2 ^ 53 := by
  rw [Stream.fraction]
  dsimp only
  have hlt := s.next64.1.toNat_lt
  exact Nat.div_lt_of_lt_mul (by norm_num; omega)

theorem Stream.nth_not_lt {rate : Float} (h : (rate == 0) = true) (s : Stream) (n : Nat) :
    ¬ (nth s n : Float) < rate := by
  obtain ⟨k, hk, hlt⟩ : ∃ k, (fraction (after s n)).1 = k ∧ k < 2 ^ 53 := ⟨_, rfl, (after s n).fraction_lt⟩
  obtain ⟨count, hcount, hpos⟩ : ∃ count, count = Nat.pow 2 53 ∧ 0 < count := ⟨_, rfl, by decide⟩
  have hnth : (nth s n : Float) = Float.ofNat k / Float.ofNat count := by
    rw [← hk, hcount]
    rfl
  have hx := Rounding.nearest_small hlt
  have hnumber : Rounding.number (Float.ofNat k) = k := hx.exact (Rounding.grid_natCast hlt)
  have hle : (k : ℝ) ≤ 2 ^ (53 : ℤ) := by exact_mod_cast hlt.le
  obtain ⟨hfin, hlow, -⟩ := Rounding.div_ofNat_bounds (w := 2 ^ (53 : ℤ)) hx.finite
    (hnumber ▸ Nat.cast_nonneg k) (hnumber ▸ hle) (Rounding.grid_two_zpow (by norm_num))
    (Rounding.two_zpow_mono (by norm_num)) hpos
  obtain ⟨hfin', hzero⟩ := Rounding.number_eq_zero h
  rw [hnth, Rounding.lt_iff_number hfin hfin', hzero]
  exact not_lt.mpr hlow

theorem Dropout.factor_of_zero {rate draw : Float} (h : (rate == 0) = true) (hdraw : ¬ draw < rate) :
    factor rate draw = 1.0 := by
  rw [factor, if_neg hdraw]
  rcases Rounding.eq_zero_of_beq h with rfl | rfl <;> decide +kernel

theorem Dropout.factorsFrom_zero {l : Dropout Float} (h : (l.rate == 0) = true) (s : Stream) (k : Nat) :
    l.factorsFrom s k = Array.replicate l.shape.size 1.0 := by
  apply Array.ext
  · rw [factorsFrom, Array.size_ofFn, Array.size_replicate]
  · intro i hi _
    rw [Array.getElem_replicate]
    simp only [factorsFrom, Array.getElem_ofFn]
    exact factor_of_zero h (s.nth_not_lt h (k + i))

theorem zipWith_one (a : Array Float) : Array.zipWith (· * ·) a (Array.replicate a.size 1.0) = a := by
  apply Array.ext
  · simp
  · intro i _ _
    simp [Rounding.mul_one_float]

variable {ls : List (Layer Float)} {x : Tensor Float} {shape : Shape}

theorem MaskedLayer.runAll_masked_zero (hc : Network.Chained shape ls) (hx : x.shape = shape) (hs : x.Sized)
    (hrate : ∀ l, Layer.dropout l ∈ ls → (l.rate == 0) = true) (s : Stream) (k : Nat) :
    runAll (Layer.masked s k ls) x =
      (Network.forwardLayers ls x (.infer : Phase Stream)).map fun r => r.2.1 := by
  induction ls generalizing shape x k with
  | nil => rfl
  | cons l ls ih =>
      obtain ⟨hi, -, -, hc⟩ := hc
      have hxl : x.shape = l.inputShape := hx.trans hi.symm
      have hsize : x.data.size = l.inputShape.size := hxl ▸ hs
      have hrest : ∀ l', Layer.dropout l' ∈ ls → (l'.rate == 0) = true := fun l' hl' =>
        hrate l' (List.mem_cons_of_mem _ hl')
      by_cases hd : l.dropout? = none
      · rw [Layer.masked_cons hd, runAll, run]
        cases hone : l.forward x (.infer : Phase Stream) with
        | error e =>
            rw [Network.forwardLayers, hone]
            rfl
        | ok r =>
            obtain ⟨l', y, phase⟩ := r
            have hp := Layer.passes_of_forward hone
            obtain ⟨rfl, rfl⟩ := hp.infer
            rw [Network.map_forwardLayers hone]
            exact ih hc (hp.shape hxl) (hp.sized hs) hrest k
      · cases l with
        | conv | pool | flatten | dense | pointwise => exact absurd rfl hd
        | dropout l =>
            have hzip : Array.zipWith (· * ·) x.data (l.factorsFrom s k) = x.data := by
              have hsize' : x.data.size = l.shape.size := hsize
              rw [Dropout.factorsFrom_zero (hrate l List.mem_cons_self), ← hsize']
              exact zipWith_one x.data
            rw [Network.map_forwardLayers (rfl : (Layer.dropout l).forward x (.infer : Phase Stream) =
              .ok (.dropout l, x, .infer)), Layer.masked, runAll, run, hzip]
            exact ih hc hxl hs hrest (k + l.shape.size)

end Zero

namespace Network

open RandomSource

variable {ρ : Type} {draw : Initializer Float ρ}

/-- Training and inference differ by the dropout masks only. A training pass gives out what the network does when
it infers with fixed factors in the place of each dropout layer, drawn layer by layer and value by value; each
dropout layer multiplies by its factors on the way back too; and where all rates are zero the two agree. -/
theorem forward_train_masked (hdraw : Initializer.Draws draw) {net : Network Float} (hnet : net.Arises draw)
    {x : Tensor Float} (hx : x.shape = net.inputShape) (hs : x.Sized) (s : Stream) :
    (net.forward x (.train s)).map (fun r => r.2.1) =
        (MaskedLayer.runAll (Layer.masked s 0 net.layers) x).map (·.data) ∧
      ((∀ l ∈ net.layers, l.Roomy) → ∃ r, net.forward x (.train s) = .ok r) ∧
      (∀ net' out phase, net.forward x (.train s) = .ok (net', out, phase) →
        phase = .train (after s net.drawCount) ∧
        ∀ (i : Nat) (mask : Array Float), (Layer.masked s 0 net.layers)[i]? = some (.factors mask) →
          ∃ l, net'.layers[i]? = some (.dropout l) ∧ ∀ g : Tensor Float, (Layer.dropout l).backward g =
            if g.data.size = mask.size then .ok (.dropout l, ⟨g.shape, Array.zipWith (· * ·) g.data mask⟩)
            else .error .misuse) ∧
      ((∀ l, .dropout l ∈ net.layers → (l.rate == 0) = true) →
        (net.forward x (.train s)).map (fun r => r.2.1) = net.infer x) := by
  have hn := hnet.steady hdraw
  have hout : (net.forward x (.train s)).map (fun r => r.2.1) =
      (MaskedLayer.runAll (Layer.masked s 0 net.layers) x).map (·.data) := by
    rw [← forwardLayers_masked hn.chained hx hs s 0, forward, after]
    cases forwardLayers net.layers x (.train s) <;> rfl
  refine ⟨hout, fun hroom => ?_, fun net' out phase h => ?_, fun hrate => ?_⟩
  · obtain ⟨ls, y, phase, hls⟩ := forwardLayers_answers hn.chained hroom hx hs (.train s)
    exact ⟨_, forward_eq_ok.mpr ⟨ls, y, hls, rfl, rfl⟩⟩
  · obtain ⟨ls, y, hls, rfl, rfl⟩ := forward_eq_ok.mp h
    obtain ⟨-, rfl⟩ := forwardLayers_draws hls hn.chained hx hs
    refine ⟨congrArg _ (drawMasks_after _ s), fun i mask hi => ?_⟩
    obtain ⟨l, hl, rfl⟩ := forwardLayers_factors (k := 0) hn.chained hx hs hls hi
    exact ⟨l, hl, Layer.backward_dropout l⟩
  · rw [hout, MaskedLayer.runAll_masked_zero hn.chained hx hs hrate, infer, forward]
    cases forwardLayers net.layers x (.infer : Phase Stream) <;> rfl

theorem forward_train_masked_small : ∃ (net still : Network Float) (x : Tensor Float) (l : Dropout Float),
    (Layer.masked (Stream.ofSeed 0) 0 net.layers)[0]? = some (.factors (l.factorsFrom (Stream.ofSeed 0) 0)) ∧
      l.factorsFrom (Stream.ofSeed 0) 0 = #[2, 2, 0] ∧
      ((net.forward x (.train (Stream.ofSeed 0))).map fun r => r.2.1).toOption = some #[16, 16] ∧
      (MaskedLayer.runAll (Layer.masked (Stream.ofSeed 0) 0 net.layers) x).map (·.data) =
        (net.forward x (.train (Stream.ofSeed 0))).map (fun r => r.2.1) ∧
      (still.infer x).toOption = some #[15, 15] ∧
      (still.forward x (.train (Stream.ofSeed 0))).map (fun r => r.2.1) = still.infer x := by
  obtain ⟨l, hl⟩ : ∃ l : Dropout Float, l = ⟨0.5, .flat 3, #[]⟩ := ⟨_, rfl⟩
  obtain ⟨net, hnet⟩ : ∃ net : Network Float, net = ⟨.flat 3, [.dropout ⟨0.5, .flat 3, #[]⟩,
    .dense ⟨⟨3, 2, Array.replicate 6 1⟩, Buffer.zeros 2, .linear, .zeros 3 2, Buffer.zeros 2, #[], #[]⟩],
    .mse, none⟩ := ⟨_, rfl⟩
  obtain ⟨still, hstill⟩ : ∃ net : Network Float, net = ⟨.flat 3, [.dropout ⟨0, .flat 3, #[]⟩,
    .dense ⟨⟨3, 2, Array.replicate 6 1⟩, Buffer.zeros 2, .linear, .zeros 3 2, Buffer.zeros 2, #[], #[]⟩],
    .mse, none⟩ := ⟨_, rfl⟩
  obtain ⟨x, hx⟩ : ∃ x : Tensor Float, x = ⟨.flat 3, #[3, 5, 7]⟩ := ⟨_, rfl⟩
  have hbuild : build (fun _ _ n s => .ok (Array.replicate n 1, s))
      ⟨.flat 3, [.dropout 0.5, .dense 2 .linear], .mse⟩ () = .ok (net, ()) := by
    subst hnet
    rfl
  have hbuild' : build (fun _ _ n s => .ok (Array.replicate n 1, s))
      ⟨.flat 3, [.dropout 0, .dense 2 .linear], .mse⟩ () = .ok (still, ()) := by
    subst hstill
    rfl
  have hshape : x.shape = net.inputShape ∧ x.shape = still.inputShape := by
    subst hx hnet hstill
    exact ⟨rfl, rfl⟩
  have hs : x.Sized := by
    subst hx
    rfl
  obtain ⟨hout, -⟩ := forward_train_masked Initializer.draws_ones (.built hbuild) hshape.1 hs (Stream.ofSeed 0)
  obtain ⟨-, -, -, hagree⟩ :=
    forward_train_masked Initializer.draws_ones (.built hbuild') hshape.2 hs (Stream.ofSeed 0)
  have hrate : ∀ l, .dropout l ∈ still.layers → (l.rate == 0) = true := by
    subst hstill
    rintro l hmem
    obtain rfl : l = ⟨0, .flat 3, #[]⟩ := by simpa using hmem
    rfl
  refine ⟨net, still, x, l, ?_, ?_, ?_, hout.symm, ?_, hagree hrate⟩
  · rw [hnet, hl]
    rfl
  · rw [hl]
    decide +kernel
  · rw [hnet, hx]
    decide +kernel
  · rw [hstill, hx]
    decide +kernel

end Network

end Convnet
