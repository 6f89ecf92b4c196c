import Convnet.Proofs.Architecture

namespace Convnet

variable {α : Type} [Scalar α]

/-- Updates of buffers one after the other; `slot` numbers the first of them. -/
inductive Updates : Nat → List (Parameter α) → Optimizer α → List (Array α) → Optimizer α → Prop
  | nil (slot : Nat) (o : Optimizer α) : Updates slot [] o [] o
  | cons {slot : Nat} {p : Parameter α} {ps : List (Parameter α)} {o o₁ o' : Optimizer α}
      {values : Array α} {rest : List (Array α)} (h : o.update? slot p.values p.grads = .ok (values, o₁))
      (hs : Updates (slot + 1) ps o₁ rest o') : Updates slot (p :: ps) o (values :: rest) o'

theorem Updates.length {slot : Nat} {ps : List (Parameter α)} {o o' : Optimizer α}
    {values : List (Array α)} (h : Updates slot ps o values o') : values.length = ps.length := by
  induction h with
  | nil => rfl
  | cons _ _ ih => rw [List.length_cons, List.length_cons, ih]

namespace Parameter

def scaled (scale : α) (p : Parameter α) : Parameter α := ⟨p.values, p.grads.map (· * scale)⟩

def Matched (p : Parameter α) : Prop := p.grads.size = p.values.size

def cleared (values : Array α) : Parameter α := ⟨values, Buffer.zeros values.size⟩

theorem cleared_matched (values : Array α) : (cleared values).Matched := Buffer.size_zeros _

end Parameter

namespace Optimizer

theorem size_moveAll (rule : OptimizerRule α) (corrections : α × α) (values grads : Array α)
    (moments : Array (Moments α)) :
    (moveAll rule corrections values grads moments).1.size = values.size := by
  refine (Buffer.count_fold (fun acc : Array α × Array (Moments α) => acc.1.size) values.size _ ?_ _).trans (Nat.zero_add _)
  intro i hi acc
  dsimp only
  split <;> exact Array.size_push _

theorem size_update {o o' : Optimizer α} {slot : Nat} {values grads values' : Array α}
    (h : o.update? slot values grads = .ok (values', o')) : values'.size = values.size := by
  obtain ⟨-, h⟩ := require_bind_eq_ok.mp h
  obtain ⟨-, h⟩ := require_bind_eq_ok.mp h
  obtain ⟨⟩ := pure_eq_ok_iff.mp h
  exact size_moveAll _ _ _ _ _

theorem update_answers (o : Optimizer α) {slot : Nat} {p : Parameter α} (hp : p.Matched)
    (hs : rowBytes * (slot + 1) < Nat.pow 2 63) : ∃ r, o.update? slot p.values p.grads = .ok r := by
  have hplace : hasPlace o.slots slot = true := by simp [hasPlace, hs]
  have hsize : p.values.size ≤ p.grads.size := Nat.le_of_eq hp.symm
  exact ⟨_, by simp [update?, hplace, hsize]; rfl⟩

end Optimizer

theorem Layer.withParameters_realizes {l : Layer α} {spec : LayerSpec α} {s : Shape}
    (hr : l.Realizes spec s) {ps : List (Parameter α)}
    (hs : ps.map (·.values.size) = l.ready.parameters.map (·.values.size))
    (hm : ∀ p ∈ ps, p.Matched) :
    (l.ready.withParameters ps).Realizes spec s ∧ (l.ready.withParameters ps).Tidy ∧
      (l.ready.withParameters ps).ready.parameters = ps ∧
      (l.ready.withParameters ps).outputShape = l.outputShape := by
  cases hr with
  | conv l hk hb hcount =>
      obtain ⟨k, qs, rfl, hkv, hqs⟩ := List.map_eq_cons_iff.mp hs
      obtain ⟨b, rs, rfl, hbv, hrs⟩ := List.map_eq_cons_iff.mp hqs
      obtain rfl := List.map_eq_nil_iff.mp hrs
      have hkm : k.grads.size = k.values.size := hm k (by simp)
      have hbm : b.grads.size = b.values.size := hm b (by simp)
      have hready := Convolution.ready_of_size (l := { l.ready with
        kernel := k.values, kernelGrad := k.grads, bias := b.values, biasGrad := b.grads }) hkm hbm
      exact ⟨.conv _ (hkv.trans hk) (hbv.trans hb) hcount, trivial,
        congrArg (fun r => (Layer.conv r).parameters) hready, rfl⟩
  | dense l hl hcount =>
      obtain ⟨w, qs, rfl, hwv, hqs⟩ := List.map_eq_cons_iff.mp hs
      obtain ⟨b, rs, rfl, hbv, hrs⟩ := List.map_eq_cons_iff.mp hqs
      obtain rfl := List.map_eq_nil_iff.mp hrs
      have hwm : w.grads.size = w.values.size := hm w (by simp)
      have hbm : b.grads.size = b.values.size := hm b (by simp)
      have hready := Dense.ready_of_size (l := { l.ready with
        weights := { l.ready.weights with data := w.values }
        weightsGrad := { l.ready.weightsGrad with data := w.grads }
        biases := b.values
        biasesGrad := b.grads }) l.ready_rows l.ready_cols hbm
      have hw : w.values.size = l.weights.rows * l.weights.cols := hwv.trans hl.weights
      have htidy : w.grads.size = l.ready.weightsGrad.rows * l.ready.weightsGrad.cols := by
        rw [hwm, hw, Dense.ready_rows, Dense.ready_cols]
      exact ⟨.dense _ ⟨hw, hbv.trans hl.biases⟩ hcount, htidy,
        congrArg (fun r => (Layer.dense r).parameters) hready, rfl⟩
  | pool l t ht =>
      obtain rfl := List.map_eq_nil_iff.mp hs
      exact ⟨.pool l t ht, trivial, rfl, rfl⟩
  | flatten s =>
      obtain rfl := List.map_eq_nil_iff.mp hs
      exact ⟨.flatten s, trivial, rfl, rfl⟩
  | dropout l =>
      obtain rfl := List.map_eq_nil_iff.mp hs
      exact ⟨.dropout l, trivial, rfl, rfl⟩
  | pointwise l =>
      obtain rfl := List.map_eq_nil_iff.mp hs
      exact ⟨.pointwise l, trivial, rfl, rfl⟩

namespace Network

section MapSlots

variable {τ : Type} {f : Nat → Parameter α → τ → Result (Parameter α × τ)} {slot : Nat} {t t' : τ}

omit [Scalar α] in
theorem mapSlots_cons {p : Parameter α} {ps rs : List (Parameter α)} :
    mapSlots f slot (p :: ps) t = .ok (rs, t') ↔ ∃ p' t₁ ps', f slot p t = .ok (p', t₁) ∧
      mapSlots f (slot + 1) ps t₁ = .ok (ps', t') ∧ rs = p' :: ps' := by
  rw [mapSlots, bind_eq_ok]
  constructor
  · rintro ⟨⟨p', t₁⟩, hp, h⟩
    obtain ⟨⟨ps', t₂⟩, hps, h⟩ := bind_eq_ok.mp h
    obtain ⟨⟩ := pure_eq_ok_iff.mp h
    exact ⟨p', t₁, ps', hp, hps, rfl⟩
  · rintro ⟨p', t₁, ps', hp, hps, rfl⟩
    exact ⟨_, hp, bind_eq_ok.mpr ⟨_, hps, rfl⟩⟩

omit [Scalar α] in
theorem length_mapSlots {ps rs : List (Parameter α)} (h : mapSlots f slot ps t = .ok (rs, t')) :
    rs.length = ps.length := by
  induction ps generalizing slot t rs with
  | nil =>
      obtain ⟨⟩ := Except.ok.inj h
      rfl
  | cons p ps ih =>
      obtain ⟨p', t₁, ps', -, hps, rfl⟩ := mapSlots_cons.mp h
      rw [List.length_cons, List.length_cons, ih hps]

omit [Scalar α] in
theorem mapSlots_append {ps qs rs : List (Parameter α)} :
    mapSlots f slot (ps ++ qs) t = .ok (rs, t') ↔ ∃ ps' t₁ qs', mapSlots f slot ps t = .ok (ps', t₁) ∧
      mapSlots f (slot + ps.length) qs t₁ = .ok (qs', t') ∧ rs = ps' ++ qs' := by
  induction ps generalizing slot t rs with
  | nil =>
      constructor
      · exact fun h => ⟨[], t, rs, rfl, h, rfl⟩
      · rintro ⟨ps', t₁, qs', hps, hqs, rfl⟩
        obtain ⟨⟩ := Except.ok.inj hps
        exact hqs
  | cons p ps ih =>
      have hslot : slot + (ps.length + 1) = slot + 1 + ps.length := by omega
      rw [List.cons_append, List.length_cons, hslot]
      constructor
      · intro h
        obtain ⟨p', t₁, rest, hp, hrest, rfl⟩ := mapSlots_cons.mp h
        obtain ⟨ps', t₂, qs', hps, hqs, rfl⟩ := ih.mp hrest
        exact ⟨p' :: ps', t₂, qs', mapSlots_cons.mpr ⟨p', t₁, ps', hp, hps, rfl⟩, hqs, rfl⟩
      · rintro ⟨front, t₁, qs', hfront, hqs, rfl⟩
        obtain ⟨p', t₂, ps', hp, hps, rfl⟩ := mapSlots_cons.mp hfront
        exact mapSlots_cons.mpr ⟨p', t₂, ps' ++ qs', hp, ih.mpr ⟨ps', t₁, qs', hps, hqs, rfl⟩, rfl⟩

/-- Layers with the parameters of a list, which is dealt out to them in order. -/
def deal : List (Layer α) → List (Parameter α) → List (Layer α)
  | [], _ => []
  | l :: ls, ps => l.ready.withParameters (ps.take l.parameters.length) ::
      deal ls (ps.drop l.parameters.length)

theorem mapLayerSlots_eq_ok {ls rs : List (Layer α)} :
    mapLayerSlots f slot ls t = .ok (rs, t') ↔
      ∃ ps, mapSlots f slot (ls.flatMap fun l => l.ready.parameters) t = .ok (ps, t') ∧
        rs = deal ls ps := by
  induction ls generalizing slot t rs with
  | nil =>
      constructor
      · intro h
        obtain ⟨⟩ := Except.ok.inj h
        exact ⟨[], rfl, rfl⟩
      · rintro ⟨ps, hps, rfl⟩
        obtain ⟨⟩ := Except.ok.inj hps
        rfl
  | cons l ls ih =>
      rw [mapLayerSlots, bind_eq_ok, List.flatMap_cons]
      constructor
      · rintro ⟨⟨ps, t₁⟩, hps, h⟩
        obtain ⟨⟨ls', t₂⟩, hls, h⟩ := bind_eq_ok.mp h
        obtain ⟨⟩ := pure_eq_ok_iff.mp h
        obtain ⟨qs, hqs, rfl⟩ := ih.mp hls
        have hlen := (length_mapSlots hps).trans l.length_parameters_ready
        refine ⟨ps ++ qs, mapSlots_append.mpr ⟨ps, t₁, qs, hps, hqs, rfl⟩, ?_⟩
        rw [deal, List.take_left' hlen, List.drop_left' hlen]
      · rintro ⟨rs', h, rfl⟩
        obtain ⟨ps, t₁, qs, hps, hqs, rfl⟩ := mapSlots_append.mp h
        have hlen := (length_mapSlots hps).trans l.length_parameters_ready
        refine ⟨(ps, t₁), hps, bind_eq_ok.mpr ⟨_, ih.mpr ⟨qs, hqs, rfl⟩, ?_⟩⟩
        rw [deal, List.take_left' hlen, List.drop_left' hlen]
        rfl

end MapSlots

omit [Scalar α] in
theorem map_take_drop {ι : Type} {f : Parameter α → ι} {ps qs rs : List (Parameter α)} {n : Nat}
    (h : ps.map f = (qs ++ rs).map f) (hn : qs.length = n) :
    (ps.take n).map f = qs.map f ∧ (ps.drop n).map f = rs.map f := by
  rw [List.map_take, List.map_drop, h, List.map_append]
  exact ⟨List.take_left' (by simpa using hn), List.drop_left' (by simpa using hn)⟩

theorem LayersRealize.deal {s : Shape} {specs : List (LayerSpec α)} {ls : List (Layer α)}
    {ps : List (Parameter α)} (h : LayersRealize s specs ls)
    (hs : ps.map (·.values.size) = (ls.flatMap fun l => l.ready.parameters).map (·.values.size))
    (hm : ∀ p ∈ ps, p.Matched) :
    LayersRealize s specs (deal ls ps) ∧ ((deal ls ps).flatMap fun l => l.ready.parameters) = ps := by
  induction ls generalizing s specs ps with
  | nil => exact ⟨h, (List.map_eq_nil_iff.mp hs).symm⟩
  | cons l ls ih =>
      cases specs with
      | nil => exact h.elim
      | cons spec specs =>
          obtain ⟨hr, -, hls⟩ := h
          obtain ⟨hfront, hrest⟩ := map_take_drop hs l.length_parameters_ready
          obtain ⟨hr', ht', hpar, hout⟩ := Layer.withParameters_realizes hr hfront
            fun p hp => hm p (List.mem_of_mem_take hp)
          obtain ⟨hls', hpars⟩ := ih hls hrest fun p hp => hm p (List.mem_of_mem_drop hp)
          refine ⟨⟨hr', ht', hout.symm ▸ hls'⟩, ?_⟩
          rw [Network.deal, List.flatMap_cons, hpar, hpars, List.take_append_drop]

section Apply

variable {scale : α} {slot : Nat} {o o' : Optimizer α} {ps rs : List (Parameter α)}

/-- The optimizer is asked for one update of each parameter. -/
theorem updates_of_mapSlots (h : mapSlots (applyParameter scale) slot ps o = .ok (rs, o'))
    (hm : ∀ p ∈ ps, p.Matched) :
    ∃ values, Updates slot (ps.map (·.scaled scale)) o values o' ∧
      rs = values.map Parameter.cleared ∧ values.map Array.size = ps.map (·.values.size) := by
  induction ps generalizing slot o rs with
  | nil =>
      obtain ⟨⟩ := Except.ok.inj h
      exact ⟨[], .nil slot _, rfl, rfl⟩
  | cons p ps ih =>
      obtain ⟨p', o₁, ps', hp, hps, rfl⟩ := mapSlots_cons.mp h
      obtain ⟨⟨values, o₂⟩, hup, hp⟩ := bind_eq_ok.mp hp
      obtain ⟨⟩ := pure_eq_ok_iff.mp hp
      have hsize := Optimizer.size_update hup
      obtain ⟨rest, hups, rfl, hsizes⟩ := ih hps fun q hq => hm q (by simp [hq])
      have hpm : p.grads.size = p.values.size := hm p (by simp)
      refine ⟨values :: rest, .cons hup hups, ?_, ?_⟩
      · rw [List.map_cons, Parameter.cleared, Array.size_map, hpm, hsize]
      · rw [List.map_cons, List.map_cons, hsizes, hsize]

theorem mapSlots_answers (scale : α) (slot : Nat) (o : Optimizer α) (hm : ∀ p ∈ ps, p.Matched)
    (hs : Optimizer.rowBytes * (slot + ps.length) < Nat.pow 2 63) :
    ∃ r, mapSlots (applyParameter scale) slot ps o = .ok r := by
  induction ps generalizing slot o with
  | nil => exact ⟨_, rfl⟩
  | cons p ps ih =>
      rw [List.length_cons] at hs
      have hpm : (p.scaled scale).Matched := (Array.size_map).trans (hm p (by simp))
      have hroom : Optimizer.rowBytes * (slot + 1) ≤ Optimizer.rowBytes * (slot + (ps.length + 1)) :=
        Nat.mul_le_mul_left _ (by omega)
      obtain ⟨⟨values, o₁⟩, hup⟩ := o.update_answers hpm (Nat.lt_of_le_of_lt hroom hs)
      obtain ⟨⟨ps', o₂⟩, hps⟩ := ih (slot + 1) o₁ (fun q hq => hm q (by simp [hq]))
        (by rwa [Nat.add_right_comm, Nat.add_assoc])
      exact ⟨_, mapSlots_cons.mpr ⟨_, o₁, ps', bind_eq_ok.mpr ⟨_, hup, rfl⟩, hps, rfl⟩⟩

end Apply

variable {net net' : Network α} {m : ModelSpec α} {scale : α} {o o' : Optimizer α}

theorem applyGradients_eq_ok : net.applyGradients o scale = .ok (net', o') ↔
    ∃ ps, mapSlots (applyParameter scale) 0 net.parameters o.beginStep = .ok (ps, o') ∧
      net' = { net with layers := deal net.layers ps } := by
  rw [applyGradients, bind_eq_ok]
  constructor
  · rintro ⟨⟨ls, o₁⟩, hls, h⟩
    obtain ⟨⟩ := pure_eq_ok_iff.mp h
    obtain ⟨ps, hps, rfl⟩ := mapLayerSlots_eq_ok.mp hls
    exact ⟨ps, hps, rfl⟩
  · rintro ⟨ps, hps, rfl⟩
    exact ⟨_, mapLayerSlots_eq_ok.mpr ⟨ps, hps, rfl⟩, rfl⟩

theorem Realizes.deal (hr : net.Realizes m) (hm : ∀ p ∈ net.parameters, p.Matched)
    {ps : List (Parameter α)} (h : mapSlots (applyParameter scale) 0 net.parameters o = .ok (ps, o')) :
    ∃ values, Updates 0 (net.parameters.map (·.scaled scale)) o values o' ∧
      ps = values.map Parameter.cleared ∧
      ({ net with layers := deal net.layers ps } : Network α).parameters = ps ∧
      ({ net with layers := deal net.layers ps } : Network α).Realizes m := by
  obtain ⟨values, hup, rfl, hsizes⟩ := updates_of_mapSlots h hm
  have hmap : (values.map Parameter.cleared).map (·.values.size) =
      net.parameters.map (·.values.size) := by
    rw [List.map_map, ← hsizes]
    rfl
  obtain ⟨hls, hpars⟩ := hr.layers.deal hmap fun p hp => by
    obtain ⟨v, -, rfl⟩ := List.mem_map.mp hp
    exact Parameter.cleared_matched v
  exact ⟨values, hup, rfl, hpars, hr.inputShape, hr.loss, hls⟩

/-- A step begins once, updates every parameter once, with its scaled gradient, and clears it. -/
theorem Realizes.applyGradients (hr : net.Realizes m) (hm : ∀ p ∈ net.parameters, p.Matched)
    (h : net.applyGradients o scale = .ok (net', o')) :
    ∃ values, Updates 0 (net.parameters.map (·.scaled scale)) o.beginStep values o' ∧
      net'.parameters = values.map Parameter.cleared ∧ net'.Realizes m := by
  obtain ⟨ps, hps, rfl⟩ := applyGradients_eq_ok.mp h
  obtain ⟨values, hup, rfl, hpars, hr'⟩ := hr.deal hm hps
  exact ⟨values, hup, hpars, hr'⟩

theorem applyGradients_answers (scale : α) (o : Optimizer α) (hm : ∀ p ∈ net.parameters, p.Matched)
    (hs : Optimizer.rowBytes * net.parameters.length < Nat.pow 2 63) :
    ∃ r, net.applyGradients o scale = .ok r := by
  obtain ⟨⟨ps, o'⟩, hps⟩ := mapSlots_answers scale 0 o.beginStep hm (by rwa [Nat.zero_add])
  exact ⟨_, applyGradients_eq_ok.mpr ⟨ps, hps, rfl⟩⟩

theorem Realizes.applyGradients_congr {net₂ : Network α} (hr : net.Realizes m) (hr₂ : net₂.Realizes m)
    (hm : ∀ p ∈ net.parameters, p.Matched) (hp : net₂.parameters = net.parameters)
    (h : net.applyGradients o scale = .ok (net', o')) :
    ∃ net₂', net₂.applyGradients o scale = .ok (net₂', o') ∧ net₂'.parameters = net'.parameters := by
  obtain ⟨ps, hps, rfl⟩ := applyGradients_eq_ok.mp h
  obtain ⟨-, -, -, hpars, -⟩ := hr.deal hm hps
  rw [← hp] at hps
  obtain ⟨-, -, -, hpars₂, -⟩ := hr₂.deal (hp ▸ hm) hps
  exact ⟨_, applyGradients_eq_ok.mpr ⟨ps, hps, rfl⟩, hpars₂.trans hpars.symm⟩

end Network
end Convnet
