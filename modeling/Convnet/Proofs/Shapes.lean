import Convnet.Proofs.Rounding

namespace Convnet

variable {α : Type} [Scalar α] {σ τ : Type} [RandomSource τ]

/-- Whether there can be buffers for the input of a description, for what its layers give out, and for
their parameters. -/
structure ModelSpec.Storable (m : ModelSpec α) (shapes : List Shape) : Prop where
  maps : ∀ s ∈ m.inputShape :: shapes, Buffer.fits s.size = true
  parameters : ∀ p ∈ m.layers.zip (m.inputShape :: shapes), ∀ n ∈ p.1.bufferSizes p.2,
    Buffer.fits n = true

namespace Network

/-- A network whose layers pass their check and take and give the shapes that were computed. -/
structure Fits (net : Network α) (input : Shape) (shapes : List Shape) : Prop where
  length : net.layers.length = shapes.length
  inputs : ∀ (i : Nat) (l : Layer α), net.layers[i]? = some l → (input :: shapes)[i]? = some l.inputShape
  outputs : ∀ (i : Nat) (l : Layer α), net.layers[i]? = some l → ∃ s, shapes[i]? = some s ∧ l.outputShape? = .ok s
  check : net.checkLayers = .ok ()
  inBounds : ∀ l ∈ net.layers, l.InBounds

/-- A pass forward is not refused, and each layer gives out a filled buffer of its computed shape. -/
structure RunsForward (net : Network α) (shapes : List Shape) (x : Tensor α) (phase : Phase τ) :
    Prop where
  runs : ∃ net' out phase', net.forward x phase = .ok (net', out, phase')
  reaches : ∀ (i : Nat) (s : Shape), shapes[i]? = some s → ∃ ls y phase',
    forwardLayers (net.layers.take (i + 1)) x phase = .ok (ls, y, phase') ∧ y.shape = s ∧ y.Sized

/-- A pass back is not refused, and each layer is handed a filled buffer of the shape it gives out. -/
structure RunsBack (net : Network α) (d : Array α) : Prop where
  runs : ∃ net', net.backward d = .ok net'
  hands : ∀ (i : Nat) (l : Layer α), net.layers[i]? = some l → ∃ rs g,
    backwardLayers (net.layers.drop (i + 1)) (.flat d) = .ok (rs, g) ∧ l.outputShape? = .ok g.shape ∧
      g.Sized ∧ ∃ l' b, l.backward g = .ok (l', b)

variable {net net' : Network α} {m : ModelSpec α} {shapes : List Shape}

theorem Realizes.chained (hr : net.Realizes m) (hv : m.Valid shapes) :
    Chained m.inputShape net.layers ∧ shapes = net.layers.map Layer.outputShape :=
  hr.layers.chained hv.chain hv.input

theorem Realizes.storable (hr : net.Realizes m) (hv : m.Valid shapes) (hf : m.Storable shapes) :
    ∀ l ∈ net.layers, l.Storable :=
  hr.layers.storable hv.chain hv.input hf.maps hf.parameters

theorem Realizes.fits (hr : net.Realizes m) (hv : m.Valid shapes) : net.Fits m.inputShape shapes := by
  obtain ⟨hc, rfl⟩ := hr.chained hv
  have hlayers : net.layers ≠ [] := fun h => hv.layers (hr.layers.nil_of_nil h)
  have hsound : ∀ l ∈ net.layers, l.Sound := hc.sound
  constructor
  · simp
  · intro i l hl
    exact hc.inputShape hl
  · intro i l hl
    exact ⟨l.outputShape, by simp [hl], (hsound l (List.mem_of_getElem? hl)).outputShape?⟩
  · have hcheck := hr.layers.checkLayersFrom hv.chain hv.input hv.countable 0
    simp [checkLayers, hlayers, hr.inputShape, hcheck]
  · exact fun l hl => (hsound l hl).inBounds

theorem Realizes.runsForward (hr : net.Realizes m) (hv : m.Valid shapes) (hf : m.Storable shapes)
    {x : Tensor α} (hx : x.shape = m.inputShape) (hs : x.Sized) (phase : Phase τ) :
    net.RunsForward shapes x phase := by
  obtain ⟨hc, hshapes⟩ := hr.chained hv
  have hst := hr.storable hv hf
  constructor
  · obtain ⟨ls, y, phase', h⟩ := forwardLayers_answers hc (fun k hk => (hst k hk).roomy) hx hs phase
    exact ⟨_, _, _, forward_eq_ok.mpr ⟨ls, y, h, rfl, rfl⟩⟩
  · intro i s hi
    obtain ⟨l, hl, rfl⟩ : ∃ l, net.layers[i]? = some l ∧ l.outputShape = s := by
      simpa [hshapes] using hi
    obtain ⟨ls, y, phase', h⟩ := forwardLayers_answers (hc.take (i + 1))
      (fun k hk => (hst k (List.mem_of_mem_take hk)).roomy) hx hs phase
    obtain ⟨-, -, hy, hys, -⟩ := forwardLayers_keeps h (hc.take (i + 1)) hx hs
    exact ⟨ls, y, phase', h, hy.trans (outputFrom_take_succ hl _), hys⟩

omit [Scalar α] in
theorem outputSize_of_sound (hne : net.layers ≠ []) (hs : ∀ l ∈ net.layers, l.Sound) (s : Shape) :
    net.outputSize = .ok (outputFrom s net.layers).size := by
  have hl : net.layers.getLast? = some (net.layers.getLast hne) := List.getLast?_eq_some_getLast hne
  have hlast : outputFrom s net.layers = (net.layers.getLast hne).outputShape := by
    rw [outputFrom_eq_getLastD, List.getLastD_eq_getLast?, List.getLast?_map, hl]
    rfl
  simp [outputSize, hl, (hs _ (List.getLast_mem hne)).outputShape?, hlast]

theorem Realizes.outputFlat (hr : net.Realizes m) (hv : m.Valid shapes) :
    ∃ n, outputFrom m.inputShape net.layers = .flat n ∧ net.outputSize = .ok n := by
  obtain ⟨hc, hshapes⟩ := hr.chained hv
  have hflat := hv.output
  rw [hshapes, ← outputFrom_eq_getLastD] at hflat
  have hne : net.layers ≠ [] := fun h => hv.layers (hr.layers.nil_of_nil h)
  exact ⟨_, Shape.eq_flat hflat, outputSize_of_sound hne hc.sound m.inputShape⟩

theorem Realizes.size_output (hr : net.Realizes m) (hv : m.Valid shapes) {x : Tensor α}
    (hx : x.shape = m.inputShape) (hs : x.Sized) {phase phase' : Phase τ} {out : Array α}
    (h : net.forward x phase = .ok (net', out, phase')) :
    net.outputSize = .ok out.size ∧ outputFrom m.inputShape net.layers = .flat out.size := by
  obtain ⟨ls, y, hfor, -, rfl⟩ := forward_eq_ok.mp h
  obtain ⟨hc, -⟩ := hr.chained hv
  obtain ⟨n, hn, hsize⟩ := hr.outputFlat hv
  obtain ⟨-, -, hy, hys, -⟩ := forwardLayers_keeps hfor hc hx hs
  have hlen : y.data.size = n := by
    rw [hys, hy, hn, Shape.size_flat]
  rw [hlen]
  exact ⟨hsize, hn⟩

theorem Realizes.runsBack (hr : net.Realizes m) (hv : m.Valid shapes) (hf : m.Storable shapes)
    {x : Tensor α} (hx : x.shape = m.inputShape) (hs : x.Sized) {source : τ} {out : Array α}
    {phase : Phase τ} (h : net.forward x (.train source) = .ok (net', out, phase)) {d : Array α}
    (hd : net.outputSize = .ok d.size) : net'.RunsBack d := by
  obtain ⟨ls, y, hfor, rfl, -⟩ := forward_eq_ok.mp h
  obtain ⟨hc, -⟩ := hr.chained hv
  have hst : ∀ l ∈ net.layers, l.RoomyBack := fun l hl =>
    (hr.storable hv hf l hl).roomyBack (hc.sound l hl).parts
  obtain ⟨n, hn, hsize⟩ := hr.outputFlat hv
  obtain rfl : n = d.size := Except.ok.inj (hsize.symm.trans hd)
  have hg : (Tensor.flat d).shape = outputFrom m.inputShape net.layers := hn.symm
  have hgs : (Tensor.flat d).Sized := (Shape.size_flat _).symm
  have hback := backwardLayers_drop hfor hc hst hx hs hg hgs
  obtain ⟨hb, hc', -, -, -⟩ := forwardLayers_keeps hfor hc hx hs
  constructor
  · obtain ⟨rs, b, h₀, -, -⟩ := hback 0
    exact ⟨_, backward_eq_ok.mpr ⟨rs, b, h₀, rfl⟩⟩
  · intro i l hl
    obtain ⟨rs, b, hrs, hbs, hbs'⟩ := hback (i + 1)
    obtain ⟨rs₀, b₀, hrs₀, -, -⟩ := hback i
    have hshape : outputFrom m.inputShape (net.layers.take (i + 1)) = l.outputShape := by
      rw [← outputFrom_take_succ hl m.inputShape]
      exact (outputFrom_eq_of_bare (by rw [List.map_take, List.map_take, hb]) _).symm
    have hsound := hc'.sound l (List.mem_of_getElem? hl)
    obtain ⟨hi, hget⟩ := List.getElem?_eq_some_iff.mp hl
    rw [List.drop_eq_getElem_cons hi, hget] at hrs₀
    obtain ⟨rs₁, g, l', hrs₁, hlb, -⟩ := backwardLayers_cons.mp hrs₀
    obtain ⟨⟩ := Except.ok.inj (hrs₁.symm.trans hrs)
    refine ⟨rs, b, hrs, ?_, hbs', l', b₀, hlb⟩
    rw [hbs, hshape, hsound.outputShape?]

theorem build_eq_ok {draw : Initializer α σ} {s s' : σ} :
    build draw m s = .ok (net, s') ↔
      ∃ shapes ls, m.validate = .ok shapes ∧ buildLayers draw m.inputShape s m.layers = .ok (ls, s') ∧
        net = ⟨m.inputShape, ls, m.loss, none⟩ := by
  rw [build, bind_eq_ok]
  constructor
  · rintro ⟨shapes, hv, h⟩
    obtain ⟨⟨ls, s₁⟩, hls, h⟩ := bind_eq_ok.mp h
    obtain ⟨⟩ := pure_eq_ok_iff.mp h
    exact ⟨shapes, ls, hv, hls, rfl⟩
  · rintro ⟨shapes, ls, hv, hls, rfl⟩
    exact ⟨_, hv, bind_eq_ok.mpr ⟨_, hls, rfl⟩⟩

theorem build_realizes {draw : Initializer α σ} (hd : Initializer.Draws draw) {s s' : σ}
    (h : build draw m s = .ok (net, s')) : net.Realizes m := by
  obtain ⟨shapes, ls, hval, hls, rfl⟩ := build_eq_ok.mp h
  have hv := ModelSpec.valid_of_validate hval
  exact ⟨rfl, rfl, buildLayers_realize hd hv.chain hv.input hls⟩

theorem build_answers {draw : Initializer α σ} (hd : Initializer.Draws draw)
    (hval : m.validate = .ok shapes) (hf : m.Storable shapes) (s : σ) :
    ∃ net s', build draw m s = .ok (net, s') := by
  have hv := ModelSpec.valid_of_validate hval
  obtain ⟨ls, s', hls⟩ := buildLayers_answers hd hv.chain hv.input hf.parameters s
  exact ⟨_, s', build_eq_ok.mpr ⟨shapes, ls, hval, hls, rfl⟩⟩

end Network

/-- The check of a description divides by no zero and takes nothing below zero, and where the sizes are numbers of
64 bits it comes to no larger one. A description that it accepts builds as long as there can be buffers for it, its
layers take and give the computed shapes, both kinds of passes forward run over every input of its shape, and a
training pass leads back from every gradient of the output. -/
theorem ModelSpec.accepted_runs (m : ModelSpec Float) :
    (m.validate ≠ .error .misuse ∧ (m.Countable → m.validate ≠ .error .overflow)) ∧
      ∀ shapes, m.validate = .ok shapes → m.Storable shapes → ∀ s : Stream,
        ∃ net s' n, Network.build Weights.glorotUniform m s = .ok (net, s') ∧
          net.Fits m.inputShape shapes ∧ net.outputSize = .ok n ∧
          ∀ x : Tensor Float, x.shape = m.inputShape → x.Sized →
            (∀ phase : Phase τ, net.RunsForward shapes x phase) ∧
            ∀ (source : τ) net' out phase',
              net.forward x (.train source) = .ok (net', out, phase') →
                ∀ d : Array Float, d.size = n → net'.RunsBack d := by
  refine ⟨⟨m.validate_ne_misuse, validate_ne_overflow⟩, fun shapes h hf s => ?_⟩
  obtain ⟨net, s', hbuild⟩ := Network.build_answers Weights.glorotUniform_draws h hf s
  have hv := ModelSpec.valid_of_validate h
  have hr := Network.build_realizes Weights.glorotUniform_draws hbuild
  obtain ⟨n, -, hn⟩ := hr.outputFlat hv
  refine ⟨net, s', n, hbuild, hr.fits hv, hn, fun x hx hs => ⟨hr.runsForward hv hf hx hs, ?_⟩⟩
  intro source net' out phase' hfor d hd
  exact hr.runsBack hv hf hx hs hfor (hd ▸ hn)

theorem ModelSpec.accepted_runs_mnistCnn :
    ∃ net s', Network.build Weights.glorotUniform .mnistCnn (.ofSeed 0) = .ok (net, s') ∧
      ∀ phase : Phase Stream, net.RunsForward [⟨28, 28, 32⟩, ⟨14, 14, 32⟩, ⟨14, 14, 64⟩, ⟨7, 7, 64⟩,
        .flat 3136, .flat 128, .flat 128, .flat 10] ⟨⟨28, 28, 1⟩, Buffer.zeros 784⟩ phase := by
  obtain ⟨net, s', n, hbuild, -, -, hrun⟩ := (@ModelSpec.accepted_runs Stream _ .mnistCnn).2
    [⟨28, 28, 32⟩, ⟨14, 14, 32⟩, ⟨14, 14, 64⟩, ⟨7, 7, 64⟩, .flat 3136, .flat 128, .flat 128,
      .flat 10] (by rfl) ⟨by decide, by decide⟩ (.ofSeed 0)
  exact ⟨net, s', hbuild, (hrun ⟨⟨28, 28, 1⟩, Buffer.zeros 784⟩ rfl (Buffer.size_zeros 784)).1⟩

/-- No buffer holds the weights of a layer on `2 ^ 60` numbers, which the check does not look at. -/
theorem ModelSpec.accepted_without_room :
    ∃ m : ModelSpec Float, m.validate = .ok [.flat 1] ∧
      ∀ s, Network.build Weights.glorotUniform m s = .error .misuse := by
  refine ⟨⟨.flat (2 ^ 60), [.dense 1 .linear], .mse⟩, by rfl, fun s => ?_⟩
  have hroom : Buffer.fits ((Shape.flat (2 ^ 60)).size * 1) = false := by decide
  have hval : (⟨.flat (2 ^ 60), [.dense 1 .linear], .mse⟩ : ModelSpec Float).validate =
      .ok [.flat 1] := by rfl
  simp only [Network.build, hval, ok_bind, Network.buildLayers, LayerSpec.build, hroom, require_false, error_bind]

end Convnet
