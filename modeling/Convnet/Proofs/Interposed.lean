import Convnet.Proofs.Observers
import Convnet.Proofs.Preparing

namespace Convnet

section Inquiries

variable {α β γ : Type}

abbrev Inquiry (α : Type) := ExceptT Error (StateM (Network α))

namespace Inquiry

def on (a : Inquiry α β) (net : Network α) : Result β × Network α := (a.run).run net

def looking (f : Network α → Result β) : Inquiry α β := do
  let net ← get
  f net

/-- Whether a question has an answer and leaves the network as it was. -/
def Quiet (net : Network α) (a : Inquiry α β) (r : Result β) : Prop := a.on net = (r, net)

variable {net : Network α}

theorem quiet_lift (r : Result β) : Quiet net (liftM r) r := rfl

theorem quiet_looking (f : Network α → Result β) : Quiet net (looking f) (f net) := rfl

theorem Quiet.bind {a : Inquiry α β} {r : Result β} (h : Quiet net a r) {f : β → Inquiry α γ} {g : β → Result γ}
    (hf : ∀ b, Quiet net (f b) (g b)) : Quiet net (a >>= f) (r >>= g) := by
  change (match a net with | (r, net') => ExceptT.bindCont f r net') = (r >>= g, net)
  have ha : a net = (r, net) := h
  rw [ha]
  cases r with
  | ok b => exact hf b
  | error e => rfl

theorem Quiet.foldlM {f : γ → β → Inquiry α γ} {g : γ → β → Result γ} (hf : ∀ c b, Quiet net (f c b) (g c b))
    (bs : List β) (c : γ) : Quiet net (bs.foldlM f c) (bs.foldlM g c) := by
  induction bs generalizing c with
  | nil => exact quiet_lift (.ok c)
  | cons b bs ih =>
      rw [List.foldlM_cons, List.foldlM_cons]
      exact (hf c b).bind ih

theorem Quiet.mapM {f : β → Inquiry α γ} {g : β → Result γ} (hf : ∀ b, Quiet net (f b) (g b)) (bs : List β) :
    Quiet net (bs.mapM f) (bs.mapM g) := by
  induction bs with
  | nil => exact quiet_lift (.ok [])
  | cons b bs ih =>
      rw [List.mapM_cons, List.mapM_cons]
      exact (hf b).bind fun c => ih.bind fun cs => quiet_lift (.ok (c :: cs))

variable [Scalar α]

def inferLayers : List (Layer α) → Tensor α → Result (Tensor α) × List (Layer α)
  | [], x => (.ok x, [])
  | l :: ls, x =>
    match l.forward x (.infer : Phase Stream) with
    | .ok (l, y, _) =>
      let (out, ls) := inferLayers ls y
      (out, l :: ls)
    | .error e => (.error e, l :: ls)

def pass (x : Tensor α) : Inquiry α (Array α) := do
  let net ← get
  let (out, layers) := inferLayers net.layers x
  set { net with layers := layers }
  return (← out).data

def predict (x : Tensor α) : Inquiry α (Array α) := do
  looking fun net => net.checkInput x.shape
  pass x

def predictMany (images : List (Tensor α)) : Inquiry α (List (Array α)) := images.mapM predict

def measureSample (d : Dataset α) (loss : Loss) (sums : α × Nat) (sample : Tensor α × Nat) :
    Inquiry α (α × Nat) := do
  let out ← pass sample.1
  let target ← d.target sample.2
  return (sums.1 + loss.value out target, if argmax out = sample.2 then sums.2 + 1 else sums.2)

def evaluate (d : Dataset α) : Inquiry α (Evaluation α) := do
  looking fun net => net.checkCompatible d
  if d.isEmpty then throw (.dataset .nothingToEvaluate)
  let loss ← looking fun net => .ok net.loss
  let (sum, correct) ← (Network.samplesOf d).foldlM (measureSample d loss) ((0 : α), 0)
  return ⟨sum / (d.size : α), (correct : α) / (d.size : α)⟩

def confusionMatrix (d : Dataset α) : Inquiry α (Array (Array Nat)) := do
  looking fun net => net.checkCompatible d
  require (Network.fitsTable d.numClasses)
  (Network.samplesOf d).foldlM (fun table (image, label) => do
    let out ← pass image
    Network.countAt table label (argmax out))
    (Array.replicate d.numClasses (Array.replicate d.numClasses 0))

def samplePredictions (d : Dataset α) (count : Nat) : Inquiry α (List (SamplePrediction α)) :=
  ((Network.samplesOf (d.take count)).zipIdx).mapM fun ((image, actual), index) => do
    let out ← predict image
    let predicted := argmax out
    match out[predicted]? with
    | none => throw .misuse
    | some confidence =>
      return ⟨index, predicted, actual, confidence, d.className predicted, d.className actual⟩

theorem inferLayers_eq (ls : List (Layer α)) (x : Tensor α) :
    inferLayers ls x = ((Network.forwardLayers ls x (.infer : Phase Stream)).map (·.2.1), ls) := by
  induction ls generalizing x with
  | nil => rfl
  | cons l ls ih =>
      rw [inferLayers, Network.forwardLayers]
      cases hl : l.forward x (.infer : Phase Stream) with
      | error e => rfl
      | ok r =>
          obtain ⟨l', y, phase⟩ := r
          obtain ⟨rfl, rfl⟩ := (Layer.passes_of_forward hl).infer
          dsimp only
          rw [ih, ok_bind]
          cases Network.forwardLayers ls y (.infer : Phase Stream) <;> rfl

theorem on_pass (x : Tensor α) (net : Network α) : (pass x).on net = match inferLayers net.layers x with
    | (out, layers) => (out.map (·.data), { net with layers := layers }) := by
  change on (match inferLayers net.layers x with | (out, layers) => (do
    set { net with layers := layers }
    return (← out).data : Inquiry α (Array α))) net = _
  obtain ⟨out, layers⟩ := inferLayers net.layers x
  cases out <;> rfl

theorem quiet_pass (x : Tensor α) : Quiet net (pass x) (net.infer x) := by
  rw [Quiet, on_pass, inferLayers_eq, Network.infer, Network.forward]
  cases Network.forwardLayers net.layers x (.infer : Phase Stream) <;> rfl

theorem quiet_predict (x : Tensor α) : Quiet net (predict x) (net.predict x) :=
  (quiet_looking _).bind fun _ => quiet_pass x

theorem quiet_measureSample (d : Dataset α) (sums : α × Nat) (sample : Tensor α × Nat) :
    Quiet net (measureSample d net.loss sums sample) (net.measureSample d sums sample) := by
  unfold measureSample Network.measureSample
  refine (quiet_pass sample.1).bind fun out => ?_
  exact (quiet_lift (d.target sample.2)).bind fun target => quiet_lift (.ok _)

theorem quiet_evaluate (d : Dataset α) : Quiet net (evaluate d) (net.evaluate d) := by
  unfold evaluate Network.evaluate
  refine (quiet_looking fun net => net.checkCompatible d).bind fun _ => ?_
  cases d.isEmpty with
  | true => exact quiet_lift (.error (.dataset .nothingToEvaluate))
  | false =>
      -- the loss that is read at first is that of the network for all samples
      have hstep : ∀ sums sample, Quiet net (measureSample d net.loss sums sample) (net.measureSample d sums sample) :=
        quiet_measureSample d
      have hsums := Quiet.foldlM hstep (Network.samplesOf d) ((0 : α), 0)
      exact hsums.bind fun sums => quiet_lift (.ok _)

theorem quiet_confusionMatrix (d : Dataset α) : Quiet net (confusionMatrix d) (net.confusionMatrix d) := by
  unfold confusionMatrix Network.confusionMatrix
  refine (quiet_looking fun net => net.checkCompatible d).bind fun _ => ?_
  refine (quiet_lift (require (Network.fitsTable d.numClasses))).bind fun _ => ?_
  refine Quiet.foldlM (fun table sample => ?_) _ _
  exact (quiet_pass sample.1).bind fun out => quiet_lift (Network.countAt table sample.2 (argmax out))

theorem quiet_samplePredictions (d : Dataset α) (count : Nat) :
    Quiet net (samplePredictions d count) (net.samplePredictions d count) := by
  unfold samplePredictions Network.samplePredictions
  refine Quiet.mapM (fun p => ?_) _
  refine (quiet_predict p.1.1).bind fun out => ?_
  dsimp only
  cases out[argmax out]? with
  | none => exact quiet_lift (.error .misuse)
  | some confidence => exact quiet_lift (.ok _)

theorem quiet_predictMany (images : List (Tensor α)) : Quiet net (predictMany images) (net.predictMany images) :=
  Quiet.mapM quiet_predict images

end Inquiry

end Inquiries

section Operations

variable {α σ τ ω : Type}

/-- What is asked of a network without training it. -/
inductive Query (α : Type)
  | infer (image : Tensor α)
  | predict (image : Tensor α)
  | predictMany (images : List (Tensor α))
  | evaluate (d : Dataset α)
  | confusionMatrix (d : Dataset α)
  | samplePredictions (d : Dataset α) (count : Nat)
  | summary
  | save (path : String)

inductive Finding (α : Type)
  | output (out : Array α)
  | outputs (outs : List (Array α))
  | evaluation (e : Evaluation α)
  | table (counts : Array (Array Nat))
  | samples (ss : List (SamplePrediction α))
  | summary (s : Summary)
  | saved

inductive Training (α σ τ : Type)
  | forward (image : Tensor α) (s : σ)
  | backward (gradient : Array α)
  | applyGradients (o : Optimizer α) (scale : α)
  | trainBatch (d : Dataset α) (indices : List Nat) (o : Optimizer α) (s : σ)
  | fit (train : Dataset α) (validation : Option (Dataset α)) (o : Optimizer α) (schedule : Schedule)
      (source : σ) (send : Receiver α τ) (receiver : τ)

inductive Outcome (α σ τ : Type)
  | passed (out : Array α) (s : σ)
  | gathered
  | stepped (o : Optimizer α)
  | trained (o : Optimizer α) (s : σ) (t : Tally α)
  | fitted (o : Optimizer α) (s : σ) (history : History α) (receiver : τ) (stopped : Bool)

/-- What is done in training may depend on what has come of training so far. -/
inductive Operation (α σ τ : Type)
  | train (next : List (Result (Outcome α σ τ)) → Training α σ τ)
  | ask (q : Query α)

def Operation.trains : Operation α σ τ → Bool
  | train _ => true
  | ask _ => false

variable [Scalar α] [JsonNumber α] [RandomSource σ]

namespace Query

def on (net : Network α) (s : Session ω) : Query α → Result (Finding α) × Network α × Session ω
  | infer x => told .output (Inquiry.pass x)
  | predict x => told .output (Inquiry.predict x)
  | predictMany xs => told .outputs (Inquiry.predictMany xs)
  | evaluate d => told .evaluation (Inquiry.evaluate d)
  | confusionMatrix d => told .table (Inquiry.confusionMatrix d)
  | samplePredictions d count => told .samples (Inquiry.samplePredictions d count)
  | summary => told .summary (Inquiry.looking Summary.ofNetwork)
  | save path =>
    let (r, s) := (Action.save path net.toJson).on s
    (r.map fun _ => .saved, net, s)
where
  told {β : Type} (f : β → Finding α) (a : Inquiry α β) : Result (Finding α) × Network α × Session ω :=
    let (r, net) := a.on net
    (r.map f, net, s)

def answer (net : Network α) (s : Session ω) : Query α → Result (Finding α)
  | infer x => (net.infer x).map .output
  | predict x => (net.predict x).map .output
  | predictMany xs => (net.predictMany xs).map .outputs
  | evaluate d => (net.evaluate d).map .evaluation
  | confusionMatrix d => (net.confusionMatrix d).map .table
  | samplePredictions d count => (net.samplePredictions d count).map .samples
  | summary => (Summary.ofNetwork net).map .summary
  | save path => ((Action.save path net.toJson).on s).1.map fun _ => .saved

theorem on_eq (q : Query α) (net : Network α) (s : Session ω) : ∃ s', q.on net s = (q.answer net s, net, s') := by
  have htold : ∀ {β : Type} (f : β → Finding α) {a : Inquiry α β} {r : Result β}, Inquiry.Quiet net a r →
      on.told net s f a = (r.map f, net, s) := by
    intro β f a r h
    rw [on.told, h]
  cases q with
  | infer x => exact ⟨s, htold _ (Inquiry.quiet_pass x)⟩
  | predict x => exact ⟨s, htold _ (Inquiry.quiet_predict x)⟩
  | predictMany xs => exact ⟨s, htold _ (Inquiry.quiet_predictMany xs)⟩
  | evaluate d => exact ⟨s, htold _ (Inquiry.quiet_evaluate d)⟩
  | confusionMatrix d => exact ⟨s, htold _ (Inquiry.quiet_confusionMatrix d)⟩
  | samplePredictions d count => exact ⟨s, htold _ (Inquiry.quiet_samplePredictions d count)⟩
  | summary => exact ⟨s, htold _ (Inquiry.quiet_looking _)⟩
  | save path => exact ⟨_, rfl⟩

end Query

def Training.run (net : Network α) : Training α σ τ → Result (Network α × Outcome α σ τ)
  | forward x s => do
    let (net, out, phase) ← net.forward x (.train s)
    return (net, .passed out (Network.sourceAfter s phase))
  | backward g => do return (← net.backward g, .gathered)
  | applyGradients o scale => do
    let (net, o) ← net.applyGradients o scale
    return (net, .stepped o)
  | trainBatch d indices o s => do
    let (net, o, s, t) ← net.trainBatch d indices o s
    return (net, .trained o s t)
  | fit train validation o schedule source send receiver => do
    let r ← net.fit train validation o schedule source send receiver
    return (r.network, .fitted r.optimizer r.source r.history r.receiver r.stopped)

/-- A network under operations, with what has come of training it and of questions, each in their order. -/
structure Course (α σ τ ω : Type) where
  network : Network α
  session : Session ω
  outcomes : List (Result (Outcome α σ τ))
  findings : List (Result (Finding α))
  broken : Bool

namespace Course

def trained (c : Course α σ τ ω) : Result (Network α × Outcome α σ τ) → Course α σ τ ω
  | .ok (net, outcome) => { c with network := net, outcomes := c.outcomes ++ [.ok outcome] }
  | .error e => { c with outcomes := c.outcomes ++ [.error e], broken := e == .misuse }

def step (c : Course α σ τ ω) (op : Operation α σ τ) : Course α σ τ ω :=
  if c.broken then c
  else match op with
    | .train next => c.trained ((next c.outcomes).run c.network)
    | .ask q =>
      let (r, net, s) := q.on c.network c.session
      { c with network := net, session := s, findings := c.findings ++ [r] }

/-- Operations one after the other. -/
def run (c : Course α σ τ ω) (ops : List (Operation α σ τ)) : Course α σ τ ω := ops.foldl step c

def start (net : Network α) (s : Session ω) : Course α σ τ ω := ⟨net, s, [], [], false⟩

/-- Courses that have come equally far in training. -/
structure Level (c d : Course α σ τ ω) : Prop where
  network : d.network = c.network
  outcomes : d.outcomes = c.outcomes
  broken : d.broken = c.broken

variable {c d : Course α σ τ ω}

theorem level_ask (c : Course α σ τ ω) (q : Query α) : (c.step (.ask q)).Level c := by
  unfold step
  split
  · exact ⟨rfl, rfl, rfl⟩
  · obtain ⟨s', hq⟩ := q.on_eq c.network c.session
    dsimp only
    rw [hq]
    exact ⟨rfl, rfl, rfl⟩

theorem Level.train (h : c.Level d) (next : List (Result (Outcome α σ τ)) → Training α σ τ) :
    (c.step (.train next)).Level (d.step (.train next)) := by
  obtain ⟨hnet, hout, hbroken⟩ := h
  unfold step
  rw [hnet, hout, hbroken]
  split
  · exact ⟨hnet, hout, hbroken⟩
  · dsimp only
    cases (next c.outcomes).run c.network with
    | ok r => exact ⟨rfl, by rw [trained, hout]; rfl, hbroken⟩
    | error e => exact ⟨hnet, by rw [trained, hout]; rfl, rfl⟩

theorem Level.run (h : c.Level d) (ops : List (Operation α σ τ)) :
    (c.run ops).Level (d.run (ops.filter Operation.trains)) := by
  -- both courses move on at training, at a question the first one alone
  induction ops generalizing c d with
  | nil => exact h
  | cons op ops ih =>
      cases op with
      | train next => exact ih (h.train next)
      | ask q =>
          have hq := level_ask c q
          exact ih ⟨h.network.trans hq.network, h.outcomes.trans hq.outcomes, h.broken.trans hq.broken⟩

end Course

end Operations

section Misuse

variable {α σ τ ω : Type} [Scalar α] {m : ModelSpec α} {shapes : List Shape} {net net' : Network α}

/-- Whether a query that is put to a network for images of some shape keeps to its contract. -/
def Query.Suits (shape : Shape) : Query α → Prop
  | infer x => x.shape = shape ∧ x.Sized
  | predict x => x.Sized
  | predictMany xs => ∀ x ∈ xs, x.Sized
  | evaluate d => d.Whole
  | confusionMatrix d => d.Whole ∧ Network.fitsTable d.numClasses = true
  | samplePredictions d _ => d.Whole
  | summary => True
  | save _ => True

theorem Network.Realizes.infers (hr : net.Realizes m) (hv : m.Valid shapes) (hf : m.Storable shapes) :
    ∃ n, net.Infers n :=
  ⟨_, infers_of_checkLayers (hr.fits hv).check fun l hl => (hr.storable hv hf l hl).output⟩

theorem Query.answer_ne_misuse [JsonNumber α] (hr : net.Realizes m) (hv : m.Valid shapes) (hf : m.Storable shapes)
    {q : Query α} (hq : q.Suits m.inputShape) (s : Session ω) : q.answer net s ≠ .error .misuse := by
  obtain ⟨n, hi⟩ := hr.infers hv hf
  cases q with
  | infer x =>
      obtain ⟨out, hout, -⟩ := hi.answers x (hq.1.trans hr.inputShape.symm) hq.2
      exact map_ne_misuse (mild_of_ok hout).ne_misuse
  | predict x => exact map_ne_misuse (hi.predict_mild hq).ne_misuse
  | predictMany xs => exact map_ne_misuse (Mild.mapM fun x hx => hi.predict_mild (hq x hx)).ne_misuse
  | evaluate d => exact map_ne_misuse (hi.evaluate_mild hq).ne_misuse
  | confusionMatrix d => exact map_ne_misuse (hi.confusionMatrix_mild hq.1 hq.2).ne_misuse
  | samplePredictions d count => exact map_ne_misuse (hi.samplePredictions_mild hq count).ne_misuse
  | summary =>
      obtain ⟨summary, hs⟩ := Summary.ofNetwork_answers hr hv
      exact map_ne_misuse (mild_of_ok hs).ne_misuse
  | save path => exact map_ne_misuse (Action.save_ne_misuse path net.toJson s)

variable [RandomSource σ]

theorem Training.run_realizes (hr : net.Realizes m) (hv : m.Valid shapes) {t : Training α σ τ}
    {outcome : Outcome α σ τ} (h : t.run net = .ok (net', outcome)) : net'.Realizes m := by
  have htidy : ∀ l ∈ net.layers, l.Tidy := (hr.chained hv).1.tidy
  cases t with
  | forward x s =>
      obtain ⟨⟨k, out, phase⟩, hrun, h⟩ := bind_eq_ok.mp h
      obtain ⟨⟩ := pure_eq_ok_iff.mp h
      exact (Network.forward_retains hrun).1.realizes hr htidy
  | backward g =>
      obtain ⟨k, hrun, h⟩ := bind_eq_ok.mp h
      obtain ⟨⟩ := pure_eq_ok_iff.mp h
      exact (Network.backward_retains hrun).1.realizes hr htidy
  | applyGradients o scale =>
      obtain ⟨⟨k, o'⟩, hrun, h⟩ := bind_eq_ok.mp h
      obtain ⟨⟩ := pure_eq_ok_iff.mp h
      exact (hr.step hv hrun).realizes
  | trainBatch d indices o s =>
      obtain ⟨⟨k, o', s', tally⟩, hrun, h⟩ := bind_eq_ok.mp h
      obtain ⟨⟩ := pure_eq_ok_iff.mp h
      exact (hr.trainBatch hv hrun).realizes
  | fit train validation o schedule source send receiver =>
      obtain ⟨r, hrun, h⟩ := bind_eq_ok.mp h
      obtain ⟨⟩ := pure_eq_ok_iff.mp h
      exact Network.fit_invariant (Network.realizes_kept hv) hr hrun

namespace Course

variable [JsonNumber α] {c : Course α σ τ ω}

theorem step_sound (hr : c.network.Realizes m) (hv : m.Valid shapes) (hf : m.Storable shapes)
    (hc : .error .misuse ∉ c.findings) {op : Operation α σ τ} (hop : ∀ q, op = .ask q → q.Suits m.inputShape) :
    (c.step op).network.Realizes m ∧ .error .misuse ∉ (c.step op).findings := by
  unfold step
  split
  · exact ⟨hr, hc⟩
  · cases op with
    | train next =>
        dsimp only
        cases hrun : (next c.outcomes).run c.network with
        | ok r => exact ⟨Training.run_realizes hr hv hrun, hc⟩
        | error e => exact ⟨hr, hc⟩
    | ask q =>
        obtain ⟨s', hq⟩ := q.on_eq c.network c.session
        have hne := Query.answer_ne_misuse hr hv hf (hop q rfl) c.session
        dsimp only
        rw [hq]
        refine ⟨hr, ?_⟩
        simpa [hc] using hne.symm

theorem run_sound (hr : c.network.Realizes m) (hv : m.Valid shapes) (hf : m.Storable shapes)
    (hc : .error .misuse ∉ c.findings) {ops : List (Operation α σ τ)}
    (hops : ∀ q, .ask q ∈ ops → q.Suits m.inputShape) : .error .misuse ∉ (c.run ops).findings := by
  induction ops generalizing c with
  | nil => exact hc
  | cons op ops ih =>
      have hop : ∀ q, op = .ask q → q.Suits m.inputShape := fun q hq => hops q (hq ▸ List.mem_cons_self)
      obtain ⟨hr', hc'⟩ := step_sound hr hv hf hc hop
      exact ih hr' hc' fun q hq => hops q (List.mem_cons_of_mem _ hq)

end Course

end Misuse

/-- Inference may be put anywhere between the operations of training, also between a pass forward and the pass
back that belongs to it. A query hands on the network that it is put to, with all that its layers hold, so
training comes to the same when all queries are left out; and a query that keeps to its contract is never a misuse. -/
theorem Network.inference_interposed {α ρ : Type} [Scalar α] [JsonNumber α] {draw : Initializer α ρ}
    (hdraw : Initializer.Draws draw) {m : ModelSpec α} {net : Network α} {s s' : ρ}
    (hbuild : build draw m s = .ok (net, s')) {σ τ ω : Type} [RandomSource σ] (session : Session ω)
    (ops : List (Operation α σ τ)) :
    (((Course.start net session).run (ops.filter Operation.trains)).network =
        ((Course.start net session).run ops).network ∧
      ((Course.start net session).run (ops.filter Operation.trains)).outcomes =
        ((Course.start net session).run ops).outcomes ∧
      ((Course.start net session).run (ops.filter Operation.trains)).broken =
        ((Course.start net session).run ops).broken) ∧
    (∀ (q : Query α) (k : Network α) (files : Session ω), ∃ files', q.on k files = (q.answer k files, k, files')) ∧
    ∀ shapes, m.validate = .ok shapes → m.Storable shapes → (∀ q, .ask q ∈ ops → q.Suits net.inputShape) →
      .error .misuse ∉ ((Course.start net session).run ops).findings := by
  have hlevel : (Course.start (σ := σ) (τ := τ) net session).Level (.start net session) := ⟨rfl, rfl, rfl⟩
  obtain ⟨hnet, hout, hbroken⟩ := hlevel.run ops
  refine ⟨⟨hnet, hout, hbroken⟩, Query.on_eq, fun shapes hval hf hops => ?_⟩
  have hr := build_realizes hdraw hbuild
  rw [hr.inputShape] at hops
  exact Course.run_sound (c := .start net session) hr (ModelSpec.valid_of_validate hval) hf List.not_mem_nil hops

theorem Network.inference_interposed_small : ∃ (net : Network Float) (d : Dataset Float)
    (ops : List (Operation Float Stream Unit)) (c : Course Float Stream Unit String),
    ops = [.train fun _ => .forward ⟨.flat 1, #[3]⟩ (.ofSeed 0), .ask (.infer ⟨.flat 1, #[5]⟩), .ask (.evaluate d),
      .train fun _ => .backward #[1, 2], .ask (.save "m"), .train fun _ => .applyGradients ⟨.sgd 1 0, 0, #[]⟩ 1] ∧
    c = (Course.start net ⟨.empty [], ""⟩).run ops ∧ c.network.parameters.map (·.values) = [#[-2, -5], #[-1, -2]] ∧
    c.outcomes.length = 3 ∧ c.broken = false ∧ .error .misuse ∉ c.findings := by
  obtain ⟨m, hm⟩ : ∃ m : ModelSpec Float, m = ⟨.flat 1, [.dense 2 .linear], .mse⟩ := ⟨_, rfl⟩
  obtain ⟨net, hnet⟩ : ∃ net : Network Float, net = ⟨.flat 1, [.dense ⟨⟨1, 2, Array.replicate 2 1⟩, Buffer.zeros 2,
    .linear, .zeros 1 2, Buffer.zeros 2, #[], #[]⟩], .mse, none⟩ := ⟨_, rfl⟩
  obtain ⟨d, hd⟩ : ∃ d : Dataset Float, d = ⟨.flat 1, #[⟨.flat 1, #[1]⟩], #[1], 2, none⟩ := ⟨_, rfl⟩
  have hbuild : build (fun _ _ n s => .ok (Array.replicate n 1, s)) m () = .ok (net, ()) := by
    subst hm hnet
    rfl
  have hval : m.validate = .ok [.flat 2] := by
    subst hm
    rfl
  have hf : m.Storable [.flat 2] := by
    subst hm
    exact ⟨by decide, by decide⟩
  have hw : d.Whole := by
    subst hd
    exact ⟨rfl, by simp [Tensor.Sized, Shape.flat, Shape.size], by simp, by decide⟩
  let ops : List (Operation Float Stream Unit) := [.train fun _ => .forward ⟨.flat 1, #[3]⟩ (.ofSeed 0),
    .ask (.infer ⟨.flat 1, #[5]⟩), .ask (.evaluate d), .train fun _ => .backward #[1, 2], .ask (.save "m"),
    .train fun _ => .applyGradients ⟨.sgd 1 0, 0, #[]⟩ 1]
  have hops : ∀ q, .ask q ∈ ops → q.Suits net.inputShape := by
    subst hnet
    simp [ops, Query.Suits, hw, Tensor.Sized, Shape.flat, Shape.size]
  obtain ⟨⟨hsame, hout, hbroken⟩, -, hfindings⟩ :=
    Network.inference_interposed Initializer.draws_ones hbuild (⟨.empty [], ""⟩ : Session String) ops
  refine ⟨net, d, ops, _, rfl, rfl, hsame ▸ ?_, hout ▸ ?_, hbroken ▸ ?_, hfindings _ hval hf hops⟩
  all_goals
    subst hnet hd
    decide +kernel

end Convnet
