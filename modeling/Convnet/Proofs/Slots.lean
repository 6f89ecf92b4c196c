import Mathlib.Data.List.Forall2
import Mathlib.Data.List.Induction
import Convnet.Proofs.Bench
import Convnet.Scalar.Float

namespace Convnet

variable {α : Type} [Scalar α]

namespace Bench

variable {b b' b₁ : Bench α} {r : Round α} {rounds rounds' : List (Round α)}

omit [Scalar α] in
theorem lt_of_lt_size_values {k j : Nat} (hj : j < (b.values k).size) : k < b.lengths.size := by
  rw [size_lengths]
  refine Decidable.byContradiction fun hk => ?_
  simp [values, hk] at hj

/-- A run from one state of the buffers to another, weight by weight. -/
structure Follows (b : Bench α) (rounds : List (Round α)) (b' : Bench α) : Prop where
  rule : b'.optimizer.rule = b.optimizer.rule
  steps : b'.optimizer.steps = b.optimizer.steps + rounds.length
  lengths : b'.lengths = b.lengths
  coordinate : ∀ k j, j < (b.values k).size → b'.coordinate k j =
    b.optimizer.rule.follow b.optimizer.steps (b.coordinate k j)
      (rounds.map (·.grad k j))
  /-- From the first step on there is a row of moments for every buffer, one for each of its weights. -/
  kept : b.optimizer.rule.keepsMoments = true → rounds ≠ [] → ∀ k < b.lengths.size,
    (b'.kept k).size = (b.values k).size

theorem run?_concat : b.run? (rounds ++ [r]) = b.run? rounds >>= fun b' => b'.round? r := by
  rw [run?, List.foldlM_append]
  congr 1
  funext b'
  rw [List.foldlM_cons]
  cases b'.round? r <;> rfl

theorem round?_eq_ok (h : b.round? r = .ok b') : b' = b.beginStep.updates r.grads r.order := by
  unfold round? at h
  rw [updates?_eq] at h
  split at h
  · exact (Except.ok.inj h).symm
  · nomatch h

theorem Follows.concat (h : b.Follows rounds b₁) (hr : r.Suits b.lengths) (hb' : b₁.round? r = .ok b') :
    b.Follows (rounds ++ [r]) b' := by
  obtain rfl := round?_eq_ok hb'
  obtain ⟨hrule, hsteps, hlengths⟩ := updates_keeps b₁.beginStep r.grads r.order
  have hsize (k : Nat) : (b₁.values k).size = (b.values k).size := by
    rw [← getD_lengths, h.lengths, getD_lengths]
  refine ⟨hrule.trans h.rule, ?_, hlengths.trans h.lengths, ?_, ?_⟩
  · rw [hsteps, List.length_append, List.length_singleton, ← Nat.add_assoc, ← h.steps]
    rfl
  · intro k j hj
    have hk : k ∈ r.order := hr.mem.mpr (lt_of_lt_size_values hj)
    have hg := hr.grads k
    rw [getD_lengths, ← hsize k] at hg
    rw [coordinate_updates (b := b₁.beginStep) hr.nodup hk ((hsize k).symm ▸ hj) hg, List.map_append,
      List.map_singleton, OptimizerRule.follow_concat, List.length_map, ← h.coordinate k j hj, ← h.steps,
      ← h.rule]
    rfl
  · intro hkeeps _ k hk
    rw [← h.rule] at hkeeps
    rw [kept_updates (b := b₁.beginStep) hkeeps hr.nodup (hr.mem.mpr hk)]
    exact hsize k

theorem follows_of_run? (hr : ∀ r ∈ rounds, r.Suits b.lengths) (h : b.run? rounds = .ok b') :
    b.Follows rounds b' := by
  -- from the end, since the moments of a round are those that the rounds before it have left
  induction rounds using List.reverseRecOn generalizing b' with
  | nil =>
      obtain ⟨⟩ := Except.ok.inj h
      exact ⟨rfl, rfl, rfl, fun _ _ _ => rfl, fun _ hne => absurd rfl hne⟩
  | append_singleton rounds r ih =>
      rw [run?_concat] at h
      obtain ⟨b₁, hb₁, h⟩ := bind_eq_ok.mp h
      have hfront := ih (fun r hr' => hr r (List.mem_append_left _ hr')) hb₁
      exact hfront.concat (hr r (List.mem_append_right _ (List.mem_singleton_self r))) h

theorem round?_answers (hr : r.Suits b.lengths)
    (hroom : Optimizer.rowBytes * b.buffers.size < Nat.pow 2 63) : ∃ b', b.round? r = .ok b' := by
  have hall : r.order.all (b.beginStep.accepts r.grads) = true := by
    rw [List.all_eq_true]
    intro k hk
    have hk : k < b.buffers.size := size_lengths b ▸ hr.mem.mp hk
    have hg := hr.grads k
    rw [getD_lengths] at hg
    have hplace : Optimizer.hasPlace b.optimizer.slots k = true := by
      rw [Optimizer.hasPlace, Bool.or_eq_true, decide_eq_true_eq, decide_eq_true_eq]
      exact .inr (Nat.lt_of_le_of_lt (Nat.mul_le_mul_left _ hk) hroom)
    have hsize : (b.beginStep.values k).size ≤ (r.grads.getD k #[]).size := hg
    have hplace' : Optimizer.hasPlace b.beginStep.optimizer.slots k = true := hplace
    rw [accepts, hplace', decide_eq_true hsize, Bool.or_true, Bool.or_true, Bool.and_true]
  exact ⟨_, by rw [round?, updates?_eq, if_pos hall]⟩

theorem run?_answers (hr : ∀ r ∈ rounds, r.Suits b.lengths)
    (hroom : Optimizer.rowBytes * b.buffers.size < Nat.pow 2 63) : ∃ b', b.run? rounds = .ok b' := by
  induction rounds using List.reverseRecOn with
  | nil => exact ⟨b, rfl⟩
  | append_singleton rounds r ih =>
      have hfront : ∀ r ∈ rounds, r.Suits b.lengths := fun r hr' => hr r (List.mem_append_left _ hr')
      obtain ⟨b₁, hb₁⟩ := ih hfront
      have hlengths := (follows_of_run? hfront hb₁).lengths
      have hlast := hr r (List.mem_append_right _ (List.mem_singleton_self r))
      rw [← size_lengths, ← hlengths, size_lengths] at hroom
      obtain ⟨b', hb'⟩ := round?_answers (hlengths ▸ hlast) hroom
      exact ⟨b', by rw [run?_concat, hb₁, ok_bind, hb']⟩

theorem round?_reorder {r' : Round α} (h : r.Reorders r') : b.round? r = b.round? r' := by
  rw [round?, round?, h.grads, updates?_perm h.order]

theorem run?_reorder (h : List.Forall₂ Round.Reorders rounds rounds') : b.run? rounds = b.run? rounds' := by
  induction h generalizing b with
  | nil => rfl
  | cons hr _ ih =>
      unfold run? at ih ⊢
      rw [List.foldlM_cons, List.foldlM_cons, round?_reorder hr]
      congr 1
      exact funext fun b' => ih

variable {rule : OptimizerRule α} {buffers : Array (Array α)}

theorem coordinate_fresh (k j : Nat) :
    (fresh rule buffers).coordinate k j = (Buffer.read (buffers.getD k #[]) j, ⟨0, 0⟩) := by
  have hkept : (fresh rule buffers).kept k = #[] := rfl
  rw [coordinate, moments_of_kept_eq_empty hkept, Array.getD_eq_getD_getElem?, Array.getElem?_replicate]
  split <;> rfl

theorem getElem?_values {slot j : Nat} (hj : j < (b.values slot).size) :
    b.buffers[slot]? = some (b.values slot) ∧ (b.values slot)[j]? = some (b.coordinate slot j).1 := by
  have hslot := lt_of_lt_size_values hj
  rw [size_lengths] at hslot
  constructor
  · simp [values, hslot]
  · rw [Array.getElem?_eq_getElem hj, coordinate, Buffer.read_of_lt hj]

def alone? (rule : OptimizerRule α) (w : α) (gs : List α) : Result (Bench α) :=
  (fresh rule #[#[w]]).run? (gs.map .single)

structure Alone (rule : OptimizerRule α) (w : α) (gs : List α) (b : Bench α) : Prop where
  coordinate : b.coordinate 0 0 = rule.follow 0 (w, ⟨0, 0⟩) gs
  buffers : b.buffers = #[#[(b.coordinate 0 0).1]]
  kept : rule.keepsMoments = true → gs ≠ [] → b.kept 0 = #[(b.coordinate 0 0).2]
  steps : b.optimizer.steps = gs.length

theorem exists_alone (rule : OptimizerRule α) (w : α) (gs : List α) :
    ∃ b, alone? rule w gs = .ok b ∧ Alone rule w gs b := by
  have hlengths : (fresh rule #[#[w]]).lengths = #[1] := by simp [lengths, fresh]
  have hr : ∀ r ∈ gs.map Round.single, r.Suits (fresh rule #[#[w]]).lengths := by
    rw [hlengths]
    exact List.forall_mem_map.mpr fun g _ => Round.single_suits g
  have hroom : Optimizer.rowBytes * 1 < Nat.pow 2 63 := by decide
  obtain ⟨b, hb⟩ := run?_answers hr hroom
  have h := follows_of_run? hr hb
  have hone : b.lengths = #[1] := h.lengths.trans hlengths
  have hgrads : (gs.map Round.single).map (·.grad 0 0) = gs := by
    rw [List.map_map]
    exact List.map_id gs
  have hsize : (b.values 0).size = 1 := by
    rw [← getD_lengths, hone]
    rfl
  obtain ⟨w', hw'⟩ := Array.size_eq_one_iff.mp hsize
  refine ⟨b, hb, ?_, ?_, fun hkeeps hne => ?_, ?_⟩
  · rw [h.coordinate 0 0 Nat.zero_lt_one, hgrads]
    rfl
  · have hbuffers : b.buffers.size = 1 := by rw [← size_lengths, hone]; rfl
    obtain ⟨row, hrow⟩ := Array.size_eq_one_iff.mp hbuffers
    have hsame : b.values 0 = row := by rw [values, hrow]; rfl
    rw [coordinate, hw', hrow, ← hsame, hw']
    rfl
  · have hkept : (b.kept 0).size = 1 := h.kept hkeeps (by simpa using hne) 0 (by rw [hlengths]; decide)
    obtain ⟨s, hs⟩ := Array.size_eq_one_iff.mp hkept
    have hmoments : b.moments 0 = b.kept 0 := if_pos (hkept.trans hsize.symm)
    rw [coordinate, hmoments, hs]
    rfl
  · rw [h.steps, List.length_map]
    exact Nat.zero_add _

theorem moments_before (hr : r.Suits b.lengths) {front back : List Nat} {slot : Nat}
    (horder : r.order = front ++ slot :: back) (h : b.beginStep.updates? r.grads front = .ok b') :
    b'.moments slot = b.moments slot := by
  have hnodup : (front ++ slot :: back).Nodup := horder ▸ hr.nodup
  have hslot : slot ∉ front := by
    rw [List.nodup_append] at hnodup
    exact fun hmem => hnodup.2.2 slot hmem slot List.mem_cons_self rfl
  obtain ⟨hv, hk⟩ := updates_others b.beginStep r.grads hslot
  rw [updates?_eq] at h
  split at h
  case isFalse => nomatch h
  case isTrue =>
    obtain rfl := Except.ok.inj h
    exact moments_congr (congrArg Array.size hv) hk

theorem coordinate_of_run? (hr : ∀ r ∈ rounds, r.Suits (buffers.map Array.size))
    (h : (fresh rule buffers).run? rounds = .ok b) {slot j : Nat} {values : Array α} {w : α}
    (hslot : buffers[slot]? = some values) (hw : values[j]? = some w) :
    b.coordinate slot j = rule.follow 0 (w, ⟨0, 0⟩) (rounds.map (·.grad slot j)) := by
  obtain ⟨hj, rfl⟩ := Array.getElem?_eq_some_iff.mp hw
  have hvalues : buffers.getD slot #[] = values := by
    rw [Array.getD_eq_getD_getElem?]
    exact congrArg (Option.getD · #[]) hslot
  have hmany := follows_of_run? (b := fresh rule buffers) hr h
  rw [hmany.coordinate slot j (hvalues.symm ▸ hj : j < (buffers.getD slot #[]).size), coordinate_fresh, hvalues,
    Buffer.read_of_lt hj]
  rfl

end Bench

section Steps

def Network.bench (net : Network α) (o : Optimizer α) : Bench α :=
  ⟨(net.parameters.map (·.values)).toArray, o⟩

/-- The round that a step of a network is: its gradients, each times the factor of the step, in the order of its
parameters. -/
def Network.round (net : Network α) (scale : α) : Round α :=
  ⟨List.range net.parameters.length, (net.parameters.map fun p => p.grads.map (· * scale)).toArray⟩

theorem Updates.updates?_bench {slot : Nat} {ps : List (Parameter α)} {o o' : Optimizer α}
    {values : List (Array α)} (h : Updates slot ps o values o') (before grads : List (Array α))
    (hb : before.length = slot) (hg : grads.drop slot = ps.map (·.grads)) :
    (⟨(before ++ ps.map (·.values)).toArray, o⟩ : Bench α).updates? grads.toArray (List.range' slot ps.length) =
      .ok ⟨(before ++ values).toArray, o'⟩ := by
  induction h generalizing before with
  | nil => rfl
  | @cons slot p ps o o₁ o' v values h hs ih =>
      rw [List.map_cons] at hg ⊢
      have hgrad : grads.toArray.getD slot #[] = p.grads := by
        have hfirst : (grads.drop slot)[0]? = some p.grads := by rw [hg]; rfl
        rw [List.getElem?_drop, Nat.add_zero] at hfirst
        simp [hfirst]
      have hvalues : (before ++ p.values :: ps.map (·.values)).toArray.getD slot #[] = p.values := by
        simp [← hb]
      have hset : (before ++ p.values :: ps.map (·.values)).toArray.setIfInBounds slot v =
          ((before ++ [v]) ++ ps.map (·.values)).toArray := by
        simp [← hb]
      have hfirst : (⟨(before ++ p.values :: ps.map (·.values)).toArray, o⟩ : Bench α).update?
          grads.toArray slot = .ok ⟨((before ++ [v]) ++ ps.map (·.values)).toArray, o₁⟩ := by
        rw [Bench.update?, Bench.values, hgrad, hvalues, h, ok_bind, ← hset]
        rfl
      have hrest : grads.drop (slot + 1) = ps.map (·.grads) := by
        rw [← List.drop_drop, hg]
        rfl
      have hlength : (before ++ [v]).length = slot + 1 := by rw [List.length_append, hb]; rfl
      have hnext := ih (before ++ [v]) hlength hrest
      rw [Bench.updates?, List.length_cons, List.range'_succ, List.foldlM_cons, hfirst, ok_bind]
      rw [Bench.updates?, List.append_assoc _ _ values] at hnext
      exact hnext

/-- Stepping a network by its gradients is a round over its parameters, in their order. -/
theorem Network.Realizes.applyGradients_round {net net' : Network α} {m : ModelSpec α} {scale : α}
    {o o' : Optimizer α} (hr : net.Realizes m) (hm : ∀ p ∈ net.parameters, p.Matched)
    (h : net.applyGradients o scale = .ok (net', o')) :
    (net.bench o).round? (net.round scale) = .ok (net'.bench o') := by
  obtain ⟨values, hup, hpars, -⟩ := hr.applyGradients hm h
  have hgrads : (net.parameters.map fun p => p.grads.map (· * scale)).drop 0 =
      (net.parameters.map (·.scaled scale)).map (·.grads) := by
    rw [List.map_map]
    rfl
  have hround := hup.updates?_bench [] _ rfl hgrads
  rw [List.map_map, List.length_map, ← List.range_eq_range'] at hround
  have hvalues : net'.parameters.map (·.values) = values := by
    rw [hpars, List.map_map]
    exact List.map_id values
  rw [Network.bench, Network.bench, hvalues]
  exact hround

theorem Network.round_suits {net : Network α} (hm : ∀ p ∈ net.parameters, p.Matched) (scale : α) (o : Optimizer α) :
    (net.round scale).Suits (net.bench o).lengths := by
  have hlengths : (net.bench o).lengths.toList = net.parameters.map (·.values.size) := by
    simp [Bench.lengths, Network.bench, Function.comp_def]
  refine ⟨?_, fun slot => Nat.le_of_eq ?_⟩
  · rw [← Array.length_toList, hlengths, List.length_map]
    exact List.Perm.refl _
  · rw [Array.getD_eq_getD_getElem?, ← Array.getElem?_toList, hlengths, List.getElem?_map]
    cases hp : net.parameters[slot]? with
    | none => simp [Network.round, hp]
    | some p =>
        have hsize : p.grads.size = p.values.size := hm p (List.mem_of_getElem? hp)
        simp [Network.round, hp, hsize]

/-- Steps of networks with one description. Each goes on from the parameters and the optimizer that the last one has
left, whatever gradients were summed since. -/
inductive Network.Stepped (m : ModelSpec α) (b : Bench α) : List (Round α) → Bench α → Prop
  | start : Stepped m b [] b
  | step {rounds : List (Round α)} {net net' : Network α} {scale : α} {o o' : Optimizer α}
      (h : Stepped m b rounds (net.bench o)) (hr : net.Realizes m) (hm : ∀ p ∈ net.parameters, p.Matched)
      (hs : net.applyGradients o scale = .ok (net', o')) :
      Stepped m b (rounds ++ [net.round scale]) (net'.bench o')

theorem Network.Stepped.runs {m : ModelSpec α} {b b' : Bench α} {rounds : List (Round α)}
    (h : Network.Stepped m b rounds b') : b.run? rounds = .ok b' ∧ ∀ r ∈ rounds, r.Suits b.lengths := by
  induction h with
  | start => exact ⟨rfl, by simp⟩
  | @step rounds net net' scale o o' _ hr hm hs ih =>
      obtain ⟨hrun, hsuits⟩ := ih
      have hlengths := (Bench.follows_of_run? hsuits hrun).lengths
      constructor
      · rw [Bench.run?_concat, hrun, ok_bind, hr.applyGradients_round hm hs]
      · intro r hmem
        rcases List.mem_append.mp hmem with hmem | hmem
        · exact hsuits r hmem
        · obtain rfl := List.mem_singleton.mp hmem
          exact hlengths ▸ round_suits hm scale o

end Steps

namespace Bench

variable {rule : OptimizerRule α} {buffers : Array (Array α)}

/-- Rounds over buffers that were not moved yet. -/
structure Separates (rule : OptimizerRule α) (buffers : Array (Array α)) (rounds : List (Round α)) : Prop where
  /-- All the rounds are carried out, as long as there can be a row of moments for each buffer. -/
  answers : Optimizer.rowBytes * buffers.size < Nat.pow 2 63 →
    ∀ n, ∃ b, (fresh rule buffers).run? (rounds.take n) = .ok b
  /-- With the buffers of any of the steps in another order, the answer is the same. -/
  reordered : ∀ rounds', List.Forall₂ Round.Reorders rounds rounds' →
    (fresh rule buffers).run? rounds = (fresh rule buffers).run? rounds'
  /-- After any number of steps, each weight and its moments are those of a run with this weight alone. -/
  alone : ∀ n b, (fresh rule buffers).run? (rounds.take n) = .ok b → ∀ slot values j w,
    buffers[slot]? = some values → values[j]? = some w →
      ∃ c v values', alone? rule w ((rounds.take n).map (·.grad slot j)) = .ok c ∧ c.buffers = #[#[v]] ∧
        b.buffers[slot]? = some values' ∧ values'[j]? = some v ∧ c.coordinate 0 0 = b.coordinate slot j
  /-- A buffer that is reached in a step, after those before it in order, starts from zeros if it is the first
  step, and from the moments that the last step left it with if not: these are as many as it has weights. -/
  restarts : rule.keepsMoments = true → ∀ n b, (fresh rule buffers).run? (rounds.take n) = .ok b →
    ∀ r, rounds[n]? = some r → ∀ front slot back, r.order = front ++ slot :: back →
      ∀ b', b.beginStep.updates? r.grads front = .ok b' →
        (n = 0 → b'.moments slot = Array.replicate (buffers.getD slot #[]).size ⟨0, 0⟩) ∧
        (0 < n → b'.moments slot = b.kept slot ∧ (b.kept slot).size = (buffers.getD slot #[]).size)

/-- An optimizer moves every weight as if there were no other, and the steps of a network are such rounds over its
parameters. -/
theorem run_separates (rule : OptimizerRule α) (buffers : Array (Array α)) (rounds : List (Round α))
    (hr : ∀ r ∈ rounds, r.Suits (buffers.map Array.size)) : Separates rule buffers rounds ∧
      ∀ m steps b, Network.Stepped m (fresh rule buffers) steps b →
        (fresh rule buffers).run? steps = .ok b ∧ ∀ r ∈ steps, r.Suits (buffers.map Array.size) := by
  refine ⟨?_, fun m steps b h => h.runs⟩
  have htake (n : Nat) : ∀ r ∈ rounds.take n, r.Suits (fresh rule buffers).lengths :=
    fun r hmem => hr r (List.mem_of_mem_take hmem)
  refine ⟨fun hroom n => run?_answers (htake n) hroom, fun _ => run?_reorder, ?_, ?_⟩
  · intro n b h slot values j w hslot hw
    obtain ⟨hj, rfl⟩ := Array.getElem?_eq_some_iff.mp hw
    have hvalues : (fresh rule buffers).values slot = values := by
      rw [Bench.values, Array.getD_eq_getD_getElem?]
      exact congrArg (Option.getD · #[]) hslot
    have hmany := follows_of_run? (htake n) h
    obtain ⟨c, hc, hone⟩ := exists_alone rule values[j] ((rounds.take n).map (·.grad slot j))
    have hcoord : c.coordinate 0 0 = b.coordinate slot j :=
      hone.coordinate.trans (coordinate_of_run? (htake n) h hslot hw).symm
    have hsize : (b.values slot).size = values.size := by
      rw [← getD_lengths, hmany.lengths, getD_lengths, hvalues]
    obtain ⟨hb, hv⟩ := getElem?_values (hsize ▸ hj : j < (b.values slot).size)
    exact ⟨c, _, _, hc, hone.buffers, hb, hcoord ▸ hv, hcoord⟩
  · intro hkeeps n b h r hn front slot back horder b' h'
    have hfollows := follows_of_run? (htake n) h
    have hmem := List.mem_of_getElem? hn
    have hsuits : r.Suits b.lengths := hfollows.lengths ▸ hr r hmem
    have hslot : slot < (fresh rule buffers).lengths.size :=
      (hr r hmem).mem.mp (by simp [horder])
    rw [moments_before hsuits horder h']
    constructor
    · rintro rfl
      obtain rfl := Except.ok.inj h
      exact moments_of_kept_eq_empty rfl
    · intro hpos
      have hne : rounds.take n ≠ [] := by
        rw [Ne, List.take_eq_nil_iff]
        rintro (rfl | rfl)
        · exact absurd hpos (Nat.lt_irrefl 0)
        · exact absurd hmem List.not_mem_nil
      have hkept := hfollows.kept hkeeps hne slot hslot
      have hsize : (b.values slot).size = ((fresh rule buffers).values slot).size := by
        rw [← getD_lengths, ← getD_lengths, hfollows.lengths]
      exact ⟨if_pos (hkept.trans hsize.symm), hkept⟩

theorem run_separates_swapped : ∃ (rule : OptimizerRule Float) (buffers : Array (Array Float))
    (rounds : List (Round Float)) (b : Bench Float), rule.keepsMoments = true ∧ buffers.size = 2 ∧
      rounds.map (·.order) = [[0, 1], [1, 0]] ∧ (∀ r ∈ rounds, r.Suits (buffers.map Array.size)) ∧
        Separates rule buffers rounds ∧ (fresh rule buffers).run? rounds = .ok b := by
  obtain ⟨buffers, hbuffers⟩ : ∃ buffers : Array (Array Float), buffers = #[#[1, 2], #[3]] := ⟨_, rfl⟩
  obtain ⟨rounds, hrounds⟩ : ∃ rounds : List (Round Float), rounds =
    [⟨[0, 1], #[#[0.5, -1], #[0.25]]⟩, ⟨[1, 0], #[#[-0.5, 0], #[4]]⟩] := ⟨_, rfl⟩
  have hlengths : buffers.map Array.size = #[2, 1] := by simp [hbuffers]
  have hgrads (g : Array (Array Float)) (hg : g.map Array.size = #[2, 1]) (slot : Nat) :
      #[2, 1].getD slot 0 ≤ (g.getD slot #[]).size := by
    have h := (⟨g, .ofRule (.rmsprop 1)⟩ : Bench Float).getD_lengths slot
    rw [lengths, hg] at h
    exact Nat.le_of_eq h
  have hr : ∀ r ∈ rounds, r.Suits (buffers.map Array.size) := by
    rw [hlengths, hrounds]
    simp only [List.mem_cons, List.not_mem_nil, or_false]
    rintro r (rfl | rfl)
    · exact ⟨List.Perm.refl _, hgrads _ (by simp)⟩
    · exact ⟨.swap _ _ _, hgrads _ (by simp)⟩
  obtain ⟨h, -⟩ := run_separates (.adamOf 0.001) buffers rounds hr
  obtain ⟨b, hb⟩ := h.answers (by rw [hbuffers]; decide) 2
  refine ⟨_, buffers, rounds, b, rfl, by rw [hbuffers]; rfl, by rw [hrounds]; rfl, hr, h, ?_⟩
  rwa [hrounds] at hb ⊢

end Bench

end Convnet
