import Convnet.Proofs.Worker
import Convnet.Run.Report

namespace Convnet

/-- Where the report stands. It has `left` when nothing can be sent to it any more, and everything is `drained` when
the run has ended and no event is left. -/
inductive Reader
  | receiving
  | leaving
  | left
  | drained

def Reader.rank : Reader → Nat
  | .receiving => 2
  | .leaving => 1
  | .left => 0
  | .drained => 0

inductive Act (α : Type)
  | deed (d : Deed α)
  | hand (event : TrainEvent α) (written : Bool)
  | drop
  | drain

/-- The run, the events that are on their way, what has been printed, and the report. -/
structure Exchange (α σ ω : Type) where
  worker : Stage α σ
  channel : List (TrainEvent α)
  out : ω
  reader : Reader

namespace Act

variable {α : Type}

def deeds (acts : List (Act α)) : List (Deed α) :=
  acts.filterMap fun
    | deed d => some d
    | _ => none

def handed (acts : List (Act α)) : List (TrainEvent α × Bool) :=
  acts.filterMap fun
    | hand event written => some (event, written)
    | _ => none

/-- Nothing that is sent after the report has left is taken. -/
def Refuses (acts : List (Act α)) : Prop :=
  acts.Pairwise fun a b => a = drop → ∀ event taken, b = deed (.send event taken) → taken = false

def Ceases (acts : List (Act α)) : Prop :=
  acts.Pairwise fun a b => ∀ event, a = deed (.send event false) → ∀ d, b ≠ deed d

end Act

namespace Exchange

section Definitions

variable {α : Type} [Scalar α] {σ : Type} [RandomSource σ] {ω : Type} [Writer ω] (schedule : Schedule)
  (train : Dataset α) (validation : Option (Dataset α))

inductive Step : Exchange α σ ω → List (Act α) → Exchange α σ ω → Prop
  | work {w w' : Stage α σ} {ds : List (Deed α)} (c) (out) (reader)
      (h : w.advance schedule train validation = some (ds, w')) :
      Step ⟨w, c, out, reader⟩ (ds.map .deed) ⟨w', c, out, reader⟩
  | sent (event) (r) (next) (c) (out) (reader) (h : reader = .receiving ∨ reader = .leaving) :
      Step ⟨.sending event r next, c, out, reader⟩ [.deed (.send event true)] ⟨next, c ++ [event], out, reader⟩
  | refused (event) (r) (next) (c) (out) :
      Step ⟨.sending event r next, c, out, .left⟩ [.deed (.send event false)]
        ⟨.ended (.ok { r with stopped := true }), c, out, .left⟩
  | written (w) (event) (c) {out out' : ω} (h : Writer.write out (Report.eventText event) = some out') :
      Step ⟨w, event :: c, out, .receiving⟩ [.hand event true] ⟨w, c, out', .receiving⟩
  | unwritten (w) (event) (c) {out : ω} (h : Writer.write out (Report.eventText event) = none) :
      Step ⟨w, event :: c, out, .receiving⟩ [.hand event false] ⟨w, c, out, .leaving⟩
  | drop (w) (c) (out) : Step ⟨w, c, out, .leaving⟩ [.drop] ⟨w, [], out, .left⟩
  | drain (answer) (out) : Step ⟨.ended answer, [], out, .receiving⟩ [.drain] ⟨.ended answer, [], out, .drained⟩

inductive Steps (x : Exchange α σ ω) : List (Act α) → Exchange α σ ω → Prop
  | refl : Steps x [] x
  | snoc {acts acts' : List (Act α)} {y z : Exchange α σ ω} (h : Steps x acts y)
      (hstep : Step schedule train validation y acts' z) : Steps x (acts ++ acts') z

def start (w : Stage α σ) (out : ω) : Exchange α σ ω := ⟨w, [], out, .receiving⟩

def abandoned : Result (Run α σ Unit) → Result (Run α σ Unit)
  | .error .misuse => .error .misuse
  | _ => .error .io

/-- What comes of it when both parties are done. -/
def answer? (x : Exchange α σ ω) : Option (Result (Run α σ Unit)) :=
  match x.reader, x.worker with
  | .drained, .ended answer => some answer
  | .left, .ended answer => some (abandoned answer)
  | _, _ => none

def writeAll (out : ω) (events : List (TrainEvent α)) : Option ω :=
  events.foldlM (fun out event => Writer.write out (Report.eventText event)) out

/-- How the run stands to its plan, which is what it does when nobody watches: it keeps to it, or it was broken off
at an event that was not taken. -/
inductive Follows (plan : List (Deed α)) (goal : Result (Run α σ Unit)) : List (Deed α) → Stage α σ → Prop
  | on {ds : List (Deed α)} {w : Stage α σ} (htaken : ∀ d ∈ ds, d.taken = true) (hgoing : w.Going)
      (hplan : plan = ds ++ w.outlook schedule train validation)
      (hgoal : goal = w.outcome schedule train validation) : Follows plan goal ds w
  | off {front back : List (Deed α)} {event : TrainEvent α} (r : Run α σ Unit)
      (htaken : ∀ d ∈ front, d.taken = true) (hplan : plan = front ++ .send event true :: back) :
      Follows plan goal (front ++ [.send event false]) (.ended (.ok r))

/-- How the two parties stand to each other, after some deeds of the run and some events that were handed on. -/
inductive Stands (plan : List (Deed α)) (goal : Result (Run α σ Unit)) (out₀ : ω) :
    List (Deed α) → List (TrainEvent α × Bool) → Exchange α σ ω → Prop
  | receiving {ds : List (Deed α)} {w : Stage α σ} {es c : List (TrainEvent α)} {out : ω}
      (htaken : ∀ d ∈ ds, d.taken = true) (hw : Follows schedule train validation plan goal ds w)
      (hsent : Deed.events ds = es ++ c) (hout : writeAll out₀ es = some out) :
      Stands plan goal out₀ ds (es.map (·, true)) ⟨w, c, out, .receiving⟩
  | leaving {ds : List (Deed α)} {w : Stage α σ} {es c : List (TrainEvent α)} {e : TrainEvent α} {out : ω}
      (htaken : ∀ d ∈ ds, d.taken = true) (hw : Follows schedule train validation plan goal ds w)
      (hsent : es ++ [e] <+: Deed.events ds) (hout : writeAll out₀ es = some out)
      (hfail : Writer.write out (Report.eventText e) = none) :
      Stands plan goal out₀ ds (es.map (·, true) ++ [(e, false)]) ⟨w, c, out, .leaving⟩
  | left {ds : List (Deed α)} {w : Stage α σ} {es : List (TrainEvent α)} {e : TrainEvent α} {out : ω}
      (hw : Follows schedule train validation plan goal ds w)
      (hsent : es ++ [e] <+: Deed.events ds) (hout : writeAll out₀ es = some out)
      (hfail : Writer.write out (Report.eventText e) = none) :
      Stands plan goal out₀ ds (es.map (·, true) ++ [(e, false)]) ⟨w, [], out, .left⟩
  | drained {es : List (TrainEvent α)} {out : ω} (hsent : Deed.events plan = es) (hout : writeAll out₀ es = some out) :
      Stands plan goal out₀ plan (es.map (·, true)) ⟨.ended goal, [], out, .drained⟩

end Definitions

section Course

variable {α : Type} [Scalar α] {σ : Type} [RandomSource σ] {ω : Type} [Writer ω] {schedule : Schedule}
  {train : Dataset α} {validation : Option (Dataset α)} {plan : List (Deed α)} {goal : Result (Run α σ Unit)}
  {out₀ : ω} {ds : List (Deed α)} {hs : List (TrainEvent α × Bool)} {w : Stage α σ} {x y : Exchange α σ ω}
  {acts acts' : List (Act α)}

omit [Scalar α] in
theorem events_append (ds ds' : List (Deed α)) : Deed.events (ds ++ ds') = Deed.events ds ++ Deed.events ds' :=
  List.filterMap_append

omit [Scalar α] in
theorem events_send (ds : List (Deed α)) (event : TrainEvent α) (taken : Bool) :
    Deed.events (ds ++ [.send event taken]) = Deed.events ds ++ [event] := by
  rw [events_append]
  rfl

theorem writeAll_cons (out : ω) (event : TrainEvent α) (es : List (TrainEvent α)) :
    writeAll out (event :: es) = (Writer.write out (Report.eventText event)).bind fun out => writeAll out es :=
  List.foldlM_cons ..

theorem writeAll_append (out : ω) (es es' : List (TrainEvent α)) :
    writeAll out (es ++ es') = (writeAll out es).bind fun out => writeAll out es' :=
  List.foldlM_append ..

theorem Follows.kept (h : Follows schedule train validation plan goal ds w) (htaken : ∀ d ∈ ds, d.taken = true) :
    w.Going ∧ plan = ds ++ w.outlook schedule train validation ∧ goal = w.outcome schedule train validation := by
  cases h with
  | on _ hgoing hplan hgoal => exact ⟨hgoing, hplan, hgoal⟩
  | @off _ _ event => exact absurd (htaken (.send event false) (by simp)) Bool.false_ne_true

theorem Follows.onward (h : Follows schedule train validation plan goal ds w) (hw : ∀ answer, w ≠ .ended answer) :
    ∀ d ∈ ds, d.taken = true := by
  cases h with
  | on htaken => exact htaken
  | off r => exact absurd rfl (hw (.ok r))

theorem Follows.advance {w' : Stage α σ} {ds' : List (Deed α)}
    (h : Follows schedule train validation plan goal ds w)
    (hstep : w.advance schedule train validation = some (ds', w')) :
    Follows schedule train validation plan goal (ds ++ ds') w' ∧ Deed.events (ds ++ ds') = Deed.events ds ∧
      ((∀ d ∈ ds, d.taken = true) → ∀ d ∈ ds ++ ds', d.taken = true) := by
  have htaken := h.onward (by rintro answer rfl; cases hstep)
  obtain ⟨hgoing, hplan, hgoal⟩ := h.kept htaken
  obtain ⟨houtlook, houtcome, hgoing'⟩ := Stage.advance_follows hgoing hstep
  have hquiet := Stage.advance_quiet hstep
  have htaken' : ∀ d ∈ ds ++ ds', d.taken = true := fun d hd =>
    (List.mem_append.mp hd).elim (htaken d) fun hd => (hquiet d hd).1
  have hnone : Deed.events ds' = [] := by
    refine List.filterMap_eq_nil_iff.mpr fun d hd => ?_
    cases d with
    | train => rfl
    | measure => rfl
    | send event taken => exact absurd rfl ((hquiet _ hd).2 event taken)
  refine ⟨.on htaken' hgoing' ?_ (hgoal.trans houtcome), ?_, fun _ => htaken'⟩
  · rw [hplan, houtlook, List.append_assoc]
  · rw [events_append, hnone, List.append_nil]

theorem Follows.sent {event : TrainEvent α} {r : Run α σ Unit} {next : Stage α σ}
    (h : Follows schedule train validation plan goal ds (.sending event r next)) :
    Follows schedule train validation plan goal (ds ++ [.send event true]) next ∧
      ∀ d ∈ ds ++ [.send event true], d.taken = true := by
  have htaken := h.onward fun answer hend => by cases hend
  obtain ⟨hgoing, hplan, hgoal⟩ := h.kept htaken
  have htaken' : ∀ d ∈ ds ++ [.send event true], d.taken = true := fun d hd =>
    (List.mem_append.mp hd).elim (htaken d) fun hd => by rw [List.mem_singleton.mp hd]; rfl
  rw [Stage.Going] at hgoing
  rw [Stage.outlook, ← List.singleton_append, ← List.append_assoc] at hplan
  rw [Stage.outcome] at hgoal
  exact ⟨.on htaken' hgoing hplan hgoal, htaken'⟩

theorem Follows.refused {event : TrainEvent α} {r : Run α σ Unit} {next : Stage α σ}
    (h : Follows schedule train validation plan goal ds (.sending event r next)) (r' : Run α σ Unit) :
    Follows schedule train validation plan goal (ds ++ [.send event false]) (.ended (.ok r')) := by
  have htaken := h.onward fun answer hend => by cases hend
  obtain ⟨-, hplan, -⟩ := h.kept htaken
  rw [Stage.outlook] at hplan
  exact .off r' htaken hplan

theorem Stands.step (h : Stands schedule train validation plan goal out₀ ds hs x)
    (hstep : Step schedule train validation x acts y) :
    Stands schedule train validation plan goal out₀ (ds ++ Act.deeds acts) (hs ++ Act.handed acts) y := by
  cases hstep with
  | @work w w' ds' c out reader hadvance =>
      have hdeeds : Act.deeds (ds'.map Act.deed) = ds' := by simp [Act.deeds, List.filterMap_map]
      have hhanded : Act.handed (ds'.map Act.deed) = [] := by simp [Act.handed, List.filterMap_map]
      rw [hdeeds, hhanded, List.append_nil]
      cases h with
      | receiving htaken hw hsent hout =>
          obtain ⟨hw', hevents, htaken'⟩ := hw.advance hadvance
          exact .receiving (htaken' htaken) hw' (hevents.trans hsent) hout
      | leaving htaken hw hsent hout hfail =>
          obtain ⟨hw', hevents, htaken'⟩ := hw.advance hadvance
          exact .leaving (htaken' htaken) hw' (hevents ▸ hsent) hout hfail
      | left hw hsent hout hfail =>
          obtain ⟨hw', hevents, -⟩ := hw.advance hadvance
          exact .left hw' (hevents ▸ hsent) hout hfail
      | drained => cases hadvance
  | sent event r next c out reader hreader =>
      have hdeeds : Act.deeds [Act.deed (Deed.send event true)] = [.send event true] := rfl
      have hhanded : Act.handed [Act.deed (Deed.send event true)] = [] := rfl
      rw [hdeeds, hhanded, List.append_nil]
      cases h with
      | receiving htaken hw hsent hout =>
          refine .receiving hw.sent.2 hw.sent.1 ?_ hout
          rw [events_send, hsent, List.append_assoc]
      | leaving htaken hw hsent hout hfail =>
          exact .leaving hw.sent.2 hw.sent.1 (events_send ds event true ▸ hsent.trans (List.prefix_append _ _)) hout hfail
      | left => rcases hreader with h | h <;> cases h
  | refused event r next c out =>
      have hdeeds : Act.deeds [Act.deed (Deed.send event false)] = [.send event false] := rfl
      have hhanded : Act.handed [Act.deed (Deed.send event false)] = [] := rfl
      rw [hdeeds, hhanded, List.append_nil]
      cases h with
      | left hw hsent hout hfail =>
          exact .left (hw.refused _) (events_send ds event false ▸ hsent.trans (List.prefix_append _ _)) hout hfail
  | @written w event c out out' hwrite =>
      have hdeeds : Act.deeds [Act.hand event true] = [] := rfl
      have hhanded : Act.handed [Act.hand event true] = [(event, true)] := rfl
      rw [hdeeds, hhanded, List.append_nil]
      cases h with
      | @receiving _ _ es _ _ htaken hw hsent hout =>
          have hall : writeAll out₀ (es ++ [event]) = some out' := by
            rw [writeAll_append, hout, Option.bind_some, writeAll_cons, hwrite]
            rfl
          have hmap : es.map (·, true) ++ [(event, true)] = (es ++ [event]).map (·, true) := by simp
          rw [hmap]
          refine .receiving htaken hw ?_ hall
          rw [hsent, List.append_assoc]
          rfl
  | unwritten w event c hwrite =>
      have hdeeds : Act.deeds [Act.hand event false] = [] := rfl
      have hhanded : Act.handed [Act.hand event false] = [(event, false)] := rfl
      rw [hdeeds, hhanded, List.append_nil]
      cases h with
      | @receiving _ _ es _ _ htaken hw hsent hout =>
          refine .leaving htaken hw ⟨c, ?_⟩ hout hwrite
          rw [hsent, List.append_assoc]
          rfl
  | drop w c out =>
      have hdeeds : Act.deeds [(Act.drop : Act α)] = [] := rfl
      have hhanded : Act.handed [(Act.drop : Act α)] = [] := rfl
      rw [hdeeds, hhanded, List.append_nil, List.append_nil]
      cases h with
      | leaving htaken hw hsent hout hfail => exact .left hw hsent hout hfail
  | drain answer out =>
      have hdeeds : Act.deeds [(Act.drain : Act α)] = [] := rfl
      have hhanded : Act.handed [(Act.drain : Act α)] = [] := rfl
      rw [hdeeds, hhanded, List.append_nil, List.append_nil]
      cases h with
      | receiving htaken hw hsent hout =>
          obtain ⟨-, hplan, hgoal⟩ := hw.kept htaken
          rw [Stage.outlook, List.append_nil] at hplan
          rw [Stage.outcome] at hgoal
          subst hplan hgoal
          exact .drained (hsent.trans (List.append_nil _)) hout

theorem Steps.stands (hw : w.Going) (h : Steps schedule train validation (start w out₀) acts x) :
    Stands schedule train validation (w.outlook schedule train validation) (w.outcome schedule train validation) out₀
      (Act.deeds acts) (Act.handed acts) x := by
  induction h with
  | refl =>
      have hnone : ∀ d ∈ ([] : List (Deed α)), d.taken = true := nofun
      exact .receiving hnone (.on hnone hw rfl rfl) (List.append_nil []).symm rfl
  | snoc _ hstep ih =>
      have hdeeds : ∀ as bs : List (Act α), Act.deeds (as ++ bs) = Act.deeds as ++ Act.deeds bs := fun _ _ =>
        List.filterMap_append
      have hhanded : ∀ as bs : List (Act α), Act.handed (as ++ bs) = Act.handed as ++ Act.handed bs := fun _ _ =>
        List.filterMap_append
      rw [hdeeds, hhanded]
      exact ih.step hstep

/-- What may still happen after what has happened. -/
structure Orderly (acts : List (Act α)) (x : Exchange α σ ω) : Prop where
  refuses : Act.Refuses acts
  ceases : Act.Ceases acts
  left : .drop ∈ acts → x.reader = .left
  ended : ∀ event, .deed (.send event false) ∈ acts → ∃ answer, x.worker = .ended answer

omit [Scalar α] [RandomSource σ] [Writer ω] in
theorem Orderly.onward (h : Orderly acts x) (hw : ∀ answer, x.worker ≠ .ended answer) (event : TrainEvent α) :
    .deed (.send event false) ∉ acts := by
  intro hmem
  obtain ⟨answer, hanswer⟩ := h.ended event hmem
  exact hw answer hanswer

omit [Scalar α] [RandomSource σ] [Writer ω] in
theorem Orderly.append (h : Orderly acts x) (hr : Act.Refuses acts') (hc : Act.Ceases acts')
    (hrefused : .drop ∈ acts → ∀ event taken, .deed (.send event taken) ∈ acts' → taken = false)
    (hceased : ∀ event, .deed (.send event false) ∈ acts → ∀ d, .deed d ∉ acts')
    (hleft : .drop ∈ acts ++ acts' → y.reader = .left)
    (hended : ∀ event, .deed (.send event false) ∈ acts ++ acts' → ∃ answer, y.worker = .ended answer) :
    Orderly (acts ++ acts') y where
  refuses := by
    refine List.pairwise_append.mpr ⟨h.refuses, hr, ?_⟩
    rintro _ ha _ hb rfl event taken rfl
    exact hrefused ha event taken hb
  ceases := by
    refine List.pairwise_append.mpr ⟨h.ceases, hc, ?_⟩
    rintro _ ha _ hb event rfl d rfl
    exact hceased event ha d hb
  left := hleft
  ended := hended

omit [Scalar α] [RandomSource σ] [Writer ω] in
theorem Orderly.aside {act : Act α} (h : Orderly acts x) (hact : ∀ d, act ≠ .deed d) (hworker : y.worker = x.worker)
    (hleft : .drop ∈ acts ++ [act] → y.reader = .left) : Orderly (acts ++ [act]) y := by
  refine h.append (List.pairwise_singleton _ _) (List.pairwise_singleton _ _) ?_ ?_ hleft ?_
  · intro _ event taken hmem
    exact absurd (List.mem_singleton.mp hmem).symm (hact _)
  · intro _ _ d hmem
    exact hact d (List.mem_singleton.mp hmem).symm
  · intro event hmem
    rw [hworker]
    rcases List.mem_append.mp hmem with hmem | hmem
    · exact h.ended event hmem
    · exact absurd (List.mem_singleton.mp hmem).symm (hact _)

theorem Orderly.step (h : Orderly acts x) (hstep : Step schedule train validation x acts' y) :
    Orderly (acts ++ acts') y := by
  cases hstep with
  | @work w w' ds c out reader hadvance =>
      have hquiet := Stage.advance_quiet hadvance
      have hnone : ∀ event taken, Act.deed (.send event taken) ∉ ds.map Act.deed := by
        intro event taken hmem
        obtain ⟨d, hd, heq⟩ := List.mem_map.mp hmem
        exact (hquiet d hd).2 event taken (Act.deed.inj heq)
      have hgoing := h.onward fun answer hend => by
        obtain rfl : w = .ended answer := hend
        cases hadvance
      refine h.append ?_ ?_ ?_ ?_ ?_ ?_
      · refine List.pairwise_map.mpr (List.pairwise_of_forall fun d d' => nofun)
      · refine List.pairwise_map.mpr (List.Pairwise.imp_of_mem ?_ (List.pairwise_of_forall fun _ _ => trivial))
        rintro d d' hd - - event heq
        exact absurd (Act.deed.inj heq) ((hquiet d hd).2 event false)
      · exact fun _ event taken hmem => absurd hmem (hnone event taken)
      · exact fun event hmem => absurd hmem (hgoing event)
      · intro hmem
        rcases List.mem_append.mp hmem with hmem | hmem
        · exact h.left hmem
        · simp at hmem
      · intro event hmem
        exact ((List.mem_append.mp hmem).elim (hgoing event) (hnone event false)).elim
  | sent event r next c out reader hreader =>
      have hgoing := h.onward fun answer hend => by cases hend
      have hhere : Act.drop ∉ acts := by
        intro hmem
        obtain rfl : reader = .left := h.left hmem
        rcases hreader with h | h <;> cases h
      refine h.append (List.pairwise_singleton _ _) (List.pairwise_singleton _ _) (fun hmem => absurd hmem hhere)
        (fun event hmem => absurd hmem (hgoing event)) ?_ ?_
      · simp [hhere]
      · simp [hgoing]
  | refused event r next c out =>
      have hgoing := h.onward fun answer hend => by cases hend
      refine h.append (List.pairwise_singleton _ _) (List.pairwise_singleton _ _) ?_
        (fun event hmem => absurd hmem (hgoing event)) (fun _ => rfl) fun _ _ => ⟨_, rfl⟩
      simp
  | written w event c hwrite =>
      refine h.aside (fun d => nofun) rfl fun hmem => ?_
      exact absurd (h.left (by simpa using hmem)) nofun
  | unwritten w event c hwrite =>
      refine h.aside (fun d => nofun) rfl fun hmem => ?_
      exact absurd (h.left (by simpa using hmem)) nofun
  | drop w c out => exact h.aside (fun d => nofun) rfl fun _ => rfl
  | drain answer out =>
      refine h.aside (fun d => nofun) rfl fun hmem => ?_
      exact absurd (h.left (by simpa using hmem)) nofun

theorem Steps.orderly {w : Stage α σ} {out : ω} (h : Steps schedule train validation (start w out) acts x) :
    Orderly acts x := by
  induction h with
  | refl => exact ⟨.nil, .nil, by simp, by simp⟩
  | snoc _ hstep ih => exact ih.step hstep

theorem Stands.progress (h : Stands schedule train validation plan goal out₀ ds hs x) :
    (∃ answer, x.answer? = some answer) ∨ ∃ acts y, Step schedule train validation x acts y := by
  obtain ⟨w, c, out, reader⟩ := x
  rcases Stage.advance_cases schedule train validation w with ⟨ds', w', hw⟩ | ⟨event, r, next, rfl⟩ | ⟨answer, rfl⟩
  · exact .inr ⟨_, _, .work c out reader hw⟩
  · cases reader with
    | receiving => exact .inr ⟨_, _, .sent event r next c out _ (.inl rfl)⟩
    | leaving => exact .inr ⟨_, _, .sent event r next c out _ (.inr rfl)⟩
    | left => exact .inr ⟨_, _, .refused event r next c out⟩
    | drained => cases h
  · cases reader with
    | receiving =>
        cases c with
        | nil => exact .inr ⟨_, _, .drain answer out⟩
        | cons event c =>
            cases hwrite : Writer.write out (Report.eventText event) with
            | none => exact .inr ⟨_, _, .unwritten _ event c hwrite⟩
            | some out' => exact .inr ⟨_, _, .written _ event c hwrite⟩
    | leaving => exact .inr ⟨_, _, .drop _ c out⟩
    | left => exact .inl ⟨abandoned answer, rfl⟩
    | drained => exact .inl ⟨answer, rfl⟩

omit [Scalar α] [RandomSource σ] in
theorem abandoned_cases (result : Result (Run α σ Unit)) :
    abandoned result = .error .io ∨ abandoned result = .error .misuse ∧ result = .error .misuse := by
  unfold abandoned
  split
  · exact .inr ⟨rfl, rfl⟩
  · exact .inl rfl

theorem Stands.answer {answer : Result (Run α σ Unit)} (h : Stands schedule train validation plan goal out₀ ds hs x)
    (ha : x.answer? = some answer) :
    (writeAll out₀ (Deed.events plan) = some x.out ∧ hs = (Deed.events plan).map (·, true) ∧ answer = goal) ∨
      ∃ es e back, Deed.events plan = es ++ e :: back ∧ writeAll out₀ es = some x.out ∧
        Writer.write x.out (Report.eventText e) = none ∧ hs = es.map (·, true) ++ [(e, false)] ∧
        (answer = .error .io ∨ answer = .error .misuse ∧ goal = .error .misuse) := by
  cases h with
  | receiving => simp [answer?] at ha
  | leaving => simp [answer?] at ha
  | drained hsent hout =>
      refine .inl ⟨hsent ▸ hout, hsent ▸ rfl, ?_⟩
      exact (Option.some.inj ha).symm
  | @left _ w es e out hw hsent hout hfail =>
      have hplan : Deed.events ds <+: Deed.events plan := by
        cases hw with
        | on _ _ hplan =>
            rw [hplan, events_append]
            exact List.prefix_append _ _
        | @off front back event r _ hplan =>
            have hevents : Deed.events plan = Deed.events front ++ [event] ++ Deed.events back := by
              rw [hplan, List.append_cons, events_append, events_send]
            rw [hevents, events_send]
            exact List.prefix_append _ _
      obtain ⟨back, hback⟩ := hsent.trans hplan
      refine .inr ⟨es, e, back, ?_, hout, hfail, rfl, ?_⟩
      · rw [← hback, List.append_assoc]
        rfl
      · cases w with
        | ended result =>
            obtain rfl : abandoned result = answer := Option.some.inj ha
            rcases abandoned_cases result with habandoned | ⟨habandoned, hresult⟩
            · exact .inl habandoned
            · refine .inr ⟨habandoned, ?_⟩
              cases hw with
              | on _ _ _ hgoal => rw [hgoal, Stage.outcome, hresult]
              | off r => cases hresult
        | _ => cases ha

def rank (schedule : Schedule) (x : Exchange α σ ω) : (Nat × Nat) × Nat :=
  (x.worker.rank schedule, x.channel.length + x.reader.rank)

theorem wellFounded_step (schedule : Schedule) (train : Dataset α) (validation : Option (Dataset α)) :
    WellFounded fun y x : Exchange α σ ω => ∃ acts, Step schedule train validation x acts y := by
  have hlex : WellFounded (Prod.Lex (Prod.Lex (· < ·) (· < ·)) (· < ·) : (Nat × Nat) × Nat → (Nat × Nat) × Nat → Prop) :=
    (wellFounded_lt.prod_lex wellFounded_lt).prod_lex wellFounded_lt
  refine Subrelation.wf ?_ (InvImage.wf (rank schedule) hlex)
  rintro y x ⟨acts, hstep⟩
  cases hstep with
  | work c out reader h => exact .left _ _ (Stage.advance_rank h)
  | sent event r next c out reader h => exact .left _ _ (.right _ (Nat.lt_succ_self _))
  | refused event r next c out => exact .left _ _ (Stage.rank_ended _ _ _)
  | written w event c h => exact .right _ (by dsimp only [Reader.rank, List.length_cons, List.length_nil]; omega)
  | unwritten w event c h => exact .right _ (by dsimp only [Reader.rank, List.length_cons, List.length_nil]; omega)
  | drop w c out => exact .right _ (by dsimp only [Reader.rank, List.length_cons, List.length_nil]; omega)
  | drain answer out => exact .right _ (by dsimp only [Reader.rank, List.length_cons, List.length_nil]; omega)

theorem Steps.completes (h : Steps schedule train validation (start w out₀) acts x) (hw : w.Going) :
    ∃ acts' z answer, Steps schedule train validation (start w out₀) acts' z ∧ z.answer? = some answer := by
  refine (wellFounded_step schedule train validation).induction (C := fun x => ∀ acts,
    Steps schedule train validation (start w out₀) acts x → _) x (fun x ih acts h => ?_) acts h
  rcases (h.stands hw).progress with ⟨answer, hanswer⟩ | ⟨acts', y, hstep⟩
  · exact ⟨acts, x, answer, h, hanswer⟩
  · exact ih y ⟨acts', hstep⟩ _ (h.snoc hstep)

end Course

end Exchange

end Convnet
