import Convnet.Proofs.Saved

namespace Convnet.Json

inductive Step
  | member (name : String)
  | item (i : Nat)
  deriving DecidableEq

/-- The places of the members that are left out. -/
abbrev Places := List Step → Bool

namespace Places

def ofList (ps : List (List Step)) : Places := fun p => p ∈ ps

variable (gone : Places)

def inside (s : Step) : Places := fun p => gone (s :: p)

def Within (D : List Step → Prop) : Prop := ∀ s p, gone (s :: p) = true → D (s :: p)

theorem within_ofList {ps : List (List Step)} {D : List Step → Prop} (h : ∀ p ∈ ps, D p) : (ofList ps).Within D :=
  fun s p hgone => h (s :: p) (of_decide_eq_true hgone)

def choose {β : Type} (name : String) (standard given : β) : β := if gone [.member name] then standard else given

end Places

mutual

/-- A document without the members at some places. -/
def prune (gone : Places) : Json → Json
  | .null => .null
  | .bool b => .bool b
  | .number n => .number n
  | .string s => .string s
  | .array vs => .array (pruneItems gone 0 vs)
  | .object ms => .object (pruneMembers gone ms)

def pruneItems (gone : Places) (i : Nat) : List Json → List Json
  | [] => []
  | v :: vs => prune (gone.inside (.item i)) v :: pruneItems gone (i + 1) vs

def pruneMembers (gone : Places) : List (Option String × Json) → List (Option String × Json)
  | [] => []
  | (k, v) :: ms =>
    if gone [.member (k.getD "")] then pruneMembers gone ms
    else (k, prune (gone.inside (.member (k.getD ""))) v) :: pruneMembers gone ms

end

mutual

theorem prune_eq_self {gone : Places} (h : gone.Within fun _ => False) (v : Json) : prune gone v = v := by
  match v with
  | .null | .bool _ | .number _ | .string _ => rfl
  | .array vs => rw [prune, pruneItems_eq_self h]
  | .object ms => rw [prune, pruneMembers_eq_self h]

theorem pruneItems_eq_self {gone : Places} (h : gone.Within fun _ => False) (i : Nat) (vs : List Json) :
    pruneItems gone i vs = vs := by
  match vs with
  | [] => rfl
  | v :: vs => rw [pruneItems, prune_eq_self (fun s p => h (.item i) (s :: p)) v, pruneItems_eq_self h (i + 1) vs]

theorem pruneMembers_eq_self {gone : Places} (h : gone.Within fun _ => False) (ms : List (Option String × Json)) :
    pruneMembers gone ms = ms := by
  match ms with
  | [] => rfl
  | (k, v) :: ms =>
      rw [pruneMembers, if_neg (h (.member _) []), prune_eq_self (fun s p => h (.member _) (s :: p)) v,
        pruneMembers_eq_self h ms]

end

mutual

/-- Leaving out before writing and after reading comes to the same. -/
theorem reread_prune (gone : Places) (v : Json) : (prune gone v).reread = prune gone v.reread := by
  match v with
  | .null | .bool _ | .number _ | .string _ => rfl
  | .array vs => rw [prune, reread, reread, prune, rereadItems_pruneItems]
  | .object ms => rw [prune, reread, reread, prune, rereadMembers_pruneMembers]

theorem rereadItems_pruneItems (gone : Places) (i : Nat) (vs : List Json) :
    rereadItems (pruneItems gone i vs) = pruneItems gone i (rereadItems vs) := by
  match vs with
  | [] => rfl
  | v :: vs => rw [pruneItems, rereadItems, rereadItems, pruneItems, reread_prune, rereadItems_pruneItems]

theorem rereadMembers_pruneMembers (gone : Places) (ms : List (Option String × Json)) :
    rereadMembers (pruneMembers gone ms) = pruneMembers gone (rereadMembers ms) := by
  match ms with
  | [] => rfl
  | (k, v) :: ms =>
      rw [pruneMembers, rereadMembers, rereadMember, pruneMembers, Option.getD_some]
      by_cases hk : gone [.member (k.getD "")] = true
      · rw [if_pos hk, if_pos hk, rereadMembers_pruneMembers]
      · rw [if_neg hk, if_neg hk, rereadMembers, rereadMember, reread_prune, rereadMembers_pruneMembers]

end

mutual

theorem keepable_prune {room : Nat} {v : Json} (h : keepable room v = true) (gone : Places) :
    keepable room (prune gone v) = true := by
  match v with
  | .null | .bool _ | .number _ | .string _ => exact h
  | .array vs =>
      rw [keepable, Bool.and_eq_true] at h
      rw [prune, keepable, h.1, keepableAll_prune h.2, Bool.and_self]
  | .object ms =>
      rw [keepable, Bool.and_eq_true] at h
      rw [prune, keepable, h.1, keepableMembers_prune h.2, Bool.and_self]

theorem keepableAll_prune {room : Nat} {vs : List Json} (h : keepableAll room vs = true) (gone : Places) (i : Nat) :
    keepableAll room (pruneItems gone i vs) = true := by
  match vs with
  | [] => rfl
  | v :: vs =>
      rw [keepableAll, Bool.and_eq_true] at h
      rw [pruneItems, keepableAll, keepable_prune h.1, keepableAll_prune h.2, Bool.and_self]

theorem keepableMembers_prune {room : Nat} {ms : List (Option String × Json)} (h : keepableMembers room ms = true)
    (gone : Places) : keepableMembers room (pruneMembers gone ms) = true := by
  match ms with
  | [] => rfl
  | (k, v) :: ms =>
      rw [keepableMembers, Bool.and_eq_true, Bool.and_eq_true] at h
      rw [pruneMembers]
      split
      · exact keepableMembers_prune h.2 gone
      · rw [keepableMembers, h.1.1, keepable_prune h.1.2, keepableMembers_prune h.2, Bool.and_self, Bool.and_self]

end

section Members

def Members (names : List String) (p : List Step) : Prop := ∃ name ∈ names, p = [.member name]

variable {gone : Places} {names : List String}

theorem Places.Within.kept (h : gone.Within (Members names)) {name : String} (hn : name ∉ names) :
    gone [.member name] = false := by
  rw [Bool.eq_false_iff]
  intro hgone
  obtain ⟨name', hname, heq⟩ := h _ _ hgone
  cases heq
  exact hn hname

theorem Places.Within.prune_inside (h : gone.Within (Members names)) (name : String) (v : Json) :
    prune (gone.inside (.member name)) v = v := by
  refine prune_eq_self (fun s p hgone => ?_) v
  obtain ⟨name', -, heq⟩ := h _ _ hgone
  cases heq

end Members

theorem pruneItems_eq (gone : Places) (i : Nat) (vs : List Json) :
    pruneItems gone i vs = (vs.zipIdx i).map fun v => prune (gone.inside (.item v.2)) v.1 := by
  induction vs generalizing i with
  | nil => rfl
  | cons v vs ih => rw [pruneItems, ih, List.zipIdx_cons, List.map_cons]

namespace Places

variable (gone : Places)

def kept (ms : List (String × Json)) : List (String × Json) :=
  (ms.filter fun m => !gone [.member m.1]).map fun m => (m.1, prune (gone.inside (.member m.1)) m.2)

def slot (m : String × Json) : Slot :=
  if gone [.member m.1] then .noMember else .given (prune (gone.inside (.member m.1)) m.2)

variable {gone} {β : Type} {name : String} {v : Json} {f : Json → Option β}

theorem required_slot (h : gone [.member name] = false) :
    (gone.slot (name, v)).required f = f (prune (gone.inside (.member name)) v) := by
  rw [slot, if_neg (by simp [h]), Slot.required]

@[simp] theorem withDefault_slot {b : β} : (gone.slot (name, v)).withDefault f b =
    if gone [.member name] then some b else f (prune (gone.inside (.member name)) v) := by
  rw [slot]
  split <;> rfl

@[simp] theorem optionalAnywhere_slot : (gone.slot (name, v)).optionalAnywhere f =
    if gone [.member name] then some none else option? f (prune (gone.inside (.member name)) v) := by
  rw [slot]
  split <;> rfl

@[simp] theorem some_choose {b x : β} :
    (if gone [.member name] then some b else some x) = some (gone.choose name b x) :=
  (apply_ite some _ b x).symm

theorem kept_cons_of_pos {m : String × Json} (h : gone [.member m.1] = true) (ms : List (String × Json)) :
    gone.kept (m :: ms) = gone.kept ms := by
  rw [kept, List.filter_cons_of_neg (by simp [h]), kept]

theorem kept_cons_of_neg {m : String × Json} (h : gone [.member m.1] = false) (ms : List (String × Json)) :
    gone.kept (m :: ms) = (m.1, prune (gone.inside (.member m.1)) m.2) :: gone.kept ms := by
  rw [kept, List.filter_cons_of_pos (by simp [h]), List.map_cons, kept]

theorem names_kept (ms : List (String × Json)) : ((gone.kept ms).map Prod.fst).Sublist (ms.map Prod.fst) := by
  rw [kept, List.map_map]
  exact List.filter_sublist.map Prod.fst

end Places

variable {gone : Places} {ms : List (String × Json)}

@[simp] theorem prune_record : prune gone (record ms) = record (gone.kept ms) := by
  have hmembers : pruneMembers gone (ms.map fun m => (some m.1, m.2)) =
      (gone.kept ms).map fun m => (some m.1, m.2) := by
    induction ms with
    | nil => rfl
    | cons m ms ih =>
        rw [List.map_cons, pruneMembers, Option.getD_some, ih]
        by_cases hm : gone [.member m.1] = true
        · rw [if_pos hm, Places.kept_cons_of_pos hm]
        · rw [if_neg hm, Places.kept_cons_of_neg (Bool.eq_false_iff.mpr hm), List.map_cons]
  exact congrArg object hmembers

theorem once_kept (hn : (ms.map Prod.fst).Nodup) {m : String × Json} (hm : m ∈ ms) :
    once m.1 ((gone.kept ms).map fun m => (some m.1, m.2)) = some (gone.slot m) := by
  rw [Places.slot]
  split
  case isTrue h =>
    have hnone : ((gone.kept ms).map fun m => (some m.1, m.2)).filter (fun k => k.1 == some m.1) = [] := by
      refine List.filter_eq_nil_iff.mpr fun k hk heq => ?_
      obtain ⟨a, ha, rfl⟩ := List.mem_map.mp hk
      obtain ⟨b, hb, rfl⟩ := List.mem_map.mp ha
      have hkey : b.1 = m.1 := by simpa using heq
      simp [hkey, h] at hb
    rw [once, hnone]
  case isFalse h =>
    have hmem : (m.1, prune (gone.inside (.member m.1)) m.2) ∈ gone.kept ms :=
      List.mem_map.mpr ⟨m, List.mem_filter.mpr ⟨hm, by simp [h]⟩, rfl⟩
    exact once_record (hn.sublist (Places.names_kept ms)) hmem

@[simp] theorem slots_kept {names : List String} (h : ms.map Prod.fst = names) (hn : names.Nodup) :
    slots names (record (gone.kept ms)) = some (ms.map gone.slot) := by
  subst h
  exact slots_of_once fun m hm => once_kept hn hm

/-- A marked record that keeps its mark is told by it. -/
theorem tagged_prune {level : Nat} {tag mark : String}
    (hk : keepable (nestingLimit - level) (record ((tag, .ofString mark) :: ms)).reread = true)
    (hn : (tag :: ms.map Prod.fst).Nodup) (ht : gone [.member tag] = false) :
    tagged level tag (prune gone (record ((tag, .ofString mark) :: ms)).reread) =
      some (mark, prune gone (record ms).reread) := by
  have hpruned := keepable_prune hk gone
  rw [reread_record, List.map_cons, reread_ofString, prune_record, Places.kept_cons_of_neg ht] at hpruned ⊢
  rw [reread_record, prune_record]
  have hnames : ((gone.kept (ms.map fun m => (m.1, m.2.reread))).map Prod.fst).Sublist (ms.map Prod.fst) := by
    have hsub := gone.names_kept (ms.map fun m => (m.1, m.2.reread))
    rwa [List.map_map] at hsub
  exact tagged_record hpruned (hn.sublist (hnames.cons_cons tag))

end Convnet.Json
