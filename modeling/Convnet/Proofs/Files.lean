import Convnet.Disk
import Mathlib.Data.String.Basic

namespace Convnet.Disk

variable {d : Disk} {names : List String} {e : Entry}

theorem lookup_cons_if (k b : List String) (e : Entry) (es : List (List String × Entry)) :
    ((b, e) :: es).lookup k = if k = b then some e else es.lookup k := by
  by_cases h : k = b
  · subst h
    simp
  · rw [List.lookup_cons, beq_false_of_ne h, if_neg h]

theorem lookup_replaced (k names : List String) (e : Entry) (es : List (List String × Entry)) :
    (es.map fun (k, old) => if k == names then (k, e) else (k, old)).lookup k =
      if k = names then (es.lookup k).map (fun _ => e) else es.lookup k := by
  induction es with
  | nil => simp
  | cons a es ih =>
      obtain ⟨b, old⟩ := a
      have hhead : (if b == names then (b, e) else (b, old)) = (b, if b = names then e else old) := by
        by_cases hb : b = names <;> simp [hb]
      rw [List.map_cons]
      dsimp only
      rw [hhead, lookup_cons_if, lookup_cons_if, ih]
      by_cases hk : k = b
      · subst hk
        by_cases hn : k = names <;> simp [hn]
      · simp [hk]

theorem lookup_put (d : Disk) (names : List String) (e : Entry) (k : List String) :
    (d.put names e).entries.lookup k = if k = names then some e else d.entries.lookup k := by
  rw [put]
  by_cases hold : (d.entries.lookup names).isSome
  · rw [if_pos hold]
    obtain ⟨old, hold⟩ := Option.isSome_iff_exists.mp hold
    refine (lookup_replaced k names e d.entries).trans ?_
    by_cases hk : k = names
    · rw [if_pos hk, if_pos hk, hk, hold, Option.map_some]
    · rw [if_neg hk, if_neg hk]
  · rw [if_neg hold]
    have hnone : d.entries.lookup names = none := Option.not_isSome_iff_eq_none.mp hold
    refine List.lookup_append.trans ?_
    rw [lookup_cons_if, List.lookup_nil]
    by_cases hk : k = names
    · rw [if_pos hk, if_pos hk, hk, hnone, Option.none_or]
    · rw [if_neg hk, if_neg hk, Option.or_none]

@[simp] theorem workingDirectory_put (d : Disk) (names : List String) (e : Entry) :
    (d.put names e).workingDirectory = d.workingDirectory := by
  rw [put]
  split <;> rfl

theorem entry?_put (hn : d.entry? names ≠ some .directory) (k : List String) :
    Disk.entry? (d.put names e) k = if k = names then some e else d.entry? k := by
  have hwork : names.isPrefixOf d.workingDirectory = false := Bool.eq_false_iff.mpr fun h => hn (if_pos h)
  rw [ entry?, entry?, workingDirectory_put, lookup_put]
  by_cases hk : k = names
  · simp [hk, hwork]
  · simp [hk]

/-- Where a path leads is free, or is a file. -/
def Leads (d : Disk) (here parts names : List String) : Prop :=
  d.follow here parts = .free names ∨ ∃ old, d.follow here parts = .file old ∧ settle here parts = names

theorem Leads.cons {here rest : List String} {name : String} (hname : name ≠ "" ∧ name ≠ "." ∧ name ≠ "..")
    (h : d.Leads here (name :: rest) names) :
    ¬ 255 < name.utf8ByteSize ∧
      (( d.entry? (here ++ [name]) = some .directory ∧ d.Leads (here ++ [name]) rest names) ∨
        (rest = [] ∧ here ++ [name] = names ∧ d.entry? names ≠ some .directory)) := by
  obtain ⟨h₁, h₂, h₃⟩ := hname
  rw [Leads, follow, settle] at h
  · by_cases hlong : 255 < name.utf8ByteSize
    · simp [hlong] at h
    · refine ⟨hlong, ?_⟩
      simp only [hlong, if_false] at h
      cases he : d.entry? (here ++ [name]) with
      | none =>
          right
          simp only [he] at h
          cases rest with
          | nil =>
              have hn : here ++ [name] = names := by simpa using h
              exact ⟨rfl, hn, by rw [← hn, he]; simp⟩
          | cons => simp at h
      | some entry =>
          cases entry with
          | directory =>
              left
              simp only [he] at h
              exact ⟨rfl, h⟩
          | file old =>
              right
              simp only [he] at h
              cases rest with
              | nil =>
                  have hn : here ++ [name] = names := by simpa [settle] using h
                  exact ⟨rfl, hn, by rw [← hn, he]; simp⟩
              | cons => simp at h
  all_goals assumption

theorem Leads.entry {here parts : List String} (h : d.Leads here parts names) :
    d.entry? names ≠ some .directory := by
  induction parts generalizing here with
  | nil => simp [Leads, follow] at h
  | cons name rest ih =>
      by_cases h₁ : name = ""
      · subst h₁
        exact ih h
      by_cases h₂ : name = "."
      · subst h₂
        exact ih h
      by_cases h₃ : name = ".."
      · subst h₃
        exact ih h
      obtain ⟨-, ⟨-, h⟩ | ⟨-, -, h⟩⟩ := h.cons ⟨h₁, h₂, h₃⟩
      · exact ih h
      · exact h

theorem Leads.follow_put {bytes : ByteArray} {here parts : List String} (h : d.Leads here parts names) :
    (d.put names (.file bytes)).follow here parts = .file bytes := by
  have hentry := entry?_put (e := .file bytes) h.entry
  induction parts generalizing here with
  | nil => simp [Leads, follow] at h
  | cons name rest ih =>
      by_cases h₁ : name = ""
      · subst h₁
        exact ih h
      by_cases h₂ : name = "."
      · subst h₂
        exact ih h
      by_cases h₃ : name = ".."
      · subst h₃
        exact ih h
      obtain ⟨hlong, ⟨hd, hrest⟩ | ⟨rfl, hn, -⟩⟩ := h.cons ⟨h₁, h₂, h₃⟩
      · have hne : here ++ [name] ≠ names := fun hn => hrest.entry (hn ▸ hd)
        rw [follow, if_neg hlong]
        · simp only [hentry, if_neg hne, hd]
          exact ih hrest
        all_goals assumption
      · rw [follow, if_neg hlong]
        · simp [hentry, hn]
        all_goals assumption

/-- What was written at a path is read at that path. -/
theorem locate_write {d d' : Disk} {path : String} {bytes : ByteArray} (h : d.write path bytes = .ok d') :
    d'.locate path = .file bytes := by
  rw [write] at h
  cases hw : d.writable? path with
  | none => simp [hw] at h
  | some names =>
      obtain rfl : d.put names (.file bytes) = d' := by simpa [hw] using h
      have hstart : (d.put names (.file bytes)).start path = d.start path := by
        rw [start, start, workingDirectory_put]
      rw [writable?] at hw
      by_cases hzero : path.contains (Char.ofNat 0)
      · simp [locate, hzero] at hw
      by_cases hempty : path.isEmpty
      · simp [locate, hzero, hempty] at hw
      by_cases hlong : 4096 ≤ path.utf8ByteSize
      · simp [locate, hzero, hempty, hlong] at hw
      have hlocate : ∀ d : Disk, d.locate path = d.follow (d.start path) (parts path) := by
        intro d
        rw [locate, if_neg hzero, if_neg hempty, if_neg hlong]
      have hleads : d.Leads (d.start path) (parts path) names := by
        rw [hlocate] at hw
        cases hf : d.follow (d.start path) (parts path) with
        | free names' => simp_all [Leads]
        | file old => simp_all [Leads]
        | directory | missing | notDirectory | nameTooLong | malformed => simp [hf] at hw
      rw [hlocate, hstart]
      exact hleads.follow_put

theorem readJson_of_locate {path : String} {bytes : ByteArray} {v : Json} (h : d.locate path = .file bytes)
    (hv : Json.ofBytes? bytes = some v) : d.readJson path = .ok v := by
  rw [readJson, h]
  simp only [hv]

theorem readJson_write {d d' : Disk} {path : String} {bytes : ByteArray} {v : Json}
    (h : d.write path bytes = .ok d') (hv : Json.ofBytes? bytes = some v) : d'.readJson path = .ok v :=
  readJson_of_locate (locate_write h) hv

section Alike

variable {d' : Disk} {path : String}

/-- Whether a path leads to the same file in two states of the disk, or to no file in both. -/
def Alike (d' d : Disk) (path : String) : Prop := ∀ bytes, d'.locate path = .file bytes ↔ d.locate path = .file bytes

theorem isFile_eq_true : d.isFile path = true ↔ ∃ bytes, d.locate path = .file bytes := by
  rw [isFile]
  cases d.locate path <;> simp

theorem read_eq_ok {bytes : ByteArray} : d.read path = .ok bytes ↔ d.locate path = .file bytes := by
  rw [read]
  cases d.locate path <;> simp

theorem read_cases (d : Disk) (path : String) : (∃ bytes, d.read path = .ok bytes) ∨ d.read path = .error .io := by
  rw [read]
  cases d.locate path <;> simp

theorem Alike.isFile (h : Alike d' d path) : d'.isFile path = d.isFile path := by
  rw [Bool.eq_iff_iff, isFile_eq_true, isFile_eq_true]
  exact exists_congr h

theorem Alike.read (h : Alike d' d path) : d'.read path = d.read path := by
  have hread : ∀ bytes, d'.read path = .ok bytes ↔ d.read path = .ok bytes := fun bytes => by
    rw [read_eq_ok, read_eq_ok, h bytes]
  rcases read_cases d path with ⟨bytes, hb⟩ | he
  · rw [hb, hread, hb]
  · rcases read_cases d' path with ⟨bytes, hb⟩ | he'
    · rw [hb, eq_comm, ← hread, hb]
    · rw [he, he']

end Alike

section Names

theorem splitOnAux_plain (cs cs' : List Char) (h : '/' ∉ cs') :
    String.splitOnAux (String.ofList (cs ++ cs')) "/" 0 ⟨String.utf8Len cs⟩ 0 [] = [String.ofList (cs ++ cs')] := by
  induction cs' generalizing cs with
  | nil =>
      rw [String.splitOnAux, if_pos ((String.atEnd_of_valid cs []).mpr rfl)]
      have hwhole := String.extract_of_valid [] cs []
      rw [List.append_nil, List.nil_append, String.utf8Len_nil, Nat.zero_add] at hwhole
      rw [List.append_nil]
      exact congrArg (fun s => [s]) hwhole
  | cons c cs' ih =>
      obtain ⟨hc, hcs⟩ := not_or.mp fun h' => h (List.mem_cons.mpr h')
      have hend : String.Pos.Raw.atEnd (String.ofList (cs ++ c :: cs')) ⟨String.utf8Len cs⟩ = false := by
        rw [← Bool.not_eq_true, String.atEnd_of_valid]
        exact List.cons_ne_nil c cs'
      have hget : String.Pos.Raw.get (String.ofList (cs ++ c :: cs')) ⟨String.utf8Len cs⟩ = c :=
        String.get_of_valid cs (c :: cs')
      have hsep : String.Pos.Raw.get "/" 0 = '/' := by decide
      have hnext := String.next_of_valid cs c cs'
      have hrest := ih (cs ++ [c]) hcs
      rw [List.append_assoc, List.singleton_append, String.utf8Len_append, String.utf8Len_cons, String.utf8Len_nil,
        Nat.zero_add] at hrest
      rw [String.splitOnAux, if_neg (by rw [hend]; decide), hget, hsep, if_neg (by simpa using Ne.symm hc)]
      rw [← hrest]
      congr 1

theorem parts_plain {name : String} (h : '/' ∉ name.toList) : parts name = [name] := by
  have hplain := splitOnAux_plain [] name.toList h
  rw [List.nil_append, String.ofList_toList] at hplain
  exact hplain

structure Plain (name : String) : Prop where
  letters : '/' ∉ name.toList ∧ Char.ofNat 0 ∉ name.toList
  proper : name ≠ "" ∧ name ≠ "." ∧ name ≠ ".."
  short : name.utf8ByteSize ≤ 255

instance (name : String) : Decidable (Plain name) :=
  decidable_of_iff (('/' ∉ name.toList ∧ Char.ofNat 0 ∉ name.toList) ∧ (name ≠ "" ∧ name ≠ "." ∧ name ≠ "..") ∧
      name.utf8ByteSize ≤ 255)
    (Iff.intro (fun h => ⟨h.1, h.2.1, h.2.2⟩) fun h => ⟨h.letters, h.proper, h.short⟩)

theorem locate_plain (d : Disk) {name : String} (h : Plain name) :
    d.locate name = match d.entry? (d.workingDirectory ++ [name]) with
      | some .directory => .directory
      | some (.file bytes) => .file bytes
      | none => .free (d.workingDirectory ++ [name]) := by
  obtain ⟨⟨hslash, hzero⟩, ⟨hne, hdot, hdots⟩, hshort⟩ := h
  have hcontains : name.contains (Char.ofNat 0) = false := by
    rw [String.contains_char_eq, decide_eq_false_iff_not]
    exact hzero
  have hempty : name.isEmpty = false := by simpa using hne
  have hstart : name.startsWith "/" = false := by
    rw [String.startsWith_string_eq_false_iff]
    exact fun h => hslash (h.subset (by simp))
  rw [locate, if_neg (by simp [hcontains]), if_neg (by simp [hempty]), if_neg (by omega), start, hstart,
    parts_plain hslash]
  simp only [Bool.false_eq_true, if_false]
  rw [follow, if_neg (by omega)]
  · dsimp only
    cases d.entry? (d.workingDirectory ++ [name]) with
    | none => rfl
    | some e => cases e <;> rfl
  all_goals assumption

theorem alike_put {name : String} (h : Plain name) (hn : d.entry? names ≠ some .directory)
    (hne : d.workingDirectory ++ [name] ≠ names) : Alike (d.put names e) d name := by
  have hplace : (d.put names e).locate name = d.locate name := by
    rw [locate_plain _ h, locate_plain _ h, workingDirectory_put, entry?_put hn, if_neg hne]
  exact fun bytes => by rw [hplace]

theorem write_plain {name : String} (h : Plain name) (hfree : d.entry? (d.workingDirectory ++ [name]) = none)
    (bytes : ByteArray) : d.write name bytes = .ok (d.put (d.workingDirectory ++ [name]) (.file bytes)) := by
  rw [write, writable?, locate_plain d h, hfree]

end Names

end Convnet.Disk
