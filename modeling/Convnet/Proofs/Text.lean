import Convnet.Proofs.Numerals

namespace Convnet

namespace JsonText

open Decimal

/-- The bytes of a text, each as the character of its number. -/
def latin (cs : List Char) : List Char :=
  (cs.flatMap String.utf8EncodeChar).map fun b => Char.ofNat b.toNat

@[simp] theorem latin_nil : latin [] = [] := rfl

@[simp] theorem latin_append (cs ds : List Char) : latin (cs ++ ds) = latin cs ++ latin ds := by
  simp [latin]

theorem utf8EncodeChar_ascii {c : Char} (h : c.toNat < 128) :
    String.utf8EncodeChar c = [UInt8.ofNat c.toNat] := by
  have h' : c.val.toNat ≤ 127 := Nat.le_of_lt_succ h
  rw [String.utf8EncodeChar, if_pos h']
  rfl

theorem latin_ascii {cs : List Char} (h : ∀ c ∈ cs, c.toNat < 128) : latin cs = cs := by
  induction cs with
  | nil => rfl
  | cons c cs ih =>
      have hc : c.toNat < 128 := h c (by simp)
      have hbyte : (UInt8.ofNat c.toNat).toNat = c.toNat := UInt8.toNat_ofNat_of_lt' (by simp [UInt8.size]; omega)
      have hone : latin [c] = [c] := by simp [latin, utf8EncodeChar_ascii hc, hbyte]
      rw [← List.singleton_append, latin_append, hone, ih fun d hd => h d (by simp [hd])]

theorem bytes_toUTF8 (s : String) : s.toUTF8.data.toList = s.toList.flatMap String.utf8EncodeChar := by
  rw [String.toUTF8_eq_toByteArray, ← String.utf8Encode_toList, List.utf8Encode]
  exact List.toList_data_toByteArray

theorem chars_toUTF8 (s : String) :
    s.toUTF8.size.foldRev (fun i h cs => Char.ofNat s.toUTF8[i].toNat :: cs) [] = latin s.toList := by
  have hfold : ∀ (bytes : ByteArray), bytes.size.foldRev (fun i h cs => Char.ofNat bytes[i].toNat :: cs) [] =
      bytes.data.toList.map fun b => Char.ofNat b.toNat := by
    intro bytes
    rw [Nat.foldRev_eq_finRange_foldr]
    have hmap : (List.finRange bytes.size).map (fun i => Char.ofNat bytes[i.1].toNat) =
        bytes.data.toList.map fun b => Char.ofNat b.toNat :=
      List.ext_getElem (by rw [List.length_map, List.length_map, List.length_finRange]; rfl) fun i _ _ => by
        rw [List.getElem_map, List.getElem_map, List.getElem_finRange]
        rfl
    rw [← hmap, List.map_eq_foldr]
  rw [hfold, bytes_toUTF8, latin]

theorem plain_byte {c : Char} {b : UInt8} (h : 32 ≤ c.toNat) (hq : c ≠ '"') (hs : c ≠ '\\')
    (hb : b ∈ String.utf8EncodeChar c) : 32 ≤ b.toNat ∧ b.toNat ≠ 34 ∧ b.toNat ≠ 92 := by
  by_cases hc : c.toNat < 128
  · have hbyte : (UInt8.ofNat c.toNat).toNat = c.toNat := UInt8.toNat_ofNat_of_lt' (by simp [UInt8.size]; omega)
    rw [utf8EncodeChar_ascii hc, List.mem_singleton] at hb
    subst hb
    rw [hbyte]
    refine ⟨h, fun h34 => hq ?_, fun h92 => hs ?_⟩
    · exact Char.toNat_inj.mp h34
    · exact Char.toNat_inj.mp h92
  · have h' : ¬ c.val.toNat ≤ 127 := fun h' => hc (Nat.lt_succ_of_le h')
    -- every byte of a character that takes several has its highest bit set
    have hhigh : ∀ n : Nat, 128 ≤ n → n < 256 → 128 ≤ (UInt8.ofNat n).toNat := by
      intro n hn hn'
      rwa [UInt8.toNat_ofNat_of_lt' (by simpa [UInt8.size] using hn')]
    have hbyte : 128 ≤ b.toNat := by
      unfold String.utf8EncodeChar at hb
      dsimp only at hb
      rw [if_neg h'] at hb
      split at hb
      · simp only [List.mem_cons, List.not_mem_nil, or_false] at hb
        rcases hb with rfl | rfl <;> exact hhigh _ (by omega) (by omega)
      · split at hb
        · simp only [List.mem_cons, List.not_mem_nil, or_false] at hb
          rcases hb with rfl | rfl | rfl <;> exact hhigh _ (by omega) (by omega)
        · simp only [List.mem_cons, List.not_mem_nil, or_false] at hb
          rcases hb with rfl | rfl | rfl | rfl <;> exact hhigh _ (by omega) (by omega)
    omega

def pushBytes (acc : ByteArray) (c : Char) : ByteArray := (String.utf8EncodeChar c).foldl ByteArray.push acc

/-- The bytes of a plain character are taken as they are. -/
theorem stringBytes_plain {c : Char} (h : 32 ≤ c.toNat) (hq : c ≠ '"') (hs : c ≠ '\\') (acc : ByteArray)
    (r : List Char) : stringBytes (some acc) (latin [c] ++ r) = stringBytes (some (pushBytes acc c)) r := by
  have hbytes : ∀ bs : List UInt8, (∀ b ∈ bs, 32 ≤ b.toNat ∧ b.toNat ≠ 34 ∧ b.toNat ≠ 92) → ∀ acc : ByteArray,
      stringBytes (some acc) ((bs.map fun b => Char.ofNat b.toNat) ++ r) =
        stringBytes (some (bs.foldl ByteArray.push acc)) r := by
    intro bs
    induction bs with
    | nil => exact fun _ _ => rfl
    | cons b bs ih =>
        intro hbs acc
        obtain ⟨hb, h34, h92⟩ := hbs b (by simp)
        have hlt := b.toNat_lt
        have hnat : (Char.ofNat b.toNat).toNat = b.toNat := by
          rw [Char.toNat_ofNat, if_pos (.inl (by omega))]
        have hne : ∀ d : Char, d.toNat ≠ b.toNat → Char.ofNat b.toNat ≠ d :=
          fun d hd h => hd (by rw [← h, hnat])
        have hslash : Char.ofNat b.toNat ≠ '\\' := hne _ (Ne.symm h92)
        rw [List.map_cons, List.cons_append, stringBytes]
        · rw [hnat, if_neg (by omega), Option.map_some, UInt8.ofNat_toNat]
          exact ih (fun d hd => hbs d (by simp [hd])) _
        · exact hne _ (Ne.symm h34)
        · exact fun _ _ _ _ _ h => absurd h hslash
        · exact fun _ _ h => absurd h hslash
  have hlatin : latin [c] = (String.utf8EncodeChar c).map fun b => Char.ofNat b.toNat := by simp [latin]
  rw [hlatin]
  exact hbytes _ (fun b hb => plain_byte h hq hs hb) acc

theorem stringBytes_simple {e d : Char} (h : simpleEscape? e = some d) (hu : e ≠ 'u') (acc : ByteArray)
    (r : List Char) : stringBytes (some acc) ('\\' :: e :: r) = stringBytes (some (pushBytes acc d)) r := by
  rw [stringBytes]
  · simp [h, pushChar, pushBytes]
  · exact fun _ _ _ _ _ h _ => absurd h hu

theorem stringBytes_escape (c : Char) (acc : ByteArray) (r : List Char) :
    stringBytes (some acc) (latin (Json.escape c).toList ++ r) = stringBytes (some (pushBytes acc c)) r := by
  unfold Json.escape
  split_ifs with h₁ h₂ h₃ h₄ h₅ h₆ h₇ h₈
  · subst h₁
    exact stringBytes_simple (e := '"') rfl (by decide) acc r
  · subst h₂
    exact stringBytes_simple (e := '\\') rfl (by decide) acc r
  · subst h₃
    exact stringBytes_simple (e := 'n') rfl (by decide) acc r
  · subst h₄
    exact stringBytes_simple (e := 'r') rfl (by decide) acc r
  · subst h₅
    exact stringBytes_simple (e := 't') rfl (by decide) acc r
  · subst h₆
    exact stringBytes_simple (e := 'b') rfl (by decide) acc r
  · subst h₇
    exact stringBytes_simple (e := 'f') rfl (by decide) acc r
  · have hquad : ∀ n < 32, hexQuad? '0' '0' (Json.hexDigit (n / 16)) (Json.hexDigit (n % 16)) = some n := by decide
    have hdigit : ∀ n < 32, (Json.hexDigit n).toNat < 128 := by decide
    have htext : latin ("\\u00" ++ String.ofList [Json.hexDigit (c.toNat / 16), Json.hexDigit (c.toNat % 16)]).toList =
        ['\\', 'u', '0', '0', Json.hexDigit (c.toNat / 16), Json.hexDigit (c.toNat % 16)] := by
      rw [latin_ascii]
      · simp
      · simp
        exact ⟨hdigit _ (by omega), hdigit _ (by omega)⟩
    rw [htext]
    simp only [List.cons_append, List.nil_append]
    rw [stringBytes]
    have hhigh : isHighHalf c.toNat = false := by simp [isHighHalf]; omega
    have hlow : isLowHalf c.toNat = false := by simp [isLowHalf]; omega
    simp [hquad _ h₈, hhigh, hlow, pushChar, pushBytes]
  · have hplain := stringBytes_plain (Nat.le_of_not_lt h₈) h₁ h₂ acc r
    simpa using hplain

theorem bytes_foldl_pushBytes (cs : List Char) (acc : ByteArray) :
    (cs.foldl pushBytes acc).data.toList = acc.data.toList ++ cs.flatMap String.utf8EncodeChar := by
  have hpush : ∀ (bs : List UInt8) (acc : ByteArray),
      (bs.foldl ByteArray.push acc).data.toList = acc.data.toList ++ bs := by
    intro bs
    induction bs with
    | nil => simp
    | cons b bs ih => intro acc; rw [List.foldl_cons, ih]; simp
  induction cs generalizing acc with
  | nil => simp
  | cons c cs ih => rw [List.foldl_cons, ih, pushBytes, hpush, List.flatMap_cons, List.append_assoc]

theorem stringBody_quote (s : String) (r : List Char) :
    stringBody (latin (s.toList.flatMap fun c => (Json.escape c).toList) ++ '"' :: r) = some (some s, r) := by
  have hrun : ∀ (cs : List Char) (acc : ByteArray),
      stringBytes (some acc) (latin (cs.flatMap fun c => (Json.escape c).toList) ++ '"' :: r) =
        some (some (cs.foldl pushBytes acc), r) := by
    intro cs
    induction cs with
    | nil =>
        intro acc
        rw [List.flatMap_nil, latin_nil, List.nil_append, stringBytes]
        rfl
    | cons c cs ih =>
        intro acc
        rw [List.flatMap_cons, latin_append, List.append_assoc, stringBytes_escape, ih]
        rfl
  have hbytes : s.toList.foldl pushBytes .empty = s.toUTF8 := by
    refine ByteArray.ext (Array.ext' ?_)
    rw [bytes_foldl_pushBytes, bytes_toUTF8]
    rfl
  rw [stringBody, hrun, hbytes]
  simp [String.fromUTF8?, dif_pos s.isValidUTF8]
  rfl

theorem toList_quote (s : String) :
    (Json.quote s).toList = '"' :: ((s.toList.flatMap fun c => (Json.escape c).toList) ++ ['"']) := by
  have hfold : ∀ (cs : List Char) (out : String),
      (cs.foldl (fun out c => out ++ Json.escape c) out).toList =
        out.toList ++ cs.flatMap fun c => (Json.escape c).toList := by
    intro cs
    induction cs with
    | nil => simp
    | cons c cs ih => intro out; rw [List.foldl_cons, ih]; simp
  simp [Json.quote, hfold]

end JsonText

namespace Json

mutual

/-- A document as it is read back from its text. -/
def reread : Json → Json
  | .null => .null
  | .bool b => .bool b
  | .number n => .number (JsonText.reread n)
  | .string s => .string (some (s.getD ""))
  | .array vs => .array (rereadItems vs)
  | .object ms => .object (rereadMembers ms)

def rereadItems : List Json → List Json
  | [] => []
  | v :: vs => reread v :: rereadItems vs

def rereadMember : Option String × Json → Option String × Json
  | (k, v) => (some (k.getD ""), reread v)

def rereadMembers : List (Option String × Json) → List (Option String × Json)
  | [] => []
  | m :: ms => rereadMember m :: rereadMembers ms

end

end Json

namespace JsonText

open Decimal

def gap (pretty : Bool) (level : Nat) (r : List Char) : List Char :=
  if pretty then '\n' :: (List.replicate (2 * level) ' ' ++ r) else r

def quoted (s : String) (r : List Char) : List Char :=
  '"' :: (latin (s.toList.flatMap fun c => (Json.escape c).toList) ++ '"' :: r)

mutual

/-- The bytes of a printed document before a text. -/
def shown (pretty : Bool) (level : Nat) (v : Json) (r : List Char) : List Char :=
  match v with
  | .null => 'n' :: 'u' :: 'l' :: 'l' :: r
  | .bool true => 't' :: 'r' :: 'u' :: 'e' :: r
  | .bool false => 'f' :: 'a' :: 'l' :: 's' :: 'e' :: r
  | .number n => n.text.toList ++ r
  | .string s => quoted (s.getD "") r
  | .array [] => '[' :: ']' :: r
  | .array (v :: vs) =>
    '[' :: gap pretty (level + 1) (shown pretty (level + 1) v
      (shownItems pretty (level + 1) vs (gap pretty level (']' :: r))))
  | .object [] => '{' :: '}' :: r
  | .object (m :: ms) =>
    '{' :: gap pretty (level + 1) (shownMember pretty (level + 1) m
      (shownMembers pretty (level + 1) ms (gap pretty level ('}' :: r))))

def shownItems (pretty : Bool) (level : Nat) (vs : List Json) (r : List Char) : List Char :=
  match vs with
  | [] => r
  | v :: vs => ',' :: gap pretty level (shown pretty level v (shownItems pretty level vs r))

def shownMember (pretty : Bool) (level : Nat) (m : Option String × Json) (r : List Char) : List Char :=
  match m with
  | (k, v) => quoted (k.getD "") (':' :: (if pretty then [' '] else []) ++ shown pretty level v r)

def shownMembers (pretty : Bool) (level : Nat) (ms : List (Option String × Json)) (r : List Char) : List Char :=
  match ms with
  | [] => r
  | m :: ms => ',' :: gap pretty level (shownMember pretty level m (shownMembers pretty level ms r))

end

def Ascii (s : String) : Prop := ∀ c ∈ s.toList, c.toNat < 128

theorem Ascii.append {s t : String} (hs : Ascii s) (ht : Ascii t) : Ascii (s ++ t) := by
  intro c hc
  rw [String.toList_append] at hc
  rcases List.mem_append.mp hc with hc | hc
  · exact hs c hc
  · exact ht c hc

theorem ascii_digits (n : Nat) : Ascii (digits n) := by
  intro c hc
  rw [toList_digits] at hc
  have hd := isDigit_of_mem_digits hc
  simp only [Char.isDigit, ge_iff_le, Bool.and_eq_true, decide_eq_true_eq] at hd
  have hle : c.toNat ≤ 57 := hd.2
  omega

theorem ascii_zeros (n : Nat) : Ascii (zeros n) := by
  intro c hc
  rw [zeros, String.toList_ofList] at hc
  rw [List.eq_of_mem_replicate hc]
  decide

theorem Ascii.withPoint {s : String} (hs : Ascii s) (n : Nat) : Ascii (withPoint s n) := by
  refine Ascii.append (Ascii.append ?_ (by simp [Ascii])) ?_
  · exact fun c hc => hs c (List.mem_of_mem_take (by simpa using hc))
  · exact fun c hc => hs c (List.mem_of_mem_drop (by simpa using hc))

theorem ascii_dataText (d : Nat) (e : Int) : Ascii (dataText d e) := by
  have hd := ascii_digits d
  have hbehind : Ascii ".0" := by simp [Ascii]
  have hbefore : Ascii "0." := by simp [Ascii]
  unfold dataText
  dsimp only
  split
  · simp [Ascii]
  split
  · exact (hd.append (ascii_zeros _)).append hbehind
  split
  · exact hd.withPoint _
  split
  · exact (hbefore.append (ascii_zeros _)).append hd
  · refine Ascii.append (Ascii.append ?_ ?_) (ascii_digits _)
    · split
      · exact hd
      · exact hd.withPoint 1
    · split <;> simp [Ascii]

theorem ascii_text (n : Numeral) : Ascii n.text := by
  have hsigned : ∀ negative s, Ascii s → Ascii (signed negative s) := by
    intro negative s hs
    cases negative with
    | true => exact Ascii.append (by simp [Ascii]) hs
    | false => exact hs
  cases n with
  | integer negative n => exact hsigned negative _ (ascii_digits n)
  | decimal negative d e => exact hsigned negative _ (ascii_dataText d e)

theorem latin_push (out : String) (c : Char) (hc : c.toNat < 128) (r : List Char) :
    latin (out.push c).toList ++ r = latin out.toList ++ c :: r := by
  have hone : latin [c] = [c] := latin_ascii (by simpa using hc)
  rw [String.toList_push, latin_append, hone, List.append_assoc, List.singleton_append]

theorem latin_string (out : String) {s : String} (hs : Ascii s) (r : List Char) :
    latin (out ++ s).toList ++ r = latin out.toList ++ (s.toList ++ r) := by
  rw [String.toList_append, latin_append, latin_ascii hs, List.append_assoc]

theorem latin_quote (out s : String) (r : List Char) :
    latin (out ++ Json.quote s).toList ++ r = latin out.toList ++ quoted s r := by
  have hmark : latin ['"'] = ['"'] := latin_ascii (by simp)
  rw [String.toList_append, toList_quote, quoted, latin_append, List.append_assoc, ← List.singleton_append,
    latin_append, latin_append, hmark, List.append_assoc, List.append_assoc]
  rfl

theorem latin_lineBreak (pretty : Bool) (level : Nat) (out : String) (r : List Char) :
    latin (Json.lineBreak pretty level out).toList ++ r = latin out.toList ++ gap pretty level r := by
  cases pretty with
  | false => rfl
  | true =>
      have hfold : ∀ (n : Nat) (out : String) (r : List Char),
          latin (n.fold (fun _ _ out => out ++ "  ") out).toList ++ r =
            latin out.toList ++ (List.replicate (2 * n) ' ' ++ r) := by
        intro n
        induction n with
        | zero => simp
        | succ n ih =>
            intro out r
            rw [Nat.fold_succ, latin_string _ (by simp [Ascii]), ih]
            congr 1
            rw [Nat.mul_succ, List.replicate_add, List.append_assoc]
            rfl
      simp only [Json.lineBreak, if_true]
      rw [hfold, latin_push _ _ (by decide)]
      rfl

mutual

theorem latin_write (pretty : Bool) (level : Nat) (out : String) (v : Json) (r : List Char) :
    latin (Json.write pretty level out v).toList ++ r = latin out.toList ++ shown pretty level v r := by
  match v with
  | .null => exact latin_string out (s := "null") (by simp [Ascii]) r
  | .bool true => exact latin_string out (s := "true") (by simp [Ascii]) r
  | .bool false => exact latin_string out (s := "false") (by simp [Ascii]) r
  | .number n => exact latin_string out (ascii_text n) r
  | .string s => exact latin_quote out _ r
  | .array [] => exact latin_string out (s := "[]") (by simp [Ascii]) r
  | .array (v :: vs) =>
      rw [Json.write, shown]
      rw [latin_push _ _ (by decide), latin_lineBreak, latin_writeItems, latin_write, latin_lineBreak,
        latin_push _ _ (by decide)]
  | .object [] => exact latin_string out (s := "\x7b\x7d") (by simp [Ascii]) r
  | .object (m :: ms) =>
      rw [Json.write, shown]
      rw [latin_push _ _ (by decide), latin_lineBreak, latin_writeMembers, latin_writeMember, latin_lineBreak,
        latin_push _ _ (by decide)]

theorem latin_writeItems (pretty : Bool) (level : Nat) (out : String) (vs : List Json) (r : List Char) :
    latin (Json.writeItems pretty level out vs).toList ++ r =
      latin out.toList ++ shownItems pretty level vs r := by
  match vs with
  | [] => rfl
  | v :: vs =>
      rw [Json.writeItems, shownItems, latin_writeItems, latin_write, latin_lineBreak, latin_push _ _ (by decide)]

theorem latin_writeMember (pretty : Bool) (level : Nat) (out : String) (m : Option String × Json)
    (r : List Char) :
    latin (Json.writeMember pretty level out m).toList ++ r =
      latin out.toList ++ shownMember pretty level m r := by
  match m with
  | (k, v) =>
      rw [Json.writeMember, shownMember, latin_write]
      cases pretty with
      | true => exact (latin_string _ (s := ": ") (by simp [Ascii]) _).trans (latin_quote _ _ _)
      | false => exact (latin_string _ (s := ":") (by simp [Ascii]) _).trans (latin_quote _ _ _)

theorem latin_writeMembers (pretty : Bool) (level : Nat) (out : String) (ms : List (Option String × Json))
    (r : List Char) :
    latin (Json.writeMembers pretty level out ms).toList ++ r =
      latin out.toList ++ shownMembers pretty level ms r := by
  match ms with
  | [] => rfl
  | m :: ms =>
      rw [Json.writeMembers, shownMembers, latin_writeMembers, latin_writeMember, latin_lineBreak,
        latin_push _ _ (by decide)]

end

section Reading

variable {pretty : Bool} {level : Nat}

theorem shown_eq (pretty : Bool) (level : Nat) (v : Json) (r : List Char) :
    shown pretty level v r = latin (Json.write pretty level "" v).toList ++ r :=
  (latin_write pretty level "" v r).symm

variable (pretty level) in
theorem length_shown (v : Json) (r : List Char) : r.length ≤ (shown pretty level v r).length := by
  rw [shown_eq, List.length_append]
  exact Nat.le_add_left _ _

variable (pretty level) in
theorem length_shownMember (m : Option String × Json) (r : List Char) :
    r.length ≤ (shownMember pretty level m r).length := by
  rw [← List.nil_append (shownMember _ _ _ _), ← latin_nil, ← String.toList_empty, ← latin_writeMember,
    List.length_append]
  exact Nat.le_add_left _ _

variable (pretty level) in
theorem length_gap (r : List Char) : r.length ≤ (gap pretty level r).length := by
  cases pretty with
  | false => exact Nat.le_refl _
  | true => simp [gap]; omega

theorem skipBlanks_gap (r : List Char) : skipBlanks (gap pretty level r) = skipBlanks r := by
  cases pretty with
  | false => rfl
  | true =>
      have hspaces : ∀ n, (List.replicate n ' ' ++ r).dropWhile isBlank = r.dropWhile isBlank := by
        intro n
        induction n with
        | zero => rfl
        | succ n ih => rw [List.replicate_succ, List.cons_append, List.dropWhile_cons_of_pos (by decide), ih]
      rw [gap, if_pos rfl, skipBlanks, List.dropWhile_cons_of_pos (by decide), hspaces, skipBlanks]

theorem skipBlanks_cons {c : Char} (h : isBlank c = false) (r : List Char) : skipBlanks (c :: r) = c :: r :=
  List.dropWhile_cons_of_neg (by simp [h])

theorem value_congr {cs ds : List Char} (h : skipBlanks cs = skipBlanks ds) (fuel : Nat) :
    value fuel cs = value fuel ds := by
  cases fuel with
  | zero => rfl
  | succ fuel => rw [value, value, h]

theorem head_of_number {cs : List Char} {x : Numeral × List Char} (h : number cs = some x) :
    ∃ c r, cs = c :: r ∧ (c = '-' ∨ c.isDigit = true) := by
  cases cs with
  | nil => simp [number] at h
  | cons c r =>
      refine ⟨c, r, rfl, ?_⟩
      by_cases hc : c = '-'
      · exact .inl hc
      · right
        by_contra hd
        rw [number] at h
        · simp [hd] at h
        · exact fun _ h => absurd (List.cons.inj h).1 hc

def itemsRest (fuel : Nat) (acc : List Json) (cs : List Char) : Option (Json × List Char) :=
  match skipBlanks cs with
  | ',' :: r => items fuel acc r
  | ']' :: r => some (.array acc.reverse, r)
  | _ => none

theorem items_succ (fuel : Nat) (acc : List Json) {cs r : List Char} {v : Json}
    (h : value fuel cs = some (v, r)) : items (fuel + 1) acc cs = itemsRest fuel (v :: acc) r := by
  rw [items, h]
  rfl

/-- The rest of an object behind a member. -/
def membersRest (fuel : Nat) (acc : List (Option String × Json)) (cs : List Char) : Option (Json × List Char) :=
  match skipBlanks cs with
  | ',' :: r => members fuel acc r
  | '}' :: r => some (.object acc.reverse, r)
  | _ => none

theorem members_succ (fuel : Nat) (acc : List (Option String × Json)) {cs t r : List Char} {k : String} {v : Json}
    (hcs : skipBlanks cs = quoted k (':' :: t)) (h : value fuel t = some (v, r)) :
    members (fuel + 1) acc cs = membersRest fuel ((some k, v) :: acc) r := by
  have hcolon : skipBlanks (':' :: t) = ':' :: t := skipBlanks_cons (by decide) t
  rw [members, hcs, quoted]
  simp only [stringBody_quote, hcolon, h]
  rfl

variable (pretty level) in
/-- A printed value starts with a character that is neither a blank nor the end of an array. -/
theorem head_shown (v : Json) (r : List Char) :
    ∃ c t, shown pretty level v r = c :: t ∧ isBlank c = false ∧ c ≠ ']' := by
  match v with
  | .null => exact ⟨_, _, rfl, by decide, by decide⟩
  | .bool true => exact ⟨_, _, rfl, by decide, by decide⟩
  | .bool false => exact ⟨_, _, rfl, by decide, by decide⟩
  | .string _ => exact ⟨_, _, rfl, by decide, by decide⟩
  | .array [] => exact ⟨_, _, rfl, by decide, by decide⟩
  | .array (_ :: _) => exact ⟨_, _, rfl, by decide, by decide⟩
  | .object [] => exact ⟨_, _, rfl, by decide, by decide⟩
  | .object (_ :: _) => exact ⟨_, _, rfl, by decide, by decide⟩
  | .number n =>
      obtain ⟨c, t, ht, hc⟩ := head_of_number (number_text n (r := []) (by simp [Stops]))
      rw [List.append_nil] at ht
      refine ⟨c, t ++ r, by rw [shown, ht, List.cons_append], ?_, ?_⟩
      · rcases hc with rfl | hc
        · decide
        · simp only [isBlank, Bool.or_eq_false_iff, beq_eq_false_iff_ne]
          exact ⟨⟨⟨fun h => by simp [h] at hc, fun h => by simp [h] at hc⟩, fun h => by simp [h] at hc⟩,
            fun h => by simp [h] at hc⟩
      · rintro rfl
        simp at hc

theorem value_number (fuel : Nat) {cs r : List Char} {n : Numeral} (h : number cs = some (n, r)) :
    value (fuel + 1) cs = some (.number n, r) := by
  obtain ⟨c, t, rfl, hc⟩ := head_of_number h
  have hne : ∀ d : Char, d ≠ '-' → d.isDigit = false → c ≠ d := by
    rintro d hd hd' rfl
    rcases hc with hc | hc
    · exact hd hc
    · rw [hd'] at hc
      exact Bool.false_ne_true hc
  have hblank : isBlank c = false := by
    simp only [isBlank, Bool.or_eq_false_iff, beq_eq_false_iff_ne]
    exact ⟨⟨⟨hne _ (by decide) (by decide), hne _ (by decide) (by decide)⟩, hne _ (by decide) (by decide)⟩,
      hne _ (by decide) (by decide)⟩
  rw [value, skipBlanks_cons hblank]
  split
  · exact absurd (List.cons.inj ‹_›).1 (hne _ (by decide) (by decide))
  · exact absurd (List.cons.inj ‹_›).1 (hne _ (by decide) (by decide))
  · exact absurd (List.cons.inj ‹_›).1 (hne _ (by decide) (by decide))
  · exact absurd (List.cons.inj ‹_›).1 (hne _ (by decide) (by decide))
  · exact absurd (List.cons.inj ‹_›).1 (hne _ (by decide) (by decide))
  · exact absurd (List.cons.inj ‹_›).1 (hne _ (by decide) (by decide))
  · rw [h]

theorem stops_gap {c : Char} (hc : c = ']' ∨ c = '\x7d') (r : List Char) : Stops (gap pretty level (c :: r)) := by
  cases pretty with
  | true => simp [gap, Stops]
  | false => rcases hc with rfl | rfl <;> simp [gap, Stops]

theorem Stops.shownItems {r : List Char} (h : Stops r) (vs : List Json) : Stops (shownItems pretty level vs r) := by
  cases vs with
  | nil => exact h
  | cons v vs => simp [JsonText.shownItems, Stops]

theorem Stops.shownMembers {r : List Char} (h : Stops r) (ms : List (Option String × Json)) :
    Stops (shownMembers pretty level ms r) := by
  cases ms with
  | nil => exact h
  | cons m ms => simp [JsonText.shownMembers, Stops]

theorem value_array (fuel : Nat) (v : Json) (r : List Char) :
    value (fuel + 1) ('[' :: gap pretty level (shown pretty level v r)) = items fuel [] (shown pretty level v r) := by
  obtain ⟨c, t, ht, hblank, hc⟩ := head_shown pretty level v r
  rw [value, skipBlanks_cons (by decide)]
  simp only [skipBlanks_gap, ht, skipBlanks_cons hblank]
  split
  · exact absurd (List.cons.inj ‹_›).1 hc
  · rfl

theorem skipBlanks_shownMember (m : Option String × Json) (r : List Char) :
    skipBlanks (shownMember pretty level m r) = shownMember pretty level m r := by
  obtain ⟨k, v⟩ := m
  exact skipBlanks_cons (by decide) _

theorem value_object (fuel : Nat) (m : Option String × Json) (r : List Char) :
    value (fuel + 1) ('\x7b' :: gap pretty level (shownMember pretty level m r)) =
      members fuel [] (shownMember pretty level m r) := by
  rw [value, skipBlanks_cons (by decide)]
  simp only [skipBlanks_gap, skipBlanks_shownMember]
  obtain ⟨k, v⟩ := m
  rfl

mutual

theorem value_shown {fuel : Nat} {r : List Char} (level : Nat) (v : Json)
    (hf : 2 * (shown pretty level v r).length ≤ fuel) (hr : Stops r) :
    value fuel (shown pretty level v r) = some (v.reread, r) := by
  obtain ⟨c, t, ht, -, -⟩ := head_shown pretty level v r
  obtain ⟨fuel, rfl⟩ : ∃ n, fuel = n + 1 := ⟨fuel - 1, by rw [ht, List.length_cons] at hf; omega⟩
  -- each value and each item behind a comma takes one unit of fuel and one character at least
  match v with
  | .null => rfl
  | .bool true => rfl
  | .bool false => rfl
  | .number n => exact value_number fuel (number_text n hr)
  | .string s =>
      rw [shown, quoted, value, skipBlanks_cons (by decide)]
      simp only [stringBody_quote]
      rfl
  | .array [] => rfl
  | .array (v :: vs) =>
      rw [shown] at hf ⊢
      rw [value_array]
      generalize hT : shownItems pretty (level + 1) vs (gap pretty level (']' :: r)) = T at hf ⊢
      have hgap := length_gap pretty (level + 1) (shown pretty (level + 1) v T)
      have hlen := length_shown pretty (level + 1) v T
      rw [List.length_cons] at hf
      obtain ⟨fuel, rfl⟩ : ∃ n, fuel = n + 1 := ⟨fuel - 1, by omega⟩
      have hT' : Stops T := hT ▸ (stops_gap (.inl rfl) r).shownItems vs
      rw [items_succ fuel [] (value_shown (level + 1) v (by omega) hT'), ← hT,
        itemsRest_shown (level + 1) level vs [_] (by rw [hT]; omega)]
      rfl
  | .object [] => rfl
  | .object ((k, v) :: ms) =>
      rw [shown] at hf ⊢
      rw [value_object]
      generalize hT : shownMembers pretty (level + 1) ms (gap pretty level ('\x7d' :: r)) = T at hf ⊢
      have hgap := length_gap pretty (level + 1) (shownMember pretty (level + 1) (k, v) T)
      have hlen := length_shownMember pretty (level + 1) (k, v) T
      rw [List.length_cons] at hf
      obtain ⟨fuel, rfl⟩ : ∃ n, fuel = n + 1 := ⟨fuel - 1, by omega⟩
      have hT' : Stops T := hT ▸ (stops_gap (.inr rfl) r).shownMembers ms
      rw [members_shown (level + 1) k v (skipBlanks_shownMember _ _) (by omega) hT', ← hT,
        membersRest_shown (level + 1) level ms [_] (by rw [hT]; omega)]
      rfl

theorem itemsRest_shown {fuel : Nat} {r : List Char} (level outer : Nat) (vs acc : List Json)
    (hf : 2 * (shownItems pretty level vs (gap pretty outer (']' :: r))).length ≤ fuel) :
    itemsRest fuel acc (shownItems pretty level vs (gap pretty outer (']' :: r))) =
      some (.array (acc.reverse ++ Json.rereadItems vs), r) := by
  match vs with
  | [] =>
      rw [shownItems, itemsRest, skipBlanks_gap, skipBlanks_cons (by decide), Json.rereadItems, List.append_nil]
      rfl
  | v :: vs =>
      rw [shownItems] at hf ⊢
      generalize hT : shownItems pretty level vs (gap pretty outer (']' :: r)) = T at hf ⊢
      have hgap := length_gap pretty level (shown pretty level v T)
      have hlen := length_shown pretty level v T
      rw [List.length_cons] at hf
      obtain ⟨fuel, rfl⟩ : ∃ n, fuel = n + 1 := ⟨fuel - 1, by omega⟩
      have hT' : Stops T := hT ▸ (stops_gap (.inl rfl) r).shownItems vs
      have hv : value fuel (gap pretty level (shown pretty level v T)) = some (v.reread, T) :=
        (value_congr (skipBlanks_gap _) fuel).trans (value_shown level v (by omega) hT')
      rw [itemsRest, skipBlanks_cons (by decide)]
      simp only
      rw [items_succ fuel acc hv, ← hT, itemsRest_shown level outer vs _ (by rw [hT]; omega), Json.rereadItems]
      simp

theorem members_shown {fuel : Nat} {acc : List (Option String × Json)} {cs T : List Char} (level : Nat)
    (k : Option String) (v : Json) (hcs : skipBlanks cs = shownMember pretty level (k, v) T)
    (hf : 2 * (shownMember pretty level (k, v) T).length ≤ fuel + 1) (hT : Stops T) :
    members (fuel + 1) acc cs = membersRest fuel (Json.rereadMember (k, v) :: acc) T := by
  have hblank : ∀ t, value fuel ((if pretty then [' '] else []) ++ t) = value fuel t := by
    intro t
    cases pretty with
    | false => rfl
    | true => exact value_congr (List.dropWhile_cons_of_pos (by decide)) fuel
  rw [shownMember] at hcs hf
  have hv : value fuel (shown pretty level v T) = some (v.reread, T) :=
    value_shown level v (by simp [quoted] at hf; omega) hT
  exact members_succ fuel acc hcs ((hblank _).trans hv)

theorem membersRest_shown {fuel : Nat} {r : List Char} (level outer : Nat) (ms acc : List (Option String × Json))
    (hf : 2 * (shownMembers pretty level ms (gap pretty outer ('\x7d' :: r))).length ≤ fuel) :
    membersRest fuel acc (shownMembers pretty level ms (gap pretty outer ('\x7d' :: r))) =
      some (.object (acc.reverse ++ Json.rereadMembers ms), r) := by
  match ms with
  | [] =>
      rw [shownMembers, membersRest, skipBlanks_gap, skipBlanks_cons (by decide), Json.rereadMembers,
        List.append_nil]
      rfl
  | (k, v) :: ms =>
      rw [shownMembers] at hf ⊢
      generalize hT : shownMembers pretty level ms (gap pretty outer ('\x7d' :: r)) = T at hf ⊢
      have hgap := length_gap pretty level (shownMember pretty level (k, v) T)
      have hlen := length_shownMember pretty level (k, v) T
      rw [List.length_cons] at hf
      obtain ⟨fuel, rfl⟩ : ∃ n, fuel = n + 1 := ⟨fuel - 1, by omega⟩
      have hT' : Stops T := hT ▸ (stops_gap (.inr rfl) r).shownMembers ms
      rw [membersRest, skipBlanks_cons (by decide)]
      simp only
      rw [members_shown level k v ((skipBlanks_gap _).trans (skipBlanks_shownMember _ _)) (by omega) hT', ← hT,
        membersRest_shown level outer ms _ (by rw [hT]; omega), Json.rereadMembers]
      simp

end

end Reading

end JsonText

theorem Json.ofBytes?_write (pretty : Bool) (v : Json) : ofBytes? (write pretty 0 "" v).toUTF8 = some v.reread := by
  have hchars : JsonText.latin (write pretty 0 "" v).toList = JsonText.shown pretty 0 v [] := by
    rw [JsonText.shown_eq, List.append_nil]
  have hvalue : JsonText.value (2 * (JsonText.shown pretty 0 v []).length + 2) (JsonText.shown pretty 0 v []) =
      some (v.reread, []) :=
    JsonText.value_shown 0 v (Nat.le_add_right _ 2) (by simp [JsonText.Stops])
  rw [ofBytes?]
  simp only [JsonText.chars_toUTF8, hchars, hvalue]
  rfl

end Convnet
