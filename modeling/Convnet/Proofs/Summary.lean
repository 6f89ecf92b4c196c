import Convnet.Model.Summary
import Convnet.Proofs.Correlation
import Convnet.Proofs.Preparing
import Convnet.Proofs.SmallCnn

namespace Convnet

section Parameters

variable {α : Type} {l : Layer α}

def Layer.declaredCount : Layer α → Nat
  | .conv l => l.kernelSize * l.kernelSize * l.inputShape.channels * l.filters + l.filters
  | .dense l => l.weights.rows * l.weights.cols + l.weights.cols
  | _ => 0

theorem Layer.Sound.declaredCount_eq (h : l.Sound) : l.declaredCount = l.parameterCount := by
  have hparts := h.parts
  cases l with
  | conv l => rw [declaredCount, parameterCount, hparts.kernel, hparts.bias, Convolution.kernelLength]
  | dense l =>
      have hweights : l.weights.data.size = l.weights.rows * l.weights.cols := hparts.weights
      rw [declaredCount, parameterCount, hweights, hparts.biases]
  | pool | flatten | dropout | pointwise => rfl

theorem Layer.sum_parameters [Scalar α] (l : Layer α) :
    (l.ready.parameters.map (·.values.size)).sum = l.parameterCount := by
  cases l with
  | conv l => simp [ready, parameters, parameterCount, Convolution.ready]
  | dense l => simp [ready, parameters, parameterCount, Dense.ready]
  | pool | flatten | dropout | pointwise => rfl

theorem Network.sum_parameters [Scalar α] (net : Network α) :
    (net.parameters.map (·.values.size)).sum = net.parameterCount := by
  rw [parameters, sum_map_flatMap, parameterCount_eq]
  exact congrArg List.sum (List.map_congr_left fun l _ => l.sum_parameters)

end Parameters

section Names

variable {α : Type}

def Layer.kinds : List String :=
  ["Conv2D", "MaxPooling2D", "AveragePooling2D", "Flatten", "Dense", "Dropout", "Activation"]

theorem Layer.kind_mem (l : Layer α) : l.kind ∈ kinds := by
  cases l with
  | pool l =>
      obtain ⟨kind, -, -, -, -⟩ := l
      cases kind <;> simp [Layer.kind, PoolKind.layerName, kinds]
  | conv | flatten | dense | dropout | pointwise => simp [Layer.kind, kinds]

namespace Summary

open JsonText

variable {k k' : String} {n m : Nat}

theorem snakeCase_injOn : ∀ k ∈ Layer.kinds, ∀ k' ∈ Layer.kinds, snakeCase k = snakeCase k' → k = k' := by
  decide +kernel

theorem noDigit_snakeCase {k : String} (hk : k ∈ Layer.kinds) : NoDigit (snakeCase k).toList.reverse := by
  have hlast : ∀ k ∈ Layer.kinds, (snakeCase k).toList.reverse.head?.all (!·.isDigit) = true := by decide +kernel
  intro c hc
  simpa [hc] using hlast k hk

theorem rowName_of_ne (k : String) (hn : n ≠ 0) : rowName k n = snakeCase k ++ "_" ++ toString n := by
  rw [rowName, if_neg hn]
  rfl

/-- From its end, a name shows the digits of its number, if it has one, and then the name of its kind. -/
theorem rowName_fromEnd (hk : k ∈ Layer.kinds) (n : Nat) :
    (rowName k n).toList.reverse.takeWhile Char.isDigit = (if n = 0 then [] else (Nat.toDigits 10 n).reverse) ∧
      (rowName k n).toList.reverse.dropWhile Char.isDigit =
        (if n = 0 then [] else ['_']) ++ (snakeCase k).toList.reverse := by
  by_cases hn : n = 0
  · simpa [rowName, hn] using @takeWhile_digits [] _ (by simp) (noDigit_snakeCase hk)
  · have hdigits : ∀ c ∈ (Nat.toDigits 10 n).reverse, c.isDigit = true :=
      fun _ hc => Decimal.isDigit_of_mem_digits (List.mem_reverse.mp hc)
    have hstops : NoDigit ('_' :: (snakeCase k).toList.reverse) := by simp [NoDigit]
    simpa [rowName_of_ne k hn, hn] using takeWhile_digits hdigits hstops

theorem rowName_inj (hk : k ∈ Layer.kinds) (hk' : k' ∈ Layer.kinds) (h : rowName k n = rowName k' m) :
    k = k' ∧ n = m := by
  obtain ⟨hnumber, hstem⟩ := rowName_fromEnd hk n
  obtain ⟨hnumber', hstem'⟩ := rowName_fromEnd hk' m
  rw [h, hnumber'] at hnumber
  rw [h, hstem'] at hstem
  have hnm : n = m := by
    by_cases hn : n = 0 <;> by_cases hm : m = 0
    · rw [hn, hm]
    · simp [hn, hm, Nat.toDigits_ne_nil] at hnumber
    · simp [hn, hm, Nat.toDigits_ne_nil] at hnumber
    · rw [if_neg hn, if_neg hm] at hnumber
      rw [← Decimal.natOfDigits_toDigits n, ← List.reverse_injective hnumber, Decimal.natOfDigits_toDigits]
  subst hnm
  have hcase := List.reverse_injective (List.append_cancel_left hstem)
  exact ⟨snakeCase_injOn k hk k' hk' (String.toList_injective hcase.symm), rfl⟩

end Summary

end Names

section Rows

variable {α : Type} [Scalar α] {before : List String} {l : Layer α} {ls : List (Layer α)} {rows : List SummaryRow}

/-- What a row says of its layer: its kind, its shape, and the parameters that it has by its sizes and that it
hands to the optimizer. -/
structure SummaryRow.Of (l : Layer α) (r : SummaryRow) : Prop where
  kind : r.kind = l.kind
  outputShape : l.outputShape? = .ok r.outputShape
  declared : r.params = l.declaredCount
  handed : r.params = (l.ready.parameters.map (·.values.size)).sum

namespace Summary

omit [Scalar α] in
theorem rowsFrom_cons : rowsFrom before (l :: ls) = .ok rows ↔ ∃ shape, l.outputShape? = .ok shape ∧
    ∃ rest, rowsFrom (l.kind :: before) ls = .ok rest ∧
      rows = ⟨rowName l.kind (before.count l.kind), l.kind, shape, l.parameterCount⟩ :: rest := by
  simp only [rowsFrom, bind_eq_ok, pure_eq_ok_iff]

theorem rowsFrom_of (hl : ∀ l ∈ ls, l.Sound) (h : rowsFrom before ls = .ok rows) :
    List.Forall₂ SummaryRow.Of ls rows := by
  induction ls generalizing before rows with
  | nil =>
      cases h
      exact .nil
  | cons l ls ih =>
      obtain ⟨hsound, hl⟩ := List.forall_mem_cons.mp hl
      obtain ⟨shape, hshape, rest, hrest, rfl⟩ := rowsFrom_cons.mp h
      exact .cons ⟨rfl, hshape, hsound.declaredCount_eq.symm, l.sum_parameters.symm⟩ (ih hl hrest)

omit [Scalar α] in
theorem exists_rowName (h : rowsFrom before ls = .ok rows) {r : SummaryRow} (hr : r ∈ rows) :
    ∃ l ∈ ls, ∃ n, before.count l.kind ≤ n ∧ r.name = rowName l.kind n := by
  induction ls generalizing before rows with
  | nil =>
      cases h
      cases hr
  | cons l ls ih =>
      obtain ⟨shape, -, rest, hrest, rfl⟩ := rowsFrom_cons.mp h
      rcases List.mem_cons.mp hr with rfl | hr
      · exact ⟨l, List.mem_cons_self, _, le_rfl, rfl⟩
      · obtain ⟨k, hk, n, hn, hname⟩ := ih hrest hr
        exact ⟨k, List.mem_cons_of_mem l hk, n, List.count_le_count_cons.trans hn, hname⟩

omit [Scalar α] in
theorem names_nodup (h : rowsFrom before ls = .ok rows) : (rows.map (·.name)).Nodup := by
  induction ls generalizing before rows with
  | nil =>
      cases h
      exact List.nodup_nil
  | cons l ls ih =>
      obtain ⟨shape, -, rest, hrest, rfl⟩ := rowsFrom_cons.mp h
      refine List.nodup_cons.mpr ⟨fun hmem => ?_, ih hrest⟩
      obtain ⟨r, hr, hname⟩ := List.mem_map.mp hmem
      obtain ⟨k, -, n, hn, hrow⟩ := exists_rowName hrest hr
      -- a later row of the same kind has counted this one
      obtain ⟨hkind, rfl⟩ := rowName_inj k.kind_mem l.kind_mem (hrow.symm.trans hname)
      rw [hkind, List.count_cons_self] at hn
      exact absurd hn (Nat.not_succ_le_self _)

end Summary

end Rows

section Digits

namespace Summary

variable {c : Char} {cs : List Char}

/-- Counted from the end, every fourth character is a comma and no other one is. -/
def Spaced (cs : List Char) : Prop := ∀ i, cs.reverse[i]? = some ',' ↔ i < cs.length ∧ i % 4 = 3

theorem Spaced.cons (h : Spaced cs) (hc : c = ',' ↔ cs.length % 4 = 3) : Spaced (c :: cs) := by
  intro i
  rw [List.reverse_cons, List.getElem?_append, List.length_reverse, List.length_cons]
  rcases Nat.lt_trichotomy i cs.length with hi | rfl | hi
  · rw [if_pos hi, h i, and_iff_right hi, and_iff_right (Nat.lt_succ_of_lt hi)]
  · rw [if_neg (Nat.lt_irrefl _), Nat.sub_self, List.getElem?_cons_zero, Option.some_inj, hc,
      and_iff_right (Nat.lt_succ_self _)]
  · rw [if_neg (Nat.lt_asymm hi), List.getElem?_eq_none (Nat.sub_pos_of_lt hi)]
    simp only [reduceCtorEq, false_iff]
    omega

structure Grouped (n : Nat) (text : List Char) : Prop where
  numeral : text.filter (· ≠ ',') = (toString n).toList
  spaced : Spaced text
  head : text.head? ≠ some ','

theorem groupDigits_comma (h : cs.length % 3 = 0 ∧ cs ≠ []) : groupDigits (c :: cs) = c :: ',' :: groupDigits cs := by
  rw [groupDigits, if_pos h]

theorem groupDigits_plain (h : ¬ (cs.length % 3 = 0 ∧ cs ≠ [])) : groupDigits (c :: cs) = c :: groupDigits cs := by
  rw [groupDigits, if_neg h]

theorem head_groupDigits (cs : List Char) : (groupDigits cs).head? = cs.head? := by
  cases cs with
  | nil => rfl
  | cons c cs =>
      by_cases h : cs.length % 3 = 0 ∧ cs ≠ []
      · rw [groupDigits_comma h, List.head?_cons, List.head?_cons]
      · rw [groupDigits_plain h, List.head?_cons, List.head?_cons]

theorem filter_groupDigits (hcs : ∀ c ∈ cs, c ≠ ',') : (groupDigits cs).filter (· ≠ ',') = cs := by
  induction cs with
  | nil => rfl
  | cons c cs ih =>
      obtain ⟨hc, hcs⟩ := List.forall_mem_cons.mp hcs
      by_cases h : cs.length % 3 = 0 ∧ cs ≠ []
      · rw [groupDigits_comma h, List.filter_cons_of_pos (by simpa using hc), List.filter_cons_of_neg (by simp), ih hcs]
      · rw [groupDigits_plain h, List.filter_cons_of_pos (by simpa using hc), ih hcs]

theorem length_groupDigits (cs : List Char) : (groupDigits cs).length = cs.length + (cs.length - 1) / 3 := by
  induction cs with
  | nil => rfl
  | cons c cs ih =>
      by_cases h : cs.length % 3 = 0 ∧ cs ≠ []
      · have hpos := List.length_pos_of_ne_nil h.2
        rw [groupDigits_comma h, List.length_cons, List.length_cons, List.length_cons, ih]
        omega
      · have hlen : cs.length % 3 = 0 → cs.length = 0 := by simpa using h
        rw [groupDigits_plain h, List.length_cons, List.length_cons, ih]
        omega

theorem spaced_groupDigits (hcs : ∀ c ∈ cs, c ≠ ',') : Spaced (groupDigits cs) := by
  induction cs with
  | nil => simp [groupDigits, Spaced]
  | cons c cs ih =>
      obtain ⟨hc, hcs⟩ := List.forall_mem_cons.mp hcs
      have hlen := length_groupDigits cs
      by_cases h : cs.length % 3 = 0 ∧ cs ≠ []
      · have hpos := List.length_pos_of_ne_nil h.2
        rw [groupDigits_comma h]
        refine ((ih hcs).cons (iff_of_true rfl ?_)).cons (iff_of_false hc ?_)
        · omega
        · rw [List.length_cons]
          omega
      · have hzero : cs.length % 3 = 0 → cs.length = 0 := by simpa using h
        rw [groupDigits_plain h]
        refine (ih hcs).cons (iff_of_false hc ?_)
        omega

theorem grouped_numeral (n : Nat) : Grouped n (grouped n).toList := by
  have hdigits : ∀ c ∈ Nat.toDigits 10 n, c ≠ ',' := by
    rintro c hc rfl
    exact absurd (Decimal.isDigit_of_mem_digits hc) (by decide)
  have htext : (grouped n).toList = groupDigits (Nat.toDigits 10 n) := by
    rw [grouped, String.toList_ofList, Decimal.toList_digits]
  rw [htext]
  refine ⟨?_, spaced_groupDigits hdigits, ?_⟩
  · rw [filter_groupDigits hdigits, Nat.toString_eq_ofList_toDigits, String.toList_ofList]
  · rw [head_groupDigits]
    exact fun h => hdigits ',' (List.mem_of_head? h) rfl

end Summary

end Digits

section Faithful

variable {α : Type} [Scalar α] {net : Network α}

/-- What a summary says of its network. -/
structure Summary.Of (net : Network α) (s : Summary) : Prop where
  rows : List.Forall₂ SummaryRow.Of net.layers s.rows
  names : (s.rows.map (·.name)).Nodup
  total : s.totalParams = net.parameterCount
  handed : s.totalParams = (net.parameters.map (·.values.size)).sum
  shown : ∃ above below, s.text = above ++ "\n" ++ s!"Total params: {grouped s.totalParams}\n" ++
    s!"Trainable params: {grouped s.totalParams}\n" ++ below

theorem Summary.sum_rows {ls : List (Layer α)} {rows : List SummaryRow} (h : List.Forall₂ SummaryRow.Of ls rows) :
    rows.map (·.params) = ls.map Layer.parameterCount := by
  induction h with
  | nil => rfl
  | cons h _ ih => rw [List.map_cons, List.map_cons, ih, h.handed, Layer.sum_parameters]

theorem Summary.text_total (s : Summary) : ∃ above below, s.text = above ++ "\n" ++
    s!"Total params: {grouped s.totalParams}\n" ++ s!"Trainable params: {grouped s.totalParams}\n" ++ below := by
  unfold text
  exact ⟨_, _, String.append_assoc⟩

theorem Summary.of_ofNetwork {s : Summary} (hl : ∀ l ∈ net.layers, l.Sound) (h : ofNetwork net = .ok s) : s.Of net := by
  obtain ⟨rows, hrows, hs⟩ := bind_eq_ok.mp h
  obtain rfl := pure_eq_ok_iff.mp hs
  have hof := rowsFrom_of hl hrows
  have htotal : rows.foldl (fun n r => n + r.params) 0 = net.parameterCount := by
    rw [Network.parameterCount_eq, ← sum_rows hof, List.sum_eq_foldl, List.foldl_map]
  exact ⟨hof, names_nodup hrows, htotal, htotal.trans net.sum_parameters.symm, text_total _⟩

theorem Network.summary_faithful (net : Network α) (h : ∀ l ∈ net.layers, ∃ i, l.check i = .ok ()) :
    (∃ s, Summary.ofNetwork net = .ok s ∧ s.Of net) ∧ ∀ n, Summary.Grouped n (Summary.grouped n).toList := by
  have hl : ∀ l ∈ net.layers, l.Sound := fun l hl => (h l hl).elim fun _ => Layer.sound_of_check
  obtain ⟨rows, hrows⟩ := Summary.rowsFrom_answers [] hl
  have hs : Summary.ofNetwork net = .ok _ := bind_eq_ok.mpr ⟨rows, hrows, rfl⟩
  exact ⟨⟨_, hs, Summary.of_ofNetwork hl hs⟩, Summary.grouped_numeral⟩

end Faithful

theorem Network.summary_faithful_twice : ∃ (net : Network Float) (s : Summary),
    (∀ l ∈ net.layers, ∃ i, l.check i = .ok ()) ∧ Summary.ofNetwork net = .ok s ∧ s.Of net ∧
      s.rows.map (·.name) =
        ["conv2d", "max_pooling2d", "conv2d_1", "average_pooling2d", "flatten", "dense", "activation", "dense_1"] ∧
      s.rows.map (·.params) = [20, 0, 57, 0, 0, 16, 0, 10] ∧ s.totalParams = 103 ∧
      Summary.Grouped 1234567 "1,234,567".toList := by
  obtain ⟨net, hnet⟩ : ∃ net : Network Float, net = ⟨⟨4, 4, 1⟩, [
      .conv ⟨2, 3, 1, .same, .relu, ⟨4, 4, 1⟩, Buffer.zeros 18, Buffer.zeros 2, #[], #[], none, none⟩,
      .pool ⟨.max, 2, 2, ⟨4, 4, 2⟩, #[]⟩,
      .conv ⟨3, 3, 1, .same, .relu, ⟨2, 2, 2⟩, Buffer.zeros 54, Buffer.zeros 3, #[], #[], none, none⟩,
      .pool ⟨.average, 2, 2, ⟨2, 2, 3⟩, #[]⟩, .flatten ⟨1, 1, 3⟩,
      .dense ⟨.zeros 3 4, Buffer.zeros 4, .linear, .empty, #[], #[], #[]⟩, .pointwise ⟨.relu, .flat 4, #[]⟩,
      .dense ⟨.zeros 4 2, Buffer.zeros 2, .softmax, .empty, #[], #[], #[]⟩], .categoricalCrossentropy, none⟩ :=
    ⟨_, rfl⟩
  have hcheck : ∀ l ∈ net.layers, ∃ i, l.check i = .ok () := by
    subst hnet
    simp only [List.forall_mem_cons]
    exact ⟨⟨none, rfl⟩, ⟨none, rfl⟩, ⟨none, rfl⟩, ⟨none, rfl⟩, ⟨none, rfl⟩, ⟨none, rfl⟩, ⟨none, rfl⟩, ⟨none, rfl⟩,
      nofun⟩
  obtain ⟨⟨s, hs, hof⟩, hdigits⟩ := Network.summary_faithful net hcheck
  refine ⟨net, s, hcheck, hs, hof, ?_⟩
  have hgrouped : Summary.grouped 1234567 = "1,234,567" := by cbv
  refine ⟨?_, ?_, ?_, hgrouped ▸ hdigits 1234567⟩
  all_goals
    subst hnet
    cases hs
    rfl
end Convnet
