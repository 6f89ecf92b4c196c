import Convnet.Proofs.Clipping

namespace Convnet.Glyph

theorem length_rows (c : Char) : (rows c).length = height := by
  have hall : ∀ entry ∈ table, entry.2.length = height := by decide
  rw [rows]
  cases h : table.lookup c.toUpper with
  | none => rfl
  | some l =>
      obtain ⟨before, after, htable, -⟩ := List.lookup_eq_some_iff.mp h
      exact hall (c.toUpper, l) (htable ▸ List.mem_append_right before List.mem_cons_self)

theorem textWidth_le (s : String) (scale : Nat) : textWidth s scale ≤ s.length * advance * scale := by
  rw [textWidth]
  split
  · exact Nat.zero_le _
  · exact Nat.mul_le_mul_right _ (Nat.sub_le _ _)

def inked (s : String) : List (Nat × Nat × Nat) :=
  s.toList.zipIdx.flatMap fun (c, i) =>
    (rows c).zipIdx.flatMap fun (bits, row) => (columns bits).map fun column => (i, row, column)

theorem textCells_eq (s : String) : textCells s = (inked s).map fun t => (t.1 * advance + t.2.2, t.2.1) := by
  simp only [textCells, cells, inked, List.map_flatMap, List.map_map, Function.comp_def]

theorem mem_inked {s : String} {t : Nat × Nat × Nat} (h : t ∈ inked s) :
    t.1 < s.length ∧ t.2.1 < height ∧ t.2.2 < width := by
  obtain ⟨⟨c, i⟩, hc, h⟩ := List.mem_flatMap.mp h
  obtain ⟨⟨bits, row⟩, hbits, h⟩ := List.mem_flatMap.mp h
  obtain ⟨column, hcolumn, rfl⟩ := List.mem_map.mp h
  refine ⟨?_, ?_, List.mem_range.mp (List.mem_of_mem_filter hcolumn)⟩
  · exact List.snd_lt_of_mem_zipIdx hc
  · exact length_rows c ▸ List.snd_lt_of_mem_zipIdx hbits

end Convnet.Glyph

namespace Convnet.Canvas

open Glyph

variable {x y : Int} {s : String} {scale : Nat}

theorem textReach_le (s : String) (scale : Nat) : 0 ≤ textReach s scale ∧
    textReach s scale ≤ ((s.length + 1) * advance * scale : Nat) := by
  refine ⟨Int.natCast_nonneg _, Int.ofNat_le.mpr (Nat.mul_le_mul_right _ (Nat.mul_le_mul_right _ ?_))⟩
  exact (Nat.sub_le _ _).trans (Nat.le_succ _)

theorem textCells_le {cell : Nat × Nat} (h : cell ∈ textCells s) (scale : Nat) :
    (cell.1 * scale + scale : Int) ≤ ((s.length + 1) * advance * scale : Nat) ∧
      (cell.2 * scale + scale : Int) ≤ ((s.length + 1) * advance * scale : Nat) := by
  rw [textCells_eq] at h
  obtain ⟨t, ht, rfl⟩ := List.mem_map.mp h
  obtain ⟨hi, hrow, hcolumn⟩ := mem_inked ht
  have hadvance : advance = 6 := rfl
  have hwidth : Glyph.width = 5 := rfl
  have hheight : Glyph.height = 7 := rfl
  have hright : t.1 * advance + t.2.2 + 1 ≤ (s.length + 1) * advance := by
    rw [hadvance]
    omega
  have hdown : t.2.1 + 1 ≤ (s.length + 1) * advance := by
    rw [hadvance]
    omega
  constructor
  · exact_mod_cast (Nat.succ_mul _ scale).symm.trans_le (Nat.mul_le_mul_right scale hright)
  · exact_mod_cast (Nat.succ_mul _ scale).symm.trans_le (Nat.mul_le_mul_right scale hdown)

theorem text_bounded (hx : -2 ^ 62 ≤ x ∧ x < 2 ^ 62) (hy : -2 ^ 62 ≤ y ∧ y < 2 ^ 62)
    (hs : (s.length + 1) * advance * scale < 2 ^ 62) :
    (Drawing.text x y s scale).Bounded ∧ (Drawing.textUpward x y s scale).Bounded := by
  have hreach := textReach_le s scale
  have hcells : ∀ cell ∈ textCells s, (cell.1 * scale + scale : Int) < 2 ^ 62 ∧ (cell.2 * scale + scale : Int) < 2 ^ 62 ∧
      (0 : Int) ≤ cell.1 * scale ∧ (0 : Int) ≤ cell.2 * scale := by
    intro cell hcell
    obtain ⟨hright, hdown⟩ := textCells_le hcell scale
    exact ⟨hright.trans_lt (by exact_mod_cast hs), hdown.trans_lt (by exact_mod_cast hs), by positivity, by positivity⟩
  have hlast : textReach s scale < 2 ^ 62 := hreach.2.trans_lt (by exact_mod_cast hs)
  simp only [Drawing.Bounded, SquareBounded, Canvas.Bounded, Bool.and_eq_true, isSigned_iff, add_mul, one_mul]
  refine ⟨⟨by omega, fun cell hcell => ?_⟩, by omega, fun cell hcell => ?_⟩
  · obtain ⟨h₁, h₂, h₃, h₄⟩ := hcells cell hcell
    omega
  · obtain ⟨h₁, h₂, h₃, h₄⟩ := hcells cell hcell
    omega

end Convnet.Canvas
