import Convnet.Dataset.Idx
import Convnet.Proofs.Samples

namespace Convnet

theorem Dataset.build_refuses {α : Type} {shape : Shape} {images : Array (Tensor α)} {labels : Array Nat} {n : Nat}
    {e : Error} (hi : ∀ x ∈ images, x.shape = shape) (h : build shape images labels n = .error e) :
    ∃ cause, e = .dataset cause := by
  have hshapes : (images.find? fun t => t.shape != shape) = none :=
    Array.find?_eq_none.mpr fun x hx => by simp [hi x hx]
  unfold build at h
  by_cases hcount : images.size = labels.size
  · by_cases hfew : n < 2
    · simp only [hcount, hfew, ne_eq, not_true, if_false, if_true] at h
      exact ⟨_, (Except.error.inj h).symm⟩
    · simp only [hcount, hfew, ne_eq, not_true, if_false, hshapes] at h
      split at h
      · exact ⟨_, (Except.error.inj h).symm⟩
      · cases h
  · simp only [hcount, ne_eq, not_false_eq_true, if_true] at h
    exact ⟨_, (Except.error.inj h).symm⟩

namespace Idx

section Format

variable (b : ByteArray)

def number (i : Nat) : Nat :=
  byteAt b i * Nat.pow 2 24 + byteAt b (i + 1) * Nat.pow 2 16 + byteAt b (i + 2) * Nat.pow 2 8 + byteAt b (i + 3)

def area : Nat := number b 8 * number b 12

structure Marked (dimensions length : Nat) : Prop where
  long : length ≤ b.size
  mark : byteAt b 0 = 0 ∧ byteAt b 1 = 0 ∧ byteAt b 2 = 8 ∧ byteAt b 3 = dimensions

structure ImageFile : Prop extends Marked b 3 16 where
  shown : 0 < area b
  room : 16 + number b 4 * area b ≤ b.size

structure LabelFile : Prop extends Marked b 1 8 where
  room : 8 + number b 4 ≤ b.size

/-- An image file and a label file that belong together. -/
structure Paired (images labels : ByteArray) (numClasses : Nat) : Prop where
  imageFile : ImageFile images
  labelFile : LabelFile labels
  count : number images 4 = number labels 4
  several : 2 ≤ numClasses
  classes : ∀ k < number labels 4, byteAt labels (8 + k) < numClasses

def image {α : Type} [Scalar α] (k : Nat) : Tensor α :=
  ⟨⟨number b 8, number b 12, 1⟩, Array.ofFn fun (i : Fin (area b)) => ((byteAt b (16 + k * area b + i) : Nat) : α)⟩

def dataset {α : Type} [Scalar α] (images labels : ByteArray) (numClasses : Nat) : Dataset α :=
  ⟨⟨number images 8, number images 12, 1⟩, ((List.range (number images 4)).map (image images)).toArray,
    ((List.range (number labels 4)).map fun k => byteAt labels (8 + k)).toArray, numClasses, none⟩

end Format

section Reading

variable {α : Type} [Scalar α] {b images labels : ByteArray} {n : Nat}

theorem byteAt_lt (b : ByteArray) (i : Nat) : byteAt b i < 256 := by
  unfold byteAt
  split
  · exact UInt8.toNat_lt _
  · decide

theorem number_lt (b : ByteArray) (i : Nat) : number b i < Nat.pow 2 32 := by
  have h₀ := byteAt_lt b i
  have h₁ := byteAt_lt b (i + 1)
  have h₂ := byteAt_lt b (i + 2)
  have h₃ := byteAt_lt b (i + 3)
  simp only [number, Nat.reducePow, Nat.pow_eq] at *
  omega

theorem wordAt_eq {i : Nat} (h : i + 4 ≤ b.size) : wordAt b i = .ok (number b i) := by
  have hvalue : ((byteAt b i * 256 + byteAt b (i + 1)) * 256 + byteAt b (i + 2)) * 256 + byteAt b (i + 3) =
      number b i := by
    simp only [number, Nat.pow_eq, Nat.reducePow]
    omega
  rw [wordAt, decide_eq_true h, require_true, ok_bind, hvalue]
  rfl

theorem checkHeader_cases (b : ByteArray) (what : String) (dimensions length : Nat) (hlength : 4 ≤ length) :
    Marked b dimensions length ∧ checkHeader b what dimensions length = .ok () ∨
      ¬ Marked b dimensions length ∧
        ∃ cause, checkHeader b what dimensions length = .error (.dataset (.idx cause)) := by
  unfold checkHeader
  by_cases hlong : b.size < length
  · exact .inr ⟨fun h => absurd h.long (Nat.not_le.mpr hlong), by simp [hlong]⟩
  by_cases hzero : byteAt b 0 ≠ 0 ∨ byteAt b 1 ≠ 0
  · refine .inr ⟨fun h => hzero.elim (· h.mark.1) (· h.mark.2.1), ?_⟩
    simp [hlong, hzero, hlength.trans (Nat.not_lt.mp hlong)]
  by_cases hkind : byteAt b 2 ≠ 8
  · refine .inr ⟨fun h => hkind h.mark.2.2.1, ?_⟩
    simp [hlong, hzero, hkind, hlength.trans (Nat.not_lt.mp hlong)]
  by_cases hdims : byteAt b 3 ≠ dimensions
  · refine .inr ⟨fun h => hdims h.mark.2.2.2, ?_⟩
    simp [hlong, hzero, hkind, hdims, hlength.trans (Nat.not_lt.mp hlong)]
  · simp only [not_or, ne_eq, not_not] at hzero hkind hdims
    refine .inl ⟨⟨Nat.not_lt.mp hlong, hzero.1, hzero.2, hkind, hdims⟩, ?_⟩
    simp [hlong, hzero, hkind, hdims, hlength.trans (Nat.not_lt.mp hlong)]

theorem pieceStarts_eq {start n : Nat} (count : Nat) (hn : n ≠ 0) (h : start + count * n ≤ b.size) :
    pieceStarts b start (start + count * n) n = .ok ((List.range count).map fun k => start + k * n) := by
  have hpieces : (n != 0) = true := bne_iff_ne.mpr hn
  have hcount : count * n / n = count := Nat.mul_div_cancel _ (Nat.pos_of_ne_zero hn)
  simp [pieceStarts, h, hpieces, hcount]

theorem imageAt_eq (b : ByteArray) (shape : Shape) {start : Nat} (h : shape.size = n) :
    imageAt b shape n start =
      .ok (⟨shape, Array.ofFn fun (i : Fin n) => ((byteAt b (start + i) : Nat) : α)⟩ : Tensor α) := by
  simp [imageAt, Tensor.ofBuffer, h]

theorem parseImages_marked (h : Marked b 3 16) : parseImages b (α := α) =
    if Nat.pow 2 64 ≤ area b then .error (.dataset (.idx (.sizeOverflow (number b 8) (number b 12))))
    else if Nat.pow 2 64 ≤ number b 4 * area b + 16 then .error (.dataset (.idx .lengthOverflow))
    else if b.size < number b 4 * area b + 16 then
      .error (.dataset (.idx (.shortImages (number b 4) (number b 8) (number b 12) (number b 4 * area b) b.size)))
    else if area b = 0 then .error (.dataset (.idx (.emptyImages (number b 8) (number b 12))))
    else pieceStarts b 16 (number b 4 * area b + 16) (area b) >>= fun starts =>
      starts.mapM (imageAt b ⟨number b 8, number b 12, 1⟩ (area b)) >>= fun images =>
        .ok (⟨number b 8, number b 12, 1⟩, images.toArray) := by
  have hlong := h.long
  rcases checkHeader_cases b "image" 3 16 (by decide) with ⟨-, hcheck⟩ | ⟨hmark, -⟩
  · rw [parseImages, hcheck, ok_bind, wordAt_eq (by omega), ok_bind, wordAt_eq (by omega), ok_bind,
      wordAt_eq (by omega), ok_bind]
    rfl
  · exact absurd h hmark

theorem parseImages_cases (b : ByteArray) :
    ImageFile b ∧ parseImages b = .ok (⟨number b 8, number b 12, 1⟩,
        ((List.range (number b 4)).map (image b : Nat → Tensor α)).toArray) ∨
      (ImageFile b → Nat.pow 2 64 ≤ b.size) ∧
        ∃ cause, parseImages b (α := α) = .error (.dataset (.idx cause)) := by
  rcases checkHeader_cases b "image" 3 16 (by decide) with ⟨hmark, -⟩ | ⟨hmark, cause, hcheck⟩
  swap
  · exact .inr ⟨fun h => absurd h.toMarked hmark, cause, by rw [parseImages, hcheck, error_bind]⟩
  have hpixels : area b < Nat.pow 2 64 := Nat.lt_of_lt_of_le
    (Nat.mul_lt_mul'' (number_lt b 8) (number_lt b 12)) (by decide)
  rw [parseImages_marked hmark, if_neg (Nat.not_le.mpr hpixels)]
  by_cases hover : Nat.pow 2 64 ≤ number b 4 * area b + 16
  · rw [if_pos hover]
    refine .inr ⟨fun h => ?_, _, rfl⟩
    have hroom := h.room
    omega
  by_cases hshort : b.size < number b 4 * area b + 16
  · rw [if_neg hover, if_pos hshort]
    refine .inr ⟨fun h => absurd h.room ?_, _, rfl⟩
    omega
  by_cases hnone : area b = 0
  · rw [if_neg hover, if_neg hshort, if_pos hnone]
    exact .inr ⟨fun h => absurd hnone h.shown.ne', _, rfl⟩
  have hroom : 16 + number b 4 * area b ≤ b.size := by omega
  have himages : ((List.range (number b 4)).map fun k => 16 + k * area b).mapM
      (imageAt b ⟨number b 8, number b 12, 1⟩ (area b)) =
      .ok ((List.range (number b 4)).map (image b : Nat → Tensor α)) := by
    refine mapM_eq_ok.mpr ?_
    rw [List.forall₂_map_left_iff, List.forall₂_map_right_iff, List.forall₂_same]
    exact fun k _ => imageAt_eq b _ (Nat.mul_one _)
  refine .inl ⟨⟨hmark, Nat.pos_of_ne_zero hnone, hroom⟩, ?_⟩
  rw [if_neg hover, if_neg hshort, if_neg hnone, Nat.add_comm _ 16, pieceStarts_eq _ hnone hroom, ok_bind, himages]
  rfl

theorem parseLabels_cases (b : ByteArray) :
    LabelFile b ∧ parseLabels b = .ok ((List.range (number b 4)).map fun k => byteAt b (8 + k)).toArray ∨
      ¬ LabelFile b ∧ ∃ cause, parseLabels b = .error (.dataset (.idx cause)) := by
  rcases checkHeader_cases b "label" 1 8 (by decide) with ⟨hmark, hcheck⟩ | ⟨hmark, cause, hcheck⟩
  swap
  · exact .inr ⟨fun h => hmark h.toMarked, cause, by rw [parseLabels, hcheck, error_bind]⟩
  have hlong := hmark.long
  rw [parseLabels, hcheck, ok_bind, wordAt_eq (by omega), ok_bind]
  by_cases hshort : b.size < 8 + number b 4
  · rw [if_pos hshort]
    exact .inr ⟨fun h => absurd h.room (Nat.not_le.mpr hshort), _, rfl⟩
  have hroom : 8 + number b 4 ≤ b.size := Nat.not_lt.mp hshort
  have hstarts := pieceStarts_eq (number b 4) Nat.one_ne_zero (by rwa [Nat.mul_one])
  rw [Nat.mul_one] at hstarts
  refine .inl ⟨⟨hmark, hroom⟩, ?_⟩
  rw [if_neg hshort, hstarts, ok_bind, List.map_map]
  simp [Function.comp_def]

theorem parsePair_cases (images labels : ByteArray) (n : Nat) :
    Paired images labels n ∧ parsePair images labels n = .ok (dataset images labels n : Dataset α) ∨
      (Paired images labels n → Nat.pow 2 64 ≤ images.size) ∧
        ∃ cause, parsePair images labels n (α := α) = .error (.dataset cause) := by
  rcases parseImages_cases (α := α) images with ⟨hi, himages⟩ | ⟨hi, cause, himages⟩
  swap
  · exact .inr ⟨fun h => hi h.imageFile, _, by rw [parsePair, himages, error_bind]⟩
  rcases parseLabels_cases labels with ⟨hl, hlabels⟩ | ⟨hl, cause, hlabels⟩
  swap
  · refine .inr ⟨fun h => absurd h.labelFile hl, .idx cause, ?_⟩
    rw [parsePair, himages, ok_bind]
    dsimp only
    rw [hlabels, error_bind]
  rw [parsePair, himages, ok_bind]
  dsimp only
  rw [hlabels, ok_bind]
  by_cases hcount : number images 4 = number labels 4
  swap
  · refine .inr ⟨fun h => absurd h.count hcount, ?_⟩
    simp [Ne.symm hcount]
  simp only [List.size_toArray, List.length_map, List.length_range, hcount, ne_eq, not_true, if_false]
  have hshapes : ∀ x ∈ ((List.range (number labels 4)).map (image images : Nat → Tensor α)).toArray,
      x.shape = ⟨number images 8, number images 12, 1⟩ := by
    simp [image]
  by_cases hfits : 2 ≤ n ∧ ∀ k < number labels 4, byteAt labels (8 + k) < n
  · refine .inl ⟨⟨hi, hl, hcount, hfits.1, hfits.2⟩, Dataset.build_eq_ok.mpr ⟨by simp, hfits.1, hshapes, ?_, ?_⟩⟩
    · simpa using hfits.2
    · rw [dataset, hcount]
  · refine .inr ⟨fun h => absurd ⟨h.several, h.classes⟩ hfits, ?_⟩
    cases hbuild : Dataset.build (⟨number images 8, number images 12, 1⟩ : Shape)
        ((List.range (number labels 4)).map (image images : Nat → Tensor α)).toArray
        ((List.range (number labels 4)).map fun k => byteAt labels (8 + k)).toArray n with
    | error e =>
        obtain ⟨cause, rfl⟩ := Dataset.build_refuses hshapes hbuild
        exact ⟨cause, rfl⟩
    | ok d =>
        obtain ⟨-, hn, -, hclasses, -⟩ := Dataset.build_eq_ok.mp hbuild
        exact absurd ⟨hn, by simpa using hclasses⟩ hfits

theorem image_sized (k : Nat) : (image b k : Tensor α).Sized := by
  simp [image, Tensor.Sized, Shape.size, area]

theorem place_lt_area {row col : Nat} (hrow : row < number b 8) (hcol : col < number b 12) :
    row * number b 12 + col < area b := by
  have hrows := Nat.mul_le_mul_right (number b 12) (Nat.succ_le_of_lt hrow)
  rw [Nat.succ_mul] at hrows
  rw [area]
  omega

theorem image_at (k : Nat) {row col : Nat} (hrow : row < number b 8) (hcol : col < number b 12) :
    (image b k : Tensor α).at? row col 0 =
      .ok ((byteAt b (16 + k * area b + row * number b 12 + col) : Nat) : α) := by
  have hindex : (image b k : Tensor α).index row col 0 = row * number b 12 + col := by
    rw [Tensor.index, Shape.index, image, Nat.mul_one, Nat.add_zero]
  have hdata : (image b k : Tensor α).data[row * number b 12 + col]? =
      some ((byteAt b (16 + k * area b + (row * number b 12 + col)) : Nat) : α) := by
    rw [image, Array.getElem?_eq_getElem (by rw [Array.size_ofFn]; exact place_lt_area hrow hcol), Array.getElem_ofFn]
  rw [Tensor.at?, hindex, hdata, Nat.add_assoc _ _ col]

/-- Two byte strings that start alike. -/
structure Alike (stop : Nat) (b b' : ByteArray) : Prop where
  long : stop ≤ b'.size
  bytes : ∀ i < stop, byteAt b' i = byteAt b i

theorem alike_of_extract {stop : Nat} {b b' : ByteArray} (hstop : stop ≤ b.size)
    (h : b'.extract 0 stop = b.extract 0 stop) : Alike stop b b' := by
  have hbyte : ∀ (c : ByteArray) (i : Nat), i < stop → byteAt (c.extract 0 stop) i = byteAt c i := by
    intro c i hi
    simp only [byteAt, ByteArray.size_extract, Nat.sub_zero, lt_min_iff, hi, true_and, ByteArray.getElem_extract,
      Nat.zero_add]
  refine ⟨?_, fun i hi => ?_⟩
  · have hlength := congrArg ByteArray.size h
    simp only [ByteArray.size_extract, Nat.sub_zero, Nat.min_eq_left hstop] at hlength
    exact hlength ▸ Nat.min_le_right _ _
  · rw [← hbyte b' i hi, ← hbyte b i hi, h]

theorem Alike.number_eq {stop i : Nat} {b b' : ByteArray} (h : Alike stop b b') (hi : i + 4 ≤ stop) :
    number b' i = number b i := by
  rw [number, number, h.bytes _ (by omega), h.bytes _ (by omega), h.bytes _ (by omega), h.bytes _ (by omega)]

theorem Marked.alike {dimensions length stop : Nat} {b b' : ByteArray} (hm : Marked b dimensions length)
    (h : Alike stop b b') (hlength : length ≤ stop) (hfour : 4 ≤ length) : Marked b' dimensions length := by
  refine ⟨hlength.trans h.long, ?_⟩
  rw [h.bytes 0 (by omega), h.bytes 1 (by omega), h.bytes 2 (by omega), h.bytes 3 (by omega)]
  exact hm.mark

theorem image_alike {b b' : ByteArray} {count k : Nat} (h : Alike (16 + count * area b) b b') (hk : k < count) :
    (image b' k : Tensor α) = image b k := by
  have hend : k * area b + area b ≤ count * area b := by
    rw [← Nat.succ_mul]
    exact Nat.mul_le_mul_right _ hk
  have hrows := h.number_eq (i := 8) (by omega)
  have hcols := h.number_eq (i := 12) (by omega)
  have harea : area b' = area b := by rw [area, area, hrows, hcols]
  rw [image, image, hrows, hcols]
  refine congrArg _ (Array.ext (by simp [harea]) fun i hi hi' => ?_)
  rw [Array.size_ofFn] at hi'
  simp only [Array.getElem_ofFn]
  rw [harea, h.bytes _ (by omega)]

theorem Paired.parsePair_alike {images' labels' : ByteArray} (hpair : Paired images labels n)
    (hsize : images'.size < Nat.pow 2 64) (hi : Alike (16 + number images 4 * area images) images images')
    (hl : Alike (8 + number labels 4) labels labels') :
    parsePair images' labels' n = .ok (dataset images labels n : Dataset α) := by
  have hcount := hi.number_eq (i := 4) (by omega)
  have hrows := hi.number_eq (i := 8) (by omega)
  have hcols := hi.number_eq (i := 12) (by omega)
  have hcount' := hl.number_eq (i := 4) (by omega)
  have harea : area images' = area images := by rw [area, area, hrows, hcols]
  have hbytes : ∀ k < number labels 4, byteAt labels' (8 + k) = byteAt labels (8 + k) := fun k hk =>
    hl.bytes _ (by omega)
  have hpair' : Paired images' labels' n := by
    refine ⟨⟨hpair.imageFile.toMarked.alike hi (by omega) (by decide), ?_, ?_⟩,
      ⟨hpair.labelFile.toMarked.alike hl (by omega) (by decide), ?_⟩, ?_, hpair.several, ?_⟩
    · rw [harea]
      exact hpair.imageFile.shown
    · rw [hcount, harea]
      exact hi.long
    · rw [hcount']
      exact hl.long
    · rw [hcount, hcount', hpair.count]
    · rw [hcount']
      exact fun k hk => hbytes k hk ▸ hpair.classes k hk
  have hdata : (dataset images' labels' n : Dataset α) = dataset images labels n := by
    have himages : (List.range (number images 4)).map (image images' : Nat → Tensor α) =
        (List.range (number images 4)).map (image images) :=
      List.map_congr_left fun k hk => image_alike hi (List.mem_range.mp hk)
    have hlabels : ((List.range (number labels 4)).map fun k => byteAt labels' (8 + k)) =
        (List.range (number labels 4)).map fun k => byteAt labels (8 + k) :=
      List.map_congr_left fun k hk => hbytes k (List.mem_range.mp hk)
    rw [dataset, dataset, hcount, hrows, hcols, hcount', himages, hlabels]
  rcases parsePair_cases (α := α) images' labels' n with ⟨-, hparse⟩ | ⟨hlong, -⟩
  · rw [hparse, hdata]
  · exact absurd (hlong hpair') (Nat.not_le.mpr hsize)

/-- The grammar of a pair of files, and what an accepted pair means. A file is as long as memory can hold. -/
theorem parsePair_accepts (images labels : ByteArray) (n : Nat) (hsize : images.size < Nat.pow 2 64) :
    (∀ e, parsePair images labels n (α := α) = .error e → ∃ cause, e = .dataset cause) ∧
    ((∃ d : Dataset α, parsePair images labels n = .ok d) ↔ Paired images labels n) ∧
    ∀ d : Dataset α, parsePair images labels n = .ok d →
      d.shape = ⟨number images 8, number images 12, 1⟩ ∧ d.numClasses = n ∧ d.classNames = none ∧
      d.images.size = number images 4 ∧ d.labels.size = number images 4 ∧
      (∀ k < number images 4, ∃ x, d.images[k]? = some x ∧ x.shape = d.shape ∧ x.Sized ∧
        ∀ row < number images 8, ∀ col < number images 12, x.at? row col 0 =
          .ok ((byteAt images (16 + k * area images + row * number images 12 + col) : Nat) : α)) ∧
      (∀ k < number images 4, d.labels[k]? = some (byteAt labels (8 + k))) ∧
      ∀ images' labels' : ByteArray, images'.size < Nat.pow 2 64 →
        images'.extract 0 (16 + number images 4 * area images) = images.extract 0 (16 + number images 4 * area images) →
        labels'.extract 0 (8 + number images 4) = labels.extract 0 (8 + number images 4) →
        parsePair images' labels' n = .ok d := by
  rcases parsePair_cases (α := α) images labels n with ⟨hpair, hparse⟩ | ⟨hpair, cause, hparse⟩
  swap
  · rw [hparse]
    refine ⟨?_, ⟨?_, fun h => absurd (hpair h) (Nat.not_le.mpr hsize)⟩, ?_⟩
    · rintro _ ⟨⟩
      exact ⟨cause, rfl⟩
    · rintro ⟨d, ⟨⟩⟩
    · rintro d ⟨⟩
  rw [hparse]
  refine ⟨?_, ⟨fun _ => hpair, fun _ => ⟨_, rfl⟩⟩, ?_⟩
  · rintro e ⟨⟩
  · rintro d ⟨⟩
    refine ⟨rfl, rfl, rfl, ?_, ?_, fun k hk => ⟨image images k, ?_, rfl, image_sized k, ?_⟩, fun k hk => ?_, ?_⟩
    · simp [dataset]
    · simp [dataset, hpair.count]
    · simp [dataset, hk]
    · exact fun row hrow col hcol => image_at k hrow hcol
    · simp [dataset, ← hpair.count, hk]
    · intro images' labels' hsize' hi hl
      rw [hpair.count] at hl
      exact hpair.parsePair_alike hsize' (alike_of_extract hpair.imageFile.room hi)
        (alike_of_extract hpair.labelFile.room hl)

def twoPixels : ByteArray × ByteArray :=
  (⟨#[0, 0, 8, 3, 0, 0, 0, 1, 0, 0, 0, 1, 0, 0, 0, 2, 7, 9, 5]⟩, ⟨#[0, 0, 8, 1, 0, 0, 0, 1, 1]⟩)

theorem twoPixels_paired : Paired twoPixels.1 twoPixels.2 2 where
  imageFile := ⟨⟨by decide, by decide⟩, by decide, by decide⟩
  labelFile := ⟨⟨by decide, by decide⟩, by decide⟩
  count := by decide
  several := by decide
  classes := by decide

theorem parsePair_accepts_twoPixels : twoPixels.1.size < Nat.pow 2 64 ∧
    ∃ d : Dataset Float, parsePair twoPixels.1 twoPixels.2 2 = .ok d ∧ d.shape = ⟨1, 2, 1⟩ ∧ d.labels[0]? = some 1 ∧
      parsePair (twoPixels.1.extract 0 18) twoPixels.2 2 = .ok d := by
  have hsize : twoPixels.1.size < Nat.pow 2 64 := by decide
  obtain ⟨-, haccepts, hread⟩ := parsePair_accepts (α := Float) twoPixels.1 twoPixels.2 2 hsize
  obtain ⟨d, hd⟩ := haccepts.mpr twoPixels_paired
  obtain ⟨hshape, -, -, -, -, -, hlabels, hfront⟩ := hread d hd
  refine ⟨hsize, d, hd, hshape.trans (by decide), (hlabels 0 (by decide)).trans (by decide), ?_⟩
  exact hfront _ _ (by decide) (by decide) rfl

end Reading

end Idx

end Convnet
