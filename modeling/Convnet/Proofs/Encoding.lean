import Convnet.Proofs.Idx

namespace Convnet

/-- The values of all images, one image after the other. -/
def Dataset.values {α : Type} (d : Dataset α) : List α := d.images.toList.flatMap fun x => x.data.toList

namespace Idx

variable {a b : ByteArray} {i n rows cols : Nat}

theorem byteAt_eq (h : i < b.size) : byteAt b i = b[i].toNat := dif_pos h

theorem byteAt_append_left (h : i < a.size) : byteAt (a ++ b) i = byteAt a i := by
  have hi : i < (a ++ b).size := by rw [ByteArray.size_append]; omega
  rw [byteAt_eq h, byteAt_eq hi, ByteArray.getElem_append_left h]

theorem byteAt_append_right (a b : ByteArray) (i : Nat) : byteAt (a ++ b) (a.size + i) = byteAt b i := by
  by_cases h : i < b.size
  · have hi : a.size + i < (a ++ b).size := by rw [ByteArray.size_append]; omega
    rw [byteAt_eq h, byteAt_eq hi, ByteArray.getElem_append_right (Nat.le_add_right _ _)]
    simp only [Nat.add_sub_cancel_left]
  · have hi : ¬ a.size + i < (a ++ b).size := by rw [ByteArray.size_append]; omega
    rw [byteAt, byteAt, dif_neg h, dif_neg hi]

theorem number_append_left (h : i + 4 ≤ a.size) : number (a ++ b) i = number a i := by
  rw [number, number, byteAt_append_left (by omega), byteAt_append_left (by omega),
    byteAt_append_left (by omega), byteAt_append_left (by omega)]

theorem number_append_right (a b : ByteArray) (i : Nat) : number (a ++ b) (a.size + i) = number b i := by
  simp only [number, Nat.add_assoc, byteAt_append_right]

theorem number_word (h : n < Nat.pow 2 32) : number (word n) 0 = n := by
  have hbyte : ∀ m : Nat, (UInt8.ofNat m).toNat = m % 256 := fun m => UInt8.toNat_ofNat'
  have h₀ : byteAt (word n) 0 = n / Nat.pow 2 24 % 256 := hbyte _
  have h₁ : byteAt (word n) 1 = n / Nat.pow 2 16 % 256 := hbyte _
  have h₂ : byteAt (word n) 2 = n / Nat.pow 2 8 % 256 := hbyte _
  have h₃ : byteAt (word n) 3 = n % 256 := hbyte _
  simp only [number, Nat.zero_add, h₀, h₁, h₂, h₃, Nat.reducePow, Nat.pow_eq] at h ⊢
  omega

theorem extract_eq_range {start : Nat} (h : start + n ≤ b.size) : b.extract start (start + n) =
    ⟨((List.range n).map fun i => UInt8.ofNat (byteAt b (start + i))).toArray⟩ := by
  have hsize : (b.extract start (start + n)).size = n := by
    rw [ByteArray.size_extract, Nat.min_eq_left h, Nat.add_sub_cancel_left]
  refine ByteArray.ext_getElem ?_ fun i hi hi' => ?_
  · rw [hsize]
    simp [ByteArray.size]
  · rw [hsize] at hi
    have hplace : start + i < b.size := by omega
    rw [ByteArray.getElem_extract]
    simp only [ByteArray.getElem_eq_getElem_data, List.getElem_toArray, List.getElem_map, List.getElem_range,
      byteAt_eq hplace, UInt8.ofNat_toNat]

theorem extract_four (h : i + 4 ≤ b.size) : b.extract i (i + 4) = ⟨#[UInt8.ofNat (byteAt b i),
    UInt8.ofNat (byteAt b (i + 1)), UInt8.ofNat (byteAt b (i + 2)), UInt8.ofNat (byteAt b (i + 3))]⟩ :=
  extract_eq_range h

theorem word_number (h : i + 4 ≤ b.size) : word (number b i) = b.extract i (i + 4) := by
  have h₀ := byteAt_lt b i
  have h₁ := byteAt_lt b (i + 1)
  have h₂ := byteAt_lt b (i + 2)
  have h₃ := byteAt_lt b (i + 3)
  have hbyte : ∀ m k : Nat, m % 256 = k → UInt8.ofNat m = UInt8.ofNat k := by
    rintro m _ rfl
    exact UInt8.toNat_inj.mp (by simp)
  have hnumber : number b i = byteAt b i * 16777216 + byteAt b (i + 1) * 65536 + byteAt b (i + 2) * 256 +
    byteAt b (i + 3) := rfl
  have hhigh := hbyte (number b i / 16777216) (byteAt b i) (by omega)
  have hnext := hbyte (number b i / 65536) (byteAt b (i + 1)) (by omega)
  have hthird := hbyte (number b i / 256) (byteAt b (i + 2)) (by omega)
  have hlow := hbyte (number b i) (byteAt b (i + 3)) (by omega)
  rw [extract_four h, ← hhigh, ← hnext, ← hthird, ← hlow]
  rfl

theorem number_field (ha : a.size = i) (hn : n < Nat.pow 2 32) : number (a ++ word n ++ b) i = n := by
  rw [ByteArray.append_assoc, ← ha]
  exact (number_append_right a _ 0).trans ((number_append_left (Nat.le_refl 4)).trans (number_word hn))

variable {pixels labels : ByteArray}

theorem size_encodePair (rows cols : Nat) (pixels labels : ByteArray) :
    (encodePair rows cols pixels labels).1.size = 16 + pixels.size := by
  rw [encodePair, ByteArray.size_append]
  rfl

theorem encodePair_imageFile (hrows : 0 < rows) (hcols : 0 < cols) (hr : rows < Nat.pow 2 32) (hc : cols < Nat.pow 2 32)
    (hl : labels.size < Nat.pow 2 32) (hp : pixels.size = labels.size * (rows * cols)) :
    ImageFile (encodePair rows cols pixels labels).1 ∧ number (encodePair rows cols pixels labels).1 4 = labels.size ∧
      number (encodePair rows cols pixels labels).1 8 = rows ∧ number (encodePair rows cols pixels labels).1 12 = cols ∧
      ∀ j, byteAt (encodePair rows cols pixels labels).1 (16 + j) = byteAt pixels j := by
  have hfile : (encodePair rows cols pixels labels).1 =
    ⟨#[0, 0, 8, 3]⟩ ++ (word labels.size ++ (word rows ++ (word cols ++ pixels))) := by
    simp only [encodePair, ByteArray.append_assoc]
  have hcount : number (encodePair rows cols pixels labels).1 4 = labels.size := by
    rw [hfile, ← ByteArray.append_assoc]
    exact number_field rfl hl
  have hheight : number (encodePair rows cols pixels labels).1 8 = rows := by
    rw [hfile, ← ByteArray.append_assoc, ← ByteArray.append_assoc]
    exact number_field rfl hr
  have hwidth : number (encodePair rows cols pixels labels).1 12 = cols := number_field rfl hc
  have harea : area (encodePair rows cols pixels labels).1 = rows * cols := by rw [area, hheight, hwidth]
  refine ⟨⟨⟨?_, ?_⟩, ?_, ?_⟩, hcount, hheight, hwidth, ?_⟩
  · rw [size_encodePair]
    exact Nat.le_add_right _ _
  · rw [hfile, byteAt_append_left (by decide), byteAt_append_left (by decide), byteAt_append_left (by decide),
      byteAt_append_left (by decide)]
    decide
  · rw [harea]
    exact Nat.mul_pos hrows hcols
  · rw [size_encodePair, hcount, harea, hp]
  · exact fun j => byteAt_append_right _ pixels j

theorem encodePair_labelFile (rows cols : Nat) (pixels : ByteArray) (hl : labels.size < Nat.pow 2 32) :
    LabelFile (encodePair rows cols pixels labels).2 ∧ number (encodePair rows cols pixels labels).2 4 = labels.size ∧
      ∀ j, byteAt (encodePair rows cols pixels labels).2 (8 + j) = byteAt labels j := by
  have hfile : (encodePair rows cols pixels labels).2 = ⟨#[0, 0, 8, 1]⟩ ++ (word labels.size ++ labels) := by
    simp only [encodePair, ByteArray.append_assoc]
  have hsize : (encodePair rows cols pixels labels).2.size = 8 + labels.size := by
    rw [encodePair, ByteArray.size_append]
    rfl
  have hcount : number (encodePair rows cols pixels labels).2 4 = labels.size := number_field rfl hl
  refine ⟨⟨⟨?_, ?_⟩, ?_⟩, hcount, ?_⟩
  · rw [hsize]
    exact Nat.le_add_right _ _
  · rw [hfile, byteAt_append_left (by decide), byteAt_append_left (by decide), byteAt_append_left (by decide),
      byteAt_append_left (by decide)]
    decide
  · rw [hsize, hcount]
  · exact fun j => byteAt_append_right _ labels j

theorem map_byteAt (b : ByteArray) : (List.range b.size).map (byteAt b) = b.data.toList.map UInt8.toNat := by
  refine List.ext_getElem ?_ fun i hi _ => ?_
  · rw [List.length_map, List.length_range, List.length_map]
    rfl
  · rw [List.length_map, List.length_range] at hi
    simp only [List.getElem_map, List.getElem_range, byteAt_eq hi, Array.getElem_toList]
    rfl

section Values

variable {α : Type} [Scalar α] {images : ByteArray}

theorem flatMap_rows {β : Type} (f : Nat → β) (count width : Nat) :
    ((List.range count).flatMap fun k => (List.range width).map fun i => f (k * width + i)) =
      (List.range (count * width)).map f := by
  induction count with
  | zero => simp
  | succ count ih =>
      rw [List.range_succ, List.flatMap_append, ih, Nat.succ_mul, List.range_add, List.map_append, List.map_map]
      simp [Function.comp_def]

theorem toList_ofFn_val {β : Type} (f : Nat → β) (n : Nat) :
    (Array.ofFn fun i : Fin n => f i).toList = (List.range n).map f := by
  refine List.ext_getElem (by simp) fun i hi hi' => ?_
  simp

theorem values_dataset (images labels : ByteArray) (n : Nat) : (dataset images labels n : Dataset α).values =
    (List.range (number images 4 * area images)).map fun i => ((byteAt images (16 + i) : Nat) : α) := by
  have himage : ∀ k, (image images k : Tensor α).data.toList =
      (List.range (area images)).map fun i => ((byteAt images (16 + (k * area images + i)) : Nat) : α) := by
    intro k
    simp only [image, Nat.add_assoc]
    exact toList_ofFn_val (fun i => ((byteAt images (16 + (k * area images + i)) : Nat) : α)) _
  rw [Dataset.values, dataset, List.flatMap_map]
  simp only [himage]
  exact flatMap_rows (fun i => ((byteAt images (16 + i) : Nat) : α)) _ _

theorem parsePair_encoded (hrows : 0 < rows) (hcols : 0 < cols) (hr : rows < Nat.pow 2 32) (hc : cols < Nat.pow 2 32)
    (hl : labels.size < Nat.pow 2 32) (hp : pixels.size = labels.size * (rows * cols))
    (hfits : (encodePair rows cols pixels labels).1.size < Nat.pow 2 64) (hn : 2 ≤ n)
    (hclasses : ∀ c ∈ labels.data, c.toNat < n) : ∃ d : Dataset α,
      parsePair (encodePair rows cols pixels labels).1 (encodePair rows cols pixels labels).2 n = .ok d ∧
      d.shape = ⟨rows, cols, 1⟩ ∧ d.numClasses = n ∧ d.classNames = none ∧ d.images.size = labels.size ∧
      (∀ x ∈ d.images, x.shape = d.shape ∧ x.Sized) ∧ d.labels = labels.data.map UInt8.toNat ∧
      d.values = pixels.data.toList.map fun p => ((p.toNat : Nat) : α) := by
  obtain ⟨hi, hcount, hheight, hwidth, hpixels⟩ := encodePair_imageFile hrows hcols hr hc hl hp
  obtain ⟨hlf, hcount', hbytes⟩ := encodePair_labelFile rows cols pixels hl
  have hpair : Paired (encodePair rows cols pixels labels).1 (encodePair rows cols pixels labels).2 n := by
    refine ⟨hi, hlf, hcount.trans hcount'.symm, hn, fun k hk => ?_⟩
    rw [hcount'] at hk
    rw [hbytes, byteAt_eq hk]
    exact hclasses _ (Array.getElem_mem hk)
  rcases parsePair_cases (α := α) (encodePair rows cols pixels labels).1 (encodePair rows cols pixels labels).2 n with
    ⟨-, hparse⟩ | ⟨hlong, -⟩
  swap
  · exact absurd (hlong hpair) (Nat.not_le.mpr hfits)
  refine ⟨_, hparse, ?_, rfl, rfl, ?_, ?_, ?_, ?_⟩
  · rw [dataset, hheight, hwidth]
  · simp [dataset, hcount]
  · simp only [dataset, List.mem_toArray, List.forall_mem_map]
    exact fun k _ => ⟨rfl, image_sized k⟩
  · have hlabels : ((List.range labels.size).map fun k => byteAt labels k) = labels.data.toList.map UInt8.toNat :=
      map_byteAt labels
    simp only [dataset, hcount', hbytes]
    rw [hlabels, ← Array.toList_map, Array.toArray_toList]
  · have hvalues := congrArg (List.map fun k : Nat => ((k : Nat) : α)) (map_byteAt pixels)
    rw [List.map_map, List.map_map] at hvalues
    rw [values_dataset, hcount, area, hheight, hwidth, ← hp]
    simp only [hpixels]
    exact hvalues

end Values

def pixelBytes (d : Dataset Float) : ByteArray := ⟨(d.values.map Float.toUInt8).toArray⟩

def labelBytes (d : Dataset Float) : ByteArray := ⟨d.labels.map UInt8.ofNat⟩

theorem toUInt8_ofNat : ∀ k < 256, ((k : Nat) : Float).toUInt8 = UInt8.ofNat k := by
  have hbytes : ∀ k : Fin 256, ((k.val : Nat) : Float).toUInt8 = UInt8.ofNat k.val := by decide +kernel
  exact fun k hk => hbytes ⟨k, hk⟩

theorem pixelBytes_dataset {images : ByteArray} (h : ImageFile images) (labels : ByteArray) (n : Nat) :
    pixelBytes (dataset images labels n) = images.extract 16 (16 + number images 4 * area images) := by
  have hbyte : ∀ i, ((byteAt images (16 + i) : Nat) : Float).toUInt8 = UInt8.ofNat (byteAt images (16 + i)) :=
    fun i => toUInt8_ofNat _ (byteAt_lt _ _)
  rw [extract_eq_range h.room, pixelBytes, values_dataset, List.map_map]
  simp only [Function.comp_def, hbyte]

theorem labelBytes_dataset (h : LabelFile labels) (images : ByteArray) (n : Nat) :
    labelBytes (dataset images labels n) = labels.extract 8 (8 + number labels 4) := by
  rw [extract_eq_range h.room, labelBytes, dataset, List.map_toArray, List.map_map]
  rfl

theorem extract_mark (dimensions : UInt8) {length : Nat} (h : Marked b dimensions.toNat length)
    (hlength : 4 ≤ length) : b.extract 0 4 = ⟨#[0, 0, 8, dimensions]⟩ := by
  obtain ⟨h₀, h₁, h₂, h₃⟩ := h.mark
  have hfour := extract_four (i := 0) (hlength.trans h.long)
  rw [h₀, h₁, h₂, h₃, UInt8.ofNat_toNat] at hfour
  exact hfour

theorem extract_append {i j k : Nat} (hij : i ≤ j) (hjk : j ≤ k) : b.extract i j ++ b.extract j k = b.extract i k :=
  (ByteArray.extract_eq_extract_append_extract j hij hjk).symm

/-- A file written and read is the file, and a dataset read and written is its files as far as they were looked at. -/
theorem encodePair_inverse :
    (∀ (rows cols n : Nat) (pixels labels : ByteArray), 1 ≤ rows → 1 ≤ cols → rows < Nat.pow 2 32 →
      cols < Nat.pow 2 32 → labels.size < Nat.pow 2 32 → pixels.size = labels.size * (rows * cols) →
      (encodePair rows cols pixels labels).1.size < Nat.pow 2 64 → 2 ≤ n → (∀ c ∈ labels.data, c.toNat < n) →
      ∃ d : Dataset Float,
        parsePair (encodePair rows cols pixels labels).1 (encodePair rows cols pixels labels).2 n = .ok d ∧
        d.shape = ⟨rows, cols, 1⟩ ∧ d.numClasses = n ∧ d.classNames = none ∧ d.images.size = labels.size ∧
        (∀ x ∈ d.images, x.shape = d.shape ∧ x.Sized) ∧ d.labels = labels.data.map UInt8.toNat ∧
        d.values = pixels.data.toList.map fun p => ((p.toNat : Nat) : Float)) ∧
    ∀ (images labels : ByteArray) (n : Nat) (d : Dataset Float), parsePair images labels n = .ok d →
      encodePair d.shape.height d.shape.width (pixelBytes d) (labelBytes d) =
        (images.extract 0 (16 + number images 4 * (number images 8 * number images 12)),
          labels.extract 0 (8 + number images 4)) := by
  refine ⟨fun rows cols n pixels labels hrows hcols hr hc hl hp hfits hn hclasses =>
    parsePair_encoded hrows hcols hr hc hl hp hfits hn hclasses, fun images labels n d h => ?_⟩
  rcases parsePair_cases (α := Float) images labels n with ⟨hpair, hparse⟩ | ⟨-, cause, hparse⟩
  swap
  · rw [hparse] at h
    cases h
  obtain rfl := Except.ok.inj (hparse.symm.trans h)
  have hi := hpair.imageFile
  have hl := hpair.labelFile
  have hlong := hi.long
  have hlong' := hl.long
  have hcount : (labelBytes (dataset images labels n)).size = number labels 4 := by
    rw [labelBytes_dataset hl, ByteArray.size_extract, Nat.min_eq_left hl.room, Nat.add_sub_cancel_left]
  have hshape : (dataset images labels n : Dataset Float).shape = ⟨number images 8, number images 12, 1⟩ := rfl
  rw [encodePair, hcount, hshape, pixelBytes_dataset hi, labelBytes_dataset hl]
  refine Prod.ext ?_ ?_
  · dsimp only
    rw [← hpair.count, word_number (by omega), word_number (by omega), word_number (by omega),
      ← extract_mark 3 hi.toMarked (by decide), extract_append (by decide) (by decide),
      extract_append (by decide) (by decide), extract_append (by decide) (by decide),
      extract_append (by decide) (Nat.le_add_right _ _)]
    rfl
  · dsimp only
    rw [word_number (by omega), ← extract_mark 1 hl.toMarked (by decide), extract_append (by decide) (by decide),
      extract_append (by decide) (Nat.le_add_right _ _), hpair.count]

theorem encodePair_inverse_twoPixels : ∃ d : Dataset Float,
    parsePair (encodePair 1 2 ⟨#[7, 9]⟩ ⟨#[1]⟩).1 (encodePair 1 2 ⟨#[7, 9]⟩ ⟨#[1]⟩).2 2 = .ok d ∧
    d.values = [((7 : Nat) : Float), ((9 : Nat) : Float)] ∧
    encodePair d.shape.height d.shape.width (pixelBytes d) (labelBytes d) = encodePair 1 2 ⟨#[7, 9]⟩ ⟨#[1]⟩ := by
  obtain ⟨d, hd, -, -, -, -, -, -, hvalues⟩ := encodePair_inverse.1 1 2 2 ⟨#[7, 9]⟩ ⟨#[1]⟩ (by decide) (by decide)
    (by decide) (by decide) (by decide) (by decide) (by decide) (by decide) (by simp)
  exact ⟨d, hd, hvalues, (encodePair_inverse.2 _ _ _ d hd).trans (by decide)⟩

end Idx

end Convnet
