import Convnet.Proofs.Loading

namespace Convnet.Cifar

/-- Where a byte of a batch is kept: as the label of a record, or in a channel of a pixel of its image. -/
inductive Slot
  | label (k : Nat)
  | channel (k y x c : Nat)

namespace Slot

def Within (n : Nat) : Slot → Prop
  | label k => k < n
  | channel k y x c => k < n ∧ y < 32 ∧ x < 32 ∧ c < 3

def byte : Slot → Nat
  | label k => 3073 * k
  | channel k y x c => 3073 * k + 1 + 1024 * c + 32 * y + x

variable {n i : Nat}

theorem byte_lt {s : Slot} (h : s.Within n) : s.byte < 3073 * n := by
  cases s with
  | label k =>
      simp only [Within, byte] at *
      omega
  | channel k y x c =>
      simp only [Within, byte] at *
      omega

/-- The slot of a byte: the planes of a record follow one another, and so do the rows of each. -/
def ofByte (i : Nat) : Slot :=
  if i % 3073 = 0 then label (i / 3073)
  else channel (i / 3073) ((i % 3073 - 1) % 1024 / 32) ((i % 3073 - 1) % 32) ((i % 3073 - 1) / 1024)

theorem ofByte_byte {s : Slot} (h : s.Within n) : ofByte s.byte = s := by
  cases s with
  | label k =>
      rw [byte, ofByte, if_pos (by omega), label.injEq]
      omega
  | channel k y x c =>
      obtain ⟨-, hy, hx, hc⟩ := h
      have hrest : (3073 * k + 1 + 1024 * c + 32 * y + x) % 3073 - 1 = 1024 * c + 32 * y + x := by omega
      rw [byte, ofByte, hrest, if_neg (by omega), channel.injEq]
      omega

theorem within_ofByte (h : i < 3073 * n) : (ofByte i).Within n := by
  by_cases hi : i % 3073 = 0
  · rw [ofByte, if_pos hi]
    exact Nat.div_lt_of_lt_mul h
  · rw [ofByte, if_neg hi]
    exact ⟨Nat.div_lt_of_lt_mul h, by omega, by omega, by omega⟩

theorem byte_ofByte (i : Nat) : (ofByte i).byte = i := by
  by_cases hi : i % 3073 = 0
  · rw [ofByte, if_pos hi, byte]
    omega
  · rw [ofByte, if_neg hi, byte]
    omega

theorem existsUnique_byte (h : i < 3073 * n) : ∃! s : Slot, s.Within n ∧ s.byte = i := by
  refine ⟨ofByte i, ⟨within_ofByte h, byte_ofByte i⟩, ?_⟩
  rintro s ⟨hs, rfl⟩
  exact (ofByte_byte hs).symm

end Slot

variable {α : Type} [Scalar α] {a b : ByteArray}

def Batch (b : ByteArray) : Prop := 0 < b.size ∧ record ∣ b.size

def imagesOf (b : ByteArray) : List (Tensor α) := (List.range (b.size / record)).map fun k => imageAt b (k * record)

def labelsOf (b : ByteArray) : List Nat := (List.range (b.size / record)).map fun k => Idx.byteAt b (k * record)

/-- What a batch is read as: of each record one label and one image, whose channels come from its planes. -/
structure Reads (b : ByteArray) (images : Array (Tensor α)) (labels : Array Nat) : Prop where
  images_size : 3073 * images.size = b.size
  labels_size : labels.size = images.size
  label : ∀ k < images.size, labels[k]? = some (Idx.byteAt b (3073 * k))
  image : ∀ k < images.size, ∃ t, images[k]? = some t ∧ t.shape = ⟨32, 32, 3⟩ ∧ t.Sized ∧
    ∀ y < 32, ∀ x < 32, ∀ c < 3,
      t.at? y x c = .ok ((Idx.byteAt b (3073 * k + 1 + 1024 * c + 32 * y + x) : Nat) : α)

/-- What the files of a dataset make, each of them read by itself. -/
structure Gathers (files : List ByteArray) (data : Dataset α) : Prop where
  shape : data.shape = ⟨32, 32, 3⟩
  numClasses : data.numClasses = 10
  classNames : data.classNames = some Cifar.classNames
  parts : ∃ parts, List.Forall₂ (fun b p => parseBatch b = .ok p) files parts ∧
    data.images.toList = parts.flatMap (fun p => p.1.toList) ∧ data.labels.toList = parts.flatMap fun p => p.2.toList

theorem parseBatch_of_batch (h : Batch b) :
    parseBatch b = .ok ((imagesOf b : List (Tensor α)).toArray, (labelsOf b).toArray) := by
  have hwhole : ¬ (b.size = 0 ∨ b.size % record ≠ 0) := by
    rintro (hzero | hrest)
    · exact h.1.ne' hzero
    · exact hrest (Nat.mod_eq_zero_of_dvd h.2)
  rw [parseBatch, if_neg hwhole]
  refine congrArg Except.ok (Prod.ext ?_ ?_) <;> apply Array.ext <;> simp [imagesOf, labelsOf]

theorem parseBatch_of_not_batch (h : ¬ Batch b) :
    parseBatch b (α := α) = .error (.dataset (.partialRecord b.size 3073)) := by
  have hpart : b.size = 0 ∨ b.size % record ≠ 0 := by
    by_contra hwhole
    push Not at hwhole
    exact h ⟨Nat.pos_of_ne_zero hwhole.1, Nat.dvd_of_mod_eq_zero hwhole.2⟩
  rw [parseBatch, if_pos hpart]
  rfl

theorem parseBatch_eq_ok {images : Array (Tensor α)} {labels : Array Nat} : parseBatch b = .ok (images, labels) ↔
    Batch b ∧ images = (imagesOf b).toArray ∧ labels = (labelsOf b).toArray := by
  by_cases h : Batch b
  · rw [parseBatch_of_batch h]
    simp [h, eq_comm]
  · rw [parseBatch_of_not_batch h]
    simp [h]

section Image

variable {start y x c : Nat}

theorem imageAt_at (hy : y < 32) (hx : x < 32) (hc : c < 3) : (imageAt b start : Tensor α).at? y x c =
    .ok ((Idx.byteAt b (start + 1 + 1024 * c + 32 * y + x) : Nat) : α) := by
  have hindex : (imageAt b start : Tensor α).index y x c = (y * 32 + x) * 3 + c := rfl
  have hplace : (y * 32 + x) * 3 + c < shape.size := by
    have hsize : shape.size = 3072 := rfl
    omega
  have hdata : (imageAt b start : Tensor α).data[(y * 32 + x) * 3 + c]? =
      some ((Idx.byteAt b (start + 1 + ((y * 32 + x) * 3 + c) % 3 * plane + ((y * 32 + x) * 3 + c) / 3) : Nat) : α) := by
    rw [imageAt, Array.getElem?_eq_getElem (by rwa [Array.size_ofFn]), Array.getElem_ofFn]
  have hbyte : start + 1 + ((y * 32 + x) * 3 + c) % 3 * plane + ((y * 32 + x) * 3 + c) / 3 =
      start + 1 + 1024 * c + 32 * y + x := by
    have hplane : plane = 1024 := rfl
    rw [hplane]
    omega
  rw [Tensor.at?, hindex, hdata, hbyte]

theorem imageAt_sized (b : ByteArray) (start : Nat) : (imageAt b start : Tensor α).Sized := (imageAt_raw b start).sized

end Image

theorem length_imagesOf (b : ByteArray) : (imagesOf b : List (Tensor α)).length = b.size / record := by
  simp [imagesOf]

theorem length_labelsOf (b : ByteArray) : (labelsOf b).length = b.size / record := by
  simp [labelsOf]

theorem reads_of_batch (h : Batch b) : Reads b (imagesOf b : List (Tensor α)).toArray (labelsOf b).toArray := by
  have hsize : (imagesOf b : List (Tensor α)).toArray.size = b.size / record := length_imagesOf b
  refine ⟨?_, ?_, fun k hk => ?_, fun k hk => ⟨imageAt b (k * record), ?_, rfl, imageAt_sized b _, ?_⟩⟩
  · rw [hsize]
    exact Nat.mul_div_cancel' h.2
  · rw [hsize]
    exact length_labelsOf b
  · rw [hsize] at hk
    rw [Nat.mul_comm]
    simp [labelsOf, hk]
    rfl
  · rw [hsize] at hk
    simp [imagesOf, hk]
  · intro y hy x hx c hc
    rw [imageAt_at hy hx hc, Nat.mul_comm]
    rfl

section Joined

theorem div_record_append (ha : record ∣ a.size) :
    (a ++ b).size / record = a.size / record + b.size / record := by
  rw [ByteArray.size_append, Nat.add_div_of_dvd_right ha]

theorem byteAt_append_records (ha : record ∣ a.size) (k i : Nat) :
    Idx.byteAt (a ++ b) ((a.size / record + k) * record + i) = Idx.byteAt b (k * record + i) := by
  have hplace : (a.size / record + k) * record + i = a.size + (k * record + i) := by
    rw [Nat.add_mul, Nat.div_mul_cancel ha, Nat.add_assoc]
  rw [hplace, Idx.byteAt_append_right]

theorem byteAt_append_front {k i : Nat} (ha : record ∣ a.size) (hk : k < a.size / record) (hi : i < record) :
    Idx.byteAt (a ++ b) (k * record + i) = Idx.byteAt a (k * record + i) := by
  apply Idx.byteAt_append_left
  have hend : (k + 1) * record ≤ a.size / record * record := Nat.mul_le_mul_right _ hk
  rw [Nat.div_mul_cancel ha, Nat.add_mul] at hend
  omega

theorem imageAt_congr {start start' : Nat} (h : ∀ i < record, Idx.byteAt a (start + i) = Idx.byteAt b (start' + i)) :
    (imageAt a start : Tensor α) = imageAt b start' := by
  have hpixel : ∀ i : Fin shape.size, Idx.byteAt a (start + 1 + i % 3 * plane + i / 3) =
      Idx.byteAt b (start' + 1 + i % 3 * plane + i / 3) := by
    intro i
    have hi : (i : Nat) < 3072 := i.isLt
    have hplane : plane = 1024 := rfl
    have hrecord : record = 3073 := rfl
    have hbyte := h (1 + i % 3 * plane + i / 3) (by rw [hplane, hrecord]; omega)
    simpa only [← Nat.add_assoc] using hbyte
  rw [imageAt, imageAt]
  exact congrArg _ (congrArg _ (funext fun i => by rw [hpixel i]))

theorem imagesOf_append (ha : record ∣ a.size) : (imagesOf (a ++ b) : List (Tensor α)) = imagesOf a ++ imagesOf b := by
  rw [imagesOf, div_record_append ha, List.range_add, List.map_append, List.map_map]
  refine congrArg₂ (· ++ ·) ?_ ?_
  · refine List.map_congr_left fun k hk => imageAt_congr fun i hi => ?_
    exact byteAt_append_front ha (List.mem_range.mp hk) hi
  · exact List.map_congr_left fun k _ => imageAt_congr fun i _ => byteAt_append_records ha k i

theorem labelsOf_append (ha : record ∣ a.size) : labelsOf (a ++ b) = labelsOf a ++ labelsOf b := by
  rw [labelsOf, div_record_append ha, List.range_add, List.map_append, List.map_map]
  refine congrArg₂ (· ++ ·) ?_ ?_
  · refine List.map_congr_left fun k hk => ?_
    have hlabel := byteAt_append_front (b := b) ha (List.mem_range.mp hk) (show 0 < record from Nat.succ_pos _)
    rwa [Nat.add_zero] at hlabel
  · refine List.map_congr_left fun k _ => ?_
    have hlabel := byteAt_append_records (b := b) ha k 0
    rwa [Nat.add_zero, Nat.add_zero] at hlabel

theorem Batch.append (ha : Batch a) (hb : Batch b) : Batch (a ++ b) := by
  rw [Batch, ByteArray.size_append]
  exact ⟨Nat.add_pos_left ha.1 _, Nat.dvd_add ha.2 hb.2⟩

def joined (files : List ByteArray) : ByteArray := files.foldr (· ++ ·) .empty

variable {files : List ByteArray}

theorem imagesOf_joined (h : ∀ b ∈ files, Batch b) :
    (imagesOf (joined files) : List (Tensor α)) = files.flatMap imagesOf := by
  induction files with
  | nil => rfl
  | cons b files ih =>
      rw [joined, List.foldr_cons, imagesOf_append (h b (by simp)).2, List.flatMap_cons]
      exact congrArg _ (ih fun c hc => h c (by simp [hc]))

theorem labelsOf_joined (h : ∀ b ∈ files, Batch b) : labelsOf (joined files) = files.flatMap labelsOf := by
  induction files with
  | nil => rfl
  | cons b files ih =>
      rw [joined, List.foldr_cons, labelsOf_append (h b (by simp)).2, List.flatMap_cons]
      exact congrArg _ (ih fun c hc => h c (by simp [hc]))

theorem batch_joined (hne : files ≠ []) (h : ∀ b ∈ files, Batch b) : Batch (joined files) := by
  induction files with
  | nil => exact absurd rfl hne
  | cons b files ih =>
      cases files with
      | nil => simpa [joined] using h b (by simp)
      | cons c files =>
          exact (h b (by simp)).append (ih (by simp) fun e he => h e (by simp [he]))

end Joined

section Files

variable {d : Disk} {paths : List String} {files : List ByteArray}

theorem foldlM_append (hfiles : List.Forall₂ (fun path b => d.read path = .ok b) paths files)
    (h : ∀ b ∈ files, Batch b) (read : Array (Tensor α) × Array Nat) :
    paths.foldlM (append d) read =
      .ok (read.1 ++ (files.flatMap imagesOf).toArray, read.2 ++ (files.flatMap labelsOf).toArray) := by
  induction hfiles generalizing read with
  | nil => simp
  | cons hread hfiles ih =>
      rw [List.foldlM_cons, append, hread, ok_bind, parseBatch_of_batch (h _ (by simp)), ok_bind]
      dsimp only
      rw [pure_eq_ok, ok_bind, ih fun b hb => h b (by simp [hb])]
      simp [Array.append_assoc]

theorem batch_of_foldlM_append (hfiles : List.Forall₂ (fun path b => d.read path = .ok b) paths files)
    {read read' : Array (Tensor α) × Array Nat} (h : paths.foldlM (append d) read = .ok read') :
    ∀ b ∈ files, Batch b := by
  induction hfiles generalizing read with
  | nil => simp
  | cons hread hfiles ih =>
      rw [List.foldlM_cons] at h
      obtain ⟨next, hnext, h⟩ := bind_eq_ok.mp h
      rw [append, hread, ok_bind] at hnext
      obtain ⟨⟨images, labels⟩, hparse, -⟩ := bind_eq_ok.mp hnext
      rintro b hb
      rcases List.mem_cons.mp hb with rfl | hb
      · exact (parseBatch_eq_ok.mp hparse).1
      · exact ih h b hb

theorem load_eq_ok (hfiles : List.Forall₂ (fun path b => d.read path = .ok b) paths files) {data : Dataset α} :
    load d paths = .ok data ↔ (∀ b ∈ files, Batch b) ∧ (∀ b ∈ files, ∀ c ∈ labelsOf b, c < 10) ∧
      data = ⟨shape, (files.flatMap imagesOf).toArray, (files.flatMap labelsOf).toArray, 10, some classNames⟩ := by
  have hload : load d paths (α := α) = (paths.foldlM (append d) (#[], #[]) >>= fun read =>
      Dataset.build shape read.1 read.2 10 >>= fun built => .ok (built.withClassNames classNames)) := rfl
  rw [hload, bind_eq_ok]
  constructor
  · rintro ⟨read, hread, hdata⟩
    have hall := batch_of_foldlM_append hfiles hread
    rw [foldlM_append hfiles hall, Array.empty_append, Array.empty_append] at hread
    obtain ⟨⟩ := hread
    obtain ⟨built, hbuilt, hdata⟩ := bind_eq_ok.mp hdata
    obtain ⟨⟩ := hdata
    obtain ⟨-, -, -, hlabels, rfl⟩ := Dataset.build_eq_ok.mp hbuilt
    refine ⟨hall, fun b hb c hc => hlabels c ?_, rfl⟩
    exact List.mem_toArray.mpr (List.mem_flatMap_of_mem hb hc)
  · rintro ⟨hall, hlabels, rfl⟩
    have hcount : (files.flatMap (imagesOf (α := α))).length = (files.flatMap labelsOf).length := by
      simp only [List.length_flatMap, length_imagesOf, length_labelsOf]
    have hread := foldlM_append (α := α) hfiles hall (#[], #[])
    rw [Array.empty_append, Array.empty_append] at hread
    refine ⟨_, hread, bind_eq_ok.mpr ⟨_, Dataset.build_eq_ok.mpr ⟨hcount, by decide, ?_, ?_, rfl⟩, rfl⟩⟩
    · rintro t ht
      obtain ⟨b, -, hb⟩ := List.mem_flatMap.mp (List.mem_toArray.mp ht)
      obtain ⟨k, -, rfl⟩ := List.mem_map.mp hb
      rfl
    · rintro c hc
      obtain ⟨b, hb, hc⟩ := List.mem_flatMap.mp (List.mem_toArray.mp hc)
      exact hlabels b hb c hc

/-- Batches are read record by record, each byte into a slot of its own, and a dataset is loaded from files as from
their bytes in a row. What is refused is no batch, or a label that no class has. -/
theorem batches_compose (hfiles : List.Forall₂ (fun path b => d.read path = .ok b) paths files) (a b : ByteArray) :
    ((∃ read : Array (Tensor α) × Array Nat, parseBatch b = .ok read) ↔ 0 < b.size ∧ 3073 ∣ b.size) ∧
    (∀ (images : Array (Tensor α)) labels, parseBatch b = .ok (images, labels) → Reads b images labels ∧
      (∀ i < b.size, ∃! s : Slot, s.Within images.size ∧ s.byte = i) ∧
      ∀ s : Slot, s.Within images.size → s.byte < b.size) ∧
    (∀ (images images' : Array (Tensor α)) labels labels', parseBatch a = .ok (images, labels) →
      parseBatch b = .ok (images', labels') → parseBatch (a ++ b) = .ok (images ++ images', labels ++ labels')) ∧
    ((∃ data : Dataset α, load d paths = .ok data) ↔ ∀ f ∈ files, ∃ (images : Array (Tensor α)) (labels : Array Nat),
      parseBatch f = .ok (images, labels) ∧ ∀ c ∈ labels, c < 10) ∧
    ∀ data : Dataset α, load d paths = .ok data → Gathers files data ∧
      (files ≠ [] → parseBatch (joined files) = .ok (data.images, data.labels)) := by
  refine ⟨?_, fun images labels h => ?_, fun images images' labels labels' ha hb => ?_, ?_, fun data h => ?_⟩
  · constructor
    · rintro ⟨⟨images, labels⟩, h⟩
      exact (parseBatch_eq_ok.mp h).1
    · exact fun h => ⟨_, parseBatch_of_batch h⟩
  · obtain ⟨hb, rfl, rfl⟩ := parseBatch_eq_ok.mp h
    have hreads := reads_of_batch (α := α) hb
    rw [← hreads.images_size]
    exact ⟨hreads, fun i hi => Slot.existsUnique_byte hi, fun s hs => Slot.byte_lt hs⟩
  · obtain ⟨hbatch, rfl, rfl⟩ := parseBatch_eq_ok.mp ha
    obtain ⟨hbatch', rfl, rfl⟩ := parseBatch_eq_ok.mp hb
    rw [parseBatch_of_batch (hbatch.append hbatch'), imagesOf_append hbatch.2, labelsOf_append hbatch.2, List.append_toArray,
      List.append_toArray]
  · constructor
    · rintro ⟨data, h⟩ f hf
      obtain ⟨hall, hlabels, -⟩ := (load_eq_ok hfiles).mp h
      exact ⟨_, _, parseBatch_of_batch (hall f hf), fun c hc => hlabels f hf c (List.mem_toArray.mp hc)⟩
    · intro h
      refine ⟨_, (load_eq_ok hfiles).mpr ⟨fun f hf => ?_, fun f hf c hc => ?_, rfl⟩⟩
      · obtain ⟨images, labels, hparse, -⟩ := h f hf
        exact (parseBatch_eq_ok.mp hparse).1
      · obtain ⟨images, labels, hparse, hlabels⟩ := h f hf
        obtain ⟨-, -, rfl⟩ := parseBatch_eq_ok.mp hparse
        exact hlabels c (List.mem_toArray.mpr hc)
  · obtain ⟨hall, -, rfl⟩ := (load_eq_ok hfiles).mp h
    refine ⟨⟨rfl, rfl, rfl, files.map fun f => ((imagesOf f).toArray, (labelsOf f).toArray), ?_, ?_, ?_⟩, fun hne => ?_⟩
    · rw [List.forall₂_map_right_iff, List.forall₂_same]
      exact fun f hf => parseBatch_of_batch (hall f hf)
    · rw [List.flatMap_map]
    · rw [List.flatMap_map]
    · rw [parseBatch_of_batch (batch_joined hne hall), imagesOf_joined hall, labelsOf_joined hall]

def plainRecord (v : UInt8) : ByteArray := ⟨Array.replicate 3073 v⟩

theorem size_plainRecord (v : UInt8) : (plainRecord v).size = 3073 := Array.size_replicate

theorem batch_plainRecord (v : UInt8) : Batch (plainRecord v) := by
  rw [Batch, size_plainRecord]
  decide

theorem labelsOf_plainRecord (v : UInt8) : labelsOf (plainRecord v) = [v.toNat] := by
  have hcount : List.range (3073 / record) = [0] := by decide
  have hbyte : Idx.byteAt (plainRecord v) (0 * record) = v.toNat := by
    rw [Nat.zero_mul, Idx.byteAt_eq (by rw [size_plainRecord]; decide), ByteArray.getElem_eq_getElem_data]
    exact congrArg UInt8.toNat (Array.getElem_replicate _)
  rw [labelsOf, size_plainRecord, hcount, List.map_singleton, hbyte]

theorem batches_compose_plain : ∃ d : Disk, d.read "a" = .ok (plainRecord 3) ∧ d.read "b" = .ok (plainRecord 7) ∧
    ∃ data : Dataset Float, load d ["a", "b"] = .ok data ∧ data.labels = #[3, 7] ∧ data.numClasses = 10 ∧
      parseBatch (plainRecord 3 ++ plainRecord 7) = .ok (data.images, data.labels) := by
  obtain ⟨d, ha, hb⟩ : ∃ d : Disk, d.read "a" = .ok (plainRecord 3) ∧ d.read "b" = .ok (plainRecord 7) := by
    refine ⟨⟨[(["a"], .file (plainRecord 3)), (["b"], .file (plainRecord 7))], []⟩, ?_, ?_⟩
    · rw [Disk.read, Disk.locate_plain _ (by decide)]
      rfl
    · rw [Disk.read, Disk.locate_plain _ (by decide)]
      rfl
  have hfiles : List.Forall₂ (fun path b => d.read path = .ok b) ["a", "b"] [plainRecord 3, plainRecord 7] :=
    .cons ha (.cons hb .nil)
  obtain ⟨-, -, -, hloads, hread⟩ := batches_compose (α := Float) hfiles .empty .empty
  obtain ⟨data, hdata⟩ : ∃ data : Dataset Float, load d ["a", "b"] = .ok data := by
    refine hloads.mpr fun f hf => ⟨_, _, parseBatch_of_batch ?_, ?_⟩
    · rcases List.mem_pair.mp hf with rfl | rfl <;> exact batch_plainRecord _
    · rcases List.mem_pair.mp hf with rfl | rfl <;> rw [labelsOf_plainRecord] <;> decide
  obtain ⟨hgathers, hjoined⟩ := hread data hdata
  have hrow : joined [plainRecord 3, plainRecord 7] = plainRecord 3 ++ plainRecord 7 := by
    simp only [joined, List.foldr_cons, List.foldr_nil, ByteArray.append_empty]
  rw [hrow] at hjoined
  have hlabels : data.labels = (labelsOf (plainRecord 3 ++ plainRecord 7)).toArray :=
    (parseBatch_eq_ok.mp (hjoined (by simp))).2.2
  rw [labelsOf_append (batch_plainRecord 3).2, labelsOf_plainRecord, labelsOf_plainRecord] at hlabels
  exact ⟨d, ha, hb, data, hdata, hlabels, hgathers.numClasses, hjoined (by simp)⟩

end Files

end Convnet.Cifar
