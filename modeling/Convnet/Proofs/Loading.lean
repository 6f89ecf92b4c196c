import Convnet.Dataset.Benchmark
import Convnet.Dataset.Scaling
import Convnet.Proofs.Encoding
import Convnet.Proofs.Files

namespace Convnet

variable {α : Type} [Scalar α]

/-- A filled image whose pixels are bytes. -/
structure Tensor.Raw (x : Tensor α) : Prop where
  sized : x.Sized
  bytes : ∀ v ∈ x.data, ∃ n : Nat, n < 256 ∧ v = (n : α)

structure Dataset.Raw (d : Dataset α) : Prop where
  whole : d.Whole
  images : ∀ x ∈ d.images, x.Raw

theorem Dataset.raw_of_build {shape : Shape} {images : Array (Tensor α)} {labels : Array Nat} {n : Nat}
    {d : Dataset α} (hi : ∀ x ∈ images, x.Raw) (h : build shape images labels n = .ok d) : d.Raw := by
  refine ⟨whole_of_build (fun x hx => (hi x hx).sized) h, ?_⟩
  obtain ⟨-, -, -, -, rfl⟩ := build_eq_ok.mp h
  exact hi

theorem Dataset.Raw.withClassNames {d : Dataset α} (h : d.Raw) (names : List String) : (d.withClassNames names).Raw :=
  ⟨⟨h.whole.labels, h.whole.images, h.whole.classes, h.whole.several⟩, h.images⟩

namespace Idx

theorem image_raw (b : ByteArray) (k : Nat) : (image b k : Tensor α).Raw where
  sized := image_sized k
  bytes v hv := by
    obtain ⟨i, rfl⟩ := Array.mem_ofFn.mp hv
    exact ⟨_, byteAt_lt _ _, rfl⟩

theorem loadPair_raw {d : Disk} {imagePath labelPath : String} {n : Nat} {data : Dataset α}
    (h : loadPair d imagePath labelPath n = .ok data) : data.Raw ∧ data.numClasses = n := by
  obtain ⟨images, -, h⟩ := bind_eq_ok.mp h
  obtain ⟨labels, -, h⟩ := bind_eq_ok.mp h
  rcases parsePair_cases (α := α) images labels n with ⟨hpair, hparse⟩ | ⟨-, cause, hparse⟩
  · obtain rfl := Except.ok.inj (hparse.symm.trans h)
    refine ⟨⟨⟨?_, ?_, ?_, hpair.several⟩, ?_⟩, rfl⟩
    · simp [dataset, hpair.count]
    · simp only [dataset, List.mem_toArray, List.forall_mem_map]
      exact fun k _ => ⟨rfl, (image_raw images k).sized⟩
    · simpa [dataset] using hpair.classes
    · simp only [dataset, List.mem_toArray, List.forall_mem_map]
      exact fun k _ => image_raw images k
  · rw [hparse] at h
    cases h

section Blank

def blankImage (shape : Shape) : Tensor α := ⟨shape, Array.replicate shape.size ((0 : Nat) : α)⟩

theorem parsePair_blank {n : Nat} (hn : n < 256) : ∃ images labels : ByteArray, parsePair images labels 10 =
    .ok (⟨⟨28, 28, 1⟩, Array.replicate n (blankImage ⟨28, 28, 1⟩), Array.replicate n 0, 10, none⟩ : Dataset α) := by
  obtain ⟨pixels, hpixels⟩ : ∃ b : ByteArray, b.data = Array.replicate (n * (28 * 28)) 0 := ⟨⟨_⟩, rfl⟩
  obtain ⟨labels, hlabels⟩ : ∃ b : ByteArray, b.data = Array.replicate n 0 := ⟨⟨_⟩, rfl⟩
  have hsize : pixels.size = n * (28 * 28) := by
    rw [← ByteArray.size_data, hpixels, Array.size_replicate]
  have hsize' : labels.size = n := by
    rw [← ByteArray.size_data, hlabels, Array.size_replicate]
  have hcounted : pixels.size = labels.size * (28 * 28) := by rw [hsize, hsize']
  have hfits : (encodePair 28 28 pixels labels).1.size < Nat.pow 2 64 := by
    have hlimit : 16 + 256 * (28 * 28) < Nat.pow 2 64 := by decide
    rw [size_encodePair]
    omega
  have hshort : labels.size < Nat.pow 2 32 := by
    have hlimit : 256 < Nat.pow 2 32 := by decide
    omega
  obtain ⟨⟨shape, images, classes, numClasses, names⟩, hparse, rfl, rfl, rfl, hcount, himages, rfl, hvalues⟩ :=
    parsePair_encoded (α := α) (n := 10) (by decide) (by decide) (by decide) (by decide) hshort hcounted hfits
      (by decide) (by simp [hlabels])
  have hblank : images = Array.replicate n (blankImage ⟨28, 28, 1⟩) := by
    refine Array.eq_replicate_iff.mpr ⟨hcount.trans hsize', fun x hx => ?_⟩
    obtain ⟨hshape, hsized⟩ := himages x hx
    have hzero : ∀ v ∈ x.data, v = ((0 : Nat) : α) := by
      intro v hv
      have hmem : v ∈ pixels.data.toList.map fun p => ((p.toNat : Nat) : α) :=
        hvalues ▸ List.mem_flatMap_of_mem (Array.mem_toList_iff.mpr hx) (Array.mem_toList_iff.mpr hv)
      rw [hpixels, Array.toList_replicate, List.map_replicate] at hmem
      exact List.eq_of_mem_replicate hmem
    obtain ⟨shape, data⟩ := x
    obtain rfl : shape = ⟨28, 28, 1⟩ := hshape
    exact congrArg _ (Array.eq_replicate_iff.mpr ⟨hsized, hzero⟩)
  rw [hblank, hlabels, Array.map_replicate] at hparse
  exact ⟨_, _, hparse⟩

end Blank

end Idx

namespace Cifar

theorem imageAt_raw (b : ByteArray) (start : Nat) : (imageAt b start : Tensor α).Raw := by
  unfold imageAt
  -- the number of pixels is not to be counted out
  generalize shape = s
  refine ⟨Array.size_ofFn, fun v hv => ?_⟩
  obtain ⟨i, rfl⟩ := Array.mem_ofFn.mp hv
  exact ⟨_, Idx.byteAt_lt _ _, rfl⟩

theorem parseBatch_raw {b : ByteArray} {images : Array (Tensor α)} {labels : Array Nat}
    (h : parseBatch b = .ok (images, labels)) : ∀ x ∈ images, x.Raw := by
  unfold parseBatch at h
  split at h
  · cases h
  obtain ⟨⟩ := pure_eq_ok_iff.mp h
  intro x hx
  obtain ⟨k, rfl⟩ := Array.mem_ofFn.mp hx
  exact imageAt_raw b _

def append (d : Disk) (read : Array (Tensor α) × Array Nat) (path : String) : Result (Array (Tensor α) × Array Nat) := do
  let bytes ← d.read path
  let (images, labels) ← parseBatch bytes
  return (read.1 ++ images, read.2 ++ labels)

theorem foldlM_append_raw {d : Disk} {paths : List String} {read read' : Array (Tensor α) × Array Nat}
    (hr : ∀ x ∈ read.1, x.Raw) (h : paths.foldlM (append d) read = .ok read') : ∀ x ∈ read'.1, x.Raw := by
  induction paths generalizing read with
  | nil =>
      obtain ⟨⟩ := pure_eq_ok_iff.mp h
      exact hr
  | cons path paths ih =>
      rw [List.foldlM_cons] at h
      obtain ⟨next, hnext, h⟩ := bind_eq_ok.mp h
      obtain ⟨bytes, -, hnext⟩ := bind_eq_ok.mp hnext
      obtain ⟨⟨images, labels⟩, hp, hnext⟩ := bind_eq_ok.mp hnext
      obtain ⟨⟩ := pure_eq_ok_iff.mp hnext
      have hraw := parseBatch_raw hp
      exact ih (fun x hx => (Array.mem_append.mp hx).elim (hr x) (hraw x)) h

theorem load_raw {d : Disk} {paths : List String} {data : Dataset α} (h : load d paths = .ok data) :
    data.Raw ∧ data.numClasses = classNames.length := by
  obtain ⟨⟨images, labels⟩, hf, h⟩ := bind_eq_ok.mp h
  obtain ⟨built, hb, h⟩ := bind_eq_ok.mp h
  obtain ⟨⟩ := pure_eq_ok_iff.mp h
  have hfold : paths.foldlM (append d) ((#[] : Array (Tensor α)), #[]) = .ok (images, labels) := hf
  refine ⟨(Dataset.raw_of_build (foldlM_append_raw (by simp) hfold) hb).withClassNames _, ?_⟩
  obtain ⟨-, -, -, -, rfl⟩ := Dataset.build_eq_ok.mp hb
  rfl

end Cifar

namespace Benchmark

variable {k : Benchmark} {d d' : Disk} {directory : String} {part : Split}

theorem loadSplit_raw {data : Dataset α} (h : k.loadSplit d directory part = .ok data) :
    data.Raw ∧ data.shape = k.inputShape ∧ data.numClasses = k.numClasses ∧ data.classNames = some k.classNames := by
  obtain ⟨paths, -, h⟩ := bind_eq_ok.mp h
  obtain ⟨read, hr, h⟩ := bind_eq_ok.mp h
  dsimp only at h
  split at h
  · cases h
  have hshape : read.shape = k.inputShape := by
    by_contra hne
    contradiction
  obtain ⟨⟩ := pure_eq_ok_iff.mp h
  have hread : read.Raw ∧ read.numClasses = k.numClasses := by
    cases k with
    | cifar10 => exact Cifar.load_raw hr
    | mnist | fashionMnist =>
        unfold loadFiles at hr
        split at hr
        · contradiction
        · exact Idx.loadPair_raw hr
        · cases hr
  exact ⟨hread.1.withClassNames _, hshape, hread.2, rfl⟩

theorem find_congr {names : List String}
    (h : ∀ path ∈ names.map (Disk.join directory), Disk.Alike d' d path) :
    find d' directory names = find d directory names := by
  have hfiles : (names.map (Disk.join directory)).find? d'.isFile = (names.map (Disk.join directory)).find? d.isFile :=
    List.find?_congr fun path hp => (h path hp).isFile
  rw [find, find, hfiles]

theorem mem_of_find {names : List String} {path : String} (h : find d directory names = .ok path) :
    path ∈ names.map (Disk.join directory) := by
  unfold find at h
  split at h
  · rw [← Except.ok.inj h]
    exact List.mem_of_find?_eq_some ‹_›
  · cases h

theorem loadFiles_congr {paths : List String} (h : ∀ path ∈ paths, Disk.Alike d' d path) :
    (k.loadFiles d' paths : Result (Dataset α)) = k.loadFiles d paths := by
  have hread : ∀ path ∈ paths, d'.read path = d.read path := fun path hp => (h path hp).read
  unfold loadFiles
  split
  · have happend : ∀ path ∈ paths, ∀ read : Array (Tensor α) × Array Nat,
        Cifar.append d' read path = Cifar.append d read path := by
      intro path hp read
      rw [Cifar.append, Cifar.append, hread path hp]
    exact congrArg (· >>= _) (foldlM_congr happend ((#[] : Array (Tensor α)), #[]))
  · rw [Idx.loadPair, Idx.loadPair, hread _ (by simp), hread _ (by simp)]
  · rfl

/-- Reading one part of a dataset looks at its files only. -/
theorem loadSplit_congr (h : ∀ path ∈ k.places directory part, Disk.Alike d' d path) :
    (k.loadSplit d' directory part : Result (Dataset α)) = k.loadSplit d directory part := by
  have hplaces : ∀ names ∈ k.fileNames part, ∀ path ∈ names.map (Disk.join directory), Disk.Alike d' d path := by
    intro names hn path hp
    obtain ⟨name, hname, rfl⟩ := List.mem_map.mp hp
    exact h _ (List.mem_map_of_mem (List.mem_flatten_of_mem hn hname))
  have hfind : (k.fileNames part).mapM (find d' directory) = (k.fileNames part).mapM (find d directory) :=
    mapM_congr fun names hn => find_congr (hplaces names hn)
  rw [loadSplit, loadSplit, hfind]
  cases hp : (k.fileNames part).mapM (find d directory) with
  | error e => rfl
  | ok paths =>
      rw [ok_bind, ok_bind, loadFiles_congr]
      intro path hpath
      obtain ⟨i, hi⟩ := List.getElem?_of_mem hpath
      obtain ⟨names, hn, hone⟩ := mapM_getElem? hp hi
      exact hplaces names (List.mem_of_getElem? hn) path (mem_of_find hone)

theorem load_eq_ok {train test : Dataset α} : k.load d directory = .ok (train, test) ↔
    k.loadSplit d directory .train = .ok train ∧ k.loadSplit d directory .test = .ok test := by
  rw [load, bind_eq_ok]
  constructor
  · rintro ⟨train', htrain, hrest⟩
    obtain ⟨test', htest, hdata⟩ := bind_eq_ok.mp hrest
    obtain ⟨⟩ := pure_eq_ok_iff.mp hdata
    exact ⟨htrain, htest⟩
  · rintro ⟨htrain, htest⟩
    exact ⟨train, htrain, bind_eq_ok.mpr ⟨test, htest, rfl⟩⟩

theorem find_of_locate {name : String} {names : List String} {bytes : ByteArray}
    (h : d.locate (Disk.join directory name) = .file bytes) :
    find d directory (name :: names) = .ok (Disk.join directory name) := by
  have hfile : d.isFile (Disk.join directory name) = true := by rw [Disk.isFile, h]
  rw [find, List.map_cons, List.find?_cons_of_pos hfile]

theorem loadSplit_of_pair (k : Benchmark) (part : Split) {images labels : String} {others others' : List String}
    {pixels classes : ByteArray} {data : Dataset α} (hk : k ≠ .cifar10)
    (hnames : k.fileNames part = [images :: others, labels :: others'])
    (hi : d.locate (Disk.join directory images) = .file pixels)
    (hl : d.locate (Disk.join directory labels) = .file classes)
    (hpair : Idx.parsePair pixels classes k.numClasses = .ok data) (hshape : data.shape = k.inputShape) :
    k.loadSplit d directory part = .ok (data.withClassNames k.classNames) := by
  have hread : d.read (Disk.join directory images) = .ok pixels := by rw [Disk.read, hi]
  have hread' : d.read (Disk.join directory labels) = .ok classes := by rw [Disk.read, hl]
  have hpaths : (k.fileNames part).mapM (find d directory) =
      .ok [Disk.join directory images, Disk.join directory labels] := by
    rw [hnames, List.mapM_cons, find_of_locate hi, ok_bind, List.mapM_cons, find_of_locate hl, ok_bind]
    rfl
  have hfiles : k.loadFiles d [Disk.join directory images, Disk.join directory labels] = .ok data := by
    cases k with
    | cifar10 => exact absurd rfl hk
    | mnist | fashionMnist =>
        simp only [loadFiles, Idx.loadPair, hread, hread', ok_bind]
        exact hpair
  rw [loadSplit, hpaths, ok_bind, hfiles, ok_bind]
  dsimp only
  rw [if_neg (not_not.mpr hshape)]
  rfl

section Disks

variable {pixels classes : ByteArray} {data : Dataset α}

def diskOf (pixels classes : ByteArray) : Disk where
  entries := [(["train-images-idx3-ubyte"], .file pixels), (["train-labels-idx1-ubyte"], .file classes),
    (["t10k-images-idx3-ubyte"], .file pixels), (["t10k-labels-idx1-ubyte"], .file classes)]
  workingDirectory := []

theorem locate_diskOf (name : String) {bytes : ByteArray} (hname : Disk.Plain name)
    (h : (diskOf pixels classes).entries.lookup [name] = some (.file bytes)) :
    (diskOf pixels classes).locate (Disk.join "" name) = .file bytes := by
  have hjoin : Disk.join "" name = name := by simp [Disk.join]
  have hentry : Disk.entry? (diskOf pixels classes) ((diskOf pixels classes).workingDirectory ++ [name]) =
      some (.file bytes) := h
  rw [hjoin, Disk.locate_plain _ hname, hentry]

theorem load_diskOf (hpair : Idx.parsePair pixels classes 10 = .ok data) (hshape : data.shape = ⟨28, 28, 1⟩) :
    mnist.load (diskOf pixels classes) "" =
      .ok (data.withClassNames mnist.classNames, data.withClassNames mnist.classNames) := by
  have htrain := loadSplit_of_pair .mnist .train (by decide) rfl
    (locate_diskOf "train-images-idx3-ubyte" (by decide) rfl)
    (locate_diskOf "train-labels-idx1-ubyte" (by decide) rfl) hpair hshape
  have htest := loadSplit_of_pair .mnist .test (by decide) rfl
    (locate_diskOf "t10k-images-idx3-ubyte" (by decide) rfl)
    (locate_diskOf "t10k-labels-idx1-ubyte" (by decide) rfl) hpair hshape
  exact load_eq_ok.mpr ⟨htrain, htest⟩

def blank (n : Nat) : Dataset α :=
  ⟨⟨28, 28, 1⟩, Array.replicate n (Idx.blankImage ⟨28, 28, 1⟩), Array.replicate n 0, 10, some mnist.classNames⟩

theorem load_blank {n : Nat} (hn : n < 256) :
    ∃ pixels classes, mnist.load (diskOf pixels classes) "" = .ok ((blank n : Dataset α), blank n) := by
  obtain ⟨pixels, classes, hpair⟩ := Idx.parsePair_blank (α := α) hn
  exact ⟨pixels, classes, load_diskOf hpair rfl⟩

end Disks

end Benchmark

end Convnet
