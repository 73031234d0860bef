import Yabloko.Disk.ReadFile
import Yabloko.Lib.Arr

-- An input file of `mkfs`.
structure File where
  path  : List UInt8
  bytes : List UInt8

namespace Mkfs

-- The rest of the string from the last occurrence of the character on.
def strrchr : List UInt8 → UInt8 → Option (List UInt8)
  | [], _      => none
  | x :: xs, c =>
    match strrchr xs c with
    | some s => some s
    | none   => if x = c then some (x :: xs) else none

def basename (path : List UInt8) : List UInt8 :=
  match strrchr path '/'.toUInt8 with
  | some (_ :: s) => s
  | _             => path

def strncpy (dst : CString) (src : List UInt8) (n : Nat) : CString :=
  fun i => if i < n then src.getD i 0 else dst i

-- The variables which are updated for each sector of a file.
structure Copy where
  sector       : List UInt8
  image        : List UInt8
  sectorOffset : Nat
  sizeBytes    : Nat

-- The loop over the sectors of a file, of which `fread` fills as much as is left of the file. Each
-- round takes a part of the file, so the bound on the rounds is not reached.
def copyFile : Nat → List UInt8 → Copy → Option Copy
  | 0, _, _ => none
  | fuel + 1, file, c =>
    let readSize := min sectorSize file.length
    if readSize ≠ 0 then
      let sector := file.take readSize ++ c.sector.drop readSize
      copyFile fuel (file.drop readSize) {
        sector
        image := c.image ++ sector
        sectorOffset := (c.sectorOffset + 1) % 2 ^ 32
        sizeBytes := (c.sizeBytes + readSize) % 2 ^ 32 }
    else
      some c

-- The variables of `main`.
structure Main where
  sector       : List UInt8
  entries      : Arr Dirent entsInDir
  image        : List UInt8
  sectorOffset : Nat

def addFile (st : Main) (i : Nat) (file : File) : Option Main := do
  let dirent ← st.entries.read i
  let c ← copyFile (file.bytes.length + 1) file.bytes ⟨st.sector, st.image, st.sectorOffset, 0⟩
  let entries ← st.entries.write i {
    offsetSectors := st.sectorOffset
    sizeBytes := c.sizeBytes
    name := strncpy (Function.update dirent.name 19 0) (basename file.path) 19 }
  return { sector := c.sector, entries, image := c.image, sectorOffset := c.sectorOffset }

def addFiles (st : Main) (i : Nat) : List File → Option Main
  | []            => some st
  | file :: files => do
    let st ← addFile st i file
    addFiles st (i + 1) files

def emptyDirent : Dirent where
  offsetSectors := 0
  sizeBytes := 0
  name _ := 0

-- The layout of an entry and of the directory.
def direntByte (e : Dirent) (i : Nat) : UInt8 :=
  if i < 4 then .ofNat (e.offsetSectors / 2 ^ (8 * i))
  else if i < 8 then .ofNat (e.sizeBytes / 2 ^ (8 * (i - 4)))
  else if i < 12 then 0
  else e.name (i - 12)

def dirBytes (entries : Arr Dirent entsInDir) : List UInt8 :=
  (List.range sectorSize).map fun i : Nat =>
    match entries.read ((i : Int) / 32 - 1) with
    | some e => direntByte e (i % 32)
    | none   => 0

-- The buffer for the sectors is not initialized.
def main (sector : List UInt8) (files : List File) : Option (List UInt8) :=
  if files = [] then
    none
  else do
    let entries := .const emptyDirent
    let st ← addFiles { sector, entries, image := dirBytes entries, sectorOffset := 1 } 0 files
    return dirBytes st.entries ++ st.image.drop sectorSize

end Mkfs

namespace Mbrpad

abbrev mbrEnd : Nat := 510

-- The loop which copies the image, 1024 bytes at a time.
def copyImage : Nat → List UInt8 → List UInt8 → Option (List UInt8)
  | 0, _, _ => none
  | fuel + 1, fsimg, out =>
    let buf := fsimg.take 1024
    if buf.length > 0 then copyImage fuel (fsimg.drop 1024) (out ++ buf) else some out

def main (mbr fsimg : List UInt8) : Option (List UInt8) :=
  if mbr.length > mbrEnd then
    none
  else
    copyImage (fsimg.length + 1) fsimg (mbr ++ List.replicate (mbrEnd - mbr.length) 0 ++ [0x55, 0xaa])

theorem copyImage_eq (fuel : Nat) (fsimg out : List UInt8) (hf : fsimg.length < fuel) :
    copyImage fuel fsimg out = some (out ++ fsimg) := by
  induction fuel generalizing fsimg out
  case zero         => omega
  case succ fuel hi =>
    rw [copyImage]
    by_cases hn : fsimg = []
    case pos => simp [hn]
    case neg =>
      have hl : 0 < fsimg.length := List.length_pos_iff.mpr hn
      have hb : (fsimg.take 1024).length > 0 := by
        rw [List.length_take]
        omega
      simp only [hb, if_true]
      rw [hi _ _ (by rw [List.length_drop]; omega), List.append_assoc, List.take_append_drop]

theorem main_eq {mbr : List UInt8} (hm : mbr.length ≤ mbrEnd) (fsimg : List UInt8) : ∃ boot,
    main mbr fsimg = some (boot ++ fsimg) ∧ boot.length = sectorSize := by
  refine ⟨_, by rw [main, if_neg (by omega), copyImage_eq _ _ _ (Nat.lt_succ_self _)], ?_⟩
  simp only [List.length_append, List.length_replicate, List.length_cons, List.length_nil, mbrEnd,
    sectorSize] at hm ⊢
  omega

end Mbrpad

namespace Mkfs

variable {c c' : Copy} {st : Main} {file : List UInt8} {files : List File} {f : File} {fuel i k : Nat}

-- A file has been copied: its bytes follow the image, and the last sector is filled up.
structure Copied (c : Copy) (file : List UInt8) (c' : Copy) : Prop where
  sector       : c'.sector.length = sectorSize
  image        : ∃ pad, c'.image = c.image ++ file ++ pad ∧
                   file.length + pad.length = sectorSize * sectors file.length
  sectorOffset : c'.sectorOffset = (c.sectorOffset + sectors file.length) % 2 ^ 32
  sizeBytes    : c'.sizeBytes = (c.sizeBytes + file.length) % 2 ^ 32

theorem copyFile_spec (file : List UInt8) (hc : c.sector.length = sectorSize) (ho : c.sectorOffset < 2 ^ 32)
    (hs : c.sizeBytes < 2 ^ 32) (hf : file.length < fuel) :
    ∃ c', copyFile fuel file c = some c' ∧ Copied c file c' := by
  simp only [sectorSize] at hc
  induction fuel generalizing c file
  case zero         => omega
  case succ fuel hi =>
    rw [copyFile]
    by_cases hn : file = []
    case pos =>
      subst hn
      refine ⟨c, by simp, hc, ⟨[], by simp, by simp [sectors]⟩, ?_, ?_⟩
      · exact (Nat.mod_eq_of_lt ho).symm
      · exact (Nat.mod_eq_of_lt hs).symm
    case neg =>
      have hl : 0 < file.length := List.length_pos_iff.mpr hn
      have hr : min sectorSize file.length ≠ 0 := by
        simp only [sectorSize]
        omega
      simp only [ne_eq, hr, not_false_eq_true, if_true]
      obtain ⟨c', hr, hc'⟩ := hi (file.drop (min sectorSize file.length))
        (c := {
          sector := file.take (min sectorSize file.length) ++ c.sector.drop (min sectorSize file.length)
          image := c.image ++ (file.take (min sectorSize file.length) ++
            c.sector.drop (min sectorSize file.length))
          sectorOffset := (c.sectorOffset + 1) % 2 ^ 32
          sizeBytes := (c.sizeBytes + min sectorSize file.length) % 2 ^ 32 })
        (by simp only [List.length_append, List.length_take, List.length_drop, sectorSize]; omega)
        (Nat.mod_lt _ (by decide)) (Nat.mod_lt _ (by decide))
        (by simp only [List.length_drop, sectorSize]; omega)
      refine ⟨c', hr, hc'.sector, ?_, ?_, ?_⟩
      · obtain ⟨pad, hi, hp⟩ := hc'.image
        simp only [List.length_drop, sectors, sectorSize] at hi hp ⊢
        by_cases hlen : 512 ≤ file.length
        case pos =>
          -- The whole sector has been filled.
          have hd : c.sector.drop 512 = [] := List.drop_eq_nil_of_le (by omega)
          rw [Nat.min_eq_left hlen] at hi hp
          refine ⟨pad, ?_, by omega⟩
          rw [hi, hd, List.append_nil, List.append_assoc c.image, List.take_append_drop]
        case neg =>
          rw [Nat.min_eq_right (by omega)] at hi hp
          have hnil : pad = [] := List.eq_nil_of_length_eq_zero (by omega)
          refine ⟨c.sector.drop file.length, ?_, by rw [List.length_drop]; omega⟩
          rw [hi, hnil, List.take_length, List.drop_length, List.append_nil, List.append_nil,
            List.append_assoc]
      · rw [hc'.sectorOffset]
        simp only [List.length_drop, sectors, sectorSize]
        omega
      · rw [hc'.sizeBytes]
        simp only [List.length_drop, sectorSize]
        omega

-- The number of sectors of some files, and the sector after them in the image.
def total (files : List File) : Nat :=
  (files.map fun f => sectors f.bytes.length).sum

def nextSector (files : List File) : Nat :=
  1 + total files

def direntOf (offsetSectors : Nat) (f : File) : Dirent where
  offsetSectors
  sizeBytes := f.bytes.length
  name := strncpy (Function.update emptyDirent.name 19 0) (basename f.path) 19

-- The files are in the directory, and their bytes are in the image.
structure Laid (files : List File) (st : Main) : Prop where
  sector       : st.sector.length = sectorSize
  sectorOffset : st.sectorOffset = nextSector files
  image        : st.image.length = sectorSize * nextSector files
  entries      : ∀ (i : Nat) f, files[i]? = some f →
                   st.entries.read i = some (direntOf (nextSector (files.take i)) f)
  rest         : ∀ i : Nat, files.length ≤ i → i < entsInDir → st.entries.read i = some emptyDirent
  bytes        : ∀ (i : Nat) f, files[i]? = some f → ∀ k < f.bytes.length,
                   st.image[sectorSize * nextSector (files.take i) + k]? = f.bytes[k]?

theorem total_concat (files : List File) (f : File) :
    total (files ++ [f]) = total files + sectors f.bytes.length := by
  simp [total]

theorem total_take_le (files : List File) (i : Nat) : total (files.take i) ≤ total files := by
  have he := List.take_append_drop i files
  calc total (files.take i)
    _ ≤ total (files.take i ++ files.drop i) := by simp only [total, List.map_append, List.sum_append]; omega
    _ = total files                          := by rw [he]

-- A file which has been there before, or the last one.
theorem getElem?_concat {α : Type} {l : List α} {a b : α} (h : (l ++ [a])[i]? = some b) :
    l[i]? = some b ∧ (l ++ [a]).take i = l.take i ∨
      i = l.length ∧ b = a ∧ (l ++ [a]).take i = l := by
  by_cases hi : i < l.length
  case pos =>
    rw [List.getElem?_append_left hi] at h
    exact .inl ⟨h, List.take_append_of_le_length (Nat.le_of_lt hi)⟩
  case neg =>
    have ⟨hlt, _⟩ := List.getElem?_eq_some_iff.mp h
    rw [List.length_append, List.length_singleton] at hlt
    have he : i = l.length := by omega
    subst he
    rw [List.getElem?_concat_length, Option.some.injEq] at h
    exact .inr ⟨rfl, h.symm, List.take_left' rfl⟩

-- The entry of a file, with 32 bits for the offset and the size.
def entryOf (offsetSectors : Nat) (f : File) : Dirent :=
  { direntOf offsetSectors f with
    offsetSectors := offsetSectors % 2 ^ 32
    sizeBytes := f.bytes.length % 2 ^ 32 }

-- The same for files of any size: what is stored in the directory may have wrapped around.
structure Written (files : List File) (st : Main) : Prop where
  sector       : st.sector.length = sectorSize
  sectorOffset : st.sectorOffset = nextSector files % 2 ^ 32
  image        : st.image.length = sectorSize * nextSector files
  entries      : ∀ (i : Nat) f, files[i]? = some f →
                   st.entries.read i = some (entryOf (nextSector (files.take i)) f)
  rest         : ∀ i : Nat, files.length ≤ i → i < entsInDir → st.entries.read i = some emptyDirent
  bytes        : ∀ (i : Nat) f, files[i]? = some f → ∀ k < f.bytes.length,
                   st.image[sectorSize * nextSector (files.take i) + k]? = f.bytes[k]?

theorem Written.addFile (h : Written files st) (hn : files.length < entsInDir) (f : File) :
    ∃ st', addFile st files.length f = some st' ∧ Written (files ++ [f]) st' := by
  have ho : st.sectorOffset < 2 ^ 32 := by
    rw [h.sectorOffset]
    exact Nat.mod_lt _ (by decide)
  have ⟨c, hc, hcopy⟩ := copyFile_spec f.bytes (c := ⟨st.sector, st.image, st.sectorOffset, 0⟩)
    h.sector ho (by simp) (Nat.lt_succ_self _)
  have ⟨pad, himage, hpad⟩ := hcopy.image
  simp only at himage
  have hsize : c.sizeBytes = f.bytes.length % 2 ^ 32 := by
    rw [hcopy.sizeBytes, Nat.zero_add]
  have hnext : nextSector (files ++ [f]) = nextSector files + sectors f.bytes.length := by
    rw [nextSector, total_concat, nextSector, Nat.add_assoc]
  have hoff : c.sectorOffset = nextSector (files ++ [f]) % 2 ^ 32 := by
    rw [hcopy.sectorOffset, hnext]
    simp only [h.sectorOffset, Nat.mod_add_mod]
  have ⟨entries, hw, hread⟩ := st.entries.exists_write (i := files.length)
    (v := entryOf (nextSector files) f) (by omega) (by exact_mod_cast hn)
  refine ⟨⟨c.sector, entries, c.image, c.sectorOffset⟩, ?_, ?_⟩
  · rw [Mkfs.addFile, h.rest _ (Nat.le_refl _) hn]
    simp only [Option.bind_eq_bind, Option.bind_some, hc, hsize]
    rw [entryOf, direntOf, ← h.sectorOffset] at hw
    exact Option.bind_eq_some_iff.mpr ⟨entries, hw, rfl⟩
  · exact {
      sector := hcopy.sector
      sectorOffset := hoff
      image := by
        rw [himage, List.length_append, List.length_append, h.image, hnext, Nat.mul_add]
        omega
      entries := fun i g hg => by
        rw [hread]
        rcases getElem?_concat hg with ⟨hg, he⟩ | ⟨rfl, rfl, he⟩
        case inl =>
          have hlt := (List.getElem?_eq_some_iff.mp hg).choose
          rw [if_neg (by omega), he, h.entries i g hg]
        case inr => rw [if_pos rfl, he]
      rest := fun i hi hi' => by
        rw [List.length_append, List.length_singleton] at hi
        rw [hread, if_neg (by omega), h.rest i (by omega) hi']
      bytes := fun i g hg k hk => by
        rw [himage]
        rcases getElem?_concat hg with ⟨hg, he⟩ | ⟨rfl, rfl, he⟩
        case inl =>
          have hb := h.bytes i g hg k hk
          rw [List.getElem?_eq_getElem hk] at hb
          have hlt := (List.getElem?_eq_some_iff.mp hb).choose
          rw [he, List.append_assoc, List.getElem?_append_left hlt, hb, List.getElem?_eq_getElem hk]
        case inr =>
          rw [he, ← h.image, List.append_assoc, List.getElem?_append_right (by omega),
            Nat.add_sub_cancel_left, List.getElem?_append_left hk] }

theorem Written.addFiles {fs : List File} (h : Written files st)
    (hn : (files ++ fs).length ≤ entsInDir) : ∃ st',
    addFiles st files.length fs = some st' ∧ Written (files ++ fs) st' := by
  induction fs generalizing files st
  case nil            => exact ⟨st, rfl, by rwa [List.append_nil]⟩
  case cons f fs hi =>
    have happ : files ++ f :: fs = files ++ [f] ++ fs := by simp
    rw [happ] at hn ⊢
    simp only [List.length_append, List.length_singleton] at hn
    have ⟨st₁, hr₁, h₁⟩ := h.addFile (by omega) f
    have ⟨st', hr', h'⟩ := hi h₁ (by simp only [List.length_append, List.length_singleton]; omega)
    rw [List.length_append, List.length_singleton] at hr'
    exact ⟨st', by rw [Mkfs.addFiles, hr₁]; exact hr', h'⟩

-- The fields do not wrap around when the files are small enough.
theorem Written.laid (h : Written files st) (hs : ∀ f ∈ files, f.bytes.length < 2 ^ 31)
    (ht : total files < 2 ^ 28) : Laid files st where
  sector := h.sector
  sectorOffset := by
    rw [h.sectorOffset, Nat.mod_eq_of_lt]
    rw [nextSector]
    omega
  image := h.image
  entries i f hf := by
    have hle := total_take_le files i
    have hlen := hs f (List.mem_of_getElem? hf)
    have ho : nextSector (files.take i) < 2 ^ 32 := by
      rw [nextSector]
      omega
    rw [h.entries i f hf, entryOf, Nat.mod_eq_of_lt ho, Nat.mod_eq_of_lt (by omega), direntOf]
  rest := h.rest
  bytes := h.bytes

theorem length_dirBytes (entries : Arr Dirent entsInDir) : (dirBytes entries).length = sectorSize := by
  rw [dirBytes, List.length_map, List.length_range]

-- The directory takes the place of the first sector of the image.
theorem dirBytes_append_drop_getElem? (entries : Arr Dirent entsInDir) (image : List UInt8)
    (h : sectorSize ≤ k) : (dirBytes entries ++ image.drop sectorSize)[k]? = image[k]? := by
  have hl := length_dirBytes entries
  rw [List.getElem?_append_right (by omega), hl, List.getElem?_drop, Nat.add_sub_cancel' h]

theorem written_nil {sector : List UInt8} (hs : sector.length = sectorSize) : Written []
    { sector, entries := .const emptyDirent, image := dirBytes (.const emptyDirent), sectorOffset := 1 } where
  sector := hs
  sectorOffset := rfl
  image := by
    rw [length_dirBytes, nextSector, total, List.map_nil, List.sum_nil, Nat.add_zero, Nat.mul_one]
  entries := by simp
  rest i _ hi := Arr.read_const (by omega) (by exact_mod_cast hi)
  bytes := by simp

-- The directory has room for the files.
theorem main_written {sector : List UInt8} (hb : sector.length = sectorSize) (h₀ : files ≠ [])
    (hn : files.length ≤ entsInDir) : ∃ st, Written files st ∧
      main sector files = some (dirBytes st.entries ++ st.image.drop sectorSize) := by
  have ⟨st, hr, h⟩ := (written_nil hb).addFiles hn
  have hr : addFiles _ 0 files = some st := hr
  refine ⟨st, h, ?_⟩
  rw [main, if_neg h₀]
  simp only [hr, Option.bind_eq_bind, Option.bind_some, Option.pure_def]

-- The image: the directory, and the bytes of the files in their sectors.
structure Image (files : List File) (image : List UInt8) : Prop where
  entries : ∃ entries, image.take sectorSize = dirBytes entries ∧
    (∀ (i : Nat) f, files[i]? = some f →
      entries.read i = some (direntOf (nextSector (files.take i)) f)) ∧
    ∀ i : Nat, files.length ≤ i → i < entsInDir → entries.read i = some emptyDirent
  length  : image.length = sectorSize * nextSector files
  bytes   : ∀ (i : Nat) f, files[i]? = some f → ∀ k < f.bytes.length,
              image[sectorSize * nextSector (files.take i) + k]? = f.bytes[k]?

theorem main_spec {sector : List UInt8} (hb : sector.length = sectorSize) (hn : files.length ≤ entsInDir)
    (hs : ∀ f ∈ files, f.bytes.length < 2 ^ 31) (ht : total files < 2 ^ 28) :
    (main sector files = none ↔ files = []) ∧ ∀ image, main sector files = some image →
      Image files image := by
  by_cases he : files = []
  case pos => simp [main, he]
  case neg =>
    have ⟨st, hw, hr⟩ := main_written hb he hn
    have h := hw.laid hs ht
    simp only [hr, reduceCtorEq, he, Option.some.injEq, forall_eq', true_and]
    have hld := length_dirBytes st.entries
    have hli := h.image
    have hns i : 1 ≤ nextSector (files.take i) := Nat.le_add_right _ _
    have hnf : 1 ≤ nextSector files := Nat.le_add_right _ _
    simp only [sectorSize] at hld hli ⊢
    exact {
      entries := ⟨st.entries, by rw [List.take_left' hld], h.entries, h.rest⟩
      length := by
        rw [List.length_append, List.length_drop, hld, hli]
        simp only [sectorSize]
        omega
      bytes := fun i f hf k hk => by
        have hns := hns i
        rw [← h.bytes i f hf k hk]
        apply dirBytes_append_drop_getElem?
        simp only [sectorSize]
        omega }

end Mkfs
