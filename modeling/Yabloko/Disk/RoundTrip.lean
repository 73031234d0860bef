import Yabloko.Boot.Bootmain
import Yabloko.Disk.Mkfs

-- The characters of the string, up to its end.
def Spells : CString → List UInt8 → Prop
  | s, []     => s 0 = 0
  | s, b :: l => s 0 = b ∧ b ≠ 0 ∧ Spells (fun i => s (i + 1)) l

def cstring (l : List UInt8) : CString :=
  fun i => l.getD i 0

-- The drive returns the addressed sectors, as far as the disk goes.
def Disk.Holds (disk : Disk) (bytes : List UInt8) : Prop :=
  ∀ lba, sectorSize * (lba + 1) ≤ bytes.length → ∀ i < sectorSize,
    bytes[sectorSize * lba + i]? = some (disk.sector lba i)

-- The disk which consists of these bytes, with zeros after them.
def Disk.ofBytes (bytes : List UInt8) : Disk :=
  fun lba i => bytes.getD (sectorSize * lba + i) 0

variable {s s' : CString} {l l' : List UInt8} {n i j k lba : Nat} {disk : Disk}

-- The sectors have addresses of 28 bits.
theorem Disk.holds_ofBytes {bytes : List UInt8} (hb : bytes.length ≤ sectorSize * 2 ^ 28) :
    (Disk.ofBytes bytes).Holds bytes := by
  intro lba hl i hi
  simp only [sectorSize] at hb hl hi
  have hlt : sectorSize * lba + i < bytes.length := by
    simp only [sectorSize]
    omega
  have hs : Disk.ofBytes bytes lba i = bytes[sectorSize * lba + i] := List.getD_eq_getElem _ _ hlt
  rw [List.getElem?_eq_getElem hlt, Disk.sector, Nat.mod_eq_of_lt (by omega), hs]

namespace Spells

theorem congr (h : Spells s l) (he : ∀ i ≤ l.length, s' i = s i) : Spells s' l := by
  induction l generalizing s s'
  case nil         => exact (he 0 (Nat.le_refl 0)).trans h
  case cons b l hi =>
    have ⟨h₁, h₂, h₃⟩ := h
    exact ⟨(he 0 (Nat.zero_le _)).trans h₁, h₂, hi h₃ fun i hi => he (i + 1) (Nat.succ_le_succ hi)⟩

theorem cstring (h : 0 ∉ l) : Spells (cstring l) l := by
  induction l
  case nil         => rfl
  case cons b l hi =>
    rw [List.mem_cons, not_or] at h
    exact ⟨rfl, Ne.symm h.left, hi h.right⟩

theorem strncmp_iff (h : Spells s l) (h' : Spells s' l') (hn : l.length < n) :
    strncmp s s' n = 0 ↔ l = l' := by
  induction l generalizing s s' l' n
  case nil         =>
    cases n
    case zero   => omega
    case succ n =>
      have h₀ : s 0 = 0 := h
      rw [strncmp, if_neg (by simp [h₀]), h₀]
      cases l'
      case nil       => have h₀' : s' 0 = 0 := h'; simp [h₀']
      case cons c l' =>
        have ⟨hc, hc₀, _⟩ := h'
        have hn : c.toNat ≠ 0 := fun he => hc₀ <| UInt8.toNat_inj.mp he
        simp [hc, hn]
  case cons b l hi =>
    have ⟨hb, hb₀, hl⟩ := h
    cases n
    case zero   => omega
    case succ n =>
      rw [strncmp, hb]
      cases l'
      case nil       =>
        have h₀' : s' 0 = 0 := h'
        have hn : b.toNat ≠ 0 := fun he => hb₀ <| UInt8.toNat_inj.mp he
        simp [h₀', hn]
      case cons c l' =>
        have ⟨hc, hc₀, hl'⟩ := h'
        rw [hc]
        by_cases he : b = c
        case pos =>
          rw [if_pos ⟨hb₀, hc₀, he⟩, hi hl hl' (Nat.lt_of_succ_lt_succ hn), List.cons.injEq]
          simp [he]
        case neg =>
          have hn : b.toNat ≠ c.toNat := fun hn => he <| UInt8.toNat_inj.mp hn
          rw [if_neg fun hc => he hc.right.right]
          simp only [List.cons.injEq, he, false_and, iff_false]
          omega

end Spells

-- The first index with a result.
theorem findSome?_range {α : Type} {f : Nat → Option α} {a : α} (hi : i < n) (hn : ∀ j < i, f j = none)
    (hs : f i = some a) : (List.range n).findSome? f = some a := by
  induction n
  case zero       => omega
  case succ n hin =>
    rw [List.range_succ, List.findSome?_append]
    by_cases he : i < n
    case pos => rw [hin he, Option.some_or]
    case neg =>
      have he : i = n := by omega
      have hnone : (List.range n).findSome? f = none := by
        rw [List.findSome?_eq_none_iff]
        exact fun j hj => hn j <| he ▸ List.mem_range.mp hj
      rw [hnone, Option.none_or, List.findSome?_cons, ← he, hs]

namespace Mkfs

variable {entries : Arr Dirent entsInDir} {e : Dirent} {f : File} {files : List File}
  {image boot : List UInt8}

-- An entry of the directory, as it is written and as it is read.
theorem dirBytes_getElem? (he : entries.read i = some e) (hi : i < entsInDir) (hj : j < 32) :
    (dirBytes entries)[32 + 32 * i + j]? = some (direntByte e j) := by
  simp only [entsInDir] at hi
  have hlt : 32 + 32 * i + j < sectorSize := by
    simp only [sectorSize]
    omega
  have h₁ : ((32 + 32 * i + j : Nat) : Int) / 32 - 1 = i := by omega
  have h₂ : (32 + 32 * i + j) % 32 = j := by omega
  rw [dirBytes, List.getElem?_map, List.getElem?_range hlt]
  simp only [Option.map_some, h₁, he, h₂]

structure Reads (e e' : Dirent) : Prop where
  offsetSectors : e'.offsetSectors = e.offsetSectors
  sizeBytes     : e'.sizeBytes = e.sizeBytes
  name          : ∀ j < 20, e'.name j = e.name j

theorem load32_bytes {m : Bytes} {a v : Nat} (hv : v < 2 ^ 32)
    (hm : ∀ j < 4, m (a + j) = .ofNat (v / 2 ^ (8 * j))) : m.load32 a = v := by
  have h₀ := hm 0 (by decide)
  have h₁ := hm 1 (by decide)
  have h₂ := hm 2 (by decide)
  have h₃ := hm 3 (by decide)
  simp only [Nat.add_zero, Nat.mul_zero, Nat.pow_zero, Nat.div_one] at h₀
  simp only [Bytes.load32, Bytes.load16, Nat.add_assoc, Nat.reduceAdd, h₀, h₁, h₂, h₃, UInt8.toNat_ofNat']
  omega

theorem dirent_reads {dir : Bytes} (hd : ∀ j < 32, dir (32 + 32 * i + j) = direntByte e j)
    (ho : e.offsetSectors < 2 ^ 32) (hs : e.sizeBytes < 2 ^ 32) : Reads e (dirent dir i) where
  offsetSectors := load32_bytes ho fun j hj => by
    rw [hd j (by omega), direntByte, if_pos hj]
  sizeBytes := load32_bytes hs fun j hj => by
    rw [Nat.add_assoc, hd (4 + j) (by omega), direntByte, if_neg (by omega), if_pos (by omega),
      Nat.add_sub_cancel_left]
  name j hj := by
    simp only [dirent]
    rw [Nat.add_assoc, hd (12 + j) (by omega), direntByte, if_neg (by omega), if_neg (by omega),
      if_neg (by omega), Nat.add_sub_cancel_left]

-- The bytes of the image start in the second sector of the disk.
theorem sector_of_image (lba : Nat) (hd : disk.Holds (boot ++ image)) (hb : boot.length = sectorSize)
    (hl : sectorSize * (lba + 1) ≤ image.length) (hi : i < sectorSize) :
    image[sectorSize * lba + i]? = some (disk.sector (lba + 1) i) := by
  simp only [sectorSize] at hb hl hi
  have hs := hd (lba + 1) (by simp only [List.length_append, sectorSize]; omega) i hi
  simp only [sectorSize] at hs ⊢
  rw [← hs, List.getElem?_append_right (by omega), hb]
  exact congrArg (image[·]?) (by omega)

-- The disk holds the boot sector and the image.
structure OnDisk (files : List File) (boot image : List UInt8) (disk : Disk) : Prop where
  length : boot.length = sectorSize
  laid   : Image files image
  holds  : disk.Holds (boot ++ image)

namespace OnDisk

-- The bytes of a file are found in the sectors from its first one on.
theorem file (h : OnDisk files boot image disk) (hf : files[i]? = some f) (hk : k < f.bytes.length) :
    f.bytes[k]? = some (disk.from (nextSector (files.take i) + 1) k) := by
  have hb := h.laid.bytes i f hf k hk
  rw [List.getElem?_eq_getElem hk] at hb
  have hlt := (List.getElem?_eq_some_iff.mp hb).choose
  have hl := h.laid.length
  have hs := sector_of_image (nextSector (files.take i) + k / sectorSize) h.holds h.length
    (i := k % sectorSize) (by simp only [sectorSize] at hlt hl ⊢; omega)
    (Nat.mod_lt _ (by decide))
  have he : sectorSize * (nextSector (files.take i) + k / sectorSize) + k % sectorSize =
      sectorSize * nextSector (files.take i) + k := by
    simp only [sectorSize]
    omega
  rw [he, hb] at hs
  rw [List.getElem?_eq_getElem hk, hs, Disk.from, Nat.add_right_comm]

-- The entries which `stat` looks at.
theorem entry (h : OnDisk files boot image disk) (hi : i < entsInDir)
    (ho : e.offsetSectors < 2 ^ 32) (hs : e.sizeBytes < 2 ^ 32)
    (he : ∀ entries, image.take sectorSize = dirBytes entries →
      (∀ (i : Nat) f, files[i]? = some f →
        entries.read i = some (direntOf (nextSector (files.take i)) f)) →
      (∀ i : Nat, files.length ≤ i → i < entsInDir → entries.read i = some emptyDirent) →
      entries.read i = some e) : Reads e (dirent (disk.sector fsStart) i) := by
  have ⟨entries, hdir, hent, hrest⟩ := h.laid.entries
  have hread := he entries hdir hent hrest
  refine dirent_reads (fun j hj => ?_) ho hs
  have hlt : 32 + 32 * i + j < sectorSize := by
    simp only [entsInDir, sectorSize] at hi ⊢
    omega
  have hl := h.laid.length
  have hs := sector_of_image 0 h.holds h.length (by
    rw [hl, nextSector]
    exact Nat.mul_le_mul_left _ (by omega)) hlt
  rw [Nat.mul_zero, Nat.zero_add, ← List.getElem?_take_of_lt hlt, hdir,
    dirBytes_getElem? hread hi hj] at hs
  exact (Option.some.inj hs).symm

-- The names are distinct strings, so that `stat` finds the entry of the file.
theorem stat_eq (h : OnDisk files boot image disk) (hn : files.length ≤ entsInDir)
    (hd : (files.map fun f => basename f.path).Nodup)
    (hb : ∀ f ∈ files, (basename f.path).length ≤ 19 ∧ 0 ∉ basename f.path)
    (hs : ∀ f ∈ files, f.bytes.length < 2 ^ 31) (ht : total files < 2 ^ 28)
    (hf : files[i]? = some f) : disk.stat (cstring (basename f.path)) =
      some { size := f.bytes.length, startSector := nextSector (files.take i) } := by
  have hentry (j : Nat) g (hg : files[j]? = some g) :
      Reads (direntOf (nextSector (files.take j)) g) (dirent (disk.sector fsStart) j) := by
    have hj := (List.getElem?_eq_some_iff.mp hg).choose
    have hle := total_take_le files j
    refine h.entry (by omega) ?_ ?_ fun entries _ hent _ => hent j g hg
    · simp only [direntOf, nextSector]
      omega
    · have := hs g (List.mem_of_getElem? hg)
      simp only [direntOf]
      omega
  have hspells (j : Nat) g (hg : files[j]? = some g) :
      Spells (dirent (disk.sector fsStart) j).name (basename g.path) := by
    obtain ⟨hl, h₀⟩ := hb g (List.mem_of_getElem? hg)
    apply (Spells.cstring h₀).congr
    intro k hk
    rw [(hentry j g hg).name k (by omega)]
    simp only [direntOf, strncpy, cstring, emptyDirent]
    by_cases hk' : k < 19
    case pos => rw [if_pos hk']
    case neg =>
      have he : k = 19 := by omega
      rw [if_neg hk', he, Function.update_self, List.getD_eq_default _ _ (by omega)]
  have hi := (List.getElem?_eq_some_iff.mp hf).choose
  obtain ⟨hl, h₀⟩ := hb f (List.mem_of_getElem? hf)
  rw [Disk.stat]
  apply findSome?_range (Nat.lt_of_lt_of_le hi hn)
  case hs =>
    have he := hentry i f hf
    rw [if_pos <| ((hspells i f hf).strncmp_iff (.cstring h₀) (by omega)).mpr rfl, he.offsetSectors,
      he.sizeBytes, direntOf]
  case hn =>
    intro j hj
    have hg := List.getElem?_eq_getElem (Nat.lt_trans hj hi)
    obtain ⟨hl', _⟩ := hb _ (List.mem_of_getElem? hg)
    apply if_neg
    rw [(hspells j _ hg).strncmp_iff (.cstring h₀) (by omega)]
    intro he
    have hne := List.nodup_iff_getElem?_ne_getElem?.mp hd j i hj (by rwa [List.length_map])
    rw [List.getElem?_map, List.getElem?_map, hg, hf, Option.map_some, Option.map_some, he] at hne
    exact hne rfl

end OnDisk

-- The size of the file is returned, and its bytes are in the buffer. Nothing else has been written.
structure FileRead (f : File) (s : Machine) (ptr : Nat) (s' : Machine) : Prop where
  memory : s' = { s with mem := s'.mem }
  bytes  : ∀ k < f.bytes.length, s'.view (ptr + k) = f.bytes[k]?
  others : ∀ pa, (∀ i < sectorSize * sectors f.bytes.length, s.translate (ptr + i) ≠ some pa) →
             s'.mem pa = s.mem pa

theorem OnDisk.readFile (h : OnDisk files boot image disk) (hs : f.bytes.length < 2 ^ 31)
    (hf : files[i]? = some f) {s : Machine} {ptr bufsize : Nat}
    (hb : s.Buffer ptr (sectorSize * sectors f.bytes.length))
    (hbuf : sectorSize * sectors f.bytes.length ≤ bufsize) : ∃ s',
    (Kernel.readFile disk { size := f.bytes.length, startSector := nextSector (files.take i) } ptr
      bufsize).run s = .ok f.bytes.length s' ∧ FileRead f s ptr s' := by
  have ⟨s', hr, hw⟩ := Kernel.readFile_eq disk
    { size := f.bytes.length, startSector := nextSector (files.take i) } hb hbuf hs
  refine ⟨s', hr, hw.memory, fun k hk => ?_, hw.others⟩
  have hkn : k < sectorSize * sectors f.bytes.length := by
    simp only [sectors, sectorSize]
    omega
  rw [hw.bytes k hkn, h.file hf hk, Nat.add_comm fsStart]

-- Where the boot loader looks for the bytes of the first file.
theorem OnDisk.kernel (h : OnDisk files boot image disk) (hf : files[0]? = some f)
    (hk : k < f.bytes.length) : f.bytes[k]? = some (disk.kernel k) ∧
      (boot ++ image)[1024 + k]? = f.bytes[k]? := by
  have hfile := h.file hf hk
  have hb := h.laid.bytes 0 f hf k hk
  have hn : nextSector (files.take 0) = 1 := rfl
  have hl := h.length
  rw [hn] at hfile hb
  simp only [sectorSize] at hb hl
  refine ⟨?_, ?_⟩
  · rw [hfile, Disk.from, Disk.kernel, Nat.add_comm (1 + 1)]
  · rw [List.getElem?_append_right (by omega), hl, ← hb]
    exact congrArg (image[·]?) (by omega)

-- What `mkfs` writes is found again by `stat`, `read_file` and the boot loader.
theorem round_trip {sector mbr : List UInt8} (hb : sector.length = sectorSize)
    (hm : mbr.length ≤ Mbrpad.mbrEnd) (hn : files.length ≤ entsInDir)
    (hd : (files.map fun f => basename f.path).Nodup)
    (hl : ∀ f ∈ files, basename f.path ≠ [] ∧ (basename f.path).length ≤ 19 ∧ 0 ∉ basename f.path)
    (hs : ∀ f ∈ files, f.bytes.length < 2 ^ 31) (ht : total files < 2 ^ 28) :
    (main sector files = none ↔ files = []) ∧ ∀ image, main sector files = some image →
      ∃ bytes, Mbrpad.main mbr image = some bytes ∧ ∀ disk : Disk, disk.Holds bytes →
        (∀ f ∈ files, ∃ statbuf, disk.stat (cstring (basename f.path)) = some statbuf ∧
          statbuf.size = f.bytes.length ∧ ∀ (s : Machine) ptr bufsize,
            s.Buffer ptr (sectorSize * sectors f.bytes.length) →
            sectorSize * sectors f.bytes.length ≤ bufsize → ∃ s',
            (Kernel.readFile disk statbuf ptr bufsize).run s = .ok f.bytes.length s' ∧
            FileRead f s ptr s') ∧
        ∀ f ∈ files.head?, (∀ k < f.bytes.length, bytes[1024 + k]? = f.bytes[k]?) ∧
          ∀ m pa count offset, pa % sectorSize = offset % sectorSize →
            pa + count + sectorSize ≤ 2 ^ 32 → offset + count ≤ f.bytes.length → ∃ m',
            Bootmain.readseg disk m pa count offset = some m' ∧
            ∀ k < count, some (m' (pa + k)) = f.bytes[offset + k]? := by
  have ⟨hnone, hsome⟩ := main_spec hb hn hs ht
  refine ⟨hnone, fun image himage => ?_⟩
  have ⟨boot, hboot, hlen⟩ := Mbrpad.main_eq hm image
  refine ⟨_, hboot, fun disk hdisk => ?_⟩
  have h : OnDisk files boot image disk := ⟨hlen, hsome image himage, hdisk⟩
  constructor
  case left  =>
    intro f hf
    have ⟨i, hi⟩ := List.mem_iff_getElem?.mp hf
    have hstat := h.stat_eq hn hd (fun f hf => (hl f hf).right) hs ht hi
    exact ⟨_, hstat, rfl, fun s ptr bufsize hbuf hle => h.readFile (hs f hf) hi hbuf hle⟩
  case right =>
    intro f hf
    have hf : files[0]? = some f := by rwa [← List.head?_eq_getElem?]
    refine ⟨fun k hk => (h.kernel hf hk).right, fun m pa count offset hpa hc ho => ?_⟩
    have hsize := hs f (List.mem_of_getElem? hf)
    have ⟨m', hr, _⟩ := Bootmain.readseg_eq disk count hpa hc (by omega) m
    refine ⟨m', hr, fun k hk => ?_⟩
    rw [Bootmain.readseg_bytes hpa hc (by omega) hr k hk, (h.kernel hf (by omega)).left]

-- A kernel of three bytes, and an empty file. The kernel is read to the megabyte after the first one.
theorem round_trip_two :
    let files : List File := [⟨[46, 47, 107], [1, 2, 3]⟩, ⟨[47, 101], []⟩]
    let s : Machine := ⟨fun _ => 0, 0, 0, 0, 0, false⟩
    ∃ image bytes statbuf s' m', main (.replicate 512 7) files = some image ∧
      Mbrpad.main [] image = some bytes ∧ (Disk.ofBytes bytes).Holds bytes ∧
      (Disk.ofBytes bytes).stat (cstring [107]) = some statbuf ∧ statbuf.size = 3 ∧
      (Kernel.readFile (.ofBytes bytes) statbuf (kernbase + 0x100000) 512).run s = .ok 3 s' ∧
      s'.view (kernbase + 0x100000 + 1) = some 2 ∧
      Bootmain.readseg (.ofBytes bytes) (fun _ => 0) 0x9000 2 0 = some m' ∧ m' (0x9000 + 1) = 2 := by
  intro files s
  have ⟨hnone, hsome⟩ := @round_trip files (.replicate 512 7) [] List.length_replicate
    (Nat.zero_le _) (by decide) (by decide) (by decide) (by decide) (by decide)
  have ⟨image, himage⟩ := Option.ne_none_iff_exists'.mp <| mt hnone.mp (by simp [files])
  have ⟨bytes, hbytes, hdisk⟩ := hsome image himage
  have hlength : bytes.length ≤ sectorSize * 2 ^ 28 := by
    have ⟨boot, hboot, hlen⟩ := @Mbrpad.main_eq [] (Nat.zero_le _) image
    have hlaid := (main_spec (List.length_replicate (a := 7)) (by decide) (by decide) (by decide)).right image himage
    cases hbytes.symm.trans hboot
    rw [List.length_append, hlen, hlaid.length]
    decide
  have hholds := Disk.holds_ofBytes hlength
  have ⟨hall, hkernel⟩ := hdisk (.ofBytes bytes) hholds
  have ⟨statbuf, hstat, hsize, hread⟩ := hall _ (List.mem_cons_self)
  have ⟨s', hr, hf⟩ := hread s (kernbase + 0x100000) 512 (s.buffer_kernbase (by decide)) (by decide)
  have ⟨_, hseg⟩ := hkernel _ rfl
  have ⟨m', hr', hm⟩ := hseg (fun _ => 0) 0x9000 2 0 rfl (by decide) (by decide)
  exact ⟨image, bytes, statbuf, s', m', himage, hbytes, hholds, hstat, hsize, hr, hf.bytes 1 (by decide),
    hr', Option.some.inj <| hm 1 (by decide)⟩

end Mkfs
