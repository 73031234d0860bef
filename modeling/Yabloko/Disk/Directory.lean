import Yabloko.Disk.RoundTrip

-- The first sector of the image is where the directory is looked for.
def Disk.HoldsDirectory (disk : Disk) (image : List UInt8) : Prop :=
  ∀ k < sectorSize, image[k]? = some (disk.sector fsStart k)

namespace Mkfs

-- The name which is stored for a file, and what is stored with it.
def storedName (f : File) : List UInt8 :=
  (basename f.path).take 19

def written (files : List File) : List (List UInt8 × Stat) :=
  files.mapIdx fun i f => (storedName f, {
    size := f.bytes.length % 2 ^ 32
    startSector := nextSector (files.take i) % 2 ^ 32 })

-- The names and the contents of all entries, with the unused ones.
def slots (files : List File) : List (List UInt8 × Stat) :=
  written files ++ List.replicate (entsInDir - files.length) ([], { size := 0, startSector := 0 })

variable {files : List File} {f : File} {entries : Arr Dirent entsInDir} {e : Dirent} {disk : Disk}
  {image rest l : List UInt8} {name : CString} {st : Main} {i j k n : Nat}

theorem strrchr_suffix {s t : List UInt8} {c : UInt8} (h : strrchr s c = some t) : t <:+ s := by
  induction s generalizing t
  case nil         => simp [strrchr] at h
  case cons x xs hi =>
    rw [strrchr] at h
    split at h
    case h_1 t' ht =>
      cases h
      exact (hi ht).trans (List.suffix_cons x xs)
    case h_2       =>
      split at h
      case isTrue  => exact Option.some.inj h ▸ List.suffix_refl _
      case isFalse => cases h

theorem basename_suffix (path : List UInt8) : basename path <:+ path := by
  rw [basename]
  split
  case h_1 x s hs => exact (List.suffix_cons x s).trans (strrchr_suffix hs)
  case h_2        => exact List.suffix_refl path

theorem not_mem_storedName (h : 0 ∉ f.path) : 0 ∉ storedName f := fun hm =>
  h <| (basename_suffix f.path).subset <| List.mem_of_mem_take hm

theorem length_storedName (f : File) : (storedName f).length ≤ 19 := by
  rw [storedName, List.length_take]
  omega

theorem storedName_eq_nil_iff : storedName f = [] ↔ basename f.path = [] := by
  rw [storedName, List.take_eq_nil_iff]
  simp

theorem length_slots (h : files.length ≤ entsInDir) : (slots files).length = entsInDir := by
  rw [slots, List.length_append, List.length_replicate, written, List.length_mapIdx]
  omega

theorem slots_getElem? (h : files[i]? = some f) : (slots files)[i]? = some (storedName f, {
    size := f.bytes.length % 2 ^ 32
    startSector := nextSector (files.take i) % 2 ^ 32 }) := by
  have hi := (List.getElem?_eq_some_iff.mp h).choose
  rw [slots, List.getElem?_append_left (by rwa [written, List.length_mapIdx]), written,
    List.getElem?_mapIdx, h]
  rfl

theorem slots_getElem?_unused (h : files.length ≤ i) (hi : i < entsInDir) :
    (slots files)[i]? = some ([], { size := 0, startSector := 0 }) := by
  rw [slots, List.getElem?_append_right (by rwa [written, List.length_mapIdx]), written,
    List.length_mapIdx, List.getElem?_replicate, if_pos (by omega)]

-- The name in an entry of the directory, and its contents.
structure Slot (e : Dirent) (slot : List UInt8 × Stat) : Prop where
  name : Spells e.name slot.1
  stat : slot.2 = { size := e.sizeBytes, startSector := e.offsetSectors }

theorem Reads.slot {e' : Dirent} {slot : List UInt8 × Stat} (h : Reads e e') (hs : Slot e slot)
    (hl : slot.1.length ≤ 19) : Slot e' slot where
  name := hs.name.congr fun i hi => h.name i (by omega)
  stat := by rw [hs.stat, h.sizeBytes, h.offsetSectors]

theorem entryOf_slot (h : 0 ∉ f.path) (offset : Nat) : Slot (entryOf offset f)
    (storedName f, { size := f.bytes.length % 2 ^ 32, startSector := offset % 2 ^ 32 }) where
  name := by
    apply (Spells.cstring (not_mem_storedName h)).congr
    intro k hk
    have hl := length_storedName f
    simp only [entryOf, direntOf, strncpy, emptyDirent, storedName, cstring, List.getD_eq_getElem?_getD]
    by_cases hk' : k < 19
    case pos => rw [if_pos hk', List.getElem?_take_of_lt hk']
    case neg =>
      have he : k = 19 := by omega
      rw [if_neg hk', he, Function.update_self, List.getElem?_take_eq_none (Nat.le_refl 19)]
      rfl
  stat := rfl

theorem emptyDirent_slot : Slot emptyDirent ([], { size := 0, startSector := 0 }) where
  name := rfl
  stat := rfl

-- A search by index is a search in the list.
theorem findSome?_range_eq_find? {α β : Type} {s : List α} {q : Nat → Option β} {p : α → Bool} {g : α → β}
    (h : ∀ i a, s[i]? = some a → q i = if p a then some (g a) else none) :
    (List.range s.length).findSome? q = (s.find? p).map g := by
  induction s generalizing q
  case nil         => rfl
  case cons a s hi =>
    have h₀ := h 0 a rfl
    have hs := hi (q := fun i => q (i + 1)) fun i b hb => h (i + 1) b hb
    rw [List.length_cons, List.range_succ_eq_map, List.findSome?_cons, List.findSome?_map, h₀,
      List.find?_cons]
    cases hp : p a
    case false => exact hs
    case true  => rfl

theorem reads_of_holds (hd : disk.HoldsDirectory (dirBytes entries ++ rest)) (hi : i < entsInDir)
    (he : entries.read i = some e) (ho : e.offsetSectors < 2 ^ 32) (hs : e.sizeBytes < 2 ^ 32) :
    Reads e (dirent (disk.sector fsStart) i) := by
  refine dirent_reads (fun j hj => ?_) ho hs
  have hlt : 32 + 32 * i + j < sectorSize := by
    simp only [entsInDir, sectorSize] at hi ⊢
    omega
  have hb := hd _ hlt
  rw [List.getElem?_append_left (by rwa [length_dirBytes]), dirBytes_getElem? he hi hj] at hb
  exact (Option.some.inj hb).symm

-- What `stat` finds among the entries, used or not.
theorem Written.stat_eq_find? (h : Written files st) (hn : files.length ≤ entsInDir)
    (hp : ∀ f ∈ files, 0 ∉ f.path) (hd : disk.HoldsDirectory (dirBytes st.entries ++ rest))
    (hl : Spells name l) : disk.stat name = ((slots files).find? (·.1 = l)).map (·.2) := by
  have hslot (i : Nat) slot (hs : (slots files)[i]? = some slot) :
      Slot (dirent (disk.sector fsStart) i) slot ∧ slot.1.length ≤ 19 := by
    have hi := (List.getElem?_eq_some_iff.mp hs).choose
    rw [length_slots hn] at hi
    by_cases hf : i < files.length
    case pos =>
      have hg := List.getElem?_eq_getElem hf
      rw [slots_getElem? hg, Option.some.injEq] at hs
      have hr := reads_of_holds hd hi (h.entries i _ hg) (Nat.mod_lt _ (by decide))
        (Nat.mod_lt _ (by decide))
      have hle := length_storedName files[i]
      rw [← hs]
      exact ⟨hr.slot (entryOf_slot (hp _ (List.mem_of_getElem? hg)) _) hle, hle⟩
    case neg =>
      rw [slots_getElem?_unused (by omega) hi, Option.some.injEq] at hs
      have hr := reads_of_holds hd hi (h.rest i (by omega) hi) (by decide) (by decide)
      rw [← hs]
      exact ⟨hr.slot emptyDirent_slot (by decide), by decide⟩
  rw [Disk.stat, ← length_slots hn]
  refine findSome?_range_eq_find? fun i slot hs => ?_
  obtain ⟨⟨hname, hstat⟩, hle⟩ := hslot i slot hs
  have hcmp := hname.strncmp_iff hl (show slot.1.length < 20 by omega)
  simp only [hcmp, hstat, decide_eq_true_eq]

theorem mem_written {slot : List UInt8 × Stat} (h : slot ∈ written files) :
    ∃ f ∈ files, slot.1 = storedName f := by
  have ⟨i, hi, he⟩ := List.mem_mapIdx.mp h
  exact ⟨files[i], List.getElem_mem hi, by rw [← he]⟩

theorem written_find?_isSome (h : f ∈ files) : ((written files).find? (·.1 = storedName f)).isSome := by
  have ⟨i, hi, he⟩ := List.mem_iff_getElem.mp h
  rw [List.find?_isSome]
  exact ⟨_, List.mem_mapIdx.mpr ⟨i, hi, rfl⟩, by simp [he]⟩

-- Exactly the written entries are found, unless the empty name is looked for, and there is an unused
-- entry but no file with the empty name.
theorem find?_slots_iff (hn : files.length ≤ entsInDir) (l : List UInt8) :
    ((slots files).find? (·.1 = l)).map (·.2) = ((written files).find? (·.1 = l)).map (·.2) ↔
      l ≠ [] ∨ files.length = entsInDir ∨ ∃ f ∈ files, basename f.path = [] := by
  rw [slots, List.find?_append]
  cases hf : (written files).find? (·.1 = l)
  case some slot =>
    have hs : slot.1 = l := by simpa using List.find?_some hf
    have ⟨f, hm, he⟩ := mem_written (List.mem_of_find?_eq_some hf)
    simp only [Option.some_or, true_iff]
    by_cases hl : l = []
    case neg => exact .inl hl
    case pos => exact .inr <| .inr ⟨f, hm, storedName_eq_nil_iff.mp <| he.symm.trans <| hs.trans hl⟩
  case none =>
    have hne (f) (hm : f ∈ files) (hl : l = []) : basename f.path ≠ [] := fun hb => by
      have := written_find?_isSome hm
      rw [storedName_eq_nil_iff.mpr hb, ← hl, hf] at this
      cases this
    rw [Option.none_or, List.find?_replicate]
    by_cases hl : l = []
    case neg =>
      have hl' : ¬[] = l := Ne.symm hl
      simp [hl, hl']
    case pos =>
      have hno : ¬∃ f ∈ files, basename f.path = [] := fun ⟨f, hm, hb⟩ => hne f hm hl hb
      by_cases he : files.length = entsInDir
      case pos => simp [hl, he]
      case neg =>
        have h₀ : entsInDir - files.length ≠ 0 := by omega
        simp [hl, he, h₀, hno]

-- For every name, `stat` finds the first file which has been written under it, exactly when the name is
-- not empty, or no entry is unused, or a file has the empty name.
theorem stat_exact_iff {sector : List UInt8} (hb : sector.length = sectorSize) (h₀ : files ≠ [])
    (hn : files.length ≤ entsInDir) (hp : ∀ f ∈ files, 0 ∉ f.path) : ∃ image,
    main sector files = some image ∧ ∀ (disk : Disk) (name : CString) (l : List UInt8),
      disk.HoldsDirectory image → Spells name l →
      (disk.stat name = ((written files).find? (·.1 = l)).map (·.2) ↔
        l ≠ [] ∨ files.length = entsInDir ∨ ∃ f ∈ files, basename f.path = []) := by
  have ⟨st, hw, hr⟩ := main_written hb h₀ hn
  refine ⟨_, hr, fun disk name l hd hl => ?_⟩
  rw [hw.stat_eq_find? hn hp hd hl]
  exact find?_slots_iff hn l

-- A single file under the name `k`.
theorem stat_exact_one : ∃ image, main (.replicate 512 7) [⟨[46, 47, 107], [1, 2, 3]⟩] = some image ∧
    ∀ disk : Disk, disk.HoldsDirectory image →
      disk.stat (cstring [107]) = some { size := 3, startSector := 1 } := by
  have ⟨image, hr, h⟩ := stat_exact_iff
    (show (List.replicate 512 (7 : UInt8)).length = sectorSize from List.length_replicate)
    (show [(⟨[46, 47, 107], [1, 2, 3]⟩ : File)] ≠ [] by decide) (by decide) (by decide)
  refine ⟨image, hr, fun disk hd => ?_⟩
  rw [(h disk (cstring [107]) [107] hd (.cstring (by decide))).mpr (.inl (by decide))]
  rfl

theorem exists_holdsDirectory (h : sectorSize ≤ image.length) :
    ∃ disk : Disk, disk.HoldsDirectory image := by
  refine ⟨fun _ k => image.getD k 0, fun k hk => ?_⟩
  rw [Disk.sector, List.getElem?_eq_getElem (by omega), List.getD_eq_getElem _ _ (by omega)]

-- The empty name is found among the unused entries.
theorem stat_finds_unused : ∃ (image : List UInt8) (disk : Disk),
    main (.replicate 512 7) [⟨[46, 47, 107], [1, 2, 3]⟩] = some image ∧ disk.HoldsDirectory image ∧
    (written [⟨[46, 47, 107], [1, 2, 3]⟩]).find? (·.1 = []) = none ∧
    disk.stat (cstring []) = some { size := 0, startSector := 0 } := by
  have ⟨st, hw, hr⟩ := main_written
    (show (List.replicate 512 (7 : UInt8)).length = sectorSize from List.length_replicate)
    (show [(⟨[46, 47, 107], [1, 2, 3]⟩ : File)] ≠ [] by decide) (by decide)
  have hlen : sectorSize ≤ (dirBytes st.entries ++ st.image.drop sectorSize).length := by
    rw [List.length_append, length_dirBytes]
    omega
  have ⟨disk, hd⟩ := exists_holdsDirectory hlen
  refine ⟨_, disk, hr, hd, by decide, ?_⟩
  rw [hw.stat_eq_find? (by decide) (by decide) hd (.cstring (by decide))]
  rfl

-- The files fit into the directory, and no two of them are told apart by their names only.
structure Fits (files : List File) : Prop where
  count    : files.length ≤ entsInDir
  names    : ∀ f ∈ files, (basename f.path).length ≤ 19
  sizes    : ∀ f ∈ files, f.bytes.length < 2 ^ 32
  offsets  : ∀ i < files.length, nextSector (files.take i) < 2 ^ 32
  distinct : ∀ (i j : Nat) f g, i < j → files[i]? = some f → files[j]? = some g →
               basename f.path = basename g.path → ∀ (k : Nat) f, i ≤ k → k ≤ j → files[k]? = some f →
               f.bytes = []

-- `mkfs` fails, or writes an image in which `stat` finds each file where its bytes are. There is no
-- image when an entry behind the end of the directory is written.
def Builds (sector : List UInt8) (files : List File) : Prop :=
  files = [] ∨ ∃ image, main sector files = some image ∧
    ∀ disk : Disk, disk.HoldsDirectory image → ∀ (i : Nat) f, files[i]? = some f →
      disk.stat (cstring (basename f.path)) =
        some { size := f.bytes.length, startSector := nextSector (files.take i) } ∧
      ∀ k < f.bytes.length, image[sectorSize * nextSector (files.take i) + k]? = f.bytes[k]?

theorem length_le_of_addFiles {fs : List File} {st' : Main} (h : addFiles st i fs = some st')
    (hi : i ≤ entsInDir) : i + fs.length ≤ entsInDir := by
  induction fs generalizing st i
  case nil            => exact hi
  case cons f fs hfs  =>
    have ⟨st₁, h₁, h⟩ := Option.bind_eq_some_iff.mp h
    have ⟨e, he, _⟩ := Option.bind_eq_some_iff.mp h₁
    have hlt := (Arr.bounds_of_read he).right
    have := hfs h (by omega)
    rw [List.length_cons]
    omega

theorem length_le_of_main {sector : List UInt8} (h : main sector files = some image) :
    files.length ≤ entsInDir := by
  rw [main] at h
  split at h
  case isTrue  => cases h
  case isFalse =>
    obtain ⟨st, hst, _⟩ := Option.bind_eq_some_iff.mp h
    have := length_le_of_addFiles hst (Nat.zero_le _)
    omega

theorem total_take_succ (h : files[i]? = some f) :
    total (files.take (i + 1)) = total (files.take i) + sectors f.bytes.length := by
  rw [List.take_add_one, h, Option.toList_some, total_concat]

-- No sector is between two files, exactly when the first one and all between them are empty.
theorem nextSector_eq_iff (hij : i ≤ j) (hj : j ≤ files.length) :
    nextSector (files.take i) = nextSector (files.take j) ↔
      ∀ (k : Nat) f, i ≤ k → k < j → files[k]? = some f → f.bytes = [] := by
  induction j, hij using Nat.le_induction
  case base          => simp; omega
  case succ j hij hi =>
    have hf := List.getElem?_eq_getElem (show j < files.length by omega)
    have hle : total (files.take i) ≤ total (files.take j) := by
      have := total_take_le (files.take j) i
      rwa [List.take_take, Nat.min_eq_left hij] at this
    have hs : sectors files[j].bytes.length = 0 ↔ files[j].bytes = [] := by
      rw [← List.length_eq_zero_iff]
      simp only [sectors, sectorSize]
      omega
    have ht := total_take_succ hf
    have hi := hi (by omega)
    simp only [nextSector] at hi ⊢
    constructor
    case mp  =>
      intro he k f hik hkj hk
      by_cases hkj' : k = j
      case pos =>
        subst hkj'
        rw [hf] at hk
        exact Option.some.inj hk ▸ hs.mp (by omega)
      case neg => exact hi.mp (by omega) k f hik (by omega) hk
    case mpr =>
      intro he
      have := hi.mpr fun k f hik hkj hk => he k f hik (by omega) hk
      have := hs.mpr <| he j _ hij (by omega) hf
      omega

-- A file is found at the first entry with its name, which is not after its own one.
theorem find?_slots (h : files[i]? = some f) (hl : (basename f.path).length ≤ 19) :
    ∃ (m : Nat) (g : File), m ≤ i ∧ files[m]? = some g ∧ storedName g = basename f.path ∧
      ((slots files).find? (·.1 = basename f.path)).map (·.2) = some {
        size := g.bytes.length % 2 ^ 32
        startSector := nextSector (files.take m) % 2 ^ 32 } := by
  have hname : storedName f = basename f.path := List.take_of_length_le hl
  have hi := (List.getElem?_eq_some_iff.mp h).choose
  cases hf : (slots files).find? (·.1 = basename f.path)
  case none      =>
    have := List.find?_eq_none.mp hf _ (List.mem_of_getElem? <| slots_getElem? h)
    simp [hname] at this
  case some slot =>
    have ⟨hp, m, hm, he, hmin⟩ := List.find?_eq_some_iff_getElem.mp hf
    have hmi : m ≤ i := by
      by_contra hc
      have ⟨hlt, hs⟩ := List.getElem?_eq_some_iff.mp (slots_getElem? h)
      have := hmin i (by omega)
      simp [hs, hname] at this
    have hg := List.getElem?_eq_getElem (show m < files.length by omega)
    have hs := slots_getElem? hg
    rw [List.getElem?_eq_getElem hm, he, Option.some.injEq] at hs
    refine ⟨m, _, hmi, hg, ?_, ?_⟩
    · simpa [hs] using hp
    · rw [hs]
      rfl

theorem find?_slots_long (hn : 19 < l.length) : (slots files).find? (·.1 = l) = none := by
  rw [List.find?_eq_none]
  intro slot hm he
  have he : slot.1 = l := by simpa using he
  rw [slots, List.mem_append] at hm
  cases hm
  case inl hm =>
    have ⟨f, _, hs⟩ := mem_written hm
    have := length_storedName f
    rw [← hs, he] at this
    omega
  case inr hm =>
    rw [List.eq_of_mem_replicate hm] at he
    rw [← he] at hn
    cases hn

-- Every file is found among the entries.
theorem finds_iff (hn : files.length ≤ entsInDir) :
    (∀ (i : Nat) f, files[i]? = some f →
      ((slots files).find? (·.1 = basename f.path)).map (·.2) =
        some { size := f.bytes.length, startSector := nextSector (files.take i) }) ↔ Fits files := by
  constructor
  case mp  =>
    intro h
    have hnames f (hf : f ∈ files) : (basename f.path).length ≤ 19 := by
      by_contra hc
      have ⟨i, hi⟩ := List.mem_iff_getElem?.mp hf
      have := h i f hi
      rw [find?_slots_long (by omega)] at this
      cases this
    have hbounds (i : Nat) f (hf : files[i]? = some f) :
        f.bytes.length < 2 ^ 32 ∧ nextSector (files.take i) < 2 ^ 32 := by
      have ⟨m, g, _, _, _, hs⟩ := find?_slots hf (hnames f (List.mem_of_getElem? hf))
      rw [h i f hf, Option.some.injEq, Stat.mk.injEq] at hs
      rw [hs.left, hs.right]
      exact ⟨Nat.mod_lt _ (by decide), Nat.mod_lt _ (by decide)⟩
    exact {
      count := hn
      names := hnames
      sizes := fun f hf => by
        have ⟨i, hi⟩ := List.mem_iff_getElem?.mp hf
        exact (hbounds i f hi).left
      offsets := fun i hi => (hbounds i _ (List.getElem?_eq_getElem hi)).right
      distinct := fun i j f g hij hf hg he => by
        -- Both names are found at the same entry.
        have hj := (List.getElem?_eq_some_iff.mp hg).choose
        have hs := h j g hg
        rw [← he, h i f hf, Option.some.injEq, Stat.mk.injEq] at hs
        have hempty := (nextSector_eq_iff (Nat.le_of_lt hij) (Nat.le_of_lt hj)).mp hs.right
        intro k f' hik hkj hk
        by_cases hkj' : k = j
        case neg => exact hempty k f' hik (by omega) hk
        case pos =>
          subst hkj'
          rw [hg, Option.some.injEq] at hk
          rw [← hk, ← List.length_eq_zero_iff, ← hs.left, hempty i f (Nat.le_refl i) hij hf]
          rfl }
  case mpr =>
    intro h i f hf
    have hm := List.mem_of_getElem? hf
    have hi := (List.getElem?_eq_some_iff.mp hf).choose
    have ⟨m, g, hmi, hg, hname, hs⟩ := find?_slots hf (h.names f hm)
    have hg' := List.mem_of_getElem? hg
    rw [storedName, List.take_of_length_le (h.names g hg')] at hname
    rw [hs, Nat.mod_eq_of_lt (h.sizes g hg'), Nat.mod_eq_of_lt (h.offsets m (by omega))]
    by_cases he : m = i
    case pos =>
      subst he
      rw [hf, Option.some.injEq] at hg
      rw [hg]
    case neg =>
      have hlt : m < i := by omega
      have hempty := h.distinct m i g f hlt hg hf hname
      rw [hempty m g (Nat.le_refl m) hmi hg, hempty i f hmi (Nat.le_refl i) hf,
        (nextSector_eq_iff hmi (Nat.le_of_lt hi)).mpr fun k f' hk hki => hempty k f' hk (Nat.le_of_lt hki)]

-- The image is what it should be, exactly when every file is found among the entries.
theorem builds_iff_finds {sector : List UInt8} (hb : sector.length = sectorSize) (h₀ : files ≠ [])
    (hn : files.length ≤ entsInDir) (hp : ∀ f ∈ files, 0 ∉ f.path) :
    Builds sector files ↔ ∀ (i : Nat) f, files[i]? = some f →
      ((slots files).find? (·.1 = basename f.path)).map (·.2) =
        some { size := f.bytes.length, startSector := nextSector (files.take i) } := by
  have ⟨st, hw, hr⟩ := main_written hb h₀ hn
  have hstat {disk : Disk} (hd : disk.HoldsDirectory (dirBytes st.entries ++ st.image.drop sectorSize))
      {f : File} (hf : f ∈ files) : disk.stat (cstring (basename f.path)) =
        ((slots files).find? (·.1 = basename f.path)).map (·.2) :=
    hw.stat_eq_find? hn hp hd <| .cstring fun hm => hp f hf <| (basename_suffix f.path).subset hm
  rw [Builds, hr, or_iff_right h₀]
  constructor
  case mp  =>
    intro ⟨image, he, h⟩ i f hf
    have he := Option.some.inj he
    have hlen : sectorSize ≤ image.length := by
      rw [← he, List.length_append, length_dirBytes]
      omega
    have ⟨disk, hd⟩ := exists_holdsDirectory hlen
    rw [← hstat (he ▸ hd) (List.mem_of_getElem? hf)]
    exact (h disk hd i f hf).left
  case mpr =>
    intro h
    refine ⟨_, rfl, fun disk hd i f hf => ⟨?_, fun k hk => ?_⟩⟩
    · rw [hstat hd (List.mem_of_getElem? hf)]
      exact h i f hf
    · rw [← hw.bytes i f hf k hk]
      apply dirBytes_append_drop_getElem?
      rw [nextSector, Nat.mul_add]
      omega

-- The image of `mkfs` is what it should be, exactly when the files fit into it.
theorem builds_iff {sector : List UInt8} (hb : sector.length = sectorSize) (hp : ∀ f ∈ files, 0 ∉ f.path) :
    Builds sector files ↔ files = [] ∨ Fits files := by
  by_cases h₀ : files = []
  case pos => simp [Builds, h₀]
  case neg =>
    by_cases hn : files.length ≤ entsInDir
    case pos => rw [builds_iff_finds hb h₀ hn hp, finds_iff hn, or_iff_right h₀]
    case neg =>
      constructor
      case mp  =>
        intro h
        have ⟨_, hr, _⟩ := h.resolve_left h₀
        exact absurd (length_le_of_main hr) hn
      case mpr => exact fun h => absurd (h.resolve_left h₀).count hn

theorem builds_one : Builds (.replicate 512 7) [⟨[46, 47, 107], [1, 2, 3]⟩] := by
  apply (builds_iff (show (List.replicate 512 (7 : UInt8)).length = sectorSize from List.length_replicate)
    (by decide)).mpr
  exact .inr {
    count := by decide
    names := by decide
    sizes := by decide
    offsets := by decide
    distinct := fun i j f g hij hf hg => by
      have := (List.getElem?_eq_some_iff.mp hg).choose
      simp only [List.length_singleton] at this
      omega }

-- Of `a/x` and `b/x`, only the first one is found.
theorem same_name_not_built :
    ¬Builds (.replicate 512 7) [⟨[97, 47, 120], [1]⟩, ⟨[98, 47, 120], [2]⟩] := by
  rw [builds_iff_finds (show (List.replicate 512 (7 : UInt8)).length = sectorSize from List.length_replicate)
    (by decide) (by decide) (by decide)]
  intro h
  exact absurd (congrArg (Option.map Stat.startSector) (h 1 _ rfl)) (by decide)

end Mkfs
