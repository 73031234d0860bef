import Yabloko.Kernel.Segments
import Yabloko.Kernel.Mode13

-- The pages which are taken for `n` pages from the beginning of the image on, with their tables.
def imagePages (n : Nat) : Nat :=
  pagesFor (fun _ => false) (userBase / pgsize) n

-- The pages into which the file is read.
def Stat.pagesRead (statbuf : Stat) : Nat :=
  min statbuf.pages ((100 <<< 20) / pgsize)

-- The file can be read, if there are so many pages. A file which reaches the stack has to use all of them,
-- except that the last one cannot be used where a table begins.
structure Stat.Fits (statbuf : Stat) (pages : Nat) : Prop where
  top   : userBase + statbuf.size < 2 ^ 32
  read  : imagePages statbuf.pagesRead ≤ pages
  stack : userStackBase - 2 * pgsize < userBase + statbuf.size →
            pages ≤ imagePages statbuf.pages ∧ pages % 1025 ≠ 1

-- The tables for the file, and the page which is left after the stack has not been mapped.
def Stat.fileTables (statbuf : Stat) (i : Nat) : Bool :=
  userBase / pgsize / 1024 ≤ i ∧ i * 1024 < userBase / pgsize + statbuf.pages

def Stat.left (statbuf : Stat) (pages : Nat) : Nat :=
  if statbuf.pages ≤ 2048 ∧ pages = imagePages statbuf.pages + 1 then 1 else 0

-- What is to hold of the largest end of a segment. The process is entered without its stack, if there were
-- too few pages for the stack, but enough for the image.
def Stat.Separates (statbuf : Stat) (pages : Nat) (ends : Nat → Prop) : Prop :=
  if userStackBase - 2 * pgsize < userBase + statbuf.size then
    ∃ e, ends e ∧ userBase + statbuf.size < e ∧ pgroundup (userBase + statbuf.size) < e
  else if pages < statbuf.demand then
    ∃ e, ends e ∧ statbuf.left pages <
      pagesFor statbuf.fileTables (userBase / pgsize + statbuf.pages) (statbuf.bssPages e)
  else
    (∀ e, ends e → e ≤ userStackBase - 2 * pgsize) ∨
      pages ≤ statbuf.demand + statbuf.bssDemand (userStackBase - 2 * pgsize)

-- The conditions for a file, where there are so many pages apart from those of a new process.
def Machine.Admits (s : Machine) (disk : Disk) (name : CString) (statbuf : Stat) (pages : Nat) : Prop :=
  statbuf.fileSectors = 0 ∨ (statbuf.Fits pages ∧ ∀ task s₁, Kernel.Parses disk name s statbuf task s₁ →
    (∀ i < (disk.file statbuf).load16 44, ∃ e, s₁.view.segmentTop (phdrAddr (disk.file statbuf) i) = .ok e) ∧
    statbuf.Separates pages (s₁.SegmentEnd (disk.file statbuf)))

-- The image and the stack are ranges of the process which do not overlap.
structure Machine.Separate (s : Machine) (top : Nat) : Prop where
  below : top ≤ userStackBase - 2 * pgsize
  image : ∀ va, userBase ≤ va → va < top → s.UserAccessible va
  stack : ∀ va, userStackBase - 2 * pgsize ≤ va → va < userStackBase → s.UserAccessible va

-- A process is entered with such ranges, or there is a message.
def RunElf.Separate : EStateM.Result Fault Machine RunElf → Prop
  | .ok (.swtch _ top) s => s.Separate top
  | .ok (.returned _) _  => True
  | .error _ _           => False

theorem RunElf.Separate.exists_ok {r : EStateM.Result Fault Machine RunElf} (h : RunElf.Separate r) :
    ∃ e s, r = .ok e s := by
  cases r
  case ok e s    => exact ⟨e, s, rfl⟩
  case error e s => exact h.elim

-- The upper half of the directory which is loaded is the one of the kernel, as it has been.
def Machine.KernelHalf (s s' : Machine) : Prop :=
  ∀ i < 512, s'.mem.load32 (v2p s.kvm + 4 * (512 + i)) = s.mem.load32 (v2p s.kvm + 4 * (512 + i)) ∧
    s'.mem.load32 (s'.cr3 + 4 * (512 + i)) = s.mem.load32 (v2p s.kvm + 4 * (512 + i))

variable {s s' s₁ s₂ : Machine} {use use' use₁ use₂ : Nat → Use} {free free' free₁ free₂ : List Nat}
  {k t d n n₁ n₂ i v e top trapret : Nat} {r r₁ r₂ : Int} {statbuf : Stat} {disk : Disk} {name : CString}

theorem imagePages_eq (n : Nat) : imagePages n = n + (n + 1023) / 1024 := by
  induction n
  case zero      => rfl
  case succ n hi =>
    rw [imagePages] at hi ⊢
    rw [pagesFor, hi]
    simp only [userBase, pgsize, Bool.false_eq_true, false_or]
    split <;> omega

theorem imagePages_mono {m : Nat} (h : m ≤ n) : imagePages m ≤ imagePages n := by
  rw [imagePages_eq, imagePages_eq]
  omega

theorem Stat.imageSectors_le (statbuf : Stat) : statbuf.imageSectors ≤ 204800 :=
  Nat.min_le_right _ _

theorem Stat.lt_pagesRead_iff (hs : userBase + statbuf.size < 2 ^ 32) :
    n < statbuf.pagesRead ↔ n * pgsize < sectorSize * statbuf.imageSectors := by
  rw [pagesRead, pages, imageSectors, sectorsRead, fileSectors]
  simp only [userBase, pgsize, sectorSize, Nat.reduceShiftLeft, Nat.reduceDiv] at *
  omega

namespace Machine.HasTask

-- The pages of the file, if there are not so many.
theorem allocuvm_file_short (h : s.HasTask use free k t d) (hnew : ∀ i, ¬HasTable use d i)
    (hs : userBase + statbuf.size < 2 ^ 32) (hl : free.length < imagePages statbuf.pages) :
    ∃ s' use' free' n,
    (Kernel.allocuvm (kernbase + d) userBase ((userBase + statbuf.size) % 2 ^ 32)).run s = .ok (-1) s' ∧
    Ranged d (userBase / pgsize) n s use s' use' free' ∧ free'.length + imagePages n = free.length ∧
    free.length < imagePages (n + 1) := by
  have hlen := h.owns.length_lt
  simp only [phystop, pgsize, Nat.reduceDiv] at hlen
  have hp : statbuf.pages = (statbuf.size + pgsize - 1) / pgsize := rfl
  have hle := le_pagesFor (fun _ => false) (userBase / pgsize) (2 ^ 15)
  have htop j (hj : j < min statbuf.pages (2 ^ 15)) : (userBase / pgsize + j) * pgsize < userBase + statbuf.size := by
    simp only [userBase, pgsize] at hp ⊢
    omega
  have hshort : free.length < pagesFor (fun _ => false) (userBase / pgsize) (min statbuf.pages (2 ^ 15)) := by
    by_cases hc : statbuf.pages ≤ 2 ^ 15
    case pos => rwa [Nat.min_eq_left hc]
    case neg =>
      rw [Nat.min_eq_right (Nat.le_of_not_le hc)]
      exact Nat.lt_of_lt_of_le hlen hle
  have ⟨s', use', free', n, _, hr, hx, hl', hlt, _⟩ := h.owns.allocuvm_short h.user
    (fun i => (iff_false_right (hnew i)).mpr Bool.false_ne_true)
    (show pgroundup userBase = userBase / pgsize * pgsize by decide)
    (by simp only [userBase, pgsize]; omega) htop (fun v _ _ => h.owns.not_maps hnew v) hshort
  rw [Nat.mod_eq_of_lt hs]
  exact ⟨s', use', free', n, hr, hx, hl', hlt⟩

-- The file is read, if the pages for its sectors have been mapped.
theorem readImage_ok (h : s.HasTask use free k t d)
    (hr₁ : (Kernel.allocuvm (kernbase + d) userBase ((userBase + statbuf.size) % 2 ^ 32)).run s = .ok r₁ s₁)
    (h₁ : s₁.HasTask use₁ free₁ k t d)
    (hr₂ : (Kernel.allocuvm (kernbase + d) (userStackBase - 2 * pgsize) userStackBase).run s₁ = .ok r₂ s₂)
    (h₂ : s₂.HasTask use₂ free₂ k t d) (hs : userBase + statbuf.size < 2 ^ 32) (hf : 0 < statbuf.fileSectors)
    (hm : ∀ v, userBase / pgsize ≤ v → v < userBase / pgsize + statbuf.pagesRead → Maps use₂ d v)
    (disk : Disk) : ∃ r s', (Kernel.readImage disk statbuf (kernbase + t)).run s = .ok r s' ∧ 0 < r ∧
    s'.HasTask use₂ free₂ k t d ∧ s'.cr3 = d ∧ s'.HasHeader (disk.file statbuf) := by
  have ⟨s₃, hr₃, h₃, hc₃, _⟩ := h.readImage_eq hr₁ h₁ hr₂ h₂ disk
  have hle := statbuf.imageSectors_le
  have hb : s₃.Buffer userBase (sectorSize * statbuf.imageSectors) := h₃.owns.buffer fun i hi => by
    have hlt := (Stat.lt_pagesRead_iff (n := i / pgsize) hs).mpr <|
      Nat.lt_of_le_of_lt (Nat.div_mul_le_self _ _) hi
    rw [hc₃]
    simp only [userBase, kernbase, pgsize, sectorSize] at *
    exact ⟨by omega, hm _ (by omega) (by omega)⟩
  have ⟨s₄, hr₄, hw₄⟩ := Kernel.readFile_run disk statbuf (100 <<< 20)
    (show sectorSize * statbuf.imageSectors < 2 ^ 32 by simp only [sectorSize]; omega) hb
  have ⟨hf₄, _⟩ := h₃.owns.readFile_ok h₃.cr3 hr₄
  have hpos : 0 < statbuf.imageSectors := Nat.lt_min.mpr ⟨hf, by decide⟩
  refine ⟨_, s₄, hr₃.trans hr₄, ?_, h₃.frameWrite hf₄, by rw [hf₄.memory, hc₃], fun i hi => hw₄.bytes i ?_⟩
  case refine_1 =>
    have hsize : 0 < statbuf.size := by
      simp only [Stat.fileSectors, sectorSize] at hf
      omega
    change 0 < toInt32 (min (sectorSize * statbuf.imageSectors) statbuf.size)
    simp only [sectorSize]
    rw [toInt32_of_lt (by omega)]
    omega
  case refine_2 => exact Nat.lt_of_lt_of_le hi <| Nat.le_mul_of_pos_right _ hpos

-- If the file is read, all pages for its sectors have been mapped.
theorem readImage_maps (h : s.HasTask use free k t d)
    (hr₁ : (Kernel.allocuvm (kernbase + d) userBase ((userBase + statbuf.size) % 2 ^ 32)).run s = .ok r₁ s₁)
    (h₁ : s₁.HasTask use₁ free₁ k t d)
    (hr₂ : (Kernel.allocuvm (kernbase + d) (userStackBase - 2 * pgsize) userStackBase).run s₁ = .ok r₂ s₂)
    (h₂ : s₂.HasTask use₂ free₂ k t d)
    (hr : (Kernel.readImage disk statbuf (kernbase + t)).run s = .ok r s') :
    ∀ i < sectorSize * statbuf.imageSectors, Maps use₂ d ((userBase + i) / pgsize) := by
  have ⟨s₃, hr₃, h₃, hc₃, _⟩ := h.readImage_eq hr₁ h₁ hr₂ h₂ disk
  rw [← hc₃]
  exact h₃.owns.readFile_maps h₃.cr3 (hr₃.symm.trans hr)

-- A file which is read fits.
theorem fits_of_readImage (h : s.HasTask use free k t d) (hnew : ∀ i, ¬HasTable use d i)
    (hf : 0 < statbuf.fileSectors) (hlt : statbuf.size < 2 ^ 32)
    (hr : (Kernel.readImage disk statbuf (kernbase + t)).run s = .ok r s') : statbuf.Fits free.length := by
  classical
  have hp : statbuf.pages = (statbuf.size + pgsize - 1) / pgsize := rfl
  by_cases htop : userBase + statbuf.size < 2 ^ 32
  case neg =>
    have hpos : 0 < statbuf.imageSectors := Nat.lt_min.mpr ⟨hf, by decide⟩
    have hwrap : (userBase + statbuf.size) % 2 ^ 32 ≤ userBase := by
      simp only [userBase] at *
      omega
    have ⟨s₁, use₁, free₁, hr₁, hx₁, _⟩ := h.allocuvm_nothing hnew hwrap
    have h₁ := h.ranged hx₁ (.inr rfl)
    have hnone v : ¬Maps use₁ d v := by
      rw [hx₁.maps, or_iff_right (h.owns.not_maps hnew v)]
      exact fun hv => Nat.not_lt.mpr hv.left hv.right
    have ⟨r₂, s₂, use₂, free₂, n, hr₂, hx₂, _⟩ := h₁.allocuvm_stack_any .rfl fun v _ => hnone v
    have hm := h.readImage_maps hr₁ h₁ hr₂ (h₁.ranged hx₂ (.inl (by decide))) hr 0 (by
      simp only [sectorSize]
      omega)
    rw [hx₂.maps, or_iff_right (hnone _)] at hm
    exact absurd hm.left (by decide)
  case pos =>
    by_cases hl : imagePages statbuf.pages ≤ free.length
    case pos =>
      refine ⟨htop, Nat.le_trans (imagePages_mono (Nat.min_le_left _ _)) hl, fun hs => ?_⟩
      have hle : free.length ≤ imagePages statbuf.pages := by
        by_contra hc
        have ⟨s₁, hr₁, _⟩ := h.readImage_remap hnew hs (Nat.lt_of_not_le hc) disk
        cases hr.symm.trans hr₁
      have hcount := imagePages_eq statbuf.pages
      exact ⟨hle, by omega⟩
    case neg =>
      have ⟨s₁, use₁, free₁, n, hr₁, hx₁, hl₁, hn⟩ := h.allocuvm_file_short hnew htop (Nat.lt_of_not_le hl)
      have h₁ := h.ranged hx₁ (.inl (by decide))
      have hcount := imagePages_eq n
      have hcount' := imagePages_eq (n + 1)
      have hmaps₁ v : Maps use₁ d v ↔ userBase / pgsize ≤ v ∧ v < userBase / pgsize + n := by
        rw [hx₁.maps, or_iff_right (h.owns.not_maps hnew v)]
      -- A page is only left where a table begins, and not if the stack has been reached.
      have hrest (hne : free₁.length ≠ 0) : n % 1024 = 0 ∧ n ≤ 2814 := by
        refine ⟨by omega, Nat.le_of_not_lt fun hgt => ?_⟩
        have hm : Maps use₁ d ((userStackBase - 2 * pgsize) / pgsize) := (hmaps₁ _).mpr <| by
          simp only [userBase, userStackBase, pgsize]
          omega
        have ⟨s₂, hr₂, _⟩ := h.readImage_hits hr₁ h₁ hm (Nat.pos_of_ne_zero hne) disk
        cases hr.symm.trans hr₂
      have hread : statbuf.pagesRead ≤ n := by
        by_contra hc
        have hlast := (Stat.lt_pagesRead_iff htop).mp (Nat.lt_of_not_le hc)
        have mapped {r₂ s₂ use₂ free₂ m} (hr₂ : (Kernel.allocuvm (kernbase + d) (userStackBase - 2 * pgsize)
            userStackBase).run s₁ = .ok r₂ s₂)
            (hx₂ : Ranged d ((userStackBase - 2 * pgsize) / pgsize) m s₁ use₁ s₂ use₂ free₂) :
            2814 ≤ n ∧ n < 2814 + m := by
          have hm := h.readImage_maps hr₁ h₁ hr₂ (h₁.ranged hx₂ (.inl (by decide))) hr _ hlast
          rw [hx₂.maps, hmaps₁] at hm
          simp only [userBase, userStackBase, pgsize] at hm
          omega
        by_cases hz : free₁.length = 0
        case pos =>
          cases List.eq_nil_of_length_eq_zero hz
          have ⟨s₂, use₂, hr₂, hx₂⟩ := h₁.allocuvm_stack_nil
          have hm := mapped hr₂ hx₂
          omega
        case neg =>
          have ⟨hmod, hle⟩ := hrest hz
          have ⟨r₂, s₂, use₂, free₂, m, hr₂, hx₂, _⟩ := h₁.allocuvm_stack_any .rfl fun v hv hm => by
            have := (hmaps₁ v).mp hm
            simp only [userBase, userStackBase, pgsize] at this hv
            omega
          have hm := mapped hr₂ hx₂
          omega
      refine ⟨htop, ?_, fun hs => ⟨Nat.le_of_not_le hl, fun hmod => ?_⟩⟩
      case refine_1 =>
        have hle := imagePages_mono hread
        omega
      case refine_2 =>
        have hle := (hrest (by omega)).right
        simp only [Stat.pagesRead, userBase, userStackBase, pgsize, Nat.reduceShiftLeft] at hread hs hp
        omega

-- There are enough pages for the file, but not for the stack.
theorem readImage_short (h : s.HasTask use free k t d) (hnew : ∀ i, ¬HasTable use d i) (hb : statbuf.BelowStack)
    (hl : imagePages statbuf.pages ≤ free.length) (hlt : free.length < statbuf.demand) (disk : Disk) :
    ∃ r s' use' free', (Kernel.readImage disk statbuf (kernbase + t)).run s = .ok r s' ∧ 0 < r ∧
    s'.HasTask use' free' k t d ∧ s'.cr3 = d ∧ s'.HasHeader (disk.file statbuf) ∧
    free'.length = statbuf.left free.length ∧ ¬Maps use' d (userStackBase / pgsize - 1) ∧
    (free'.length ≠ 0 → (∀ v, userBase / pgsize + statbuf.pages ≤ v → ¬Maps use' d v) ∧
      ∀ i, statbuf.fileTables i = true ↔ HasTable use' d i) := by
  have hp : statbuf.pages = (statbuf.size + pgsize - 1) / pgsize := rfl
  obtain ⟨hpos, hstack⟩ := hb
  simp only [userBase, userStackBase, pgsize] at hp hstack
  obtain ⟨s₁, use₁, free₁, hr₁, hx₁, hl₁, _⟩ := h.allocuvm_file hnew hl
  have h₁ := h.ranged hx₁ (.inl (by decide))
  have hmaps₁ v : Maps use₁ d v ↔ userBase / pgsize ≤ v ∧ v < userBase / pgsize + statbuf.pages := by
    rw [hx₁.maps, or_iff_right (h.owns.not_maps hnew v)]
  have htables₁ i : HasTable use₁ d i ↔ statbuf.fileTables i = true := by
    rw [hx₁.tables, or_iff_right (hnew i), Stat.fileTables, decide_eq_true_iff]
    simp only [userBase, pgsize, Nat.reduceDiv]
    constructor
    case mp  =>
      rintro ⟨v, hv, hv', he⟩
      omega
    case mpr => exact fun hi => ⟨max 1024 (i * 1024), by omega, by omega, by omega⟩
  have ht₁ : HasTable use₁ d 3 ↔ 2048 < statbuf.pages := by
    rw [htables₁, Stat.fileTables, decide_eq_true_iff]
    simp only [userBase, pgsize, Nat.reduceDiv]
    omega
  obtain ⟨s₂, use₂, free₂, n, hr₂, hx₂, hn, hl₂, hrest⟩ := h₁.allocuvm_stack_short ht₁ (fun v hv hm => by
    have := (hmaps₁ v).mp hm
    simp only [userBase, userStackBase, pgsize] at this hv
    omega) (by
    rw [Stat.demand] at hlt
    rw [imagePages] at hl
    omega)
  have h₂ := h₁.ranged hx₂ (.inl (by decide))
  obtain ⟨r, s₃, hr₃, hr, h₃, hc₃, hh₃⟩ := h.readImage_ok hr₁ h₁ hr₂ h₂
    (by simp only [userBase]; omega) (by simp only [Stat.fileSectors, sectorSize]; omega)
    (fun v hv hv' => (hx₂.maps v).mpr <| .inl <| (hmaps₁ v).mpr ⟨hv, by
      have hle : statbuf.pagesRead ≤ statbuf.pages := Nat.min_le_left _ _
      omega⟩) disk
  refine ⟨r, s₃, use₂, free₂, hr₃, hr, h₃, hc₃, hh₃, ?_, fun hm => ?_, fun hne => ?_⟩
  case refine_1 =>
    rw [hl₂, Stat.left]
    rw [imagePages] at hl ⊢
    apply if_congr _ rfl rfl
    omega
  case refine_2 =>
    rw [hx₂.maps, hmaps₁] at hm
    simp only [userBase, userStackBase, pgsize] at hm
    omega
  case refine_3 =>
    have hz : n = 0 := hrest.resolve_right hne
    subst hz
    refine ⟨fun v hv hm => ?_, fun i => ?_⟩
    case refine_1 =>
      rw [hx₂.maps, hmaps₁] at hm
      omega
    case refine_2 =>
      rw [hx₂.tables, htables₁, or_iff_left]
      rintro ⟨v, hv, hv', _⟩
      exact Nat.not_lt.mpr hv hv'

-- The file has reached the stack, and it has taken all pages.
theorem readImage_full (h : s.HasTask use free k t d) (hnew : ∀ i, ¬HasTable use d i)
    (hs : userStackBase - 2 * pgsize < userBase + statbuf.size) (hf : 0 < statbuf.fileSectors)
    (hfit : statbuf.Fits free.length) (disk : Disk) : ∃ r s' use',
    (Kernel.readImage disk statbuf (kernbase + t)).run s = .ok r s' ∧ 0 < r ∧ s'.HasTask use' [] k t d ∧
    s'.cr3 = d ∧ s'.HasHeader (disk.file statbuf) := by
  have ⟨htop, hread, hstack⟩ := hfit
  have ⟨hle, hmod⟩ := hstack hs
  have ⟨r₁, s₁, use₁, n, hr₁, hx₁, hn⟩ : ∃ r₁ s₁ use₁ n, (Kernel.allocuvm (kernbase + d) userBase
      ((userBase + statbuf.size) % 2 ^ 32)).run s = .ok r₁ s₁ ∧
      Ranged d (userBase / pgsize) n s use s₁ use₁ [] ∧ statbuf.pagesRead ≤ n := by
    cases Nat.lt_or_eq_of_le hle
    case inl hlt =>
      have ⟨s₁, use₁, free₁, n, hr₁, hx₁, hl₁, hn⟩ := h.allocuvm_file_short hnew htop hlt
      have hcount := imagePages_eq n
      have hcount' := imagePages_eq (n + 1)
      have hz : free₁.length = 0 := by
        by_contra hne
        have hn₀ : n % 1024 = 0 := by omega
        omega
      cases List.eq_nil_of_length_eq_zero hz
      refine ⟨_, s₁, use₁, n, hr₁, hx₁, Nat.le_of_not_lt fun hc => ?_⟩
      have hle : imagePages (n + 1) ≤ imagePages statbuf.pagesRead := imagePages_mono hc
      omega
    case inr heq =>
      have ⟨s₁, use₁, free₁, hr₁, hx₁, hl₁, _⟩ := h.allocuvm_file hnew (Nat.le_of_eq heq.symm)
      rw [imagePages] at heq
      cases List.eq_nil_of_length_eq_zero (show free₁.length = 0 by omega)
      exact ⟨_, s₁, use₁, _, hr₁, hx₁, Nat.min_le_left _ _⟩
  have h₁ := h.ranged hx₁ (.inl (by decide))
  have ⟨s₂, use₂, hr₂, hx₂⟩ := h₁.allocuvm_stack_nil
  have ⟨r, s₃, hr₃, hr, h₃, hc₃, hh₃⟩ := h.readImage_ok hr₁ h₁ hr₂ (h₁.ranged hx₂ (.inr rfl)) htop hf
    (fun v hv hv' => (hx₂.maps v).mpr <| .inl <| (hx₁.maps v).mpr <| .inr ⟨hv, by omega⟩) disk
  exact ⟨r, s₃, use₂, hr₃, hr, h₃, hc₃, hh₃⟩

-- The process is entered.
theorem enterImage_swtch (h : s.HasTask use free k t d) (h₁ : s₁.HasTask use₁ free₁ k t d) (hc₁ : s₁.cr3 = d)
    (hr : (Kernel.imageTop userBase ((userBase + statbuf.size) % 2 ^ 32)).run s = .ok top s)
    (hcall : if (userBase + statbuf.size) % 2 ^ 32 < top then
        (Kernel.allocuvm (kernbase + d) ((userBase + statbuf.size) % 2 ^ 32) top).run s = .ok 0 s₁
      else s₁ = s) {e : RunElf}
    (hr' : (Kernel.enterImage trapret statbuf (kernbase + t)).run s = .ok e s') :
    (∃ u, e = .swtch u top) ∧ s'.HasTask use₁ free₁ k t d ∧ s'.cr3 = d := by
  have finish (hr : ((do Kernel.setupStack trapret (kernbase + t + Task.stack) userBase
                         return .swtch (kernbase + t + Task.stack + Kstack.context) top) : Kernel RunElf).run s₁ =
        .ok e s') : (∃ u, e = .swtch u top) ∧ s'.HasTask use₁ free₁ k t d ∧ s'.cr3 = d := by
    have ⟨_, s₂, hr₂, hr⟩ := EStateM.bind_eq_ok hr
    have ⟨h₂, hc₂⟩ := h₁.setupStack hr₂
    cases hr
    exact ⟨⟨_, rfl⟩, h₂, hc₂.trans hc₁⟩
  rw [Kernel.enterImage, EStateM.bind_ok hr] at hr'
  split at hr'
  case isTrue hlt  =>
    rw [if_pos hlt] at hcall
    rw [EStateM.bind_ok h.load_pgdir, EStateM.bind_ok hcall] at hr'
    exact finish hr'
  case isFalse hge =>
    rw [if_neg hge] at hcall
    exact finish (hcall ▸ hr')

-- There are not enough pages.
theorem enterImage_returned (h : s.HasTask use free k t d)
    (hr : (Kernel.imageTop userBase ((userBase + statbuf.size) % 2 ^ 32)).run s = .ok top s)
    (hlt : (userBase + statbuf.size) % 2 ^ 32 < top)
    (hcall : (Kernel.allocuvm (kernbase + d) ((userBase + statbuf.size) % 2 ^ 32) top).run s = .ok (-1) s₁)
    (trapret : Nat) : (Kernel.enterImage trapret statbuf (kernbase + t)).run s =
      .ok (.returned ": out of memory\n") s₁ := by
  rw [Kernel.enterImage, EStateM.bind_ok hr, if_pos hlt, EStateM.bind_ok h.load_pgdir, EStateM.bind_ok hcall]
  rfl

-- All pages have been taken for a file which reaches the stack.
theorem enterImage_full (h : s.HasTask use [] k t d) (hc : s.cr3 = d) (hs : userBase + statbuf.size < 2 ^ 32)
    (hgt : userStackBase - 2 * pgsize < userBase + statbuf.size)
    (hr : (Kernel.imageTop userBase ((userBase + statbuf.size) % 2 ^ 32)).run s = .ok top s)
    (hle : userBase + statbuf.size ≤ top) :
    RunElf.Separate ((Kernel.enterImage trapret statbuf (kernbase + t)).run s) ↔
      userBase + statbuf.size < top ∧ pgroundup (userBase + statbuf.size) < top := by
  have he : (userBase + statbuf.size) % 2 ^ 32 = userBase + statbuf.size := Nat.mod_eq_of_lt hs
  by_cases hlt : userBase + statbuf.size < top ∧ pgroundup (userBase + statbuf.size) < top
  case pos =>
    obtain ⟨s₁, hcall⟩ : ∃ s₁, (Kernel.allocuvm (kernbase + d) ((userBase + statbuf.size) % 2 ^ 32) top).run s =
        .ok (-1) s₁ := by
      have hround := (Nat.div_mul_cancel <| Nat.dvd_mul_left pgsize
        ((userBase + statbuf.size + pgsize - 1) % 2 ^ 32 / pgsize)).symm
      rw [← pgroundup] at hround
      have hpage := hlt.right
      rw [hround] at hpage
      rw [he, Kernel.allocuvm, hround]
      exact ⟨_, h.owns.allocuvm_nil hpage _⟩
    rw [h.enterImage_returned hr (by omega) hcall]
    exact iff_of_true trivial hlt
  case neg =>
    refine iff_of_false ?_ hlt
    intro hsep
    obtain ⟨e, s', hr'⟩ := hsep.exists_ok
    obtain ⟨⟨u, hu⟩, _⟩ := h.enterImage_swtch h hc hr (by
      split
      case isTrue hlt' =>
        rw [he, Kernel.allocuvm, Kernel.allocuvm.go, if_neg (by omega)]
        rfl
      case isFalse     => rfl) hr'
    rw [hr', hu] at hsep
    have hb := hsep.below
    omega

-- The stack has not been mapped completely.
theorem enterImage_short (h : s.HasTask use free k t d) (hc : s.cr3 = d) (hb : statbuf.BelowStack) {pages : Nat}
    (hl : free.length = statbuf.left pages) (hstack : ¬Maps use d (userStackBase / pgsize - 1))
    (hrest : free.length ≠ 0 → (∀ v, userBase / pgsize + statbuf.pages ≤ v → ¬Maps use d v) ∧
      ∀ i, statbuf.fileTables i = true ↔ HasTable use d i)
    (hr : (Kernel.imageTop userBase ((userBase + statbuf.size) % 2 ^ 32)).run s = .ok top s) :
    RunElf.Separate ((Kernel.enterImage trapret statbuf (kernbase + t)).run s) ↔
      free.length < pagesFor statbuf.fileTables (userBase / pgsize + statbuf.pages) (statbuf.bssPages top) := by
  have hround := hb.round
  have hbss : statbuf.bssPages top = (top + pgsize - 1) / pgsize - (userBase / pgsize + statbuf.pages) := rfl
  have hleft : statbuf.left pages ≤ 1 := by
    rw [Stat.left]
    split <;> omega
  have hpages : free.length ≠ 0 → statbuf.pages ≤ 2048 := by
    intro hne
    rw [hl, Stat.left] at hne
    split at hne
    case isTrue h  => exact h.left
    case isFalse   => exact absurd rfl hne
  have hlt n (hn : n < statbuf.bssPages top) : (userBase / pgsize + statbuf.pages + n) * pgsize < top := by
    simp only [userBase, pgsize] at *
    omega
  by_cases hshort : free.length < pagesFor statbuf.fileTables (userBase / pgsize + statbuf.pages) (statbuf.bssPages top)
  case pos =>
    have hpos : 0 < statbuf.bssPages top := by
      by_contra hz
      rw [Nat.eq_zero_of_not_pos hz, pagesFor] at hshort
      exact Nat.not_lt_zero _ hshort
    have htop : userBase + statbuf.size < top := by
      by_contra hge
      rw [Stat.bssPages_eq_zero (Nat.le_of_not_lt hge)] at hpos
      exact Nat.lt_irrefl 0 hpos
    obtain ⟨s₁, hcall⟩ : ∃ s₁, (Kernel.allocuvm (kernbase + d) ((userBase + statbuf.size) % 2 ^ 32) top).run s =
        .ok (-1) s₁ := by
      rw [hb.fileTop]
      by_cases hz : free.length = 0
      case pos =>
        cases List.eq_nil_of_length_eq_zero hz
        rw [Kernel.allocuvm, hround]
        exact ⟨_, h.owns.allocuvm_nil (hlt 0 hpos) _⟩
      case neg =>
        obtain ⟨hmaps, htables⟩ := hrest hz
        have hp := hpages hz
        obtain ⟨s₁, _, _, _, _, hcall, _⟩ := h.owns.allocuvm_short h.user htables hround
          (n := min (statbuf.bssPages top) 2) (by simp only [userBase, pgsize]; omega)
          (fun n hn => hlt n (by omega)) (fun v hv _ => hmaps v hv) (by
            by_cases h₂ : statbuf.bssPages top ≤ 2
            case pos => rwa [Nat.min_eq_left h₂]
            case neg =>
              have hle := le_pagesFor statbuf.fileTables (userBase / pgsize + statbuf.pages) 2
              rw [Nat.min_eq_right (Nat.le_of_not_le h₂)]
              omega)
        exact ⟨s₁, hcall⟩
    rw [h.enterImage_returned hr (by rwa [hb.fileTop]) hcall]
    exact iff_of_true trivial hshort
  case neg =>
    refine iff_of_false (fun hsep => ?_) hshort
    have hle := le_pagesFor statbuf.fileTables (userBase / pgsize + statbuf.pages) (statbuf.bssPages top)
    obtain ⟨s₁, use₁, free₁, h₁, hc₁, hstack₁, hcall⟩ : ∃ s₁ use₁ free₁, s₁.HasTask use₁ free₁ k t d ∧ s₁.cr3 = d ∧
        ¬Maps use₁ d (userStackBase / pgsize - 1) ∧
        if userBase + statbuf.size < top then
          (Kernel.allocuvm (kernbase + d) (userBase + statbuf.size) top).run s = .ok 0 s₁
        else s₁ = s := by
      by_cases hz : free.length = 0
      case pos =>
        refine ⟨s, use, free, h, hc, hstack, ?_⟩
        split
        case isFalse => rfl
        case isTrue  =>
          rw [Kernel.allocuvm, hround, Kernel.allocuvm.go, if_neg (by simp only [userBase, pgsize] at *; omega)]
          rfl
      case neg =>
        obtain ⟨hmaps, htables⟩ := hrest hz
        have hp := hpages hz
        by_cases htop : userBase + statbuf.size < top
        case neg => exact ⟨s, use, free, h, hc, hstack, by rw [if_neg htop]⟩
        case pos =>
          obtain ⟨s₁, use₁, free₁, hcall, hx, _⟩ := h.owns.allocuvm_ok h.user htables hround
            (n := statbuf.bssPages top) (by simp only [userBase, pgsize]; omega) hlt
            (by simp only [userBase, pgsize] at *; omega) (fun v hv _ => hmaps v hv) (Nat.le_of_not_lt hshort)
          refine ⟨s₁, use₁, free₁, h.ranged hx (.inl (by simp only [userBase, pgsize]; omega)),
            hx.extend.cr3.trans hc, fun hm => ?_, by rwa [if_pos htop]⟩
          rw [hx.maps, or_iff_right hstack] at hm
          simp only [userBase, userStackBase, pgsize] at hm
          omega
    obtain ⟨e, s', hr'⟩ := hsep.exists_ok
    obtain ⟨⟨u, hu⟩, h', hc'⟩ := h.enterImage_swtch h₁ hc₁ hr (by rwa [hb.fileTop]) hr'
    rw [hr', hu] at hsep
    have ha := hsep.stack (userStackBase - 1) (by decide) (by decide)
    rw [h'.owns.userAccessible_iff h'.cr3, hc'] at ha
    exact hstack₁ ha.right

end Machine.HasTask

namespace Machine.Loads

theorem separate (h : s.Loads use free k t d (disk.imageUpTo statbuf top))
    (hle : top ≤ userStackBase - 2 * pgsize) : s.Separate top := by
  have accessible {va} (hva : va < kernbase) (hm : disk.imageUpTo statbuf top va ≠ none) :
      s.UserAccessible va := by
    rw [h.task.owns.userAccessible_iff h.task.cr3, h.cr3]
    exact ⟨hva, (h.task.owns.maps_iff h.shows h.task.user hva).mpr hm⟩
  refine ⟨hle, fun va hl hu => ?_, fun va hl hu => ?_⟩
  case refine_1 =>
    apply accessible (by simp only [userStackBase, pgsize, kernbase] at *; omega)
    by_cases hlt : va < userBase + sectorSize * sectors statbuf.size
    case pos =>
      have hva : va - userBase < sectorSize * sectors statbuf.size := by omega
      rw [← Nat.add_sub_cancel' hl, Disk.imageUpTo_file hva]
      exact Option.some_ne_none _
    case neg =>
      rw [Disk.imageUpTo_zero (Nat.le_of_not_lt hlt) (.inl hu)]
      exact Option.some_ne_none _
  case refine_2 =>
    apply accessible (by simp only [userStackBase, kernbase] at *; omega)
    exact disk.imageUpTo_stack statbuf top hl hu

theorem enterImage_separate (h : s.Loads use free k t d (disk.image statbuf)) (hb : statbuf.BelowStack)
    (hT : ∀ i, statbuf.tables i = true ↔ HasTable use d i)
    (hr : (Kernel.imageTop userBase (userBase + statbuf.size)).run s = .ok top s) :
    RunElf.Separate ((Kernel.enterImage trapret statbuf (kernbase + t)).run s) ↔
      top ≤ userStackBase - 2 * pgsize ∨ free.length ≤ statbuf.bssDemand (userStackBase - 2 * pgsize) := by
  by_cases hle : top ≤ userStackBase - 2 * pgsize
  case pos =>
    refine iff_of_true ?_ (.inl hle)
    have ⟨hok, hshort⟩ := h.enterImage hb hT hr hle trapret
    by_cases hl : statbuf.bssDemand top ≤ free.length
    case pos =>
      have ⟨s', use', free', hr', h', _⟩ := hok hl
      rw [hr']
      exact h'.separate hle
    case neg =>
      have ⟨s', hr'⟩ := hshort (Nat.lt_of_not_le hl)
      rw [hr']
      trivial
  case neg =>
    have ⟨hhits, hshort⟩ := h.enterImage_stack hb hT hr (Nat.lt_of_not_le hle) trapret
    rw [or_iff_right hle]
    by_cases hl : free.length ≤ statbuf.bssDemand (userStackBase - 2 * pgsize)
    case pos =>
      have ⟨s', hr'⟩ := hshort hl
      rw [hr']
      exact iff_of_true trivial hl
    case neg =>
      have ⟨s', hr', _⟩ := hhits (Nat.lt_of_not_le hl)
      rw [hr']
      exact iff_of_false id hl

end Machine.Loads

-- Whether the largest end of a segment has a property, which the end of the file does not have.
theorem exists_end_iff {ends p : Nat → Prop} {fileTop : Nat} (hle : ∀ e, ends e → e ≤ top)
    (hend : top = fileTop ∨ ends top) (hp : ¬p fileTop) (hmono : ∀ e, e ≤ top → p e → p top) :
    p top ↔ ∃ e, ends e ∧ p e := by
  constructor
  case mp  =>
    intro h
    cases hend
    case inl he => exact absurd (he ▸ h) hp
    case inr he => exact ⟨top, he, h⟩
  case mpr => exact fun ⟨e, he, h⟩ => hmono e (hle e he) h

theorem pagesFor_le_of_le (tables : Nat → Bool) (a : Nat) {m : Nat} (h : m ≤ n) :
    pagesFor tables a m ≤ pagesFor tables a n :=
  monotone_nat_of_le_succ (fun n => Nat.le_of_lt <| pagesFor_mono tables a n) h

-- The headers are accessible, and `c` holds of the largest end.
theorem Machine.HasHeader.separate_iff (h : s.HasHeader (disk.file statbuf)) {task : Nat} {c : Prop}
    (hc : ∀ top, (Kernel.imageTop userBase ((userBase + statbuf.size) % 2 ^ 32)).run s = .ok top s →
      (userBase + statbuf.size) % 2 ^ 32 ≤ top → (∀ e, s.SegmentEnd (disk.file statbuf) e → e ≤ top) →
      (top = (userBase + statbuf.size) % 2 ^ 32 ∨ s.SegmentEnd (disk.file statbuf) top) →
      (RunElf.Separate ((Kernel.enterImage trapret statbuf task).run s) ↔ c)) :
    RunElf.Separate ((Kernel.enterImage trapret statbuf task).run s) ↔
      (∀ i < (disk.file statbuf).load16 44, ∃ e, s.view.segmentTop (phdrAddr (disk.file statbuf) i) = .ok e) ∧
      c := by
  cases hr : (Kernel.imageTop userBase ((userBase + statbuf.size) % 2 ^ 32)).run s with
  | ok top s'  =>
    obtain ⟨hs, hall, hle, hends, hend⟩ := h.imageTop_spec hr
    rw [hc top (hs ▸ hr) hle hends hend, and_iff_right hall]
  | error e s' =>
    rw [Kernel.enterImage, EStateM.bind_error hr]
    refine iff_of_false id fun hall => ?_
    choose! e he using hall.left
    obtain ⟨top, hr', _⟩ := h.imageTop_ok he ((userBase + statbuf.size) % 2 ^ 32)
    cases hr.symm.trans hr'

-- For a file which is read.
theorem Kernel.Parses.admits_iff (h : Kernel.Parses disk name s statbuf t s₁) (hf : statbuf.fileSectors ≠ 0)
    {pages : Nat} (hfit : statbuf.Fits pages) : s.Admits disk name statbuf pages ↔
      (∀ i < (disk.file statbuf).load16 44, ∃ e, s₁.view.segmentTop (phdrAddr (disk.file statbuf) i) = .ok e) ∧
      statbuf.Separates pages (s₁.SegmentEnd (disk.file statbuf)) := by
  rw [Machine.Admits, or_iff_right hf, and_iff_right hfit]
  constructor
  case mp  => exact fun hall => hall t s₁ h
  case mpr =>
    intro hall task s' hp
    rw [(h.unique hp).right]
    exact hall

namespace Machine.Rests

-- A file of which no sector is read.
theorem runElf_nothing (h : s.Rests use free k) (hs : disk.stat name = some statbuf)
    (hf : statbuf.fileSectors = 0) (hl : s.newPages ≤ free.length) (trapret : Nat) : ∃ s',
    (Kernel.runElf trapret disk name).run s = .ok (.returned ": file not found\n") s' := by
  have ⟨task, s₁, hr₁, _⟩ := h.newProcess_run hl
  have ⟨use₁, free₁, t, d, ht, h₁, hnew, _⟩ := h.newProcess hr₁
  have ⟨s₂, _, _, hr₂, _⟩ := h₁.readImage_nothing hnew hf (Disk.stat_size_lt hs) disk
  refine ⟨s₂, ?_⟩
  rw [Kernel.runElf, hs]
  simp only [EStateM.bind_ok hr₁]
  rw [ht, Kernel.loadElf, EStateM.bind_ok hr₂]
  rfl

-- A file which is read.
theorem separate_iff_of_fits (h : s.Rests use free k) (hs : disk.stat name = some statbuf)
    (hf : 0 < statbuf.fileSectors) {pages : Nat} (hl : free.length = s.newPages + pages)
    (hfit : statbuf.Fits pages) :
    RunElf.Separate ((Kernel.runElf trapret disk name).run s) ↔ s.Admits disk name statbuf pages := by
  have hpos : 0 < statbuf.size := by
    simp only [Stat.fileSectors, sectorSize] at hf
    omega
  obtain ⟨task, s₁, hr₁, _⟩ := h.newProcess_run (by omega)
  obtain ⟨use₁, free₁, t, d, ht, h₁, hnew, hb₁⟩ := h.newProcess hr₁
  have hl₁ := hb₁.length
  have he : pages = free₁.length := by omega
  subst he
  subst ht
  by_cases hgt : userStackBase - 2 * pgsize < userBase + statbuf.size
  case pos =>
    obtain ⟨r, s₂, use₂, hr₂, hr, h₂, hc₂, hh₂⟩ := h₁.readImage_full hnew hgt hf hfit disk
    have hp : Kernel.Parses disk name s statbuf (kernbase + t) s₂ := ⟨hs, s₁, r, hr₁, hr₂, hr⟩
    rw [hp.admits_iff (Nat.ne_of_gt hf) hfit, hp.runElf_eq, Stat.Separates, if_pos hgt]
    apply hh₂.separate_iff
    intro top hr hle hends hend
    rw [Nat.mod_eq_of_lt hfit.top] at hle hend
    rw [h₂.enterImage_full hc₂ hfit.top hgt hr hle]
    apply exists_end_iff hends hend
    · exact fun hc => absurd hc.left (Nat.lt_irrefl _)
    · exact fun e he hc => ⟨by omega, by omega⟩
  case neg =>
    have hb : statbuf.BelowStack := ⟨hpos, Nat.le_of_not_lt hgt⟩
    by_cases hshort : free₁.length < statbuf.demand
    case pos =>
      have hread : imagePages statbuf.pages ≤ free₁.length := by
        have hle := hfit.read
        rwa [Stat.pagesRead, Nat.min_eq_left] at hle
        have hstack := hb.right
        simp only [Stat.pages, userBase, userStackBase, pgsize, Nat.reduceShiftLeft] at hstack ⊢
        omega
      obtain ⟨r, s₂, use₂, free₂, hr₂, hr, h₂, hc₂, hh₂, hl₂, hstack, hrest⟩ :=
        h₁.readImage_short hnew hb hread hshort disk
      have hp : Kernel.Parses disk name s statbuf (kernbase + t) s₂ := ⟨hs, s₁, r, hr₁, hr₂, hr⟩
      rw [hp.admits_iff (Nat.ne_of_gt hf) hfit, hp.runElf_eq, Stat.Separates, if_neg hgt, if_pos hshort]
      apply hh₂.separate_iff
      intro top hr hle hends hend
      rw [hb.fileTop] at hend
      rw [h₂.enterImage_short hc₂ hb hl₂ hstack hrest hr, ← hl₂]
      apply exists_end_iff hends hend
      · rw [Stat.bssPages_eq_zero (Nat.le_refl _)]
        exact Nat.not_lt_zero _
      · intro e he hlt
        refine Nat.lt_of_lt_of_le hlt <| pagesFor_le_of_le _ _ ?_
        simp only [Stat.bssPages]
        exact Nat.sub_le_sub_right (Nat.div_le_div_right (by omega)) _
    case neg =>
      have hdemand := Nat.le_of_not_lt hshort
      obtain ⟨s₂, use₂, free₂, hr₂, h₂, hT, hx₂⟩ := h₁.readImage_run hnew hb hdemand disk
      have hl₂ := hx₂.length
      have hp : Kernel.Parses disk name s statbuf (kernbase + t) s₂ :=
        ⟨hs, s₁, _, hr₁, hr₂, by exact_mod_cast hpos⟩
      rw [hp.admits_iff (Nat.ne_of_gt hf) hfit, hp.runElf_eq, Stat.Separates, if_neg hgt, if_neg hshort]
      apply (h₂.hasHeader hb).separate_iff
      intro top hr hle hends hend
      rw [hb.fileTop] at hr hle hend
      rw [h₂.enterImage_separate hb hT hr]
      apply or_congr
      case h₁ =>
        constructor
        case mp  => exact fun htop e he => Nat.le_trans (hends e he) htop
        case mpr =>
          intro hall
          cases hend
          case inl he => exact he ▸ hb.right
          case inr he => exact hall top he
      case h₂ => omega

-- If there is no fault, there are the pages for the new process, and for the file.
theorem fits_of_runElf (h : s.Rests use free k) (hs : disk.stat name = some statbuf) {e : RunElf}
    (hr : (Kernel.runElf trapret disk name).run s = .ok e s') :
    ∃ pages, free.length = s.newPages + pages ∧ (statbuf.fileSectors ≠ 0 → statbuf.Fits pages) := by
  rw [Kernel.runElf, hs] at hr
  obtain ⟨task, s₁, hr₁, hr⟩ := EStateM.bind_eq_ok hr
  obtain ⟨use₁, free₁, t, d, ht, h₁, hnew, hb₁⟩ := h.newProcess hr₁
  refine ⟨free₁.length, by rw [hb₁.length, Nat.add_comm], fun hf => ?_⟩
  rw [ht, Kernel.loadElf] at hr
  obtain ⟨r, s₂, hr₂, _⟩ := EStateM.bind_eq_ok hr
  exact h₁.fits_of_readImage hnew (Nat.pos_of_ne_zero hf) (Disk.stat_size_lt hs) hr₂

theorem separate_iff (h : s.Rests use free k) (hs : disk.stat name = some statbuf) :
    RunElf.Separate ((Kernel.runElf trapret disk name).run s) ↔
      ∃ pages, free.length = s.newPages + pages ∧ s.Admits disk name statbuf pages := by
  constructor
  case mp  =>
    intro hsep
    have ⟨e, s', hr⟩ := hsep.exists_ok
    have ⟨pages, hl, hfit⟩ := h.fits_of_runElf hs hr
    by_cases hf : statbuf.fileSectors = 0
    case pos => exact ⟨pages, hl, .inl hf⟩
    case neg => exact ⟨pages, hl, (h.separate_iff_of_fits hs (Nat.pos_of_ne_zero hf) hl (hfit hf)).mp hsep⟩
  case mpr =>
    intro ⟨pages, hl, hadm⟩
    by_cases hf : statbuf.fileSectors = 0
    case pos =>
      have ⟨s', hr⟩ := h.runElf_nothing hs hf (by omega) trapret
      rw [hr]
      trivial
    case neg =>
      have hfit := (hadm.resolve_left hf).left
      exact (h.separate_iff_of_fits hs (Nat.pos_of_ne_zero hf) hl hfit).mpr hadm

theorem kernelHalf (h : s.Rests use free k) {e : RunElf}
    (hr : (Kernel.runElf trapret disk name).run s = .ok e s') : s.KernelHalf s' := by
  have ⟨use', free', h', _⟩ := h.runElf hr
  have hk : v2p s.kvm = k := by
    rw [h.kvm, v2p_kernbase (h.owns.page (p := k) (by simp [h.kernel])).upper]
  intro i hi
  rw [hk, h.owns.mapped.kernel k h.kernel i hi, h'.owns.mapped.kernel k h'.kernel i hi,
    h'.owns.mapped.kernel s'.cr3 h'.cr3 i hi]
  exact ⟨rfl, rfl⟩

end Machine.Rests

-- The image and the stack do not collide exactly when the pages and the program headers meet the conditions.
theorem Kernel.separates_iff (h : s.Rests use free k) (trapret : Nat) (disk : Disk) (name : CString) :
    (RunElf.Separate ((Kernel.runElf trapret disk name).run s) ∧
      s.KernelHalf ((Kernel.runElf trapret disk name).after s)) ↔
      ∀ statbuf, disk.stat name = some statbuf →
        ∃ pages, s.freePages.length = s.newPages + pages ∧ s.Admits disk name statbuf pages := by
  have hhalf : RunElf.Separate ((Kernel.runElf trapret disk name).run s) →
      s.KernelHalf ((Kernel.runElf trapret disk name).after s) := by
    intro hsep
    obtain ⟨e, s', hr⟩ := hsep.exists_ok
    rw [Kernel.after, hr]
    exact h.kernelHalf hr
  rw [and_iff_left_of_imp hhalf, h.owns.freePages_eq]
  cases hs : disk.stat name with
  | some statbuf =>
    rw [h.separate_iff hs]
    constructor
    case mp  => exact fun hadm _ he => Option.some.inj he ▸ hadm
    case mpr => exact fun hall => hall statbuf rfl
  | none         =>
    rw [Kernel.runElf, hs]
    exact iff_of_true trivial fun _ he => absurd he (Option.some_ne_none _).symm

-- A file with a small segment.
theorem Kernel.separates_bssFile : ∃ s use free k, Machine.Rests s use free k ∧
    RunElf.Separate ((Kernel.runElf 0 (.single (bssFile 0)) fun i => if i = 0 then 107 else 0).run s) ∧
    s.KernelHalf ((Kernel.runElf 0 (.single (bssFile 0)) fun i => if i = 0 then 107 else 0).after s) := by
  have ⟨s, use, free, k, _, hb, _⟩ := Kernel.kmain_booted (s := .zero) rfl rfl
  have hrest := Machine.Rests.of_booted hb
  have hl := hb.length_eq
  have hn := hb.newPages
  have hfile : Stat.BelowStack ⟨512, 1⟩ := ⟨by decide, by decide⟩
  have hd : Stat.demand ⟨512, 1⟩ = 5 := by decide
  refine ⟨s, use, free, k, hrest, ?_⟩
  apply (Kernel.separates_iff hrest 0 (.single (bssFile 0)) fun i => if i = 0 then 107 else 0).mpr
  intro statbuf hs
  have hst : Disk.stat (.single (bssFile 0)) (fun i => if i = 0 then 107 else 0) = some ⟨512, 1⟩ := rfl
  cases hst.symm.trans hs
  refine ⟨32509, by rw [hb.owns.freePages_eq, hl, hn], .inr ⟨?_, fun task s₁ hp => ?_⟩⟩
  case refine_1 =>
    refine ⟨by decide, ?_, fun hgt => absurd hgt (by decide)⟩
    rw [imagePages_eq]
    decide
  case refine_2 =>
    have ⟨s₂, use₂, free₂, t, d, _, _, _, hp', h₂, _⟩ := Kernel.Parses.exists_loads hrest hst hfile (by omega)
    rw [(hp'.unique hp).right, Stat.Separates, if_neg (by decide), if_neg (by rw [hd]; decide)]
    have segment {i} (hi : i < (Disk.file (.single (bssFile 0)) ⟨512, 1⟩).load16 44) :=
      h₂.segmentTop hfile (executable_bssFile 0) hi
    refine ⟨fun i hi => ⟨_, segment hi⟩, .inl fun e ⟨i, hi, he⟩ => ?_⟩
    cases (segment hi).symm.trans he
    exact (executable_bssFile 0).top_le hi

-- A disk with the file `k` of 11 MB, which reaches the stack.
def Disk.largeFile : Disk :=
  fun lba i => if lba = 1 then (if i = 32 then 1 else if i = 38 then 0xB0 else if i = 44 then 107 else 0) else 0

-- The pages of this file go beyond the ones of the stack, which are mapped next.
theorem Booted.runElf_largeFile (h : Booted s use free k) : ∃ s',
    (Kernel.runElf 0 .largeFile fun i => if i = 0 then 107 else 0).run s = .error (.panic "remap") s' := by
  have hrest := Machine.Rests.of_booted h
  have hl := h.length_eq
  have hn := h.newPages
  have hs : Disk.stat .largeFile (fun i => if i = 0 then 107 else 0) = some ⟨0xB00000, 1⟩ := rfl
  have ⟨task, s₁, hr₁, _⟩ := hrest.newProcess_run (by omega)
  have ⟨use₁, free₁, t, d, ht, h₁, hnew, hb₁⟩ := hrest.newProcess hr₁
  have hl₁ := hb₁.length
  have hpages : imagePages (Stat.pages ⟨0xB00000, 1⟩) = 2819 := by
    rw [imagePages_eq]
    rfl
  rw [imagePages] at hpages
  have hgt : userStackBase - 2 * pgsize < userBase + Stat.size ⟨0xB00000, 1⟩ := by decide
  have ⟨s', hr, _⟩ := h₁.readImage_remap hnew hgt (by omega) .largeFile
  exact ⟨s', Kernel.runElf_error hs (ht ▸ hr₁) hr⟩

-- The kernel panics.
theorem Kernel.stack_remapped : ∃ s use free k s', Machine.Rests s use free k ∧
    Disk.stat .largeFile (fun i => if i = 0 then 107 else 0) = some ⟨0xB00000, 1⟩ ∧
    (Kernel.runElf 0 .largeFile fun i => if i = 0 then 107 else 0).run s = .error (.panic "remap") s' := by
  have ⟨s, use, free, k, _, hb, _⟩ := Kernel.kmain_booted (s := .zero) rfl rfl
  have ⟨s', hr⟩ := hb.runElf_largeFile
  exact ⟨s, use, free, k, s', .of_booted hb, rfl, hr⟩

