import Yabloko.Kernel.Image

-- The address of the program header with number `i`, according to the header of the file.
def phdrAddr (file : Bytes) (i : Nat) : Nat :=
  (userBase + file.load32 28 + i * file.load16 42) % 2 ^ 32

-- Where the segment ends which the header at the address `phdr` describes. Other headers are of no
-- interest.
def View.segmentTop (m : View) (phdr : Nat) : Except Nat Nat := do
  if (← m.load32 phdr) ≠ 1 then
    return 0
  else if (← m.load32 ((phdr + 20) % 2 ^ 32)) = 0 then
    return 0
  else
    return ((← m.load32 ((phdr + 8) % 2 ^ 32)) + (← m.load32 ((phdr + 20) % 2 ^ 32))) % 2 ^ 32

-- The address belongs to a page which is needed for the file.
def Stat.Covers (statbuf : Stat) (va : Nat) : Prop :=
  userBase ≤ va ∧ va < pgroundup ((userBase + statbuf.size) % 2 ^ 32)

-- The loop over the program headers gets to the one at the address `a`: it does not end within the first
-- `i` rounds, and then there is another header.
def Machine.Examines (s : Machine) (fileTop a : Nat) : Prop :=
  ∃ i phnum phoff phentsize, (Kernel.imageTop.go userBase i 0 fileTop).run s = .error .diverges s ∧
    (Kernel.load16 (userBase + 44)).run s = .ok phnum s ∧ i < phnum ∧
    (Kernel.load32 (userBase + 28)).run s = .ok phoff s ∧
    (Kernel.load16 (userBase + 42)).run s = .ok phentsize s ∧
    a = (userBase + phoff + i * phentsize) % 2 ^ 32

-- Where a segment ends, according to one of the headers.
def Machine.SegmentEnd (s : Machine) (file : Bytes) (e : Nat) : Prop :=
  ∃ i < file.load16 44, s.view.segmentTop (phdrAddr file i) = .ok e

variable {s s₁ s₂ s' : Machine} {use : Nat → Use} {free : List Nat} {k t d a va i n top task off : Nat}
  {disk : Disk} {statbuf : Stat} {file : Bytes} {r : Int} {name : CString}

-- A maximum is one of the numbers.
theorem eq_of_le_iff {fileTop : Nat} {e : Nat → Nat} (h : ∀ b, top ≤ b ↔ fileTop ≤ b ∧ ∀ i < n, e i ≤ b) :
    top = fileTop ∨ ∃ i < n, top = e i := by
  have ⟨hf, he⟩ := (h top).mp (Nat.le_refl _)
  by_contra hc
  rw [not_or, not_exists] at hc
  have hlt : fileTop < top := by omega
  have hle := (h (top - 1)).mpr ⟨by omega, fun i hi => by
    have := he i hi
    have hne : top ≠ e i := fun heq => hc.right i ⟨hi, heq⟩
    omega⟩
  omega

namespace Machine

theorem view_ne_none : s.view va ≠ none ↔ s.translate va ≠ none := by
  rw [view]
  cases s.translate va <;> simp

theorem phdrAddr_mod (file : Bytes) (i : Nat) : phdrAddr file i % 2 ^ 32 = phdrAddr file i :=
  Nat.mod_mod _ _

-- All fields are accessible.
theorem View.exists_segmentTop {m : View} (h : ∀ j < 32, m ((a + j) % 2 ^ 32) ≠ none) :
    ∃ e, m.segmentTop (a % 2 ^ 32) = .ok e := by
  have field (o : Nat) (ho : o + 4 ≤ 32) : ∃ v, m.load32 ((a + o) % 2 ^ 32) = .ok v :=
    View.exists_load32 fun j hj => by
      rw [Nat.add_assoc]
      exact h (o + j) (by omega)
  have ⟨type, htype⟩ := field 0 (by decide)
  have ⟨vaddr, hvaddr⟩ := field 8 (by decide)
  have ⟨memsz, hmemsz⟩ := field 20 (by decide)
  rw [Nat.add_zero] at htype
  rw [View.segmentTop, Nat.mod_add_mod, Nat.mod_add_mod, htype, hmemsz, hvaddr]
  simp only [bind, Except.bind]
  split
  case isTrue  => exact ⟨0, rfl⟩
  case isFalse => split <;> exact ⟨_, rfl⟩

-- The part of a round of the loop which looks at the header.
def Kernel.segmentTop (phdr : Nat) : Kernel Nat := do
  if (← Kernel.load32 phdr) ≠ 1 then
    return 0
  else if (← Kernel.load32 ((phdr + 20) % 2 ^ 32)) = 0 then
    return 0
  else
    return ((← Kernel.load32 ((phdr + 8) % 2 ^ 32)) + (← Kernel.load32 ((phdr + 20) % 2 ^ 32))) % 2 ^ 32

theorem Kernel.Reads.segmentTop (phdr : Nat) :
    Kernel.Reads (Kernel.segmentTop phdr) (View.segmentTop · phdr) :=
  .bind (.load32 _) fun _ => .ite (.pure 0) <| .bind (.load32 _) fun _ => .ite (.pure 0) <|
    .bind (.load32 _) fun _ => .bind (.load32 _) fun _ => .pure _

-- The header of the file is where the process has been loaded.
def HasHeader (s : Machine) (file : Bytes) : Prop :=
  ∀ i < sectorSize, s.view (userBase + i) = some (file i)

namespace HasHeader

theorem load16 (h : s.HasHeader file) (ho : off + 2 ≤ sectorSize) :
    (Kernel.load16 (userBase + off)).run s = .ok (file.load16 off) s := by
  simp only [sectorSize] at ho
  apply (Kernel.Reads.load16 _).run_ok <| View.load16_eq _ _
  case _ => simp only [userBase]; omega
  case _ =>
    intro j hj
    rw [Nat.add_assoc]
    exact h (off + j) (by simp only [sectorSize]; omega)

theorem load32 (h : s.HasHeader file) (ho : off + 4 ≤ sectorSize) :
    (Kernel.load32 (userBase + off)).run s = .ok (file.load32 off) s := by
  simp only [sectorSize] at ho
  apply (Kernel.Reads.load32 _).run_ok <| View.load32_eq _ _
  case _ => simp only [userBase]; omega
  case _ =>
    intro j hj
    rw [Nat.add_assoc]
    exact h (off + j) (by simp only [sectorSize]; omega)

-- A round of the loop.
theorem imageTop_go (h : s.HasHeader file) (hi : i < file.load16 44) (fuel top : Nat) :
    (Kernel.imageTop.go userBase (fuel + 1) i top).run s = (do
      let e ← Kernel.segmentTop (phdrAddr file i)
      Kernel.imageTop.go userBase fuel (i + 1) (max top e)).run s := by
  have hmax e : max top e = if e > top then e else top := by
    split <;> omega
  rw [Kernel.imageTop.go, EStateM.bind_ok <| h.load16 (by decide), if_pos hi,
    EStateM.bind_ok <| h.load32 (by decide), EStateM.bind_ok <| h.load16 (by decide), Kernel.segmentTop]
  rw [← phdrAddr]
  apply congrArg (EStateM.run · s)
  rw [bind_assoc]
  apply bind_congr
  intro type
  split
  case isTrue  => simp
  case isFalse =>
    rw [bind_assoc]
    apply bind_congr
    intro memsz
    split
    case isTrue  => simp
    case isFalse => simp only [hmax, bind_assoc, pure_bind]

-- The first `n` rounds determine the largest end of a segment.
theorem imageTop_rounds (h : s.HasHeader file) (hn : n ≤ file.load16 44) {e : Nat → Nat}
    (he : ∀ i < n, s.view.segmentTop (phdrAddr file i) = .ok (e i)) (fuel top : Nat) : ∃ top',
    (Kernel.imageTop.go userBase (fuel + n) 0 top).run s = (Kernel.imageTop.go userBase fuel n top').run s ∧
    ∀ b, top' ≤ b ↔ top ≤ b ∧ ∀ i < n, e i ≤ b := by
  induction n generalizing fuel
  case zero      => exact ⟨top, rfl, fun b => by simp⟩
  case succ n hi =>
    have ⟨top', hr, hb⟩ := hi (by omega) (fun i hi => he i (by omega)) (fuel + 1)
    refine ⟨max top' (e n), ?_, fun b => ?_⟩
    case refine_1 =>
      rw [show fuel + (n + 1) = fuel + 1 + n by omega, hr, h.imageTop_go hn,
        EStateM.bind_ok <| (Kernel.Reads.segmentTop _).run_ok <| he n (Nat.lt_succ_self n)]
    case refine_2 =>
      rw [Nat.max_le, hb, and_assoc, Nat.forall_lt_succ_right]

-- The loop determines the largest end of a segment, or that of the file.
theorem imageTop_ok (h : s.HasHeader file) {e : Nat → Nat}
    (he : ∀ i < file.load16 44, s.view.segmentTop (phdrAddr file i) = .ok (e i)) (fileTop : Nat) : ∃ top,
    (Kernel.imageTop userBase fileTop).run s = .ok top s ∧
    ∀ b, top ≤ b ↔ fileTop ≤ b ∧ ∀ i < file.load16 44, e i ≤ b := by
  have hlt := file.load16_lt 44
  have ⟨top, hr, hb⟩ := h.imageTop_rounds (Nat.le_refl _) he (2 ^ 16 - file.load16 44) fileTop
  refine ⟨top, ?_, hb⟩
  rw [Nat.sub_add_cancel (Nat.le_of_lt hlt)] at hr
  rw [Kernel.imageTop, hr, show 2 ^ 16 - file.load16 44 = 2 ^ 16 - file.load16 44 - 1 + 1 by omega,
    Kernel.imageTop.go, EStateM.bind_ok <| h.load16 (by decide), if_neg (Nat.lt_irrefl _)]
  rfl

-- The loop accesses all headers.
theorem exists_segmentTop (h : s.HasHeader file) {fileTop : Nat}
    (hr : (Kernel.imageTop userBase fileTop).run s = .ok top s') :
    ∀ i < file.load16 44, ∃ e, s.view.segmentTop (phdrAddr file i) = .ok e := by
  have hlt := file.load16_lt 44
  intro i
  induction i using Nat.strongRecOn
  case ind i hi =>
    intro hin
    choose! e he using fun i' hi' => hi i' hi' (Nat.lt_trans hi' hin)
    have ⟨top', hr', _⟩ := h.imageTop_rounds (Nat.le_of_lt hin) he (2 ^ 16 - i - 1 + 1) fileTop
    rw [show 2 ^ 16 - i - 1 + 1 + i = 2 ^ 16 by omega, h.imageTop_go hin] at hr'
    rw [Kernel.imageTop, hr'] at hr
    match hseg : s.view.segmentTop (phdrAddr file i) with
    | .ok e    => exact ⟨e, rfl⟩
    | .error a =>
      rw [EStateM.bind_error <| (Kernel.Reads.segmentTop _).run_error hseg] at hr
      cases hr

-- The loop accesses all headers, and determines the end of a segment or that of the file.
theorem imageTop_spec (h : s.HasHeader file) {fileTop : Nat}
    (hr : (Kernel.imageTop userBase fileTop).run s = .ok top s') :
    s' = s ∧ (∀ i < file.load16 44, ∃ e, s.view.segmentTop (phdrAddr file i) = .ok e) ∧ fileTop ≤ top ∧
    (∀ e, s.SegmentEnd file e → e ≤ top) ∧ (top = fileTop ∨ s.SegmentEnd file top) := by
  have hall := h.exists_segmentTop hr
  refine ⟨Kernel.Keeps.imageTop_go _ _ _ _ _ _ _ hr, hall, ?_⟩
  choose! e he using hall
  have ⟨top', hr', htop⟩ := h.imageTop_ok he fileTop
  cases hr.symm.trans hr'
  have ⟨hf, hle⟩ := (htop top).mp (Nat.le_refl _)
  refine ⟨hf, fun x ⟨i, hi, hx⟩ => ?_, ?_⟩
  case refine_1 =>
    rw [he i hi, Except.ok.injEq] at hx
    exact hx ▸ hle i hi
  case refine_2 =>
    apply (eq_of_le_iff htop).imp_right
    intro ⟨i, hi, heq⟩
    exact ⟨i, hi, heq ▸ he i hi⟩

-- A header is examined if the ones in front of it are accessible.
theorem examines (h : s.HasHeader file) (hi : i < file.load16 44)
    (hm : ∀ i' < i, ∀ j < 32, s.view ((phdrAddr file i' + j) % 2 ^ 32) ≠ none) :
    s.Examines top (phdrAddr file i) := by
  choose! e he using fun i' hi' => View.exists_segmentTop <| hm i' hi'
  simp only [phdrAddr_mod] at he
  have ⟨top', hr, _⟩ := h.imageTop_rounds (Nat.le_of_lt hi) he 0 top
  rw [Nat.zero_add] at hr
  exact ⟨i, _, _, _, hr, h.load16 (by decide), hi, h.load32 (by decide), h.load16 (by decide), rfl⟩

theorem exists_of_examines (h : s.HasHeader file) (he : s.Examines top a) :
    ∃ i < file.load16 44, a = phdrAddr file i := by
  have ⟨i, phnum, phoff, phentsize, _, hn, hi, ho, hs, ha⟩ := he
  rw [h.load16 (by decide)] at hn hs
  rw [h.load32 (by decide)] at ho
  cases hn
  cases ho
  cases hs
  exact ⟨i, hi, ha⟩

-- All headers which are examined have a property which makes them accessible, exactly when all headers
-- of the table have it.
theorem examines_iff (h : s.HasHeader file) {p : Nat → Prop}
    (hp : ∀ a, p a → ∀ j < 32, s.view ((a + j) % 2 ^ 32) ≠ none) :
    (∀ a, s.Examines top a → p a) ↔ ∀ i < file.load16 44, p (phdrAddr file i) := by
  constructor
  case mp  =>
    intro ha i
    induction i using Nat.strongRecOn
    case ind i hi =>
      intro hlt
      exact ha _ <| h.examines hlt fun i' hi' => hp _ <| hi i' hi' (by omega)
  case mpr =>
    intro ha a he
    have ⟨i, hi, he⟩ := h.exists_of_examines he
    exact he ▸ ha i hi

end HasHeader

end Machine

-- `run_elf` has found and read the file, and gets to its program headers.
structure Kernel.Parses (disk : Disk) (name : CString) (s : Machine) (statbuf : Stat) (task : Nat) (s' : Machine) :
    Prop where
  stat : disk.stat name = some statbuf
  read : ∃ s₁ r, Kernel.newProcess.run s = .ok task s₁ ∧
           (Kernel.readImage disk statbuf task).run s₁ = .ok r s' ∧ 0 < r

-- The header at the address `a` lies in pages which are mapped for the file.
def Machine.HeaderInside (s : Machine) (statbuf : Stat) (a : Nat) : Prop :=
  ∀ j < 32, statbuf.Covers ((a + j) % 2 ^ 32) ∧ s.translate ((a + j) % 2 ^ 32) ≠ none

namespace Kernel.Parses

variable {trapret : Nat}

-- All that is left to do.
theorem runElf_eq (h : Parses disk name s statbuf task s') :
    (Kernel.runElf trapret disk name).run s = (Kernel.enterImage trapret statbuf task).run s' := by
  have ⟨s₁, r, hr₁, hr₂, hr⟩ := h.read
  rw [Kernel.runElf, h.stat]
  simp only [EStateM.bind_ok hr₁]
  rw [Kernel.loadElf, EStateM.bind_ok hr₂, if_neg (Int.not_le.mpr hr)]

theorem hasImage (h : Parses disk name s statbuf task s') (hs : s.Rests use free k) :
    ∃ use' free' t d, task = kernbase + t ∧ s'.HasTask use' free' k t d ∧ s'.cr3 = d ∧
      s'.HasImage use' free' disk statbuf := by
  have ⟨s₁, r, hr₁, hr₂, hr⟩ := h.read
  have ⟨use₁, free₁, t, d, ht, h₁, hnew, _⟩ := hs.newProcess hr₁
  have ⟨use', free', h', hc, hi⟩ :=
    h₁.readImage (Disk.stat_size_lt h.stat) (h₁.owns.not_maps hnew) (ht ▸ hr₂)
  exact ⟨use', free', t, d, ht, h', hc, hi hr⟩

-- There are enough pages.
theorem exists_loads (h : s.Rests use free k) (hs : disk.stat name = some statbuf)
    (hb : statbuf.BelowStack) (hl : statbuf.demand + s.newPages ≤ free.length) :
    ∃ s' use' free' t d s₁ use₁ free₁,
    Parses disk name s statbuf (kernbase + t) s' ∧ s'.Loads use' free' k t d (disk.image statbuf) ∧
    (∀ i, statbuf.tables i = true ↔ HasTable use' d i) ∧ s.Begins use free t d use₁ free₁ ∧
    s₁.exhausted = s.exhausted ∧ Took d statbuf.demand s₁ use₁ free₁ s' use' free' := by
  have ⟨task, s₁, hr₁, he₁⟩ := h.newProcess_run (by omega)
  have ⟨use₁, free₁, t, d, ht, h₁, hnew, hb₁⟩ := h.newProcess hr₁
  have hl₁ := hb₁.length
  have ⟨s', use', free', hr₂, h', hT, hx'⟩ := h₁.readImage_run hnew hb (by omega) disk
  refine ⟨s', use', free', t, d, s₁, use₁, free₁, ?_, h', hT, hb₁, he₁, hx'⟩
  exact ⟨hs, s₁, _, ht ▸ hr₁, hr₂, by exact_mod_cast hb.left⟩

-- The state is determined by the file.
theorem unique (h : Parses disk name s statbuf task s') {task'} {s'' : Machine}
    (h' : Parses disk name s statbuf task' s'') : task' = task ∧ s'' = s' := by
  have ⟨s₁, r, hr₁, hr₂, _⟩ := h.read
  have ⟨s₁', r', hr₁', hr₂', _⟩ := h'.read
  cases hr₁.symm.trans hr₁'
  cases hr₂.symm.trans hr₂'
  exact ⟨rfl, rfl⟩

end Kernel.Parses

-- A byte of the file is in the same page.
theorem Stat.Covers.exists_eq (h : statbuf.Covers va) (hs : statbuf.size ≤ 100 <<< 20) :
    ∃ i < statbuf.size, (userBase + i) / pgsize = va / pgsize := by
  have ⟨hlo, hhi⟩ := h
  by_cases hlt : va - userBase < statbuf.size
  case pos => exact ⟨va - userBase, hlt, by rw [Nat.add_sub_cancel' hlo]⟩
  case neg =>
    simp only [pgroundup, userBase, pgsize, Nat.reduceShiftLeft] at *
    exact ⟨statbuf.size - 1, by omega, by omega⟩

namespace Machine.HasImage

theorem size_pos (h : s.HasImage use free disk statbuf) : 0 < statbuf.size := by
  have hs := h.sectors
  simp only [Stat.imageSectors, Stat.sectorsRead, Stat.fileSectors, sectorSize] at hs
  omega

theorem hasHeader (h : s.HasImage use free disk statbuf) : s.HasHeader (disk.file statbuf) := by
  have hs := h.sectors
  intro i hi
  exact h.bytes i <| Nat.lt_of_lt_of_le hi <| Nat.le_mul_of_pos_right _ hs

-- The pages of a file which is not larger than the read buffer are mapped.
theorem translate_ne_none (h : s.HasImage use free disk statbuf) (ho : s.Owns use free)
    (hs : statbuf.size ≤ 100 <<< 20) (hc : statbuf.Covers va) : s.translate va ≠ none := by
  obtain ⟨i, hi, he⟩ := hc.exists_eq hs
  have hlt : i < sectorSize * statbuf.imageSectors := by
    simp only [Nat.reduceShiftLeft] at hs
    simp only [Stat.imageSectors, Stat.sectorsRead, Stat.fileSectors, sectorSize, Nat.reduceShiftLeft]
    omega
  have hva : va < kernbase := by
    simp only [userBase, pgsize, Nat.reduceShiftLeft] at he hs
    simp only [kernbase]
    omega
  obtain ⟨f, _, ht⟩ := ho.translate_maps hva (he ▸ h.maps i hlt)
  rw [ht]
  exact Option.some_ne_none _

end Machine.HasImage

-- Every header which `run_elf` examines lies in the pages which are mapped for the file, exactly when all
-- headers of the table do so.
theorem Kernel.headers_inside_iff (h : s.Rests use free k) (hp : Kernel.Parses disk name s statbuf task s') :
    (∀ a, s'.Examines ((userBase + statbuf.size) % 2 ^ 32) a → s'.HeaderInside statbuf a) ↔
      ∀ i < (disk.file statbuf).load16 44, ∀ j < 32,
        statbuf.Covers ((phdrAddr (disk.file statbuf) i + j) % 2 ^ 32) ∧
        (100 <<< 20 < statbuf.size → s'.translate ((phdrAddr (disk.file statbuf) i + j) % 2 ^ 32) ≠ none) := by
  have ⟨use', free', t, d, _, h', _, hi⟩ := hp.hasImage h
  rw [hi.hasHeader.examines_iff fun a ha j hj => Machine.view_ne_none.mpr (ha j hj).right]
  apply forall₂_congr
  intro i _
  apply forall₂_congr
  intro j _
  apply and_congr_right
  intro hc
  constructor
  case mp  => exact fun hm _ => hm
  case mpr =>
    intro hm
    by_cases hs : statbuf.size ≤ 100 <<< 20
    case pos => exact hi.translate_ne_none h'.owns hs hc
    case neg => exact hm (Nat.lt_of_not_le hs)

-- A disk with the file `k`, which has a single sector.
def Disk.single (file : Bytes) : Disk :=
  fun lba i =>
    if lba = 1 then
      if i = 32 then 1 else if i = 37 then 2 else if i = 44 then 107 else 0
    else
      file (sectorSize * (lba - 2) + i)

theorem Kernel.exists_parses_single (file : Bytes) : ∃ s use free k task s', Machine.Rests s use free k ∧
    Kernel.Parses (.single file) (fun i => if i = 0 then 107 else 0) s ⟨512, 1⟩ task s' := by
  have ⟨s, use, free, k, _, hb, _⟩ := Kernel.kmain_booted (s := .zero) rfl rfl
  have hl := hb.length_eq
  have hd : Stat.demand ⟨512, 1⟩ = 5 := by decide
  have hn := hb.newPages
  have ⟨s', _, _, t, _, _, _, _, hp, _⟩ := Parses.exists_loads (.of_booted hb)
    (show Disk.stat (.single file) (fun i => if i = 0 then 107 else 0) = some ⟨512, 1⟩ from rfl)
    ⟨by decide, by decide⟩ (by omega)
  exact ⟨s, use, free, k, _, s', .of_booted hb, hp⟩

-- A file whose header table has one entry, at the given offset.
def tableFile (phoff : Nat) : Bytes :=
  Bytes.store32 (fun i => if i = 44 then 1 else if i = 42 then 32 else 0) 28 phoff

theorem single_file (file : Bytes) (hi : i < 512) : Disk.file (.single file) ⟨512, 1⟩ i = file i := by
  simp only [Disk.file, Disk.from, Disk.sector, Disk.single, fsStart, sectorSize, Nat.div_eq_of_lt hi,
    Nat.mod_eq_of_lt hi]
  simp

theorem single_load16 (file : Bytes) (ho : off + 2 ≤ 512) :
    (Disk.file (.single file) ⟨512, 1⟩).load16 off = file.load16 off := by
  rw [Bytes.load16, single_file file (by omega), single_file file (by omega), Bytes.load16]

theorem single_load32 (file : Bytes) (ho : off + 4 ≤ 512) :
    (Disk.file (.single file) ⟨512, 1⟩).load32 off = file.load32 off := by
  rw [Bytes.load32, single_load16 file (by omega), single_load16 file (by omega), Bytes.load32]

theorem single_tableFile (h : n < 2 ^ 32) : (Disk.file (.single (tableFile n)) ⟨512, 1⟩).load16 44 = 1 ∧
    ∀ i, phdrAddr (Disk.file (.single (tableFile n)) ⟨512, 1⟩) i = (userBase + n + i * 32) % 2 ^ 32 := by
  have ho : (Disk.file (.single (tableFile n)) ⟨512, 1⟩).load32 28 = n := by
    rw [single_load32 _ (by decide)]
    exact Bytes.load32_store32 h
  have hs : (Disk.file (.single (tableFile n)) ⟨512, 1⟩).load16 42 = 32 := by
    rw [single_load16 _ (by decide)]
    rfl
  refine ⟨?_, fun i => by rw [phdrAddr, ho, hs]⟩
  rw [single_load16 _ (by decide)]
  rfl

theorem Kernel.headers_inside_single : ∃ s use free k task s', Machine.Rests s use free k ∧
    Kernel.Parses (.single (tableFile 64)) (fun i => if i = 0 then 107 else 0) s ⟨512, 1⟩ task s' ∧
    ∀ a, s'.Examines (userBase + 512) a → s'.HeaderInside ⟨512, 1⟩ a := by
  have ⟨s, use, free, k, task, s', hs, hp⟩ := Kernel.exists_parses_single (tableFile 64)
  have ⟨hn, ha⟩ := single_tableFile (n := 64) (by decide)
  refine ⟨s, use, free, k, task, s', hs, hp, (Kernel.headers_inside_iff hs hp).mpr fun i hi j hj => ?_⟩
  rw [hn] at hi
  rw [ha]
  refine ⟨?_, fun hc => absurd hc (by decide)⟩
  simp only [Stat.Covers, pgroundup, userBase, pgsize]
  omega

-- The only entry of the table is where the kernel sees the physical memory.
theorem Kernel.header_of_kernel : ∃ s use free k task s', Machine.Rests s use free k ∧
    Kernel.Parses (.single (tableFile (kernbase - userBase))) (fun i => if i = 0 then 107 else 0) s ⟨512, 1⟩
      task s' ∧
    s'.Examines (userBase + 512) kernbase ∧ ¬s'.HeaderInside ⟨512, 1⟩ kernbase := by
  have ⟨s, use, free, k, task, s', hs, hp⟩ := Kernel.exists_parses_single (tableFile (kernbase - userBase))
  have ⟨_, _, t, d, _, _, _, hi⟩ := hp.hasImage hs
  have ⟨hn, ha⟩ := single_tableFile (n := kernbase - userBase) (by decide)
  refine ⟨s, use, free, k, task, s', hs, hp, ?_, fun hc => ?_⟩
  case refine_1 =>
    rw [show kernbase = phdrAddr (Disk.file (.single (tableFile (kernbase - userBase))) ⟨512, 1⟩) 0 from
      (ha 0).symm]
    exact hi.hasHeader.examines (by omega) fun i hi => absurd hi (Nat.not_lt_zero i)
  case refine_2 =>
    have := (hc 0 (by decide)).left.right
    simp only [pgroundup, kernbase, userBase, pgsize] at this
    omega
