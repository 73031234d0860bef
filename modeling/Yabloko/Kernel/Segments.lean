import Yabloko.Kernel.Enter

-- The fields of a program header which describe where the segment is in the file and in the memory.
structure Phdr where
  type   : Nat
  offset : Nat
  vaddr  : Nat
  filesz : Nat
  memsz  : Nat

def phdrOffset (file : Bytes) (i : Nat) : Nat :=
  file.load32 28 + i * file.load16 42

def phdr (file : Bytes) (i : Nat) : Phdr where
  type   := file.load32 (phdrOffset file i)
  offset := file.load32 (phdrOffset file i + 4)
  vaddr  := file.load32 (phdrOffset file i + 8)
  filesz := file.load32 (phdrOffset file i + 16)
  memsz  := file.load32 (phdrOffset file i + 20)

def Phdr.top (p : Phdr) : Nat :=
  if p.type ≠ 1 then 0 else if p.memsz = 0 then 0 else (p.vaddr + p.memsz) % 2 ^ 32

-- A segment which is laid out flat in the file, and which lies below the stack.
structure Phdr.Flat (p : Phdr) (size : Nat) : Prop where
  vaddr  : p.vaddr = userBase + p.offset
  filesz : p.filesz ≤ p.memsz
  inside : p.offset + p.filesz ≤ size
  below  : p.vaddr + p.memsz ≤ userStackBase - 2 * pgsize

def Segment (file : Bytes) (p : Phdr) : Prop :=
  ∃ i < file.load16 44, p = phdr file i ∧ p.type = 1

-- An executable: its program headers are in the file, and its segments are laid out flat.
structure Executable (file : Bytes) (size : Nat) : Prop where
  table : ∀ i < file.load16 44, phdrOffset file i + 32 ≤ size
  flat  : ∀ p, Segment file p → p.Flat size

-- The segment is in the memory, with zeros after its part of the file.
structure Machine.HasSegment (s : Machine) (file : Bytes) (p : Phdr) : Prop where
  file : ∀ j < p.filesz, s.view (p.vaddr + j) = some (file (p.offset + j))
  bss  : ∀ j, p.filesz ≤ j → j < p.memsz → s.view (p.vaddr + j) = some 0

variable {s s' : Machine} {use use' : Nat → Use} {free free' : List Nat} {k t d i n v va o top size trapret : Nat}
  {statbuf : Stat} {disk : Disk} {m : View} {file : Bytes} {p : Phdr} {name : CString}

theorem View.segmentTop_eq (ha : va + 31 < 2 ^ 32) (h : ∀ j < 32, m (va + j) = some (file (phdrOffset file i + j))) :
    m.segmentTop va = .ok (phdr file i).top := by
  have field (o : Nat) (ho : o + 4 ≤ 32) : m.load32 (va + o) = .ok (file.load32 (phdrOffset file i + o)) :=
    View.load32_eq (by omega) fun j hj => by
      rw [Nat.add_assoc, Nat.add_assoc]
      exact h (o + j) (by omega)
  have htype := field 0 (by decide)
  rw [Nat.add_zero, Nat.add_zero] at htype
  rw [View.segmentTop, Nat.mod_eq_of_lt (by omega), Nat.mod_eq_of_lt (by omega), htype,
    field 8 (by decide), field 20 (by decide)]
  by_cases ht : file.load32 (phdrOffset file i) = 1
  case neg => simp [bind, Except.bind, pure, Except.pure, Phdr.top, phdr, ht]
  case pos =>
    by_cases hm : file.load32 (phdrOffset file i + 20) = 0
    case pos => simp [bind, Except.bind, pure, Except.pure, Phdr.top, phdr, ht, hm]
    case neg => simp [bind, Except.bind, pure, Except.pure, Phdr.top, phdr, ht, hm]

namespace Executable

-- The headers lie in the sectors of the file.
theorem phdrAddr_eq (h : Executable file size) (hs : size ≤ userStackBase) (hi : i < file.load16 44) :
    phdrAddr file i = userBase + phdrOffset file i := by
  have ht := h.table i hi
  simp only [userStackBase] at hs
  rw [phdrAddr, phdrOffset, Nat.add_assoc, Nat.mod_eq_of_lt]
  simp only [phdrOffset, userBase] at *
  omega

theorem top_le (h : Executable file size) (hi : i < file.load16 44) :
    (phdr file i).top ≤ userStackBase - 2 * pgsize := by
  rw [Phdr.top]
  split
  case isTrue      => exact Nat.zero_le _
  case isFalse ht  =>
    have hf := h.flat _ ⟨i, hi, rfl, not_not.mp ht⟩
    split
    case isTrue  => exact Nat.zero_le _
    case isFalse => exact Nat.le_trans (Nat.mod_le _ _) hf.below

theorem le_top (h : Executable file size) (hp : Segment file p) (hm : p.memsz ≠ 0) :
    p.top = p.vaddr + p.memsz := by
  have ⟨_, _, _, ht⟩ := hp
  have hb := (h.flat p hp).below
  rw [Phdr.top, if_neg (not_not.mpr ht), if_neg hm, Nat.mod_eq_of_lt]
  simp only [userStackBase, pgsize] at hb
  omega

end Executable

namespace Machine.Loads

-- The headers of an executable are those of the file.
theorem segmentTop (h : s.Loads use free k t d (disk.image statbuf)) (hb : statbuf.BelowStack)
    (hx : Executable (disk.file statbuf) statbuf.size) (hi : i < (disk.file statbuf).load16 44) :
    s.view.segmentTop (phdrAddr (disk.file statbuf) i) = .ok (phdr (disk.file statbuf) i).top := by
  have ⟨hpos, hstack⟩ := hb
  have hle : statbuf.size ≤ sectorSize * sectors statbuf.size := by
    simp only [sectors, sectorSize]
    omega
  have ht := hx.table i hi
  simp only [userBase, userStackBase, pgsize] at hstack
  rw [hx.phdrAddr_eq (by simp only [userStackBase]; omega) hi]
  apply View.segmentTop_eq (by simp only [userBase]; omega)
  intro j hj
  rw [Nat.add_assoc]
  exact h.view_file hb (by omega)

theorem imageTop (h : s.Loads use free k t d (disk.image statbuf)) (hb : statbuf.BelowStack)
    (hx : Executable (disk.file statbuf) statbuf.size) : ∃ top,
    (Kernel.imageTop userBase (userBase + statbuf.size)).run s = .ok top s ∧
    ∀ b, top ≤ b ↔ userBase + statbuf.size ≤ b ∧
      ∀ i < (disk.file statbuf).load16 44, (phdr (disk.file statbuf) i).top ≤ b :=
  (h.hasHeader hb).imageTop_ok (fun _ hi => h.segmentTop hb hx hi) _

end Machine.Loads

-- The image of an executable, when its process is entered.
theorem Kernel.runElf_swtch (h : s.Rests use free k) (hs : disk.stat name = some statbuf)
    (hl : statbuf.demand + s.newPages ≤ free.length)
    (hx : Executable (disk.file statbuf) statbuf.size) {stack : Nat}
    (hr : (Kernel.runElf trapret disk name).run s = .ok (.swtch stack top) s') :
    ∃ use' free' t d, s'.Loads use' free' k t d (disk.imageUpTo statbuf top) ∧
      userBase + statbuf.size ≤ top ∧ top ≤ userStackBase - 2 * pgsize ∧
      ∀ p, Segment (disk.file statbuf) p → p.memsz ≠ 0 → p.vaddr + p.memsz ≤ top := by
  have hb := h.belowStack hs hl hr
  have ⟨s₂, use₂, free₂, t, d, _, _, _, hp, h₂, hT, _⟩ := Parses.exists_loads h hs hb hl
  have ⟨top', hr₂, htop⟩ := h₂.imageTop hb hx
  have hle : top' ≤ userStackBase - 2 * pgsize := (htop _).mpr ⟨hb.right, fun i hi => hx.top_le hi⟩
  have ⟨hok, hshort⟩ := h₂.enterImage hb hT hr₂ hle trapret
  rw [hp.runElf_eq] at hr
  by_cases hc : statbuf.bssDemand top' ≤ free₂.length
  case neg =>
    have ⟨s₃, hr₃⟩ := hshort (Nat.lt_of_not_le hc)
    cases hr.symm.trans hr₃
  case pos =>
    have ⟨s₃, use₃, free₃, hr₃, h₃, _⟩ := hok hc
    cases hr.symm.trans hr₃
    have ⟨hf, he⟩ := (htop top).mp (Nat.le_refl _)
    refine ⟨use₃, free₃, t, d, h₃, hf, hle, fun p hp hm => ?_⟩
    have ⟨i, hi, hpi, _⟩ := hp
    rw [← hx.le_top hp hm, hpi]
    exact he i hi

-- There are enough pages for a process of any size.
theorem Kernel.exists_swtch (h : s.Rests use free k) (hs : disk.stat name = some statbuf)
    (hb : statbuf.BelowStack) (hx : Executable (disk.file statbuf) statbuf.size) (hl : 2 ^ 14 ≤ free.length)
    (trapret : Nat) :
    ∃ stack top s', (Kernel.runElf trapret disk name).run s = .ok (.swtch stack top) s' := by
  have hd := statbuf.demand_le hb
  have hn : s.newPages ≤ 2 := by
    rw [Machine.newPages]
    split <;> omega
  obtain ⟨s₂, use₂, free₂, t, d, _, _, _, hp, h₂, hT, hb₁, _, hx₂⟩ := Parses.exists_loads h hs hb (by omega)
  have hl₁ := hb₁.length
  have hl₂ := hx₂.length
  obtain ⟨top, hr₂, htop⟩ := h₂.imageTop hb hx
  have hle : top ≤ userStackBase - 2 * pgsize := (htop _).mpr ⟨hb.right, fun i hi => hx.top_le hi⟩
  have hb' := statbuf.bssDemand_le hle
  obtain ⟨s', use', free', hr, _⟩ := (h₂.enterImage hb hT hr₂ hle trapret).left (by omega)
  exact ⟨_, _, s', hp.runElf_eq.trans hr⟩

-- The segments are in the memory exactly when the sectors of the file are zero where they are not part
-- of the file.
theorem Kernel.segments_loaded_iff (h : s.Rests use free k) (hs : disk.stat name = some statbuf)
    (hl : statbuf.demand + s.newPages ≤ free.length)
    (hx : Executable (disk.file statbuf) statbuf.size) {stack : Nat}
    (hr : (Kernel.runElf trapret disk name).run s = .ok (.swtch stack top) s') :
    (∀ p, Segment (disk.file statbuf) p → s'.HasSegment (disk.file statbuf) p) ↔
      ∀ p, Segment (disk.file statbuf) p → ∀ o, p.offset + p.filesz ≤ o → o < p.offset + p.memsz →
        o < sectorSize * sectors statbuf.size → disk.file statbuf o = 0 := by
  have ⟨use', free', t, d, h', hf, hle, hend⟩ := Kernel.runElf_swtch h hs hl hx hr
  have view {va} (hva : va < top) : s'.view va = disk.imageUpTo statbuf top va :=
    h'.view (by simp only [userStackBase, pgsize, kernbase] at *; omega)
  have hsectors : statbuf.size ≤ sectorSize * sectors statbuf.size := by
    simp only [sectors, sectorSize]
    omega
  apply forall₂_congr
  intro p hp
  have hp' := hx.flat p hp
  have hin {j} (hj : j < p.memsz) : p.vaddr + j < top :=
    Nat.lt_of_lt_of_le (Nat.add_lt_add_left hj _) (hend p hp (by omega))
  constructor
  case mp  =>
    intro h o ho ho' hlt
    have hb := h.bss (o - p.offset) (by omega) (by omega)
    have hva : p.vaddr + (o - p.offset) = userBase + o := by rw [hp'.vaddr]; omega
    rw [view (hin (by omega)), hva, Disk.imageUpTo_file hlt] at hb
    exact Option.some.inj hb
  case mpr =>
    intro h
    refine ⟨fun j hj => ?_, fun j hj hj' => ?_⟩
    case refine_1 =>
      rw [view (hin (Nat.lt_of_lt_of_le hj hp'.filesz)), hp'.vaddr, Nat.add_assoc]
      exact Disk.imageUpTo_file (by have := hp'.inside; omega)
    case refine_2 =>
      rw [view (hin hj'), hp'.vaddr, Nat.add_assoc]
      by_cases hlt : p.offset + j < sectorSize * sectors statbuf.size
      case pos => rw [Disk.imageUpTo_file hlt, h (p.offset + j) (by omega) (by omega) hlt]
      case neg =>
        have hlt' := hin hj'
        rw [hp'.vaddr, Nat.add_assoc] at hlt'
        exact Disk.imageUpTo_zero (by omega) (.inl hlt')

-- An executable with a single segment, of which the file has 84 bytes, and the memory 512. The byte `b`
-- of the file comes after the part of the segment.
def bssFile (b : UInt8) : Bytes :=
  fun i => if i = 28 then 52 else if i = 42 then 32 else if i = 44 then 1 else if i = 52 then 1
    else if i = 62 then 0x40 else if i = 68 then 84 else if i = 73 then 2 else if i = 100 then b else 0

theorem phdr_bssFile (b : UInt8) : phdr (bssFile b) 0 = ⟨1, 0, 0x400000, 84, 512⟩ := by
  simp [phdr, phdrOffset, Bytes.load32, Bytes.load16, bssFile]

-- A file of one sector, with one program header.
section Single

variable {single : Bytes}

theorem phdr_single (ho : single.load32 28 = 52) :
    phdrOffset (Disk.file (.single single) ⟨512, 1⟩) 0 = 52 ∧
      phdr (Disk.file (.single single) ⟨512, 1⟩) 0 = phdr single 0 := by
  have field {o} (ho : o + 4 ≤ 512) := single_load32 single ho
  have h₁ : phdrOffset (Disk.file (.single single) ⟨512, 1⟩) 0 = 52 := by
    rw [phdrOffset, field (by decide), Nat.zero_mul, ho]
  have h₂ : phdrOffset single 0 = 52 := by rw [phdrOffset, Nat.zero_mul, ho]
  refine ⟨h₁, ?_⟩
  rw [phdr, phdr, h₁, h₂, field (by decide), field (by decide), field (by decide), field (by decide),
    field (by decide)]

theorem segment_single (hn : single.load16 44 = 1) (ho : single.load32 28 = 52) :
    Segment (Disk.file (.single single) ⟨512, 1⟩) p ↔ p = phdr single 0 ∧ p.type = 1 := by
  have hn : (Disk.file (.single single) ⟨512, 1⟩).load16 44 = 1 := (single_load16 _ (by decide)).trans hn
  constructor
  case mp  =>
    intro ⟨i, hi, hp, ht⟩
    rw [hn] at hi
    rw [Nat.lt_one_iff.mp hi, (phdr_single ho).right] at hp
    exact ⟨hp, ht⟩
  case mpr => exact fun ⟨hp, ht⟩ => ⟨0, by rw [hn]; decide, by rw [hp, (phdr_single ho).right], ht⟩

theorem executable_single (hn : single.load16 44 = 1) (ho : single.load32 28 = 52)
    (hf : (phdr single 0).Flat 512) : Executable (Disk.file (.single single) ⟨512, 1⟩) 512 where
  table i hi := by
    rw [(single_load16 _ (by decide)).trans hn] at hi
    rw [Nat.lt_one_iff.mp hi, (phdr_single ho).left]
    decide
  flat p hp := by
    rw [((segment_single hn ho).mp hp).left]
    exact hf

end Single

theorem segment_bssFile {b : UInt8} :
    Segment (Disk.file (.single (bssFile b)) ⟨512, 1⟩) p ↔ p = ⟨1, 0, 0x400000, 84, 512⟩ := by
  rw [segment_single rfl rfl, phdr_bssFile]
  exact and_iff_left_of_imp fun hp => hp ▸ rfl

theorem executable_bssFile (b : UInt8) : Executable (Disk.file (.single (bssFile b)) ⟨512, 1⟩) 512 := by
  apply executable_single rfl rfl
  rw [phdr_bssFile]
  exact ⟨by decide, by decide, by decide, by decide⟩

theorem Kernel.exists_bssFile (b : UInt8) : ∃ s use free k stack top s', Machine.Rests s use free k ∧
    Stat.demand ⟨512, 1⟩ + s.newPages ≤ free.length ∧
    (Kernel.runElf 0 (.single (bssFile b)) fun i => if i = 0 then 107 else 0).run s =
      .ok (.swtch stack top) s' := by
  have ⟨s, use, free, k, _, hb, _⟩ := Kernel.kmain_booted (s := .zero) rfl rfl
  have hl := hb.length_eq
  have hn := hb.newPages
  have hd : Stat.demand ⟨512, 1⟩ = 5 := by decide
  have ⟨stack, top, s', hr⟩ := exists_swtch (.of_booted hb)
    (show Disk.stat (.single (bssFile b)) (fun i => if i = 0 then 107 else 0) = some ⟨512, 1⟩ from rfl)
    ⟨by decide, by decide⟩ (executable_bssFile b) (by omega) 0
  exact ⟨s, use, free, k, stack, top, s', .of_booted hb, by omega, hr⟩

theorem Kernel.segments_loaded_zero : ∃ s use free k stack top s', Machine.Rests s use free k ∧
    (Kernel.runElf 0 (.single (bssFile 0)) fun i => if i = 0 then 107 else 0).run s =
      .ok (.swtch stack top) s' ∧
    ∀ p, Segment (Disk.file (.single (bssFile 0)) ⟨512, 1⟩) p →
      s'.HasSegment (Disk.file (.single (bssFile 0)) ⟨512, 1⟩) p := by
  have ⟨s, use, free, k, stack, top, s', h, hl, hr⟩ := Kernel.exists_bssFile 0
  refine ⟨s, use, free, k, stack, top, s', h, hr, ?_⟩
  apply (Kernel.segments_loaded_iff h rfl hl (executable_bssFile 0) hr).mpr
  intro p hp o ho ho' hlt
  rw [segment_bssFile.mp hp] at ho ho'
  have hlo : 84 ≤ o := ho
  rw [single_file _ (show o < 512 from ho'), bssFile]
  repeat rw [if_neg (by omega)]
  exact ite_self 0

-- The byte after the part of the file is found where the process expects a zero.
theorem Kernel.bss_not_zero : ∃ s use free k stack top s', Machine.Rests s use free k ∧
    Disk.stat (.single (bssFile 7)) (fun i => if i = 0 then 107 else 0) = some ⟨512, 1⟩ ∧
    Stat.demand ⟨512, 1⟩ + s.newPages ≤ free.length ∧
    Executable (Disk.file (.single (bssFile 7)) ⟨512, 1⟩) 512 ∧
    (Kernel.runElf 0 (.single (bssFile 7)) fun i => if i = 0 then 107 else 0).run s =
      .ok (.swtch stack top) s' ∧
    Segment (Disk.file (.single (bssFile 7)) ⟨512, 1⟩) ⟨1, 0, 0x400000, 84, 512⟩ ∧
    ¬s'.HasSegment (Disk.file (.single (bssFile 7)) ⟨512, 1⟩) ⟨1, 0, 0x400000, 84, 512⟩ := by
  have ⟨s, use, free, k, stack, top, s', h, hl, hr⟩ := Kernel.exists_bssFile 7
  refine ⟨s, use, free, k, stack, top, s', h, rfl, hl, executable_bssFile 7, hr, segment_bssFile.mpr rfl, ?_⟩
  intro hp
  have ⟨_, _, _, _, h', _⟩ := Kernel.runElf_swtch h rfl hl (executable_bssFile 7) hr
  have hb := hp.bss 100 (by decide) (by decide)
  rw [h'.view (by decide), show 0x400000 + 100 = userBase + 100 from rfl,
    Disk.imageUpTo_file (by decide), single_file _ (by decide)] at hb
  exact absurd hb (by decide)
