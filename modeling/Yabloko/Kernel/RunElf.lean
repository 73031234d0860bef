import Yabloko.Disk.ReadFile
import Yabloko.Kernel.LoadFile

-- The kernel between two commands.
structure Machine.Rests (s : Machine) (use : Nat → Use) (free : List Nat) (k : Nat) : Prop where
  owns   : s.Owns use free
  kvm    : s.kvm = kernbase + k
  kernel : use k = .dir
  cr3    : use s.cr3 = .dir
  zero   : ∀ d, ¬Maps use d 0
  task   : s.userTask = 0 ∨ ∃ t, s.userTask = kernbase + t ∧ use t = .held

-- There is a process with the directory `d`, which `vm.user_task` refers to.
structure Machine.HasTask (s : Machine) (use : Nat → Use) (free : List Nat) (k t d : Nat) : Prop where
  owns     : s.Owns use free
  kvm      : s.kvm = kernbase + k
  kernel   : use k = .dir
  cr3      : use s.cr3 = .dir
  zero     : ∀ d, ¬Maps use d 0
  userTask : s.userTask = kernbase + t
  held     : use t = .held
  pgdir    : s.mem.load32 (t + Task.pgdir) = kernbase + d
  user     : use d = .dir
  ne       : d ≠ k

-- The pages which are taken for a new process: its directory, and the page for the task at first.
def Machine.newPages (s : Machine) : Nat :=
  if s.userTask = 0 then 2 else 1

-- The task and the directory of a new process are pages which have been free, unless there has been a
-- task before.
structure Machine.Begins (s : Machine) (use : Nat → Use) (free : List Nat) (t d : Nat) (use' : Nat → Use)
    (free' : List Nat) : Prop where
  kept   : ∀ p, use p ≠ .free → use' p = use p
  taken  : ∀ p, use p = .free → use' p = .free ∨ p = t ∨ p = d
  task   : s.userTask = 0 ∨ s.userTask = kernbase + t
  length : free.length = free'.length + s.newPages

-- The sectors of a file which `run_elf` reads.
def Stat.imageSectors (statbuf : Stat) : Nat :=
  statbuf.sectorsRead (100 <<< 20)

-- The image has been read from the file. Its end is close to its beginning, unless all pages are taken.
structure Machine.HasImage (s : Machine) (use : Nat → Use) (free : List Nat) (disk : Disk) (statbuf : Stat) :
    Prop where
  room    : free = [] ∨ (userBase ≤ (userBase + statbuf.size) % 2 ^ 32 ∧
              (userBase + statbuf.size) % 2 ^ 32 ≤ 2 ^ 28)
  sectors : 0 < statbuf.imageSectors
  maps    : ∀ i < sectorSize * statbuf.imageSectors, Maps use s.cr3 ((userBase + i) / pgsize)
  bytes   : ∀ i < sectorSize * statbuf.imageSectors,
              s.view (userBase + i) = some (disk.from (fsStart + statbuf.startSector) i)

-- The stack from which the process is entered has just been set up.
structure Machine.Entered (trapret t u : Nat) (s' : Machine) : Prop where
  stack : u = kernbase + t + Task.stack + Kstack.context
  setup : ∃ s, (Kernel.setupStack trapret (kernbase + t + Task.stack) userBase).run s = .ok () s'

-- The page of the task has been written to, except for its field `pgdir`.
structure TaskWrite (t : Nat) (s s' : Machine) : Prop where
  memory : s' = { s with mem := s'.mem }
  agree  : Bytes.AgreeOutside t pgsize s.mem s'.mem
  pgdir  : ∀ i, Task.pgdir ≤ i → i < Task.stack → s'.mem (t + i) = s.mem (t + i)

variable {s s' s'' s₁ : Machine} {use use' : Nat → Use} {free free' : List Nat} {k t d d' a n i v : Nat}
  {c : Nat} {r : Int} {statbuf : Stat} {disk : Disk} {trapret : Nat}

namespace TaskWrite

theorem refl (t : Nat) (s : Machine) : TaskWrite t s s where
  memory := rfl
  agree _ _ := rfl
  pgdir _ _ _ := rfl

theorem trans (h : TaskWrite t s s') (h' : TaskWrite t s' s'') : TaskWrite t s s'' where
  memory := by rw [h'.memory, h.memory]
  agree := h.agree.trans h'.agree
  pgdir i hi hi' := (h'.pgdir i hi hi').trans <| h.pgdir i hi hi'

-- A part of the page which does not contain the field.
theorem of_agree {m : Bytes} (h : Bytes.AgreeOutside (t + i) n s.mem m)
    (hi : i + n ≤ Task.pgdir ∨ Task.stack ≤ i) (hn : i + n ≤ pgsize) :
    TaskWrite t s { s with mem := m } where
  memory := rfl
  agree := h.mono (by omega) (by omega)
  pgdir j hj hj' := h _ <| by omega

theorem store32 (ht : IsPage t) (hi : i + 4 ≤ Task.pgdir ∨ Task.stack ≤ i) (hn : i + 4 ≤ pgsize)
    (hr : (Kernel.store32 (kernbase + t + i) v).run s = .ok () s') : TaskWrite t s s' := by
  have hp := ht.page_upper
  rw [Nat.add_assoc, s.store32_kernbase (by simp only [pgsize] at hn hp; omega)] at hr
  cases hr
  exact of_agree (s.mem.store32_agree _ _) hi hn

theorem store16 (ht : IsPage t) (hi : i + 2 ≤ Task.pgdir ∨ Task.stack ≤ i) (hn : i + 2 ≤ pgsize)
    (hr : (Kernel.store16 (kernbase + t + i) v).run s = .ok () s') : TaskWrite t s s' := by
  have hp := ht.page_upper
  simp only [pgsize] at hn hp
  have ⟨_, s₁, hr₁, hr₂⟩ := EStateM.bind_eq_ok hr
  rw [Nat.add_assoc, s.storeByte_kernbase (by omega)] at hr₁
  cases hr₁
  rw [Nat.add_assoc kernbase, Machine.kernbase_add (by omega), Machine.storeByte_kernbase _ (by omega)] at hr₂
  cases hr₂
  apply of_agree (i := i) (n := 2) _ hi hn
  exact ((s.mem.store_agree _ _).mono (by omega) (by omega)).trans <|
    (Bytes.store_agree _ _ _).mono (by omega) (by omega)

theorem memset (ht : IsPage t) (hi : i + n ≤ Task.pgdir ∨ Task.stack ≤ i) (hn : i + n ≤ pgsize)
    (hr : (Kernel.memset (kernbase + t + i) c n).run s = .ok () s') : TaskWrite t s s' := by
  have hp := ht.page_upper
  rw [Nat.add_assoc, s.memset_kernbase (by simp only [pgsize] at hn hp; omega)] at hr
  cases hr
  exact of_agree (s.mem.fill_agree _ _ _) hi hn

theorem with_cr3 (h : TaskWrite t s s') (d : Nat) : TaskWrite t { s with cr3 := d } { s' with cr3 := d } where
  memory := by rw [h.memory]
  agree := h.agree
  pgdir := h.pgdir

theorem switchuvm (ht : IsPage t) (hd : IsPage d) {esp : Nat}
    (hr : (Kernel.switchuvm (kernbase + t) esp (kernbase + d)).run s = .ok () s') :
    TaskWrite t { s with cr3 := d } s' := by
  have ⟨_, s₁, hr₁, hr⟩ := EStateM.bind_eq_ok hr
  have ⟨_, s₂, hr₂, hr⟩ := EStateM.bind_eq_ok hr
  have ⟨_, s₃, hr₃, hr⟩ := EStateM.bind_eq_ok hr
  have ⟨_, s₄, hr₄, hr⟩ := EStateM.bind_eq_ok hr
  have h₁ := (refl t s).trans <| .memset (i := 0) ht (.inl (by decide)) (by decide) hr₁
  have h₂ := h₁.trans <| .store16 (i := 8) ht (.inl (by decide)) (by decide) hr₂
  have h₃ := h₂.trans <| .store32 (i := 4) ht (.inl (by decide)) (by decide) hr₃
  have h₄ := h₃.trans <| .store16 (i := 102) ht (.inl (by decide)) (by decide) hr₄
  have hv := v2p_kernbase hd.upper
  cases hr
  simp only [hv]
  exact h₄.with_cr3 d

-- The fields of the trapframe, which `run_elf` stores one after the other.
theorem setupStack (ht : IsPage t) {hdr : Nat}
    (hr : (Kernel.setupStack trapret (kernbase + t + Task.stack) hdr).run s = .ok () s') :
    TaskWrite t s s' := by
  have store {va i v : Nat} {s₁ s₂ : Machine} (hw : TaskWrite t s s₁)
      (hr : (Kernel.store32 va v).run s₁ = .ok () s₂) (hi : va = kernbase + t + Task.stack + i)
      (hn : Task.stack + i + 4 ≤ pgsize) : TaskWrite t s s₂ := by
    rw [hi, Nat.add_assoc (kernbase + t)] at hr
    exact hw.trans <| .store32 ht (.inr <| Nat.le_add_right _ _) hn hr
  have field (u i j : Nat) : u + i + j = u + (i + j) := Nat.add_assoc _ _ _
  have copy {va i va' : Nat} {f : Unit → Kernel Unit} {s₁ s₂ : Machine} (hw : TaskWrite t s s₁)
      (hr : (Kernel.load32 va' >>= fun v => Kernel.store32 va v >>= f).run s₁ = .ok () s₂)
      (hi : va = kernbase + t + Task.stack + i) (hn : Task.stack + i + 4 ≤ pgsize) :
      ∃ s₃, TaskWrite t s s₃ ∧ (f ()).run s₃ = .ok () s₂ := by
    have ⟨_, s₃, hr₃, hr⟩ := EStateM.bind_eq_ok hr
    have ⟨_, s₄, hr₄, hr⟩ := EStateM.bind_eq_ok hr
    rw [Kernel.Keeps.load32 va' _ _ _ hr₃] at hr₄
    exact ⟨s₄, store hw hr₄ hi hn, hr⟩
  have ⟨_, s₁, hr₁, hr⟩ := EStateM.bind_eq_ok hr
  have h₁ := (refl t s).trans <| .memset (i := Task.stack) ht (.inr (by decide)) (by decide) hr₁
  have ⟨_, s₂, hr₂, hr⟩ := EStateM.bind_eq_ok hr
  have h₂ := store h₁ hr₂ (field _ _ _) (by decide)
  have ⟨s₃, h₃, hr⟩ := copy h₂ hr (field _ _ _) (by decide)
  have ⟨_, s₄, hr₄, hr⟩ := EStateM.bind_eq_ok hr
  have h₄ := store h₃ hr₄ (field _ _ _) (by decide)
  have ⟨_, s₅, hr₅, hr⟩ := EStateM.bind_eq_ok hr
  have h₅ := store h₄ hr₅ (field _ _ _) (by decide)
  have ⟨s₆, h₆, hr⟩ := copy h₅ hr (field _ _ _) (by decide)
  have ⟨s₇, h₇, hr⟩ := copy h₆ hr (field _ _ _) (by decide)
  have ⟨s₈, h₈, hr⟩ := copy h₇ hr (field _ _ _) (by decide)
  have ⟨s₉, h₉, hr⟩ := copy h₈ hr (field _ _ _) (by decide)
  have ⟨_, s₁₀, hr₁₀, hr⟩ := EStateM.bind_eq_ok hr
  have h₁₀ := store h₉ hr₁₀ (field _ _ _) (by decide)
  exact store h₁₀ hr (field _ _ _) (by decide)

end TaskWrite

-- A directory without tables maps nothing.
theorem Machine.Owns.not_maps (h : s.Owns use free) (hnew : ∀ i, ¬HasTable use d i) (v : Nat) :
    ¬Maps use d v := fun ⟨f, hf⟩ =>
  have ⟨t, ht, _⟩ := h.mapped.frame f d v hf
  hnew _ ⟨t, ht⟩

namespace Machine.HasTask

theorem rests (h : s.HasTask use free k t d) : s.Rests use free k where
  owns := h.owns
  kvm := h.kvm
  kernel := h.kernel
  cr3 := h.cr3
  zero := h.zero
  task := .inr ⟨t, h.userTask, h.held⟩

theorem taskPage (h : s.HasTask use free k t d) : IsPage t :=
  h.owns.page (by simp [h.held])

theorem load_pgdir (h : s.HasTask use free k t d) :
    (Kernel.load32 (kernbase + t + Task.pgdir)).run s = .ok (kernbase + d) s := by
  have hp := h.taskPage.page_upper
  rw [Nat.add_assoc, s.load32_kernbase (by simp only [pgsize, Task.pgdir] at hp ⊢; omega), h.pgdir]

theorem taskWrite (h : s.HasTask use free k t d) (hw : TaskWrite t s s') :
    s'.HasTask use free k t d := by
  have hc : ChangesIn (· = t) s.mem s'.mem :=
    ChangesIn.of_agree h.taskPage hw.agree (Nat.le_refl _) (Nat.le_refl _)
  have hl : s'.mem.load32 (t + Task.pgdir) = s.mem.load32 (t + Task.pgdir) := by
    simp only [Bytes.load32, Bytes.load16, Nat.add_assoc]
    rw [hw.pgdir 104 (by decide) (by decide), hw.pgdir 105 (by decide) (by decide),
      hw.pgdir 106 (by decide) (by decide), hw.pgdir 107 (by decide) (by decide)]
  have ho := h.owns.touch hc fun p hp => by simp [hp, h.held]
  rw [hw.memory]
  exact { h with owns := ho, pgdir := hl.trans h.pgdir }

theorem frameWrite (h : s.HasTask use free k t d) (hw : FrameWrite d' use s s') :
    s'.HasTask use free k t d := by
  have ho := hw.owns h.owns
  have hs := hw.changes t h.taskPage fun ⟨v, hv⟩ => by simp [h.held] at hv
  have hl : s'.mem.load32 (t + Task.pgdir) = s.mem.load32 (t + Task.pgdir) :=
    hs.load32_eq (i := 26) (by decide)
  rw [hw.memory] at ho ⊢
  exact { h with owns := ho, pgdir := hl.trans h.pgdir }

theorem with_cr3 (h : s.HasTask use free k t d) (hd : use d' = .dir) :
    Machine.HasTask { s with cr3 := d' } use free k t d :=
  { h with owns := h.owns.with_cr3 d', cr3 := hd }

-- The directory of the process has been extended, but not by the lowest page.
theorem ranged (h : s.HasTask use free k t d) (hr : Ranged d a n s use s' use' free')
    (ha : 0 < a ∨ n = 0) : s'.HasTask use' free' k t d := by
  have huse {p} (hp : use p ≠ .free) : use' p = use p := hr.extend.uses p hp
  have hs := hr.extend.kept t (by simp [h.held]) (by simp [h.held])
    (fun he => Use.noConfusion (h.held.symm.trans <| he ▸ h.user)) (by simp [h.held])
  exact {
    owns := hr.owns
    kvm := hr.extend.kvm.trans h.kvm
    kernel := by rw [huse (by simp [h.kernel]), h.kernel]
    cr3 := by rw [hr.extend.cr3, huse (by simp [h.cr3]), h.cr3]
    zero := fun d' hm => by
      cases hr.maps_any hm
      case inl hm => exact h.zero d' hm
      case inr hm => omega
    userTask := hr.extend.userTask.trans h.userTask
    held := by rw [huse (by simp [h.held]), h.held]
    pgdir := (hs.load32_eq (i := 26) (by decide)).trans h.pgdir
    user := by rw [huse (by simp [h.user]), h.user]
    ne := h.ne }

theorem switchuvm (h : s.HasTask use free k t d) {esp : Nat}
    (hr : (Kernel.switchuvm (kernbase + t) esp (kernbase + d)).run s = .ok () s') :
    s'.HasTask use free k t d ∧ s'.cr3 = d := by
  have hw := TaskWrite.switchuvm h.taskPage (h.owns.page (p := d) (by simp [h.user])) hr
  exact ⟨(h.with_cr3 h.user).taskWrite hw, by rw [hw.memory]⟩

-- A call of `allocuvm` for the process.
theorem allocuvm (h : s.HasTask use free k t d) {base top : Nat}
    (hb : 0 < pgroundup base / pgsize ∨ free = [])
    (hroom : free = [] ∨ ∀ j ≤ free.length, (pgroundup base / pgsize + j) * pgsize < top →
      pgroundup base / pgsize + j < 2 ^ 19)
    (hr : (Kernel.allocuvm (kernbase + d) base top).run s = .ok r s') :
    ∃ use' free' n, s'.HasTask use' free' k t d ∧
      Ranged d (pgroundup base / pgsize) n s use s' use' free' ∧
      (∀ j < n, (pgroundup base / pgsize + j) * pgsize < top) ∧
      ((pgroundup base / pgsize + free.length) * pgsize < top → free'.length ≤ 1) := by
  have ⟨use', free', n, hx, ht, hl⟩ := h.owns.allocuvm_any h.user hroom hr
  refine ⟨use', free', n, h.ranged hx ?_, hx, ht, hl⟩
  cases hb
  case inl hb => exact .inl hb
  case inr hb =>
    by_contra hc
    rw [not_or, Nat.not_lt, Nat.le_zero] at hc
    have ⟨p, hp, _⟩ := hx.first hc.right (hc.left ▸ h.zero d)
    simp [← h.owns.mem_iff, hb] at hp

-- After a file has been read, there is no room for the pages above it in the lower half only if there
-- are no pages for them either.
theorem room {s₁ s₂ : Machine} {use₁ use₂ : Nat → Use} {free₁ free₂ : List Nat} {n₁ n₂ : Nat} {r : Int}
    (h₁ : s₁.HasTask use₁ free₁ k t d) (hsize : statbuf.size < 2 ^ 32) (hnew : ∀ v, ¬Maps use d v)
    (hx₁ : Ranged d (userBase / pgsize) n₁ s use s₁ use₁ free₁)
    (ht₁ : ∀ j < n₁, (userBase / pgsize + j) * pgsize < (userBase + statbuf.size) % 2 ^ 32)
    (hl₁ : (userBase / pgsize + phystop / pgsize) * pgsize < (userBase + statbuf.size) % 2 ^ 32 →
      free₁.length ≤ 1)
    (hr₂ : (Kernel.allocuvm (kernbase + d) (userStackBase - 2 * pgsize) userStackBase).run s₁ = .ok r s₂)
    (hx₂ : Ranged d ((userStackBase - 2 * pgsize) / pgsize) n₂ s₁ use₁ s₂ use₂ free₂)
    (hs : 0 < (statbuf.size + sectorSize - 1) % 2 ^ 32 / sectorSize)
    (hm : ∀ i < sectorSize * min ((statbuf.size + sectorSize - 1) % 2 ^ 32 / sectorSize) 204800,
      Maps use₂ d ((userBase + i) / pgsize)) :
    free₂ = [] ∨ (userBase ≤ (userBase + statbuf.size) % 2 ^ 32 ∧
      (userBase + statbuf.size) % 2 ^ 32 ≤ 2 ^ 28) := by
  simp only [userBase, userStackBase, pgsize, phystop, sectorSize, Nat.reduceDiv, Nat.reduceMul,
    Nat.reduceSub] at *
  have hbase : 0x400000 < (0x400000 + statbuf.size) % 2 ^ 32 := by
    have hmb := hm 0 (by omega)
    cases (hx₂.maps _).mp hmb
    case inr hmb => omega
    case inl hmb =>
      cases (hx₁.maps _).mp hmb
      case inl hmb => exact absurd hmb (hnew _)
      case inr hmb =>
        have := ht₁ 0 (by omega)
        omega
  by_cases hbig : (0x400000 + statbuf.size) % 2 ^ 32 ≤ 2 ^ 28
  case pos => exact .inr ⟨by omega, hbig⟩
  case neg =>
    apply Or.inl
    have hstack := hm (0xEFE000 - 0x400000) (by omega)
    refine h₁.owns.allocuvm_takes (hl₁ <| by omega) (by decide) (by decide) (by decide) hr₂ hx₂ hstack

theorem setupStack (h : s.HasTask use free k t d) {hdr : Nat}
    (hr : (Kernel.setupStack trapret (kernbase + t + Task.stack) hdr).run s = .ok () s') :
    s'.HasTask use free k t d ∧ s'.cr3 = s.cr3 := by
  have hw := TaskWrite.setupStack h.taskPage hr
  exact ⟨h.taskWrite hw, by rw [hw.memory]⟩

end Machine.HasTask

theorem Machine.Owns.readFile_bytes {r : Int} (h : s.Owns use free)
    (hm : ∀ i < sectorSize * statbuf.imageSectors, Maps use s.cr3 ((userBase + i) / pgsize))
    (hr : (Kernel.readFile disk statbuf userBase (100 <<< 20)).run s = .ok r s') :
    ∀ i < sectorSize * statbuf.imageSectors,
      s'.view (userBase + i) = some (disk.from (fsStart + statbuf.startSector) i) := by
  have hle : sectorSize * statbuf.imageSectors ≤ 100 <<< 20 := by
    simp only [Stat.imageSectors, Stat.sectorsRead, sectorSize]
    omega
  have hb : s.Buffer userBase (sectorSize * statbuf.imageSectors) := h.buffer fun i hi =>
    ⟨by simp only [userBase, kernbase] at hle ⊢; omega, hm i hi⟩
  obtain ⟨s₁, hr₁, hw⟩ := Kernel.readFile_run disk statbuf (100 <<< 20) (Nat.lt_of_le_of_lt hle (by decide)) hb
  rw [hr] at hr₁
  cases hr₁
  exact hw.bytes

namespace Machine.HasTask

theorem readImage (h : s.HasTask use free k t d) (hsize : statbuf.size < 2 ^ 32)
    (hnew : ∀ v, ¬Maps use d v)
    (hr : (Kernel.readImage disk statbuf (kernbase + t)).run s = .ok r s') :
    ∃ use' free', s'.HasTask use' free' k t d ∧ s'.cr3 = d ∧
      (0 < r → s'.HasImage use' free' disk statbuf) := by
  have hlen := h.owns.length_lt
  simp only [phystop, pgsize, Nat.reduceDiv] at hlen
  rw [Kernel.readImage, EStateM.bind_ok h.load_pgdir] at hr
  obtain ⟨_, s₁, hr₁, hr⟩ := EStateM.bind_eq_ok hr
  obtain ⟨use₁, free₁, n₁, h₁, hx₁, ht₁, hl₁⟩ := h.allocuvm (.inl (by decide)) (.inr fun j hj _ => by
    simp only [pgroundup, userBase, pgsize] at *
    omega) hr₁
  rw [EStateM.bind_ok h₁.load_pgdir] at hr
  obtain ⟨r₂, s₂, hr₂, hr⟩ := EStateM.bind_eq_ok hr
  have hlen₁ := h₁.owns.length_lt
  obtain ⟨use₂, free₂, n₂, h₂, hx₂, _⟩ := h₁.allocuvm (.inl (by decide)) (.inr fun j hj _ => by
    simp only [pgroundup, userStackBase, phystop, pgsize] at *
    omega) hr₂
  rw [EStateM.bind_ok h₂.load_pgdir] at hr
  obtain ⟨_, s₃, hr₃, hr⟩ := EStateM.bind_eq_ok hr
  obtain ⟨h₃, hc₃⟩ := h₂.switchuvm hr₃
  obtain ⟨hw, hm⟩ := h₃.owns.readFile_ok h₃.cr3 hr
  have hc : s'.cr3 = s₃.cr3 := by rw [hw.memory]
  refine ⟨use₂, free₂, h₃.frameWrite hw, hc.trans hc₃, fun hpos => ?_⟩
  obtain ⟨hs, hm⟩ := hm hpos
  have hroom := h₁.room hsize hnew hx₁ ht₁ (fun hlt => hl₁ <| Nat.lt_of_le_of_lt
    (Nat.mul_le_mul_right _ <| Nat.add_le_add_left (Nat.le_of_lt h.owns.length_lt) _) hlt) hr₂ hx₂ hs
    (hc₃ ▸ hm)
  exact {
    room := hroom
    sectors := by
      simp only [Stat.imageSectors, Stat.sectorsRead, Stat.fileSectors, sectorSize] at hs ⊢
      omega
    maps := hc ▸ hm
    bytes := h₃.owns.readFile_bytes hm hr }

theorem enterImage (h : s.HasTask use free k t d) (hc : s.cr3 = d) (hi : s.HasImage use free disk statbuf)
    {e : RunElf} (hr : (Kernel.enterImage trapret statbuf (kernbase + t)).run s = .ok e s') :
    ∃ use' free', s'.HasTask use' free' k t d ∧ s'.cr3 = d ∧
      ∀ u top, e = .swtch u top → s'.Entered trapret t u := by
  have hroom := hi.room
  have ⟨_, s₁, hr₁, hr⟩ := EStateM.bind_eq_ok hr
  have hk := Kernel.Keeps.imageTop_go _ _ _ _ _ _ _ hr₁
  rw [hk] at hr
  have finish {use free} {s₁ : Machine} (h : s₁.HasTask use free k t d) (hc : s₁.cr3 = d) {top : Nat}
      (hr : ((do Kernel.setupStack trapret (kernbase + t + Task.stack) userBase
                 return .swtch (kernbase + t + Task.stack + Kstack.context) top) : Kernel RunElf).run s₁ =
        .ok e s') : ∃ use' free', s'.HasTask use' free' k t d ∧ s'.cr3 = d ∧
          ∀ u top, e = .swtch u top → s'.Entered trapret t u := by
    have ⟨_, s₂, hr₂, hr⟩ := EStateM.bind_eq_ok hr
    have ⟨h₂, hc₂⟩ := h.setupStack hr₂
    cases hr
    exact ⟨use, free, h₂, hc₂.trans hc, fun _ _ he => by cases he; exact ⟨rfl, s₁, hr₂⟩⟩
  split at hr
  case isFalse => exact finish h hc hr
  case isTrue  =>
    rw [EStateM.bind_ok h.load_pgdir] at hr
    have ⟨r₂, s₂, hr₂, hr⟩ := EStateM.bind_eq_ok hr
    have hlen := h.owns.length_lt
    simp only [phystop, pgsize, Nat.reduceDiv] at hlen
    have ⟨use₂, free₂, n₂, h₂, hx₂, _⟩ := h.allocuvm (hroom.symm.imp_left fun hroom => by
      simp only [pgroundup, userBase, pgsize] at hroom ⊢
      omega) (hroom.imp_right fun hroom j hj _ => by
      simp only [pgroundup, userBase, pgsize] at hroom ⊢
      omega) hr₂
    have hc₂ : s₂.cr3 = d := hx₂.extend.cr3.trans hc
    split at hr
    case isTrue  =>
      cases hr
      exact ⟨use₂, free₂, h₂, hc₂, fun _ _ he => by cases he⟩
    case isFalse => exact finish h₂ hc₂ hr

theorem loadElf (h : s.HasTask use free k t d) (hsize : statbuf.size < 2 ^ 32)
    (hnew : ∀ v, ¬Maps use d v) {e : RunElf}
    (hr : (Kernel.loadElf trapret disk statbuf (kernbase + t)).run s = .ok e s') :
    ∃ use' free', s'.HasTask use' free' k t d ∧ s'.cr3 = d ∧
      ∀ u top, e = .swtch u top → s'.Entered trapret t u := by
  rw [Kernel.loadElf] at hr
  have ⟨r, s₁, hr₁, hr⟩ := EStateM.bind_eq_ok hr
  have ⟨use₁, free₁, h₁, hc₁, hi₁⟩ := h.readImage hsize hnew hr₁
  split at hr
  case isTrue      =>
    cases hr
    exact ⟨use₁, free₁, h₁, hc₁, fun _ _ he => by cases he⟩
  case isFalse hr₀ => exact h₁.enterImage hc₁ (hi₁ <| Int.not_le.mp hr₀) hr

end Machine.HasTask

namespace Machine.Rests

theorem exhausted (h : s.Rests use free k) : Machine.Rests { s with exhausted := true } use free k :=
  { h with owns := { h.owns with } }

-- Another use has been found for a free page.
theorem reuse {u : Use} {p : Nat} (h : s.Rests use free k) (hp : use p = .free)
    (ho : s'.Owns (Function.update use p u) free') (hu : ∀ d v, u ≠ .frame d v) (hk : s'.kvm = s.kvm)
    (hc : s'.cr3 = s.cr3)
    (ht : s'.userTask = 0 ∨ ∃ t, s'.userTask = kernbase + t ∧ Function.update use p u t = .held) :
    s'.Rests (Function.update use p u) free' k where
  owns := ho
  kvm := hk.trans h.kvm
  kernel := by rw [Function.update_of_ne (fun he => by simp [← he, h.kernel] at hp), h.kernel]
  cr3 := by rw [hc, Function.update_of_ne (fun he => by simp [← he, h.cr3] at hp), h.cr3]
  zero d hm := h.zero d <| hm.of_update hu
  task := ht

-- The page for the task, which is taken by the first process.
theorem task_page {α : Type} {f : Kernel α} {a : α} (h : s.Rests use free k)
    (hr : ((do if (← get).userTask = 0 then
                 let task ← Kernel.kalloc
                 modify fun s => { s with userTask := task }
                 f
               else f) : Kernel α).run s = .ok a s') :
    ∃ s₁ use₁ free₁, f.run s₁ = .ok a s' ∧ s₁.Rests use₁ free₁ k ∧ (s₁.userTask = 0 → free₁ = []) ∧
      (s.userTask = 0 ∨ s.userTask = s₁.userTask) ∧
      (∀ p, use p ≠ .free → use₁ p = use p) ∧
      (∀ p, use p = .free → use₁ p = .free ∨ s₁.userTask = kernbase + p) ∧
      (free₁ = [] ∨ free.length = free₁.length + if s.userTask = 0 then 1 else 0) := by
  rw [EStateM.get_bind] at hr
  split at hr
  case isFalse hn =>
    exact ⟨s, use, free, hr, h, fun hz => absurd hz hn, .inr rfl, fun _ _ => rfl, fun _ hp => .inl hp,
      .inr (by rw [if_neg hn, Nat.add_zero])⟩
  case isTrue hz  =>
    match free, h with
    | [], h         =>
      rw [EStateM.bind_ok h.owns.kalloc_nil] at hr
      exact ⟨_, use, [], hr, { h.exhausted with owns := { h.owns with }, task := .inl rfl }, fun _ => rfl,
        .inl hz, fun _ _ => rfl, fun _ hp => .inl hp, .inl rfl⟩
    | t :: free', h =>
      have ⟨freelist, hk, h'⟩ := h.owns.kalloc_cons
      rw [EStateM.bind_ok hk] at hr
      have ht := (h.owns.mem_iff t).mp (by simp)
      refine ⟨_, Function.update use t .held, free', hr, h.reuse ht { h' with } (by simp) rfl rfl
        (.inr ⟨t, rfl, by simp⟩), fun hz => absurd hz <| kernbase_ne t, .inl hz, fun p hp => ?_, fun p hp => ?_,
        .inr (by rw [if_pos hz]; rfl)⟩
      case refine_1 =>
        have hne : p ≠ t := fun he => hp <| by rw [he, ht]
        exact Function.update_of_ne hne _ _
      case refine_2 =>
        by_cases he : p = t
        case pos => exact .inr <| by rw [he]
        case neg => exact .inl <| by rwa [Function.update_of_ne he]

theorem setupkvm {pgdir : Nat} (h : s.Rests use free k) (hr : Kernel.setupkvm.run s = .ok pgdir s') :
    ∃ d use' free', pgdir = kernbase + d ∧ s'.Rests use' free' k ∧ use d = .free ∧
      use' = Function.update use d .dir ∧ d ≠ k ∧
      (∀ i, ¬HasTable use' d i) ∧ free.length = free'.length + 1 ∧ s'.userTask = s.userTask := by
  match free, h with
  | [], h         =>
    have hz := h.owns.translate_none h.cr3 (h.zero _) (n := 0) (by decide) (by decide)
    rw [h.owns.setupkvm_nil hz] at hr
    cases hr
  | d :: free', h =>
    have ⟨mem, freelist, hr', h', _⟩ := h.owns.setupkvm_cons
    rw [hr] at hr'
    cases hr'
    have hd := (h.owns.mem_iff d).mp (by simp)
    refine ⟨d, _, free', rfl, h.reuse hd h' (by simp) rfl rfl ?_, hd, rfl,
      fun he => by simp [he, h.kernel] at hd, fun i ht => ?_, rfl, rfl⟩
    case refine_1 =>
      apply h.task.imp_right
      intro ⟨t, ht, hu⟩
      exact ⟨t, ht, by rwa [Function.update_of_ne fun he => by simp [← he, hu] at hd]⟩
    case refine_2 =>
      have ⟨t, ht⟩ := ht
      rw [update_eq_iff (by simp [hd]) _ (by simp)] at ht
      have hdir := (h.owns.mapped.table t d _ ht).left
      simp [hd] at hdir

-- The directory of the process, which has no tables yet.
theorem newProcess {task : Nat} (h : s.Rests use free k) (hr : Kernel.newProcess.run s = .ok task s') :
    ∃ use' free' t d, task = kernbase + t ∧ s'.HasTask use' free' k t d ∧ (∀ i, ¬HasTable use' d i) ∧
      s.Begins use free t d use' free' := by
  have ⟨s₁, use₁, free₁, hr, h₁, hnil, hu₁, hkept, htaken, hl₁⟩ := h.task_page hr
  rw [EStateM.get_bind] at hr
  have ⟨pgdir, s₂, hr₂, hr⟩ := EStateM.bind_eq_ok hr
  have ⟨_, s₃, hr₃, hr⟩ := EStateM.bind_eq_ok hr
  have ⟨d, use₂, free₂, hd, h₂, hfree, huse, hne, hnew, hl₂, hu⟩ := h₁.setupkvm hr₂
  have hdir : use₂ d = .dir := by rw [huse, Function.update_self]
  have hcons : free₁ ≠ [] := fun hc => by simp [hc] at hl₂
  cases h₂.task
  case inl hz => exact absurd (hnil <| hu.symm.trans hz) hcons
  case inr ht =>
    have ⟨t, ht, hheld⟩ := ht
    have htp := h₂.owns.page (p := t) (by simp [hheld])
    have hup := htp.page_upper
    simp only [pgsize] at hup
    have hlt : kernbase + d < 2 ^ 32 := by
      have hu := (h₂.owns.page (p := d) (by simp [hdir])).upper
      simp only [kernbase, phystop] at hu ⊢
      omega
    rw [← hu, ht] at hr₃ hr
    rw [hd, Nat.add_assoc, s₂.store32_kernbase (by simp only [Task.pgdir]; omega)] at hr₃
    cases hr₃
    cases hr
    have hw := h₂.owns.write_held hheld <|
      (s₂.mem.store32_agree (t + Task.pgdir) (kernbase + d)).mono (Nat.le_add_right _ _)
        (by simp only [Task.pgdir, pgsize]; omega)
    have hl := hl₁.resolve_left hcons
    refine ⟨use₂, free₂, t, d, rfl, ?_, hnew, ?_⟩
    case refine_1 =>
      exact {
        h₂ with
        owns := hw
        userTask := ht
        held := hheld
        pgdir := Bytes.load32_store32 hlt
        user := hdir
        ne := hne }
    case refine_2 =>
      have hother {p} (hp : p ≠ d) : use₂ p = use₁ p := by rw [huse, Function.update_of_ne hp]
      exact {
        kept := fun p hp => by
          rw [hother, hkept p hp]
          intro he
          rw [← he, hkept p hp] at hfree
          exact hp hfree
        taken := fun p hp => by
          by_cases he : p = d
          case pos => exact .inr <| .inr he
          case neg =>
            rw [hother he]
            apply (htaken p hp).imp_right
            intro hp
            exact .inl <| Nat.add_left_cancel <| hp.symm.trans <| hu.symm.trans ht
        task := hu₁.imp_right fun hc => hc.trans <| hu.symm.trans ht
        length := by rw [hl, hl₂, Machine.newPages]; split <;> rfl }

theorem runElf (h : s.Rests use free k) {name : CString} {e : RunElf}
    (hr : (Kernel.runElf trapret disk name).run s = .ok e s') :
    ∃ use' free', s'.Rests use' free' k ∧
      ∀ u top, e = .swtch u top →
        ∃ t d, s'.HasTask use' free' k t d ∧ s'.cr3 = d ∧ s'.Entered trapret t u := by
  rw [Kernel.runElf] at hr
  split at hr
  case h_1              =>
    cases hr
    exact ⟨use, free, h, fun _ _ he => by cases he⟩
  case h_2 statbuf hs =>
    have ⟨task, s₁, hr₁, hr⟩ := EStateM.bind_eq_ok hr
    have ⟨use₁, free₁, t, d, ht, h₁, hnew, _⟩ := h.newProcess hr₁
    have ⟨use', free', h', hc, he⟩ := h₁.loadElf (Disk.stat_size_lt hs) (h₁.owns.not_maps hnew) (ht ▸ hr)
    exact ⟨use', free', h'.rests, fun u top hu => ⟨t, d, h', hc, he u top hu⟩⟩

end Machine.Rests
