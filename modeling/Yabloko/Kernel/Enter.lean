import Yabloko.Kernel.Headers

-- The pages of the image above the file, and those which are taken for them.
def Stat.bssPages (statbuf : Stat) (top : Nat) : Nat :=
  (top + pgsize - 1) / pgsize - (userBase / pgsize + statbuf.pages)

def Stat.bssDemand (statbuf : Stat) (top : Nat) : Nat :=
  pagesFor statbuf.tables (userBase / pgsize + statbuf.pages) (statbuf.bssPages top)

-- The memory of the process, when it is entered.
def Disk.imageUpTo (disk : Disk) (statbuf : Stat) (top : Nat) : View :=
  (disk.image statbuf).zero ((userBase / pgsize + statbuf.pages) * pgsize)
    ((userBase / pgsize + statbuf.pages + statbuf.bssPages top) * pgsize)

theorem Stat.BelowStack.fileTop {statbuf : Stat} (h : statbuf.BelowStack) :
    (userBase + statbuf.size) % 2 ^ 32 = userBase + statbuf.size := by
  have hstack := h.right
  simp only [userBase, userStackBase, pgsize] at *
  omega

theorem Stat.BelowStack.round {statbuf : Stat} (h : statbuf.BelowStack) :
    pgroundup (userBase + statbuf.size) = (userBase / pgsize + statbuf.pages) * pgsize := by
  have hstack := h.right
  simp only [pgroundup, Stat.pages, userBase, userStackBase, pgsize] at *
  omega

theorem Disk.image_none {disk : Disk} {statbuf : Stat} {va : Nat}
    (hl : (userBase / pgsize + statbuf.pages) * pgsize ≤ va) (hu : va < userStackBase - 2 * pgsize) :
    disk.image statbuf va = none := by
  have hpages : statbuf.pages = (statbuf.size + pgsize - 1) / pgsize := rfl
  simp only [userBase, userStackBase, pgsize] at hl hu hpages
  simp only [Disk.image, View.write, View.zero, userBase, userStackBase, pgsize, sectors, sectorSize]
  rw [if_neg (by omega), if_neg (by omega), if_neg (by omega)]

theorem Disk.image_stack (disk : Disk) (statbuf : Stat) {va : Nat} (hl : userStackBase - 2 * pgsize ≤ va)
    (hu : va < userStackBase) : disk.image statbuf va ≠ none := by
  rw [Disk.image, View.write]
  split
  case isTrue  => exact Option.some_ne_none _
  case isFalse =>
    rw [View.zero, if_pos ⟨hl, hu⟩]
    exact Option.some_ne_none _

theorem Disk.imageUpTo_stack (disk : Disk) (statbuf : Stat) (top : Nat) {va : Nat}
    (hl : userStackBase - 2 * pgsize ≤ va) (hu : va < userStackBase) : disk.imageUpTo statbuf top va ≠ none := by
  rw [Disk.imageUpTo, View.zero]
  split
  case isTrue  => exact Option.some_ne_none _
  case isFalse => exact disk.image_stack statbuf hl hu

theorem Disk.imageUpTo_file {disk : Disk} {statbuf : Stat} {top i : Nat}
    (hi : i < sectorSize * sectors statbuf.size) :
    disk.imageUpTo statbuf top (userBase + i) = some (disk.file statbuf i) := by
  have hpages : statbuf.pages = (statbuf.size + pgsize - 1) / pgsize := rfl
  rw [Disk.imageUpTo, View.zero, if_neg, Disk.image, View.write, if_pos (by omega), Nat.add_sub_cancel_left]
  simp only [userBase, pgsize, sectors, sectorSize] at *
  omega

theorem Disk.imageUpTo_zero {disk : Disk} {statbuf : Stat} {top va : Nat}
    (hl : userBase + sectorSize * sectors statbuf.size ≤ va)
    (hu : va < top ∨ va < userBase + statbuf.pages * pgsize) :
    disk.imageUpTo statbuf top va = some 0 := by
  have hbss : statbuf.bssPages top = (top + pgsize - 1) / pgsize - (userBase / pgsize + statbuf.pages) := rfl
  rw [Disk.imageUpTo, View.zero]
  split
  case isTrue     => rfl
  case isFalse hn =>
    rw [Disk.image, View.write, if_neg (by omega), View.zero]
    split
    case isTrue  => rfl
    case isFalse =>
      rw [View.zero, if_pos]
      simp only [userBase, pgsize] at *
      omega

theorem Stat.bssPages_eq_zero {statbuf : Stat} {top : Nat} (h : top ≤ userBase + statbuf.size) :
    statbuf.bssPages top = 0 := by
  simp only [bssPages, pages, userBase, pgsize] at *
  omega

theorem Stat.demand_le {statbuf : Stat} (h : statbuf.BelowStack) : statbuf.demand ≤ 5631 := by
  have hle := pagesFor_le (fun _ => false) (userBase / pgsize) statbuf.pages
  have hp : statbuf.pages = (statbuf.size + pgsize - 1) / pgsize := rfl
  have hs := h.right
  simp only [userBase, userStackBase, pgsize] at hp hs
  rw [demand]
  split <;> omega

theorem Stat.bssDemand_le {statbuf : Stat} {top : Nat} (h : top ≤ userStackBase - 2 * pgsize) :
    statbuf.bssDemand top ≤ 5628 := by
  have hle := pagesFor_le statbuf.tables (userBase / pgsize + statbuf.pages) (statbuf.bssPages top)
  have hb : statbuf.bssPages top = (top + pgsize - 1) / pgsize - (userBase / pgsize + statbuf.pages) := rfl
  simp only [userBase, userStackBase, pgsize, Nat.reduceDiv] at hb h
  rw [bssDemand]
  omega

-- The computation succeeds, and keeps the property.
def Kernel.Safe {α : Type} (P : Machine → Prop) (f : Kernel α) : Prop :=
  ∀ s, P s → ∃ a s', f.run s = .ok a s' ∧ P s'

variable {s s' : Machine} {use use' : Nat → Use} {free free' : List Nat} {k t d i n v va top trapret : Nat}
  {statbuf : Stat} {disk : Disk} {m : View} {e : Bool}

namespace Kernel.Safe

variable {α β : Type} {P : Machine → Prop} {f : Kernel α} {g : α → Kernel β}

theorem bind (hf : Safe P f) (hg : ∀ a, Safe P (g a)) : Safe P (f >>= g) := by
  intro s hs
  have ⟨a, s₁, hr₁, h₁⟩ := hf s hs
  have ⟨b, s₂, hr₂, h₂⟩ := hg a s₁ h₁
  exact ⟨b, s₂, by rw [EStateM.bind_ok hr₁, hr₂], h₂⟩

end Kernel.Safe

namespace Machine.Loads

theorem taskWrite (h : s.Loads use free k t d m) (hw : TaskWrite t s s') : s'.Loads use free k t d m where
  task := h.task.taskWrite hw
  cr3 := by rw [hw.memory, ← h.cr3]
  shows := h.task.shows_taskWrite hw h.shows

theorem view (h : s.Loads use free k t d m) (hva : va < kernbase) : s.view va = m va := by
  have hs := h.shows va hva
  rwa [← h.cr3] at hs

theorem view_file (h : s.Loads use free k t d (disk.image statbuf)) (hb : statbuf.BelowStack)
    (hi : i < sectorSize * sectors statbuf.size) : s.view (userBase + i) = some (disk.file statbuf i) := by
  have hstack := hb.right
  simp only [userBase, userStackBase, pgsize] at hstack
  simp only [sectors, sectorSize] at hi
  rw [h.view (by simp only [userBase, kernbase]; omega), Disk.image, View.write, if_pos,
    Nat.add_sub_cancel_left]
  simp only [sectors, sectorSize]
  omega

theorem hasHeader (h : s.Loads use free k t d (disk.image statbuf)) (hb : statbuf.BelowStack) :
    s.HasHeader (disk.file statbuf) := by
  have hpos := hb.left
  intro i hi
  apply h.view_file hb
  simp only [sectors, sectorSize] at *
  omega

-- The fields of the page of the task, as the kernel sees it.
theorem load32_safe (ht : IsPage t) (hl : kernbase + t ≤ va) (hu : va + 4 ≤ kernbase + t + pgsize) :
    Kernel.Safe (fun s => s.Loads use free k t d m ∧ s.exhausted = e) (Kernel.load32 va) := by
  have hp := ht.page_upper
  intro s h
  have hva : va = kernbase + (va - kernbase) := by omega
  rw [hva, s.load32_kernbase (by omega)]
  exact ⟨_, _, rfl, h⟩

theorem store32_safe (ht : IsPage t) (hl : kernbase + t + Task.stack ≤ va)
    (hu : va + 4 ≤ kernbase + t + pgsize) (v : Nat) :
    Kernel.Safe (fun s => s.Loads use free k t d m ∧ s.exhausted = e) (Kernel.store32 va v) := by
  have hp := ht.page_upper
  intro s h
  have hva : va = kernbase + (va - kernbase) := by omega
  have hr := s.store32_kernbase (show va - kernbase + 3 < phystop by omega) v
  rw [← hva] at hr
  refine ⟨_, _, hr, h.left.taskWrite ?_, h.right⟩
  apply TaskWrite.store32 (i := va - (kernbase + t)) ht (.inr (by omega)) (by omega)
  rwa [Nat.add_sub_cancel' (by omega)]

theorem memset_safe (ht : IsPage t) :
    Kernel.Safe (fun s => s.Loads use free k t d m ∧ s.exhausted = e)
      (Kernel.memset (kernbase + t + Task.stack) 0 Kstack.bottom) := by
  have hp := ht.page_upper
  simp only [pgsize] at hp
  intro s h
  have hr := s.memset_kernbase (show t + Task.stack + Kstack.bottom ≤ phystop by
    simp only [Task.stack, Kstack.bottom]
    omega) 0
  rw [← Nat.add_assoc] at hr
  exact ⟨_, _, hr, h.left.taskWrite <| .memset (i := Task.stack) ht (.inr (by decide)) (by decide) hr, h.right⟩

-- The entry point of the file is copied to the trapframe.
theorem setupStack (h : s.Loads use free k t d m) (hm : ∀ j < 4, m (userBase + 24 + j) ≠ none) (trapret : Nat) :
    ∃ s', (Kernel.setupStack trapret (kernbase + t + Task.stack) userBase).run s = .ok () s' ∧
      s'.Loads use free k t d m ∧ s'.exhausted = s.exhausted := by
  have ht := h.task.taskPage
  have entry : Kernel.Safe (fun s' => s'.Loads use free k t d m ∧ s'.exhausted = s.exhausted)
      (Kernel.load32 (userBase + 24)) := by
    intro s h
    have ⟨v, hv⟩ := (show ∃ v, s.view.load32 ((userBase + 24) % 2 ^ 32) = .ok v from View.exists_load32 fun j hj => by
      rw [Nat.mod_eq_of_lt (by simp only [userBase]; omega),
        h.left.view (by simp only [userBase, kernbase]; omega)]
      exact hm j hj)
    exact ⟨v, s, (Kernel.Reads.load32 _).run_ok hv, h⟩
  have store {i} (hi : Task.stack ≤ i ∧ i + 4 ≤ pgsize) {va} (hva : va = kernbase + t + i) (v : Nat) :=
    @store32_safe use free k t d va m s.exhausted ht (by omega) (by omega) v
  have load {i} (hi : i + 4 ≤ pgsize) {va} (hva : va = kernbase + t + i) :=
    @load32_safe use free k t d va m s.exhausted ht (by omega) (by omega)
  have field (i j : Nat) : kernbase + t + Task.stack + i + j = kernbase + t + (Task.stack + i + j) := by
    omega
  have hsafe : Kernel.Safe (fun s' => s'.Loads use free k t d m ∧ s'.exhausted = s.exhausted)
      (Kernel.setupStack trapret (kernbase + t + Task.stack) userBase) :=
    (memset_safe ht).bind fun _ =>
      (store (by decide) (field _ _) _).bind fun _ =>
      entry.bind fun _ =>
      (store (by decide) (field _ _) _).bind fun _ =>
      (store (by decide) (field _ _) _).bind fun _ =>
      (store (by decide) (field _ _) _).bind fun _ =>
      (load (by decide) (field _ _)).bind fun _ =>
      (store (by decide) (field _ _) _).bind fun _ =>
      (load (by decide) (field _ _)).bind fun _ =>
      (store (by decide) (field _ _) _).bind fun _ =>
      (load (by decide) (field _ _)).bind fun _ =>
      (store (by decide) (field _ _) _).bind fun _ =>
      (load (by decide) (field _ _)).bind fun _ =>
      (store (by decide) (field _ _) _).bind fun _ =>
      (store (by decide) (field _ _) _).bind fun _ =>
      store (by decide) (field _ _) _
  have ⟨_, s', hr, h'⟩ := hsafe s ⟨h, rfl⟩
  exact ⟨s', hr, h'⟩

-- Nothing is mapped between the file and the stack.
theorem not_maps (h : s.Loads use free k t d (disk.image statbuf)) (hl : userBase / pgsize + statbuf.pages ≤ v)
    (hu : v * pgsize < userStackBase - 2 * pgsize) : ¬Maps use d v := by
  have hmaps := h.task.owns.maps_iff h.shows h.task.user (Nat.lt_trans hu (by decide))
  rw [Nat.mul_div_cancel _ (by decide), disk.image_none (Nat.mul_le_mul_right _ hl) hu] at hmaps
  exact mt hmaps.mp (not_not_intro rfl)

-- The call of `allocuvm` for the pages above the file.
theorem allocuvm_bss (h : s.Loads use free k t d (disk.image statbuf)) (hb : statbuf.BelowStack)
    (hT : ∀ i, statbuf.tables i = true ↔ HasTable use d i) (hle : top ≤ userStackBase - 2 * pgsize) :
    (statbuf.bssDemand top ≤ free.length → ∃ s' use' free',
      (Kernel.allocuvm (kernbase + d) (userBase + statbuf.size) top).run s = .ok 0 s' ∧
      s'.Loads use' free' k t d (disk.imageUpTo statbuf top) ∧
      Took d (statbuf.bssDemand top) s use free s' use' free') ∧
    (free.length < statbuf.bssDemand top → ∃ s',
      (Kernel.allocuvm (kernbase + d) (userBase + statbuf.size) top).run s = .ok (-1) s') := by
  have hpages : statbuf.pages = (statbuf.size + pgsize - 1) / pgsize := rfl
  have hbss : statbuf.bssPages top = (top + pgsize - 1) / pgsize - (userBase / pgsize + statbuf.pages) := rfl
  have hstack := hb.right
  have hround := hb.round
  have hn : userBase / pgsize + statbuf.pages + statbuf.bssPages top ≤ 2 ^ 19 := by
    simp only [userBase, userStackBase, pgsize] at *
    omega
  have hlt k (hk : k < statbuf.bssPages top) : (userBase / pgsize + statbuf.pages + k) * pgsize < top := by
    simp only [userBase, pgsize] at *
    omega
  have hm v (hv : userBase / pgsize + statbuf.pages ≤ v)
      (hv' : v < userBase / pgsize + statbuf.pages + statbuf.bssPages top) : ¬Maps use d v := by
    have hlt := hlt (v - (userBase / pgsize + statbuf.pages)) (by omega)
    rw [Nat.add_sub_cancel' hv] at hlt
    exact h.not_maps hv <| Nat.lt_of_lt_of_le hlt hle
  constructor
  case left =>
    intro hl
    have ⟨s', use', free', hr, hx, hl', he⟩ := h.task.owns.allocuvm_ok h.task.user hT hround hn hlt
      (by simp only [userBase, pgsize] at *; omega) hm hl
    refine ⟨s', use', free', hr, ?_, .of_ranged hx hl' he⟩
    exact {
      task := h.task.ranged hx (.inl (by simp only [userBase, pgsize]; omega))
      cr3 := hx.extend.cr3.trans h.cr3
      shows := h.task.owns.shows_ranged h.shows h.task.user hx hm }
  case right =>
    intro hl
    have ⟨s', _, _, _, _, hr, _⟩ := h.task.owns.allocuvm_short h.task.user hT hround hn hlt hm hl
    exact ⟨s', hr⟩

-- The call of `allocuvm`, when the image reaches the stack.
theorem allocuvm_stack (h : s.Loads use free k t d (disk.image statbuf)) (hb : statbuf.BelowStack)
    (hT : ∀ i, statbuf.tables i = true ↔ HasTable use d i) (hgt : userStackBase - 2 * pgsize < top) :
    (statbuf.bssDemand (userStackBase - 2 * pgsize) < free.length → ∃ s',
      (Kernel.allocuvm (kernbase + d) (userBase + statbuf.size) top).run s = .error (.panic "remap") s' ∧
      s'.exhausted = s.exhausted) ∧
    (free.length ≤ statbuf.bssDemand (userStackBase - 2 * pgsize) → ∃ s',
      (Kernel.allocuvm (kernbase + d) (userBase + statbuf.size) top).run s = .ok (-1) s') := by
  have hstack : statbuf.bssPages (userStackBase - 2 * pgsize) =
      (userStackBase - 2 * pgsize) / pgsize - (userBase / pgsize + statbuf.pages) := rfl
  have hround := hb.round
  have hpages : statbuf.pages = (statbuf.size + pgsize - 1) / pgsize := rfl
  have hle := hb.right
  have hend : userBase / pgsize + statbuf.pages + statbuf.bssPages (userStackBase - 2 * pgsize) =
      (userStackBase - 2 * pgsize) / pgsize := by
    simp only [userBase, userStackBase, pgsize] at *
    omega
  have hlt n (hn : n ≤ statbuf.bssPages (userStackBase - 2 * pgsize)) :
      (userBase / pgsize + statbuf.pages + n) * pgsize < top := by
    simp only [userBase, userStackBase, pgsize] at *
    omega
  have hm v (hv : userBase / pgsize + statbuf.pages ≤ v)
      (hv' : v < userBase / pgsize + statbuf.pages + statbuf.bssPages (userStackBase - 2 * pgsize)) :
      ¬Maps use d v := h.not_maps hv <| by
    simp only [userBase, userStackBase, pgsize] at *
    omega
  have hmaps : Maps use d (userBase / pgsize + statbuf.pages + statbuf.bssPages (userStackBase - 2 * pgsize)) := by
    rw [hend, h.task.owns.maps_iff h.shows h.task.user (by decide)]
    exact disk.image_stack statbuf (by decide) (by decide)
  constructor
  case left  =>
    intro hl
    exact h.task.owns.allocuvm_hits h.task.user hT hround (by rw [hend]; decide) hlt hm hmaps hl
  case right =>
    intro hl
    cases Nat.lt_or_eq_of_le hl
    case inl hl =>
      have ⟨s', _, _, _, _, hr, _⟩ := h.task.owns.allocuvm_short h.task.user hT hround
        (by rw [hend]; decide) (fun n hn => hlt n (Nat.le_of_lt hn)) hm hl
      exact ⟨s', hr⟩
    case inr hl =>
      have ⟨s', _, hr, _⟩ := h.task.owns.allocuvm_last h.task.user hT hround (by rw [hend]; decide) hlt hm hl
      exact ⟨s', hr⟩

-- The process is entered, if there are enough pages.
theorem enterImage (h : s.Loads use free k t d (disk.image statbuf)) (hb : statbuf.BelowStack)
    (hT : ∀ i, statbuf.tables i = true ↔ HasTable use d i)
    (hr : (Kernel.imageTop userBase (userBase + statbuf.size)).run s = .ok top s)
    (hle : top ≤ userStackBase - 2 * pgsize) (trapret : Nat) :
    (statbuf.bssDemand top ≤ free.length → ∃ s' use' free',
      (Kernel.enterImage trapret statbuf (kernbase + t)).run s =
        .ok (.swtch (kernbase + t + Task.stack + Kstack.context) top) s' ∧
      s'.Loads use' free' k t d (disk.imageUpTo statbuf top) ∧
      Took d (statbuf.bssDemand top) s use free s' use' free') ∧
    (free.length < statbuf.bssDemand top → ∃ s',
      (Kernel.enterImage trapret statbuf (kernbase + t)).run s = .ok (.returned ": out of memory\n") s') := by
  obtain ⟨hok, hshort⟩ := h.allocuvm_bss hb hT hle
  rw [Kernel.enterImage, hb.fileTop, EStateM.bind_ok hr]
  have finish {s₁ : Machine} {use₁ free₁} (h₁ : s₁.Loads use₁ free₁ k t d (disk.imageUpTo statbuf top)) :
      ∃ s', ((do Kernel.setupStack trapret (kernbase + t + Task.stack) userBase
                 return .swtch (kernbase + t + Task.stack + Kstack.context) top) : Kernel RunElf).run s₁ =
          .ok (.swtch (kernbase + t + Task.stack + Kstack.context) top) s' ∧
        s'.Loads use₁ free₁ k t d (disk.imageUpTo statbuf top) ∧ s'.exhausted = s₁.exhausted := by
    obtain ⟨s', hr', h', he'⟩ := h₁.setupStack (fun j hj => by
      rw [Nat.add_assoc, disk.imageUpTo_file (by have := hb.left; simp only [sectors, sectorSize]; omega)]
      exact Option.some_ne_none _) trapret
    exact ⟨s', by rw [EStateM.bind_ok hr']; rfl, h', he'⟩
  split
  case isTrue        =>
    rw [EStateM.bind_ok h.task.load_pgdir]
    constructor
    case left  =>
      intro hl
      obtain ⟨s₁, use₁, free₁, hr₁, h₁, hx₁⟩ := hok hl
      obtain ⟨s', hr', h', he'⟩ := finish h₁
      exact ⟨s', use₁, free₁, by rw [EStateM.bind_ok hr₁, ← hr']; rfl, h', hx₁.congr he'⟩
    case right =>
      intro hl
      obtain ⟨s₁, hr₁⟩ := hshort hl
      rw [EStateM.bind_ok hr₁]
      exact ⟨s₁, rfl⟩
  case isFalse hnot =>
    have hz : statbuf.bssPages top = 0 := statbuf.bssPages_eq_zero (Nat.le_of_not_lt hnot)
    have hd : statbuf.bssDemand top = 0 := by rw [Stat.bssDemand, hz]; rfl
    rw [hd]
    refine ⟨fun _ => ?_, fun hl => absurd hl (Nat.not_lt_zero _)⟩
    have hi : disk.imageUpTo statbuf top = disk.image statbuf := by
      rw [Disk.imageUpTo, hz, Nat.add_zero, View.zero_self]
    obtain ⟨s', hr', h', he'⟩ := finish (hi ▸ h)
    exact ⟨s', use, free, hr', h', (Took.refl d s use free).congr he'⟩

-- The process is not entered, if its image reaches the stack.
theorem enterImage_stack (h : s.Loads use free k t d (disk.image statbuf)) (hb : statbuf.BelowStack)
    (hT : ∀ i, statbuf.tables i = true ↔ HasTable use d i)
    (hr : (Kernel.imageTop userBase (userBase + statbuf.size)).run s = .ok top s)
    (hgt : userStackBase - 2 * pgsize < top) (trapret : Nat) :
    (statbuf.bssDemand (userStackBase - 2 * pgsize) < free.length → ∃ s',
      (Kernel.enterImage trapret statbuf (kernbase + t)).run s = .error (.panic "remap") s' ∧
      s'.exhausted = s.exhausted) ∧
    (free.length ≤ statbuf.bssDemand (userStackBase - 2 * pgsize) → ∃ s',
      (Kernel.enterImage trapret statbuf (kernbase + t)).run s = .ok (.returned ": out of memory\n") s') := by
  have hlt : userBase + statbuf.size < top := Nat.lt_of_le_of_lt hb.right hgt
  obtain ⟨hhits, hshort⟩ := h.allocuvm_stack hb hT hgt
  rw [Kernel.enterImage, hb.fileTop, EStateM.bind_ok hr, if_pos hlt, EStateM.bind_ok h.task.load_pgdir]
  constructor
  case left  =>
    intro hl
    obtain ⟨s', hr', he⟩ := hhits hl
    exact ⟨s', EStateM.bind_error hr', he⟩
  case right =>
    intro hl
    obtain ⟨s', hr'⟩ := hshort hl
    rw [EStateM.bind_ok hr']
    exact ⟨s', rfl⟩

end Machine.Loads

-- A file for whose pages there is room, and whose process is entered, does not reach the stack.
theorem Machine.Rests.belowStack (h : s.Rests use free k) {name : CString} (hs : disk.stat name = some statbuf)
    (hl : statbuf.demand + s.newPages ≤ free.length) {stack : Nat}
    (hr : (Kernel.runElf trapret disk name).run s = .ok (.swtch stack top) s') : statbuf.BelowStack := by
  rw [Kernel.runElf, hs] at hr
  obtain ⟨task, s₁, hr₁, hr⟩ := EStateM.bind_eq_ok hr
  obtain ⟨use₁, free₁, t, d, ht, h₁, hnew, hb₁⟩ := h.newProcess hr₁
  have hl₁ := hb₁.length
  rw [ht, Kernel.loadElf] at hr
  obtain ⟨r, s₂, hr₂, hr⟩ := EStateM.bind_eq_ok hr
  have hr₀ : 0 < r := by
    by_contra hc
    rw [if_pos (Int.not_lt.mp hc)] at hr
    cases hr
  obtain ⟨use₂, free₂, _, _, hi⟩ := h₁.readImage (Disk.stat_size_lt hs) (h₁.owns.not_maps hnew) hr₂
  refine ⟨(hi hr₀).size_pos, Nat.le_of_not_lt fun hgt => ?_⟩
  obtain ⟨s₃, hr₃, _⟩ := h₁.readImage_remap hnew hgt (by rw [Stat.demand] at hl; split at hl <;> omega) disk
  cases hr₂.symm.trans hr₃
