import Yabloko.Kernel.PageLists
import Yabloko.Kernel.Reachable
import Yabloko.Kernel.RunElf

-- The pages of the image which are needed for the file.
def Stat.pages (statbuf : Stat) : Nat :=
  (statbuf.size + pgsize - 1) / pgsize

-- The pages which are taken for the file and for the stack. The table of the stack is shared with files
-- of more than 8 MB.
def Stat.demand (statbuf : Stat) : Nat :=
  pagesFor (fun _ => false) (userBase / pgsize) statbuf.pages + if 2048 < statbuf.pages then 2 else 3

-- The tables for these pages.
def Stat.tables (statbuf : Stat) (i : Nat) : Bool :=
  (userBase / pgsize / 1024 ≤ i ∧ i * 1024 < userBase / pgsize + statbuf.pages) ∨ i = userStackBase / pgsize / 1024

-- The file, and where it ends below the stack.
def Disk.file (disk : Disk) (statbuf : Stat) : Bytes :=
  disk.from (fsStart + statbuf.startSector)

def Stat.BelowStack (statbuf : Stat) : Prop :=
  0 < statbuf.size ∧ userBase + statbuf.size ≤ userStackBase - 2 * pgsize

-- The memory of the process, after the file has been read.
def Disk.image (disk : Disk) (statbuf : Stat) : View :=
  View.zero (fun _ => none) userBase (userBase + statbuf.pages * pgsize)
    |>.zero (userStackBase - 2 * pgsize) userStackBase
    |>.write userBase (sectorSize * sectors statbuf.size) (disk.file statbuf)

-- The directory has taken `n` pages, and there have been enough of them.
structure Took (d n : Nat) (s : Machine) (use : Nat → Use) (free : List Nat) (s' : Machine)
    (use' : Nat → Use) (free' : List Nat) : Prop where
  kept      : ∀ p, use p ≠ .free → use' p = use p
  taken     : ∀ p, use p = .free → use' p = .free ∨ Belongs use' d p
  length    : free'.length + n = free.length
  exhausted : s'.exhausted = s.exhausted

-- The directory of the process is loaded, and shows its memory.
structure Machine.Loads (s : Machine) (use : Nat → Use) (free : List Nat) (k t d : Nat) (m : View) : Prop where
  task  : s.HasTask use free k t d
  cr3   : s.cr3 = d
  shows : s.Shows d m

variable {s s' s₁ : Machine} {use use' use₁ : Nat → Use} {free free' free₁ : List Nat} {k t d n i pa v : Nat}
  {statbuf : Stat} {disk : Disk} {x : View}

namespace Took

variable {s s' s'' : Machine} {use use' use'' : Nat → Use} {free free' free'' : List Nat} {d a m n n' : Nat}

theorem refl (d : Nat) (s : Machine) (use : Nat → Use) (free : List Nat) : Took d 0 s use free s use free where
  kept _ _ := rfl
  taken _ hp := .inl hp
  length := rfl
  exhausted := rfl

theorem of_ranged (h : Ranged d a m s use s' use' free') (hl : free'.length + n = free.length)
    (he : s'.exhausted = s.exhausted) : Took d n s use free s' use' free' where
  kept := h.extend.uses
  taken p hp := by
    apply (h.extend.free p hp).imp_right
    intro hb
    cases hb
    case inl hb => exact .inr <| .inl hb
    case inr hb => exact .inr <| .inr hb
  length := hl
  exhausted := he

theorem trans (h : Took d n s use free s' use' free') (h' : Took d n' s' use' free' s'' use'' free'') :
    Took d (n + n') s use free s'' use'' free'' where
  kept p hp := by
    rw [h'.kept p fun he => hp <| by rw [← h.kept p hp, he], h.kept p hp]
  taken p hp := by
    cases h.taken p hp
    case inl hf => exact h'.taken p hf
    case inr hb =>
      have hk := h'.kept p hb.ne_free
      rw [Belongs, ← hk] at hb
      exact .inr hb
  length := by
    have := h.length
    have := h'.length
    omega
  exhausted := h'.exhausted.trans h.exhausted

-- Another memory with the same pages.
theorem congr (h : Took d n s use free s' use' free') (he : s''.exhausted = s'.exhausted) :
    Took d n s use free s'' use' free' :=
  { h with exhausted := he.trans h.exhausted }

end Took

theorem Stat.tables_iff (statbuf : Stat) : statbuf.tables i = true ↔
    (∃ v, userBase / pgsize ≤ v ∧ v < userBase / pgsize + statbuf.pages ∧ v / 1024 = i) ∨
      ∃ v, (userStackBase - 2 * pgsize) / pgsize ≤ v ∧ v < (userStackBase - 2 * pgsize) / pgsize + 2 ∧
        v / 1024 = i := by
  rw [Stat.tables, decide_eq_true_iff]
  simp only [userBase, userStackBase, pgsize, Nat.reduceDiv, Nat.reduceMul, Nat.reduceSub]
  apply or_congr
  case h₁ =>
    constructor
    case mp  => exact fun hi => ⟨max 1024 (i * 1024), by omega, by omega, by omega⟩
    case mpr => exact fun ⟨v, hv, hv', he⟩ => by omega
  case h₂ =>
    constructor
    case mp  => exact fun hi => ⟨3838, by omega, by omega, by omega⟩
    case mpr => exact fun ⟨v, hv, hv', he⟩ => by omega

theorem Machine.store16_kernbase (s : Machine) (h : pa + 1 < phystop) (v : Nat) :
    (Kernel.store16 (kernbase + pa) v).run s =
      .ok () { s with mem := (s.mem.store pa (.ofNat v)).store (pa + 1) (.ofNat (v / 2 ^ 8)) } := by
  rw [Kernel.store16, EStateM.bind_ok (s.storeByte_kernbase (by omega) _), kernbase_add h,
    storeByte_kernbase _ h]

theorem Booted.newPages (h : Booted s use free k) : s.newPages = 2 :=
  if_pos h.userTask

-- The file cannot be read.
theorem Kernel.runElf_error {name : CString} {task trapret : Nat} {e : Fault}
    (hs : disk.stat name = some statbuf) (hr₁ : Kernel.newProcess.run s = .ok task s₁)
    (hr : (Kernel.readImage disk statbuf task).run s₁ = .error e s') :
    (Kernel.runElf trapret disk name).run s = .error e s' := by
  rw [Kernel.runElf, hs]
  simp only [EStateM.bind_ok hr₁]
  rw [Kernel.loadElf, EStateM.bind_error hr]

namespace Machine.Rests

theorem of_booted (h : Booted s use free k) : s.Rests use free k where
  owns := h.owns
  kvm := h.kvm
  kernel := h.dir
  cr3 := by rw [h.cr3, h.dir]
  zero := h.tabled.zero
  task := .inl h.userTask

-- There are enough pages for a new process.
theorem newProcess_run (h : s.Rests use free k) (hl : s.newPages ≤ free.length) :
    ∃ task s', Kernel.newProcess.run s = .ok task s' ∧ s'.exhausted = s.exhausted := by
  have hstep {s : Machine} {use free t} (h : s.Owns use free) (ht : s.userTask = kernbase + t)
      (hp : IsPage t) (hl : 1 ≤ free.length) : ∃ task s', (do
        let task := (← get).userTask
        Kernel.store32 (task + Task.pgdir) (← Kernel.setupkvm)
        return task : Kernel Nat).run s = .ok task s' ∧ s'.exhausted = s.exhausted := by
    cases free with
    | nil          => cases hl
    | cons d free' =>
      obtain ⟨mem, freelist, hr, h', _⟩ := h.setupkvm_cons
      have hup := hp.page_upper
      simp only [pgsize] at hup
      rw [EStateM.get_bind, ht, EStateM.bind_ok hr, Nat.add_assoc,
        EStateM.bind_ok (Machine.store32_kernbase _ (by simp only [Task.pgdir]; omega) _)]
      exact ⟨_, _, rfl, rfl⟩
  rw [Machine.newPages] at hl
  rw [Kernel.newProcess]
  by_cases hz : s.userTask = 0
  case neg =>
    obtain ⟨t, ht, hu⟩ := h.task.resolve_left hz
    rw [EStateM.get_bind, if_neg hz]
    rw [if_neg hz] at hl
    exact hstep h.owns ht (h.owns.page (by simp [hu])) hl
  case pos =>
    rw [if_pos hz] at hl
    cases free with
    | nil          => simp at hl
    | cons t free' =>
      obtain ⟨freelist, hk, h'⟩ := h.owns.kalloc_cons
      have ht := (h.owns.mem_iff t).mp (by simp)
      have h₁ : Machine.Owns { s with freelist, userTask := kernbase + t } _ free' := { h' with }
      rw [EStateM.get_bind, if_pos hz, EStateM.bind_ok hk]
      exact hstep h₁ rfl (h.owns.page (by simp [ht])) (by simp at hl; omega)

end Machine.Rests

namespace Machine.HasTask

theorem switchuvm_run (h : s.HasTask use free k t d) (esp : Nat) :
    ∃ s', (Kernel.switchuvm (kernbase + t) esp (kernbase + d)).run s = .ok () s' := by
  have hp := h.taskPage.page_upper
  simp only [pgsize] at hp
  rw [Kernel.switchuvm, EStateM.bind_ok (s.memset_kernbase (by omega) 0), Nat.add_assoc,
    EStateM.bind_ok (Machine.store16_kernbase _ (by omega) _), Nat.add_assoc,
    EStateM.bind_ok (Machine.store32_kernbase _ (by omega) _), Nat.add_assoc,
    EStateM.bind_ok (Machine.store16_kernbase _ (by omega) _)]
  exact ⟨_, rfl⟩

theorem shows_taskWrite (h : s.HasTask use free k t d) (hw : TaskWrite t s s') (hs : s.Shows d x) :
    s'.Shows d x := by
  apply h.owns.shows_congr (h.taskWrite hw).owns hs h.user
  intro f v hf
  have hp := h.owns.page (p := f) (by simp [hf])
  exact hp.samePage h.taskPage (fun he => by simp [he, h.held] at hf) hw.agree
    ⟨Nat.le_refl _, Nat.le_refl _⟩

-- The pages of the file.
theorem allocuvm_file (h : s.HasTask use free k t d) (hnew : ∀ i, ¬HasTable use d i)
    (hl : pagesFor (fun _ => false) (userBase / pgsize) statbuf.pages ≤ free.length) : ∃ s' use' free',
    (Kernel.allocuvm (kernbase + d) userBase ((userBase + statbuf.size) % 2 ^ 32)).run s = .ok 0 s' ∧
    Ranged d (userBase / pgsize) statbuf.pages s use s' use' free' ∧
    free'.length + pagesFor (fun _ => false) (userBase / pgsize) statbuf.pages = free.length ∧
    s'.exhausted = s.exhausted := by
  have hp : statbuf.pages = (statbuf.size + pgsize - 1) / pgsize := rfl
  have hlt := Nat.lt_of_le_of_lt (Nat.le_trans (le_pagesFor _ _ _) hl) h.owns.length_lt
  simp only [phystop, pgsize, Nat.reduceDiv] at hp hlt
  have he : (userBase + statbuf.size) % 2 ^ 32 = userBase + statbuf.size := by
    simp only [userBase]
    omega
  rw [he]
  have ⟨s', use', free', hr, hx, hl', he'⟩ := h.owns.allocuvm_ok h.user
    (fun i => (iff_false_right (hnew i)).mpr Bool.false_ne_true)
    (show pgroundup userBase = userBase / pgsize * pgsize by decide)
    (show userBase / pgsize + statbuf.pages ≤ 2 ^ 19 by simp only [userBase, pgsize]; omega)
    (show ∀ k < statbuf.pages, (userBase / pgsize + k) * pgsize < userBase + statbuf.size from
      fun k hk => by simp only [userBase, pgsize]; omega)
    (by simp only [userBase, pgsize]; omega) (fun v _ _ => h.owns.not_maps hnew v) hl
  exact ⟨s', use', free', hr, hx, hl', he'⟩

theorem pagesFor_stack (tables : Nat → Bool) {p : Prop} [Decidable p] (ht : tables 3 = true ↔ p) :
    pagesFor tables ((userStackBase - 2 * pgsize) / pgsize) 1 = (if p then 1 else 2) ∧
    pagesFor tables ((userStackBase - 2 * pgsize) / pgsize) 2 = if p then 2 else 3 := by
  have ht : tables ((userStackBase - 2 * pgsize) / pgsize / 1024) = true ↔ p := ht
  by_cases hp : p
  case pos => simp [pagesFor, ht, hp]
  case neg => simp [pagesFor, ht, hp]

-- The two pages of the stack, which may need a table.
theorem allocuvm_stack (h : s.HasTask use free k t d) {p : Prop} [Decidable p] (ht : HasTable use d 3 ↔ p)
    (hm : ∀ v, (userStackBase - 2 * pgsize) / pgsize ≤ v → ¬Maps use d v)
    (hl : (if p then 2 else 3) ≤ free.length) : ∃ s' use' free',
    (Kernel.allocuvm (kernbase + d) (userStackBase - 2 * pgsize) userStackBase).run s = .ok 0 s' ∧
    Ranged d ((userStackBase - 2 * pgsize) / pgsize) 2 s use s' use' free' ∧
    free'.length + (if p then 2 else 3) = free.length ∧ s'.exhausted = s.exhausted := by
  classical
  obtain ⟨_, hc⟩ := pagesFor_stack (fun i => decide (HasTable use d i)) (decide_eq_true_iff.trans ht)
  obtain ⟨s', use', free', hr, hx, hl', he⟩ := h.owns.allocuvm_ok h.user (fun i => decide_eq_true_iff)
    (show pgroundup (userStackBase - 2 * pgsize) = (userStackBase - 2 * pgsize) / pgsize * pgsize by decide)
    (show (userStackBase - 2 * pgsize) / pgsize + 2 ≤ 2 ^ 19 by decide)
    (show ∀ k < 2, ((userStackBase - 2 * pgsize) / pgsize + k) * pgsize < userStackBase by decide)
    (by decide) (fun v hv _ => hm v hv) (by rwa [hc])
  rw [hc] at hl'
  exact ⟨s', use', free', hr, hx, hl', he⟩

-- The two pages of the stack, if there are not so many. A page for which there is no table is given back.
theorem allocuvm_stack_short (h : s.HasTask use free k t d) {p : Prop} [Decidable p] (ht : HasTable use d 3 ↔ p)
    (hm : ∀ v, (userStackBase - 2 * pgsize) / pgsize ≤ v → ¬Maps use d v)
    (hl : free.length < if p then 2 else 3) : ∃ s' use' free' n,
    (Kernel.allocuvm (kernbase + d) (userStackBase - 2 * pgsize) userStackBase).run s = .ok (-1) s' ∧
    Ranged d ((userStackBase - 2 * pgsize) / pgsize) n s use s' use' free' ∧ n < 2 ∧
    (free'.length = if ¬p ∧ free.length = 1 then 1 else 0) ∧ (n = 0 ∨ free'.length = 0) := by
  classical
  obtain ⟨hc₁, hc⟩ := pagesFor_stack (fun i => decide (HasTable use d i)) (decide_eq_true_iff.trans ht)
  obtain ⟨s', use', free', n, hn, hr, hx, hl', hlt, _⟩ := h.owns.allocuvm_short h.user
    (fun i => decide_eq_true_iff)
    (show pgroundup (userStackBase - 2 * pgsize) = (userStackBase - 2 * pgsize) / pgsize * pgsize by decide)
    (show (userStackBase - 2 * pgsize) / pgsize + 2 ≤ 2 ^ 19 by decide)
    (show ∀ k < 2, ((userStackBase - 2 * pgsize) / pgsize + k) * pgsize < userStackBase by decide)
    (fun v hv _ => hm v hv) (by rwa [hc])
  refine ⟨s', use', free', n, hr, hx, hn, ?_⟩
  obtain rfl | rfl : n = 0 ∨ n = 1 := by omega
  case inl =>
    refine ⟨?_, .inl rfl⟩
    rw [hc₁] at hlt
    rw [pagesFor, Nat.add_zero] at hl'
    by_cases hp : p
    case pos =>
      rw [if_pos hp] at hlt
      rw [if_neg fun hc => hc.left hp]
      omega
    case neg =>
      rw [if_neg hp] at hlt
      simp only [hp, not_false_eq_true, true_and]
      split <;> omega
  case inr =>
    rw [hc] at hlt
    rw [hc₁] at hl'
    by_cases hp : p
    case pos =>
      rw [if_pos hp] at hlt hl'
      rw [if_neg fun hc => hc.left hp]
      exact ⟨by omega, .inr (by omega)⟩
    case neg =>
      rw [if_neg hp] at hlt hl'
      rw [if_neg fun hc => absurd hc.right (by omega)]
      exact ⟨by omega, .inr (by omega)⟩

-- In any case, not more than two pages are mapped.
theorem allocuvm_stack_any (h : s.HasTask use free k t d) {p : Prop} [Decidable p] (ht : HasTable use d 3 ↔ p)
    (hm : ∀ v, (userStackBase - 2 * pgsize) / pgsize ≤ v → ¬Maps use d v) : ∃ r s' use' free' n,
    (Kernel.allocuvm (kernbase + d) (userStackBase - 2 * pgsize) userStackBase).run s = .ok r s' ∧
    Ranged d ((userStackBase - 2 * pgsize) / pgsize) n s use s' use' free' ∧ n ≤ 2 ∧
    ((if p then 2 else 3) ≤ free.length → free'.length + (if p then 2 else 3) = free.length) := by
  by_cases hl : (if p then 2 else 3) ≤ free.length
  case pos =>
    have ⟨s', use', free', hr, hx, hl', _⟩ := h.allocuvm_stack ht hm hl
    exact ⟨_, s', use', free', 2, hr, hx, Nat.le_refl _, fun _ => hl'⟩
  case neg =>
    have ⟨s', use', free', n, hr, hx, hn, _⟩ := h.allocuvm_stack_short ht hm (Nat.lt_of_not_le hl)
    exact ⟨_, s', use', free', n, hr, hx, Nat.le_of_lt hn, fun hc => absurd hc hl⟩

-- No pages are left for the stack.
theorem allocuvm_stack_nil (h : s.HasTask use [] k t d) : ∃ s' use',
    (Kernel.allocuvm (kernbase + d) (userStackBase - 2 * pgsize) userStackBase).run s = .ok (-1) s' ∧
    Ranged d ((userStackBase - 2 * pgsize) / pgsize) 0 s use s' use' [] := by
  classical
  have ⟨s', use', hr, hx, _⟩ := h.owns.allocuvm_last h.user (fun i => decide_eq_true_iff)
    (show pgroundup (userStackBase - 2 * pgsize) = (userStackBase - 2 * pgsize) / pgsize * pgsize by decide)
    (show (userStackBase - 2 * pgsize) / pgsize + 0 ≤ 2 ^ 19 by decide)
    (show ∀ j ≤ 0, ((userStackBase - 2 * pgsize) / pgsize + j) * pgsize < userStackBase by decide)
    (fun v hv hv' => absurd hv (Nat.not_le.mpr hv')) rfl
  exact ⟨s', use', hr, hx⟩

-- There is a page, but the first page of the stack has been mapped already.
theorem allocuvm_stack_hits (h : s.HasTask use free k t d) (hl : 0 < free.length)
    (hm : Maps use d ((userStackBase - 2 * pgsize) / pgsize)) : ∃ s',
    (Kernel.allocuvm (kernbase + d) (userStackBase - 2 * pgsize) userStackBase).run s =
      .error (.panic "remap") s' ∧ s'.exhausted = s.exhausted := by
  classical
  exact h.owns.allocuvm_hits h.user (fun i => decide_eq_true_iff)
    (show pgroundup (userStackBase - 2 * pgsize) = (userStackBase - 2 * pgsize) / pgsize * pgsize by decide)
    (by decide) (show ∀ j ≤ 0, ((userStackBase - 2 * pgsize) / pgsize + j) * pgsize < userStackBase by decide)
    (fun v hv hv' => absurd hv (Nat.not_le.mpr hv')) hm hl

-- The file is read after the calls of `allocuvm`, in the directory of the process.
theorem readImage_eq (h : s.HasTask use free k t d) {r₁ r₂ : Int}
    (hr₁ : (Kernel.allocuvm (kernbase + d) userBase ((userBase + statbuf.size) % 2 ^ 32)).run s = .ok r₁ s₁)
    (h₁ : s₁.HasTask use₁ free₁ k t d)
    (hr₂ : (Kernel.allocuvm (kernbase + d) (userStackBase - 2 * pgsize) userStackBase).run s₁ = .ok r₂ s')
    (h' : s'.HasTask use' free' k t d) (disk : Disk) : ∃ s'',
    (Kernel.readImage disk statbuf (kernbase + t)).run s =
      (Kernel.readFile disk statbuf userBase (100 <<< 20)).run s'' ∧
    s''.HasTask use' free' k t d ∧ s''.cr3 = d ∧ s''.exhausted = s'.exhausted ∧
    ∀ m, s'.Shows d m → s''.Shows d m := by
  have ⟨s'', hr⟩ := h'.switchuvm_run (kernbase + t + Task.stack + Kstack.bottom)
  have hw := TaskWrite.switchuvm h'.taskPage (h'.owns.page (p := d) (by simp [h'.user])) hr
  have ⟨h'', hc⟩ := h'.switchuvm hr
  refine ⟨s'', ?_, h'', hc, by rw [hw.memory], fun m hm => (h'.with_cr3 h'.user).shows_taskWrite hw hm⟩
  rw [Kernel.readImage, EStateM.bind_ok h.load_pgdir, EStateM.bind_ok hr₁, EStateM.bind_ok h₁.load_pgdir,
    EStateM.bind_ok hr₂, EStateM.bind_ok h'.load_pgdir, EStateM.bind_ok hr]

-- The pages of the file have been mapped, and they are followed by those of the stack. Then the file is read.
theorem readImage_stack (h : s.HasTask use free k t d) (hnew : ∀ i, ¬HasTable use d i) {r : Int}
    (hr₁ : (Kernel.allocuvm (kernbase + d) userBase ((userBase + statbuf.size) % 2 ^ 32)).run s = .ok r s₁)
    (hx₁ : Ranged d (userBase / pgsize) n s use s₁ use₁ free₁)
    (hn : userBase + n * pgsize ≤ userStackBase - 2 * pgsize)
    (hl : (if 2048 < n then 2 else 3) ≤ free₁.length) (disk : Disk) : ∃ s₂ use₂ free₂,
    (Kernel.readImage disk statbuf (kernbase + t)).run s =
      (Kernel.readFile disk statbuf userBase (100 <<< 20)).run s₂ ∧
    s₂.Loads use₂ free₂ k t d (View.zero (fun _ => none) userBase (userBase + n * pgsize)
      |>.zero (userStackBase - 2 * pgsize) userStackBase) ∧
    (∀ i, HasTable use₂ d i ↔
      (∃ v, userBase / pgsize ≤ v ∧ v < userBase / pgsize + n ∧ v / 1024 = i) ∨
        ∃ v, (userStackBase - 2 * pgsize) / pgsize ≤ v ∧ v < (userStackBase - 2 * pgsize) / pgsize + 2 ∧
          v / 1024 = i) ∧
    Took d (if 2048 < n then 2 else 3) s₁ use₁ free₁ s₂ use₂ free₂ := by
  have h₁ := h.ranged hx₁ (.inl (by decide))
  have hmaps₁ v : Maps use₁ d v ↔ userBase / pgsize ≤ v ∧ v < userBase / pgsize + n := by
    rw [hx₁.maps, or_iff_right (h.owns.not_maps hnew v)]
  have hstack₁ v (hv : (userStackBase - 2 * pgsize) / pgsize ≤ v) : ¬Maps use₁ d v := by
    intro hm
    have := (hmaps₁ v).mp hm
    simp only [userBase, userStackBase, pgsize] at this hv hn
    omega
  have ht₁ : HasTable use₁ d 3 ↔ 2048 < n := by
    rw [hx₁.tables, or_iff_right (hnew 3)]
    simp only [userBase, userStackBase, pgsize, Nat.reduceDiv] at hn ⊢
    constructor
    case mp  =>
      intro ⟨v, _, hv, hvt⟩
      omega
    case mpr => exact fun hlt => ⟨3072, by decide, by omega, by decide⟩
  have ⟨s₂, use₂, free₂, hr₂, hx₂, hl₂, he₂⟩ := h₁.allocuvm_stack ht₁ hstack₁ hl
  have h₂ := h₁.ranged hx₂ (.inl (by decide))
  have ⟨s₃, hr₃, h₃, hc₃, he₃, hshows⟩ := h.readImage_eq hr₁ h₁ hr₂ h₂ disk
  have hs₁ := h.owns.shows_ranged (h.owns.shows_none h.user (h.owns.not_maps hnew)) h.user hx₁
    fun v _ _ => h.owns.not_maps hnew v
  have hs₃ := hshows _ <| h₁.owns.shows_ranged hs₁ h₁.user hx₂ fun v hv _ => hstack₁ v hv
  rw [show (userBase / pgsize + n) * pgsize = userBase + n * pgsize from Nat.add_mul _ _ _] at hs₃
  refine ⟨s₃, use₂, free₂, hr₃, ⟨h₃, hc₃, hs₃⟩, fun i => ?_, (Took.of_ranged hx₂ hl₂ he₂).congr he₃⟩
  rw [hx₂.tables, hx₁.tables, or_iff_right (hnew i)]

-- The file is read to the image, if there are enough pages.
theorem readImage_run (h : s.HasTask use free k t d) (hnew : ∀ i, ¬HasTable use d i)
    (hb : statbuf.BelowStack) (hl : statbuf.demand ≤ free.length) (disk : Disk) : ∃ s' use' free',
    (Kernel.readImage disk statbuf (kernbase + t)).run s = .ok statbuf.size s' ∧
    s'.Loads use' free' k t d (disk.image statbuf) ∧ (∀ i, statbuf.tables i = true ↔ HasTable use' d i) ∧
    Took d statbuf.demand s use free s' use' free' := by
  rw [Stat.demand] at hl
  have hp : statbuf.pages = (statbuf.size + pgsize - 1) / pgsize := rfl
  obtain ⟨hpos, htop⟩ := hb
  simp only [userBase, userStackBase, pgsize] at hpos htop hp
  obtain ⟨s₁, use₁, free₁, hr₁, hx₁, hl₁, he₁⟩ := h.allocuvm_file hnew (Nat.le_trans (Nat.le_add_right _ _) hl)
  obtain ⟨s₂, use₂, free₂, hr₂, h₂, hT₂, hx₂⟩ := h.readImage_stack hnew hr₁ hx₁
    (by simp only [userBase, userStackBase, pgsize]; omega) (by omega) disk
  have hmaps (i : Nat) (hi : i < sectorSize * sectors statbuf.size) :
      userBase + i < kernbase ∧ Maps use₂ s₂.cr3 ((userBase + i) / pgsize) := by
    simp only [sectors, sectorSize] at hi
    have hva : userBase + i < kernbase := by
      simp only [userBase, kernbase]
      omega
    refine ⟨hva, ?_⟩
    rw [h₂.cr3, h₂.task.owns.maps_iff h₂.shows h₂.task.user hva, View.zero]
    split
    case isTrue  => exact Option.some_ne_none _
    case isFalse =>
      rw [View.zero, if_pos]
      · exact Option.some_ne_none _
      · simp only [userBase, pgsize]
        omega
  obtain ⟨s₃, hr₃, hw₃⟩ := Kernel.readFile_eq disk statbuf (h₂.task.owns.buffer hmaps)
    (show sectorSize * sectors statbuf.size ≤ 100 <<< 20 by simp only [sectors, sectorSize]; omega)
    (by omega)
  obtain ⟨hf₃, _⟩ := h₂.task.owns.readFile_ok h₂.task.cr3 hr₃
  have h₃ := h₂.task.frameWrite hf₃
  have hs₃ := h₂.task.owns.shows_writes h₃.owns (h₂.cr3 ▸ h₂.task.user) (h₂.cr3 ▸ h₂.shows) hmaps hw₃
  rw [h₂.cr3] at hs₃
  refine ⟨s₃, use₂, free₂, hr₂.trans hr₃, ⟨h₃, by rw [hf₃.memory, h₂.cr3], hs₃⟩, fun i => ?_, ?_⟩
  case refine_1 => rw [hT₂, statbuf.tables_iff]
  case refine_2 => exact (Took.of_ranged hx₁ hl₁ he₁).trans hx₂ |>.congr <| by rw [hf₃.memory]

-- The range of the file is empty, or wraps around.
theorem allocuvm_nothing (h : s.HasTask use free k t d) (hnew : ∀ i, ¬HasTable use d i)
    (ht : (userBase + statbuf.size) % 2 ^ 32 ≤ userBase) : ∃ s' use' free',
    (Kernel.allocuvm (kernbase + d) userBase ((userBase + statbuf.size) % 2 ^ 32)).run s = .ok 0 s' ∧
    Ranged d (userBase / pgsize) 0 s use s' use' free' ∧ free'.length = free.length ∧
    s'.exhausted = s.exhausted :=
  h.owns.allocuvm_ok h.user (fun i => (iff_false_right (hnew i)).mpr Bool.false_ne_true)
    (show pgroundup userBase = userBase / pgsize * pgsize by decide)
    (show userBase / pgsize + 0 ≤ 2 ^ 19 by decide) (fun _ hk => absurd hk (Nat.not_lt_zero _))
    ht (fun v _ _ => h.owns.not_maps hnew v) (Nat.zero_le _)

-- No sector of the file is read, but the pages of the stack are taken.
theorem readImage_nothing (h : s.HasTask use free k t d) (hnew : ∀ i, ¬HasTable use d i)
    (hf : statbuf.fileSectors = 0) (hlt : statbuf.size < 2 ^ 32) (disk : Disk) : ∃ s' use' free',
    (Kernel.readImage disk statbuf (kernbase + t)).run s = .ok 0 s' ∧ s'.HasTask use' free' k t d ∧
    s'.cr3 = d ∧ (3 ≤ free.length → free'.length + 3 = free.length) := by
  have htop : (userBase + statbuf.size) % 2 ^ 32 ≤ userBase := by
    simp only [Stat.fileSectors, sectorSize] at hf
    simp only [userBase]
    omega
  obtain ⟨s₁, use₁, free₁, hr₁, hx₁, hl₁, _⟩ := h.allocuvm_nothing hnew htop
  have h₁ := h.ranged hx₁ (.inr rfl)
  have hnone i : ¬HasTable use₁ d i := by
    rw [hx₁.tables, or_iff_right (hnew i)]
    rintro ⟨v, hv, hv', _⟩
    exact Nat.not_lt.mpr hv hv'
  have hm v (_ : (userStackBase - 2 * pgsize) / pgsize ≤ v) := h₁.owns.not_maps hnone v
  obtain ⟨r₂, s₂, use₂, free₂, n, hr₂, hx₂, _, hl₂⟩ := h₁.allocuvm_stack_any (iff_false_intro (hnone 3)) hm
  rw [if_neg not_false, hl₁] at hl₂
  obtain ⟨s₃, hr₃, h₃, hc₃, _⟩ := h.readImage_eq hr₁ h₁ hr₂ (h₁.ranged hx₂ (.inl (by decide))) disk
  exact ⟨s₃, use₂, free₂, hr₃.trans <| Kernel.readFile_nothing hf _ _ _ _, h₃, hc₃, hl₂⟩

-- The pages of the file have reached the stack, and there is another page.
theorem readImage_hits (h : s.HasTask use free k t d) {r : Int}
    (hr₁ : (Kernel.allocuvm (kernbase + d) userBase ((userBase + statbuf.size) % 2 ^ 32)).run s = .ok r s₁)
    (h₁ : s₁.HasTask use₁ free₁ k t d) (hm : Maps use₁ d ((userStackBase - 2 * pgsize) / pgsize))
    (hl : 0 < free₁.length) (disk : Disk) : ∃ s',
    (Kernel.readImage disk statbuf (kernbase + t)).run s = .error (.panic "remap") s' ∧
    s'.exhausted = s₁.exhausted := by
  have ⟨s₂, hr₂, he₂⟩ := h₁.allocuvm_stack_hits hl hm
  refine ⟨s₂, ?_, he₂⟩
  rw [Kernel.readImage, EStateM.bind_ok h.load_pgdir, EStateM.bind_ok hr₁, EStateM.bind_ok h₁.load_pgdir,
    EStateM.bind_error hr₂]

-- The file reaches the stack, before the pages run out.
theorem readImage_remap (h : s.HasTask use free k t d) (hnew : ∀ i, ¬HasTable use d i)
    (hs : userStackBase - 2 * pgsize < userBase + statbuf.size)
    (hl : pagesFor (fun _ => false) (userBase / pgsize) statbuf.pages < free.length) (disk : Disk) : ∃ s',
    (Kernel.readImage disk statbuf (kernbase + t)).run s = .error (.panic "remap") s' ∧
    s'.exhausted = s.exhausted := by
  have ⟨s₁, use₁, free₁, hr₁, hx₁, hl₁, he₁⟩ := h.allocuvm_file hnew (Nat.le_of_lt hl)
  have hp : statbuf.pages = (statbuf.size + pgsize - 1) / pgsize := rfl
  have hm : Maps use₁ d ((userStackBase - 2 * pgsize) / pgsize) := by
    apply (hx₁.maps _).mpr
    simp only [userBase, userStackBase, pgsize] at *
    exact .inr (by omega)
  have ⟨s', hr, he⟩ := h.readImage_hits hr₁ (h.ranged hx₁ (.inl (by decide))) hm (by omega) disk
  exact ⟨s', hr, he.trans he₁⟩

-- The end of the file wraps around, so that no pages are mapped for it.
theorem readImage_wrapped (h : s.HasTask use free k t d) (hnew : ∀ i, ¬HasTable use d i)
    (hs : 2 ^ 32 ≤ userBase + statbuf.size) (hlt : statbuf.size < 2 ^ 32) (hf : 0 < statbuf.fileSectors)
    (hl : 3 ≤ free.length) (disk : Disk) : ∃ e s',
    (Kernel.readImage disk statbuf (kernbase + t)).run s = .error e s' ∧ s'.exhausted = s.exhausted := by
  have ⟨s₁, use₁, free₁, hr₁, hx₁, hl₁, he₁⟩ := h.allocuvm_nothing hnew
    (show (userBase + statbuf.size) % 2 ^ 32 ≤ userBase by simp only [userBase] at *; omega)
  have ⟨s₂, use₂, free₂, hr₂, h₂, _, hx₂⟩ := h.readImage_stack hnew hr₁ hx₁ (by decide)
    (Nat.le_trans hl <| Nat.le_of_eq hl₁.symm) disk
  match hr₃ : (Kernel.readFile disk statbuf userBase (100 <<< 20)).run s₂ with
  | .ok r s₃    =>
    have hm := h₂.task.owns.readFile_maps h₂.task.cr3 hr₃ 0 (by
      simp only [Stat.fileSectors, sectorSize] at hf ⊢
      omega)
    rw [h₂.cr3, h₂.task.owns.maps_iff h₂.shows h₂.task.user (by decide)] at hm
    exact absurd rfl hm
  | .error e s₃ =>
    refine ⟨e, s₃, hr₂.trans hr₃, ?_⟩
    rw [(Kernel.Quiet.readFile _ _ _).of_error hr₃, hx₂.exhausted, he₁]

end Machine.HasTask
