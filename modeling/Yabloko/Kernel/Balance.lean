import Yabloko.Kernel.Segments
import Yabloko.Kernel.System

-- The pages which `run_elf` takes for the file and for the stack, if there are so many. The end of a large
-- file wraps around, and the stack is not mapped when the file has reached it.
def Stat.imageDemand (statbuf : Stat) : Nat :=
  if 2 ^ 32 ≤ userBase + statbuf.size then
    3
  else if userBase + statbuf.size ≤ userStackBase - 2 * pgsize then
    statbuf.demand
  else
    pagesFor (fun _ => false) (userBase / pgsize) statbuf.pages + 1

-- The pages which are then taken for an image which ends at `top`.
def Stat.bssTakes (statbuf : Stat) (top : Nat) : Nat :=
  if top ≤ userStackBase - 2 * pgsize then
    statbuf.bssDemand top
  else
    statbuf.bssDemand (userStackBase - 2 * pgsize) + 1

-- There are all pages which `run_elf` takes for the file, which is not empty.
structure Machine.Room (s : Machine) (disk : Disk) (name : CString) (statbuf : Stat) : Prop where
  sectors : 0 < statbuf.fileSectors
  image   : statbuf.imageDemand + s.newPages ≤ s.freePages.length
  bss     : ∀ task s₁, Kernel.Parses disk name s statbuf task s₁ →
              (∀ i < (disk.file statbuf).load16 44, ∃ e,
                s₁.view.segmentTop (phdrAddr (disk.file statbuf) i) = .ok e) →
              ∀ e, s₁.SegmentEnd (disk.file statbuf) e →
                statbuf.demand + s.newPages + statbuf.bssTakes e ≤ s.freePages.length

def Machine.Affords (s : Machine) (disk : Disk) (name : CString) : Prop :=
  ∀ statbuf, disk.stat name = some statbuf → s.Room disk name statbuf

variable {s s' s₀ s₁ : Machine} {use use' : Nat → Use} {free free' : List Nat} {k t d i n p top trapret : Nat}
  {statbuf : Stat} {disk : Disk} {m : View} {name : CString} {σ σ' : System} {file : Bytes}

namespace Machine.Rests

theorem runElf_room (h : s.Rests use free k) (hs : disk.stat name = some statbuf)
    (hm : s.Room disk name statbuf) (trapret : Nat) :
    (∃ e s', (Kernel.runElf trapret disk name).run s = .error e s' ∧ s'.exhausted = s.exhausted) ∨
    ∃ stack top s' use' free' t d s₁ use₁ free₁ n,
      (Kernel.runElf trapret disk name).run s = .ok (.swtch stack top) s' ∧ s'.HasTask use' free' k t d ∧
      s'.cr3 = d ∧ s'.exhausted = s.exhausted ∧ s.Begins use free t d use₁ free₁ ∧
      Took d n s₁ use₁ free₁ s' use' free' := by
  obtain ⟨hsec, himg, hbss⟩ := hm
  rw [h.owns.freePages_eq] at himg hbss
  have hpos : 0 < statbuf.size := by
    simp only [Stat.fileSectors, sectorSize] at hsec
    omega
  have hlt := Disk.stat_size_lt hs
  rw [Stat.imageDemand] at himg
  split at himg
  case isTrue hwrap =>
    obtain ⟨task, s₁, hr₁, he₁⟩ := h.newProcess_run (by omega)
    obtain ⟨use₁, free₁, t, d, ht, h₁, hnew, hb₁⟩ := h.newProcess hr₁
    have hl₁ := hb₁.length
    obtain ⟨e, s', hr, he⟩ := h₁.readImage_wrapped hnew hwrap hlt hsec (by omega) disk
    exact .inl ⟨e, s', Kernel.runElf_error hs (ht ▸ hr₁) hr, he.trans he₁⟩
  case isFalse =>
    split at himg
    case isFalse hgt =>
      obtain ⟨task, s₁, hr₁, he₁⟩ := h.newProcess_run (by omega)
      obtain ⟨use₁, free₁, t, d, ht, h₁, hnew, hb₁⟩ := h.newProcess hr₁
      have hl₁ := hb₁.length
      obtain ⟨s', hr, he⟩ := h₁.readImage_remap hnew (Nat.lt_of_not_le hgt) (by omega) disk
      exact .inl ⟨_, s', Kernel.runElf_error hs (ht ▸ hr₁) hr, he.trans he₁⟩
    case isTrue hle =>
      have hb : statbuf.BelowStack := ⟨hpos, hle⟩
      obtain ⟨s₂, use₂, free₂, t, d, s₁, use₁, free₁, hp, h₂, hT, hb₁, he₁, hx₂⟩ :=
        Kernel.Parses.exists_loads h hs hb himg
      have hl₁ := hb₁.length
      have hl₂ := hx₂.length
      have he₂ := hx₂.exhausted.trans he₁
      have hh := h₂.hasHeader hb
      rw [hp.runElf_eq]
      cases hr : (Kernel.imageTop userBase (userBase + statbuf.size)).run s₂ with
      | error e s' =>
        refine .inl ⟨e, s', ?_, ((Kernel.Quiet.imageTop_go _ _ _ _).of_error hr).trans he₂⟩
        rw [Kernel.enterImage, hb.fileTop, EStateM.bind_error hr]
      | ok top s'  =>
        obtain ⟨hs', hall, _, _, hend⟩ := hh.imageTop_spec hr
        subst hs'
        have takes := hbss _ _ hp hall top
        by_cases hts : top ≤ userStackBase - 2 * pgsize
        case pos =>
          have hc : statbuf.bssDemand top ≤ free₂.length := by
            cases hend
            case inl hend =>
              rw [Stat.bssDemand, Stat.bssPages_eq_zero (Nat.le_of_eq hend)]
              exact Nat.zero_le _
            case inr hend =>
              have ht := takes hend
              rw [Stat.bssTakes, if_pos hts] at ht
              omega
          obtain ⟨s₃, use₃, free₃, hr₃, h₃, hx₃⟩ := (h₂.enterImage hb hT hr hts trapret).left hc
          exact .inr ⟨_, _, s₃, use₃, free₃, t, d, s₁, use₁, free₁, _, hr₃, h₃.task, h₃.cr3,
            hx₃.exhausted.trans he₂, hb₁, hx₂.trans hx₃⟩
        case neg =>
          cases hend
          case inl hend => exact absurd (hend ▸ hle) hts
          case inr hend =>
            have ht := takes hend
            rw [Stat.bssTakes, if_neg hts] at ht
            obtain ⟨s₃, hr₃, he₃⟩ := (h₂.enterImage_stack hb hT hr (Nat.lt_of_not_le hts) trapret).left (by omega)
            exact .inl ⟨_, s₃, hr₃, he₃.trans he₂⟩

end Machine.Rests

def System.Affords (σ : System) (disk : Disk) : Prop :=
  ∀ name, σ.control = .runElf name → σ.machine.Affords disk name

-- A step of the system. A command is only given when there are enough pages for it.
def System.AffordableStep (trapret : Nat) (disk : Disk) (σ σ' : System) : Prop :=
  Step trapret disk σ σ' ∧ σ.Affords disk

-- After a process has ended, all pages are free again, but those of the kernel and of the task.
def Settled (s : Machine) (use : Nat → Use) (k : Nat) : Prop :=
  s.cr3 = k ∧ ∀ p, IsPage p → use p = .free ∨ p = k ∨ s.userTask = kernbase + p

-- The pages of the process can be found in its directory.
def Occupied (use : Nat → Use) (k : Nat) : Prop :=
  ∃ t d, ∀ p, IsPage p → use p = .free ∨ p = k ∨ p = t ∨ Belongs use d p

-- Every page is accounted for.
structure System.Balanced (σ : System) (use : Nat → Use) (free : List Nat) (k : Nat) : Prop where
  at_control : σ.At use free k σ.control
  settled    : ¬σ.control.HasProcess → Settled σ.machine use k
  occupied   : σ.control.HasProcess → Occupied use k
  exhausted  : σ.machine.exhausted = false

namespace Settled

theorem occupied {s₁ : Machine} {use₁ free₁} (h : Settled s use k) (hb : s.Begins use free t d use₁ free₁)
    (hd : use' d = .dir) (hx : Took d n s₁ use₁ free₁ s' use' free') : Occupied use' k := by
  refine ⟨t, d, fun p hp => ?_⟩
  rcases h.right p hp with hf | hk | ht
  case inl     =>
    rcases hb.taken p hf with hf₁ | ht | he
    case inl     => 
      cases hx.taken p hf₁
      case inl hf₂ => exact .inl hf₂
      case inr hb₂ => exact .inr <| .inr <| .inr hb₂
    case inr.inl => exact .inr <| .inr <| .inl ht
    case inr.inr => exact .inr <| .inr <| .inr <| .inl ⟨by rw [he, hd], he⟩
  case inr.inl => exact .inr <| .inl hk
  case inr.inr =>
    cases hb.task
    case inl hz => exact absurd (ht.symm.trans hz) (kernbase_ne p)
    case inr ht' => exact .inr <| .inr <| .inl <| Nat.add_left_cancel <| ht.symm.trans ht'

end Settled

-- The pages of the process are free again.
theorem Occupied.settled (h : Occupied use k) (ht : s.HasTask use free k t d) (hc : s.cr3 = k)
    (hs : s.Steady s') : Settled s' (partly use d (Belongs use d)) k := by
  have ⟨t', d', hall⟩ := h
  have htt : t = t' := by
    rcases hall t ht.taskPage with hf | hk | he | hb
    case inl         => simp [ht.held] at hf
    case inr.inl     => exact absurd (ht.held.symm.trans <| hk ▸ ht.kernel) (by simp)
    case inr.inr.inl => exact he
    case inr.inr.inr => simp [Belongs, ht.held] at hb
  have hdd : d = d' := by
    rcases hall d (ht.owns.page (by simp [ht.user])) with hf | hk | he | hb
    case inl         => simp [ht.user] at hf
    case inr.inl     => exact absurd hk ht.ne
    case inr.inr.inl => 
      have := ht.user
      rw [he, ← htt, ht.held] at this
      cases this
    case inr.inr.inr => simpa [Belongs, ht.user] using hb
  refine ⟨hs.cr3.trans hc, fun p hp => ?_⟩
  rcases hall p hp with hf | hk | he | hb
  case inl         => exact .inl <| by rw [partly_belongs fun hb => hb.ne_free hf, hf]
  case inr.inl     => exact .inr <| .inl hk
  case inr.inr.inl => exact .inr <| .inr <| by rw [hs.userTask, ht.userTask, he, htt]
  case inr.inr.inr => exact .inl <| partly_of_done <| hdd ▸ hb

namespace System.Balanced

theorem step (h : σ.Balanced use free k) (hs : Step trapret disk σ σ') (ha : σ.Affords disk) :
    (∃ use' free', σ'.Balanced use' free' k) ∨ σ'.Stopped := by
  rcases h.at_control.step hs with ⟨h', hc⟩ | ⟨name, e, s', hc, hr, he⟩ | ⟨pgdir, s₁, s', hc, hl, hr, he⟩ | ⟨_, hstop⟩
  case inr.inr.inr     => exact .inr hstop
  all_goals left
  case inl             =>
    refine ⟨use, free, h', fun hn => ?_, fun hp => h.occupied <| hc.process.mpr hp, hc.exhausted.trans h.exhausted⟩
    have hn := mt hc.process.mp hn
    rw [hc.machine hn]
    exact h.settled hn
  case inr.inl         =>
    have hat := h.at_control
    have hset := h.settled (by rw [hc]; exact id)
    rw [hc] at hat
    obtain ⟨hrest, hm⟩ := hat
    cases hst : disk.stat name with
    | none         =>
      rw [Kernel.runElf, hst] at hr
      cases hr
      refine ⟨use, free, ?_⟩
      rw [he]
      exact {
        at_control := ⟨hrest, hm⟩
        settled := fun _ => hset
        occupied := False.elim
        exhausted := h.exhausted }
    | some statbuf =>
      rcases hrest.runElf_room hst (ha name hc statbuf hst) trapret with
        ⟨f, s₁, hr₁, _⟩ | ⟨stack, top, s₁, use', free', t, d, s₂, use₂, free₂, n, hr₁, ht, hd, hex, hb, hx⟩
      case inl => cases hr.symm.trans hr₁
      case inr =>
        cases hr.symm.trans hr₁
        refine ⟨use', free', ?_⟩
        rw [he]
        exact {
          at_control := ⟨⟨t, by rwa [hd]⟩, fun hm' => absurd (hm'.symm.trans hm) (by decide)⟩
          settled := fun hn => absurd trivial hn
          occupied := fun _ => hset.occupied hb ht.user hx
          exhausted := hex.trans h.exhausted }
  case inr.inr.inl     =>
    have hat := h.at_control
    rw [hc] at hat
    obtain ⟨⟨t, d, ht⟩, hk, hm⟩ := hat
    obtain ⟨free', h', hst, _⟩ := ht.freevm hk hl hr
    refine ⟨partly use d (Belongs use d), free', ?_⟩
    rw [he]
    exact {
      at_control := ⟨h', hm⟩
      settled := fun _ => (h.occupied (by rw [hc]; trivial)).settled ht hk hst
      occupied := fun hc => hc.elim
      exhausted := hst.exhausted.trans h.exhausted }

theorem run (h : σ.Balanced use free k) (hs : Relation.ReflTransGen (AffordableStep trapret disk) σ σ') :
    (∃ use' free', σ'.Balanced use' free' k) ∨ σ'.Stopped := by
  induction hs
  case refl         => exact .inl ⟨use, free, h⟩
  case tail _ hs hi =>
    rcases hi with ⟨use', free', hi⟩ | hi
    case inl => exact hi.step hs.left hs.right
    case inr => exact absurd hi.control hs.left.running

-- The number of free pages in the shell.
theorem length (h : σ.Balanced use free k) (hc : σ.control = .shell) :
    free.length + (if σ.machine.userTask = 0 then 1 else 2) = allPages.length := by
  have hset := h.settled (by rw [hc]; exact id)
  have hat := h.at_control
  rw [hc] at hat
  have hrest := hat.left
  cases hrest.task
  case inl hz =>
    rw [if_pos hz]
    apply hrest.owns.length_add (List.nodup_singleton k)
    case ht => exact fun p hp => by simp [List.mem_singleton.mp hp, hrest.kernel]
    case ha =>
      intro p hp
      rcases hset.right p hp with hf | hk | ht
      case inl     => exact .inl hf
      case inr.inl => exact .inr <| List.mem_singleton.mpr hk
      case inr.inr => exact absurd (ht.symm.trans hz) (kernbase_ne p)
  case inr ht =>
    have ⟨t, ht, hheld⟩ := ht
    rw [if_neg <| ht ▸ kernbase_ne t]
    have hne : k ≠ t := fun he => by simp [← he, hrest.kernel] at hheld
    apply hrest.owns.length_add (List.nodup_cons.mpr ⟨mt List.mem_singleton.mp hne, List.nodup_singleton t⟩)
    case ht =>
      intro p hp
      rcases List.mem_pair.mp hp with he | he
      case inl => simp [he, hrest.kernel]
      case inr => simp [he, hheld]
    case ha =>
      intro p hp
      rcases hset.right p hp with hf | hk | ht'
      case inl     => exact .inl hf
      case inr.inl => exact .inr <| List.mem_pair.mpr <| .inl hk
      case inr.inr => exact .inr <| List.mem_pair.mpr <| .inr <| Nat.add_left_cancel <| ht'.symm.trans ht

end System.Balanced

-- There is room for all files below the stack.
theorem Stat.bssTakes_le (top : Nat) : statbuf.bssTakes top ≤ 5629 := by
  rw [bssTakes]
  split
  case isTrue hle => exact Nat.le_succ_of_le <| bssDemand_le hle
  case isFalse    => exact Nat.succ_le_succ <| bssDemand_le (Nat.le_refl _)

theorem Machine.room (hb : statbuf.BelowStack) (hl : 2 ^ 14 ≤ s.freePages.length) (disk : Disk)
    (name : CString) : s.Room disk name statbuf := by
  have ⟨hpos, hle⟩ := hb
  have hd := statbuf.demand_le hb
  have hn : s.newPages ≤ 2 := by
    rw [Machine.newPages]
    split <;> omega
  simp only [userBase, userStackBase, pgsize] at hle
  refine ⟨?_, ?_, fun _ _ _ _ e _ => ?_⟩
  case refine_1 =>
    simp only [Stat.fileSectors, sectorSize]
    omega
  case refine_2 =>
    rw [Stat.imageDemand, if_neg (by simp only [userBase]; omega), if_pos hb.right]
    omega
  case refine_3 =>
    have ht := statbuf.bssTakes_le e
    omega

namespace System

theorem affords_of_ne (h : ∀ name, σ.control ≠ .runElf name) : σ.Affords disk :=
  fun name hc => absurd hc (h name)

-- The process can be killed.
theorem Runs.exists_swtch (h : σ.Runs use free k) (hc : σ.control = .process) (hm : σ.mode13Enabled = false)
    (trapret : Nat) (disk : Disk) : ∃ machine,
    Relation.ReflTransGen (ProcessStep trapret disk) σ { σ with machine, control := .swtch } := by
  have ⟨t, ht⟩ := h.task
  have ⟨s₁, hr₁, h₁⟩ : ∃ s₁, Kernel.switchkvm.run σ.machine = .ok () s₁ ∧
      s₁.HasTask use free k t σ.machine.cr3 := by
    refine ⟨_, rfl, ht.with_cr3 ?_⟩
    rw [ht.kvm, v2p_kernbase (ht.owns.page (p := k) (by simp [ht.kernel])).upper, ht.kernel]
  have ⟨s₂, hr₂, _⟩ := h₁.owns.freevm h₁.user
  have hl := h₁.load_pgdir
  rw [← h₁.userTask] at hl
  have restore : ProcessStep trapret disk { σ with control := .restoreTextMode true }
      { σ with control := .switchkvm } :=
    ⟨.inactive (σ := { σ with control := .restoreTextMode true }) rfl hm, trivial⟩
  refine ⟨s₂, ?_⟩
  apply Relation.ReflTransGen.head ⟨.killproc hc, hc ▸ trivial⟩
  apply Relation.ReflTransGen.head restore
  apply Relation.ReflTransGen.head ⟨.switchkvm rfl hr₁, trivial⟩
  exact .single ⟨.freevm rfl hl hr₂, trivial⟩

theorem ProcessStep.affordable (h : ProcessStep trapret disk σ σ') : AffordableStep trapret disk σ σ' :=
  ⟨h.left, affords_of_ne fun name hc => by
    have hp := h.right
    rw [hc] at hp
    exact hp⟩

theorem Runs.exists_killed (h : σ.Runs use free k) (hc : σ.control = .process) (hm : σ.mode13Enabled = false)
    (trapret : Nat) (disk : Disk) : ∃ machine,
    Relation.ReflTransGen (AffordableStep trapret disk) σ { σ with machine, control := .shell } := by
  have ⟨machine, hs⟩ := h.exists_swtch hc hm trapret disk
  have hs := hs.lift id fun _ _ => ProcessStep.affordable
  exact ⟨machine, hs.tail ⟨.swtch rfl, affords_of_ne <| by simp⟩⟩

end System

-- In every run whose commands are given when there are enough pages for them, and whose files are not empty.
theorem System.pages_balanced (hf : s.freelist = 0) (ht : s.userTask = 0) (he : s.exhausted = false)
    (hr : Kernel.kmain.run s = .ok () s₀)
    (hs : Relation.ReflTransGen (AffordableStep trapret disk) (.boot s₀) σ) :
    (σ.control = .shell →
      σ.machine.freePages.length + (if σ.machine.userTask = 0 then 0 else 1) = s₀.freePages.length ∧
      σ.machine.cr3 = v2p σ.machine.kvm) ∧
    ∀ name, σ.control = .runElf name → σ.machine.Affords disk name →
      ((Kernel.runElf trapret disk name).after σ.machine).exhausted = false := by
  obtain ⟨s₁, use, free, k, hr₁, hb, hex⟩ := Kernel.kmain_booted hf ht
  rw [hr] at hr₁
  cases hr₁
  have h₀ : (System.boot s₀).Balanced use free k := {
    at_control := ⟨.of_booted hb, rfl⟩
    settled := fun _ => ⟨hb.cr3, fun p hp => by
      by_cases hk : p = k
      case pos => exact .inr <| .inl hk
      case neg => exact .inl <| hb.free p hp hk⟩
    occupied := False.elim
    exhausted := hex.trans he }
  rcases h₀.run hs with ⟨use', free', h⟩ | hstop
  case inr =>
    exact ⟨fun hc => absurd (hstop.control.symm.trans hc) nofun,
      fun _ hc => absurd (hstop.control.symm.trans hc) nofun⟩
  have hat := h.at_control
  constructor
  case left  =>
    intro hc
    have hset := h.settled (by rw [hc]; exact id)
    have hl := h.length hc
    have hl₀ := hb.length_free
    rw [hc] at hat
    have hk := hat.left.owns.page (p := k) (by simp [hat.left.kernel])
    rw [hat.left.owns.freePages_eq, hb.owns.freePages_eq, hset.left, hat.left.kvm, v2p_kernbase hk.upper]
    refine ⟨?_, rfl⟩
    split at hl
    case isTrue hz  => rw [if_pos hz]; omega
    case isFalse hz => rw [if_neg hz]; omega
  case right =>
    intro name hc ha
    rw [hc] at hat
    rw [← h.exhausted, Kernel.after]
    cases hst : disk.stat name with
    | none         =>
      rw [Kernel.runElf, hst]
      rfl
    | some statbuf =>
      rcases hat.left.runElf_room hst (ha statbuf hst) trapret with
        ⟨f, s₁, hr₁, hex⟩ | ⟨stack, top, s₁, _, _, _, _, _, _, _, _, hr₁, _, _, hex, _⟩
      all_goals rw [hr₁]; exact hex

-- A process has been started and killed. The page of the task stays with the kernel.
theorem System.pages_balanced_killed : ∃ s₀ σ, Kernel.kmain.run .zero = .ok () s₀ ∧
    Relation.ReflTransGen (AffordableStep 0 (.single (bssFile 0))) (.boot s₀) σ ∧ σ.control = .shell ∧
    (σ.control = .shell →
      σ.machine.freePages.length + (if σ.machine.userTask = 0 then 0 else 1) = s₀.freePages.length ∧
      σ.machine.cr3 = v2p σ.machine.kvm) ∧
    ∀ name, σ.control = .runElf name → σ.machine.Affords (.single (bssFile 0)) name →
      ((Kernel.runElf 0 (.single (bssFile 0)) name).after σ.machine).exhausted = false := by
  have ⟨s₀, use, free, k, hr₀, hb, _⟩ := Kernel.kmain_booted (s := .zero) rfl rfl
  have hrest := Machine.Rests.of_booted hb
  have hl := hb.length_eq
  have hfile : Stat.BelowStack ⟨512, 1⟩ := ⟨by decide, by decide⟩
  have ⟨stack, top, s₁, hr₁⟩ := Kernel.exists_swtch hrest
    (show Disk.stat (.single (bssFile 0)) (fun i => if i = 0 then 107 else 0) = some ⟨512, 1⟩ from rfl)
    hfile (executable_bssFile 0) (by omega) 0
  have ⟨use₁, free₁, _, hswtch⟩ := hrest.runElf hr₁
  have ⟨t, d, ht, hd, _⟩ := hswtch _ _ rfl
  have hrun : Runs ⟨s₁, 0, false, .process⟩ use₁ free₁ k := ⟨⟨t, hd ▸ ht⟩, Bool.noConfusion⟩
  have ⟨s₂, hs⟩ := hrun.exists_killed rfl rfl 0 (.single (bssFile 0))
  have hs₂ : Relation.ReflTransGen (AffordableStep 0 (.single (bssFile 0))) (.boot s₀)
      ⟨s₂, 0, false, .shell⟩ := by
    apply Relation.ReflTransGen.head (b := ⟨s₀, 0, false, .runElf fun i => if i = 0 then 107 else 0⟩)
      ⟨.command _ rfl, affords_of_ne <| by simp [boot]⟩
    apply Relation.ReflTransGen.head ⟨.started rfl hr₁, fun name hc statbuf hst => ?_⟩ hs
    cases hc
    cases hst
    exact Machine.room hfile (by rw [hb.owns.freePages_eq]; omega) _ _
  exact ⟨s₀, _, hr₀, hs₂, rfl, System.pages_balanced rfl rfl rfl hr₀ hs₂⟩

-- A disk with the file `k`, which is empty.
def Disk.emptyFile : Disk :=
  fun lba i => if lba = 1 then (if i = 32 then 1 else if i = 44 then 107 else 0) else 0

-- The directory of the process and its stack are not freed.
theorem System.empty_file_leaks : ∃ s₀ σ, Kernel.kmain.run .zero = .ok () s₀ ∧
    Relation.ReflTransGen (Step 0 .emptyFile) (.boot s₀) σ ∧ σ.control = .shell ∧
    σ.machine.userTask ≠ 0 ∧ σ.machine.freePages.length + 5 = s₀.freePages.length ∧
    σ.machine.cr3 ≠ v2p σ.machine.kvm := by
  have ⟨s₀, use, free, k, hr₀, hb, _⟩ := Kernel.kmain_booted (s := .zero) rfl rfl
  have hrest := Machine.Rests.of_booted hb
  have hl := hb.length_eq
  have hn := hb.newPages
  have ⟨task, s₁, hr₁, _⟩ := hrest.newProcess_run (by omega)
  have ⟨use₁, free₁, t, d, he, h₁, hnew, hb₁⟩ := hrest.newProcess hr₁
  have hl₁ := hb₁.length
  have ⟨s₂, use₂, free₂, hr₂, h₂, hc₂, hl₂⟩ := h₁.readImage_nothing hnew
    (show Stat.fileSectors ⟨0, 1⟩ = 0 from rfl) (by decide) .emptyFile
  have hr : (Kernel.runElf 0 .emptyFile fun i => if i = 0 then 107 else 0).run s₀ =
      .ok (.returned ": file not found\n") s₂ := by
    rw [Kernel.runElf, show Disk.stat .emptyFile _ = some ⟨0, 1⟩ from rfl]
    simp only [EStateM.bind_ok hr₁]
    rw [Kernel.loadElf, he, EStateM.bind_ok hr₂]
    rfl
  have hs : Relation.ReflTransGen (Step 0 .emptyFile) (.boot s₀) ⟨s₂, 0, false, .shell⟩ :=
    .head (b := ⟨s₀, 0, false, .runElf _⟩) (.command _ rfl) <| .single <| .returned rfl hr
  refine ⟨s₀, _, hr₀, hs, rfl, ?_, ?_, ?_⟩
  case refine_1 => exact h₂.userTask ▸ kernbase_ne t
  case refine_2 =>
    rw [h₂.owns.freePages_eq, hb.owns.freePages_eq]
    have := hl₂ (by omega)
    omega
  case refine_3 =>
    rw [hc₂, h₂.kvm, v2p_kernbase (h₂.owns.page (p := k) (by simp [h₂.kernel])).upper]
    exact h₂.ne
