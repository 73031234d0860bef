import Yabloko.Kernel.Mode13
import Yabloko.Kernel.Puts
import Yabloko.Kernel.Segments

variable {s s₁ s' : Machine} {use : Nat → Use} {free : List Nat} {k t d pgdir : Nat} {mem : Bytes}

-- Behind an address which the process can use, there is a frame.
theorem Machine.Owns.translate_some (h : s.Owns use free) (hd : use s.cr3 = .dir) {va pa : Nat}
    (hva : va < kernbase) (ht : s.translate va = some pa) :
    ∃ f, use f = .frame s.cr3 (va / pgsize) ∧ pa = f + va % pgsize := by
  have ⟨hv, hn, he⟩ := Owns.user_split hva
  by_cases hmap : Maps use s.cr3 (va / pgsize)
  case neg =>
    have hnone := h.translate_none hd hmap hv hn
    rw [he, ht] at hnone
    cases hnone
  case pos =>
    have ⟨f, hf, ht'⟩ := h.translate_maps hva hmap
    exact ⟨f, hf, Option.some.inj <| ht.symm.trans ht'⟩

namespace Machine.HasTask

-- Neither the tables nor the field `pgdir` are written by the process.
theorem processWrites (h : s.HasTask use free k t d) (hm : System.ProcessWrites s mem) :
    Machine.HasTask { s with mem } use free k t d := by
  have ht := h.taskPage
  rw [System.ProcessWrites, h.userTask, v2p_kernbase ht.upper] at hm
  have written {p i} (hp : IsPage p) (hi : i < pgsize) (hne : mem (p + i) ≠ s.mem (p + i)) :
      (∃ v, use p = .frame s.cr3 v) ∨ (p = t ∧ Task.stack ≤ i) := by
    have ha := hp.aligned
    have ha' := ht.aligned
    simp only [pgsize] at ha ha' hi
    cases hm _ hne
    case inr hs =>
      simp only [pgsize] at hs
      have hpt : p = t := by omega
      exact .inr ⟨hpt, by omega⟩
    case inl hu =>
      have ⟨va, hva, htr⟩ := hu
      have ⟨f, hf, hpa⟩ := h.owns.translate_some h.cr3 hva htr
      have hfa := (h.owns.page (p := f) (by simp [hf])).aligned
      simp only [pgsize] at hfa hpa
      have hpf : p = f := by omega
      exact .inl ⟨_, hpf ▸ hf⟩
  have hch : ChangesIn (fun p => (∃ v, use p = .frame s.cr3 v) ∨ p = t) s.mem mem := by
    intro p hp hn i hi
    by_contra hne
    exact hn <| (written hp hi hne).imp_right (·.left)
  have ho := h.owns.touch hch fun p hp => by
    rcases hp with ⟨v, hp⟩ | hp
    case inl => simp [hp]
    case inr => simp [hp, h.held]
  have hfield i (hi : i < 4) : mem (t + (Task.pgdir + i)) = s.mem (t + (Task.pgdir + i)) := by
    by_contra hne
    cases written ht (by simp only [Task.pgdir, pgsize]; omega) hne
    case inl hf => have ⟨v, hf⟩ := hf; simp [h.held] at hf
    case inr hs => simp only [Task.pgdir, Task.stack] at hs; omega
  have hl : mem.load32 (t + Task.pgdir) = s.mem.load32 (t + Task.pgdir) := by
    simp only [Bytes.load32, Bytes.load16, Nat.add_assoc]
    rw [hfield 1 (by decide), hfield 2 (by decide), hfield 3 (by decide)]
    rw [show mem (t + Task.pgdir) = _ from hfield 0 (by decide)]
  exact { h with owns := ho, pgdir := hl.trans h.pgdir }

theorem processWrites_low (h : s.HasTask use free k t d) (hm : System.ProcessWrites s mem) : SameLow s.mem mem := by
  intro pa hpa
  by_contra hne
  cases hm _ hne
  case inl hu =>
    have ⟨va, hva, htr⟩ := hu
    have ⟨f, hf, he⟩ := h.owns.translate_some h.cr3 hva htr
    have hl := (h.owns.page (p := f) (by simp [hf])).lower
    omega
  case inr hs =>
    have hl := h.taskPage.lower
    rw [h.userTask, v2p_kernbase h.taskPage.upper] at hs
    omega

-- The end of the process, in the directory of the kernel.
theorem freevm (h : s.HasTask use free k t d) (hc : s.cr3 = k)
    (hl : (Kernel.load32 (s.userTask + Task.pgdir)).run s = .ok pgdir s₁)
    (hr : (Kernel.freevm pgdir).run s₁ = .ok () s') :
    ∃ free', s'.Rests (partly use d (Belongs use d)) free' k ∧ s.Steady s' ∧ SameLow s.mem s'.mem := by
  rw [h.userTask, h.load_pgdir] at hl
  cases hl
  have ⟨s₂, hr₂, hu⟩ := h.owns.freevm h.user
  rw [hr₂] at hr
  cases hr
  have ⟨free', ho⟩ := hu.owns
  have hk : partly use d (Belongs use d) k = .dir := by
    rw [partly_belongs, h.kernel]
    simp [Belongs, h.kernel, h.ne.symm]
  have ht : partly use d (Belongs use d) t = .held := by
    rw [partly_belongs, h.held]
    simp [Belongs, h.held]
  refine ⟨free', ?_, hu.steady, hu.low⟩
  exact {
    owns := ho
    kvm := hu.steady.kvm.trans h.kvm
    kernel := hk
    cr3 := by rw [hu.steady.cr3, hc, hk]
    zero := fun d' hm => h.zero d' hm.of_partly
    task := .inr ⟨t, hu.steady.userTask.trans h.userTask, ht⟩ }

end Machine.HasTask

-- There is a process which has been started, and which has not been taken apart.
def Control.Live : Control → Prop
  | shell | runElf _ | freevm | swtch | stopped => False
  | _                                           => True

-- There is a process, which has pages.
def Control.HasProcess : Control → Prop
  | shell | runElf _ | swtch | stopped => False
  | _                                  => True

theorem Control.Live.hasProcess {c : Control} (h : c.Live) : c.HasProcess := by
  cases c
  case shell | runElf | swtch | stopped => exact h
  all_goals trivial

theorem Control.HasProcess.afterTextMode (killed : Bool) : (Control.afterTextMode killed).HasProcess := by
  cases killed
  all_goals trivial

theorem Control.afterTextMode_ne (killed : Bool) : Control.afterTextMode killed ≠ .stopped := by
  cases killed
  all_goals nofun

-- Where `run_elf` has led to.
def RunElf.control : RunElf → Control
  | returned _ => .shell
  | swtch _ _  => .process

namespace System

-- The directory of the process is loaded, and it maps the frame, unless the blitter is disabled.
structure Runs (σ : System) (use : Nat → Use) (free : List Nat) (k : Nat) : Prop where
  task  : ∃ t, σ.machine.HasTask use free k t σ.machine.cr3
  frame : σ.mode13Enabled = true → Frame use σ.machine.cr3 σ.mode13UserFbPtr

-- What holds at each point, unless the kernel has stopped. The pointer has been checked before it is bound.
def At (σ : System) (use : Nat → Use) (free : List Nat) (k : Nat) : Control → Prop
  | .shell | .runElf _ | .swtch => σ.machine.Rests use free k ∧ σ.mode13Enabled = false
  | .setPtr ptr                 => σ.Runs use free k ∧ Frame use σ.machine.cr3 ptr
  | .setEnabled                 => σ.Runs use free k ∧ Frame use σ.machine.cr3 σ.mode13UserFbPtr
  | .clearPtr _ | .switchkvm    => σ.Runs use free k ∧ σ.mode13Enabled = false
  | .freevm                     => (∃ t d, σ.machine.HasTask use free k t d) ∧ σ.machine.cr3 = k ∧
                                     σ.mode13Enabled = false
  | .stopped                    => False
  | _                           => σ.Runs use free k

def Inv (σ : System) (k : Nat) : Prop :=
  ∃ use free, σ.At use free k σ.control

structure Stopped (σ : System) : Prop where
  control  : σ.control = .stopped
  disabled : σ.mode13Enabled = false

variable {σ σ' : System} {s s' s₀ : Machine} {use : Nat → Use} {free : List Nat}
  {k t trapret : Nat} {disk : Disk}

-- The machine has changed, and the process still has its directory.
theorem Runs.machine (h : σ.Runs use free k) (c : Control) (hc : s'.cr3 = σ.machine.cr3)
    (ht : s'.HasTask use free k t σ.machine.cr3) :
    System.Runs { σ with machine := s', control := c } use free k where
  task := ⟨t, by simpa only [hc] using ht⟩
  frame := by simpa only [hc] using h.frame

theorem Runs.control (h : σ.Runs use free k) (c : Control) :
    System.Runs { σ with control := c } use free k :=
  have ⟨_, ht⟩ := h.task
  h.machine c rfl ht

-- The timer interrupts the process.
theorem Runs.tick (h : σ.Runs use free k) (c : Control)
    (hr : (Kernel.mode13FbTick σ.mode13UserFbPtr σ.mode13Enabled).run σ.machine = .ok () s') :
    System.Runs { σ with machine := s', control := c } use free k ∧ s'.cr3 = σ.machine.cr3 ∧
      SameLow σ.machine.mem s'.mem := by
  have ⟨t, ht⟩ := h.task
  have ⟨s₁, hr₁, ht₁, hc, hl⟩ := ht.tick h.frame
  rw [hr] at hr₁
  cases hr₁
  exact ⟨h.machine c hc ht₁, hc, hl⟩

-- The blitter is enabled only while the process runs.
theorem At.runs {c : Control} (h : σ.At use free k c) (he : σ.mode13Enabled = true) :
    σ.Runs use free k ∧ c.Live := by
  cases c
  case process | enter13h | firstTick | restoreTextMode | clearEnabled => exact ⟨h, trivial⟩
  case setPtr | setEnabled               => exact ⟨h.left, trivial⟩
  case clearPtr | switchkvm              => exact absurd (he.symm.trans h.right) (by decide)
  case shell | runElf | swtch            => exact absurd (he.symm.trans h.right) (by decide)
  case freevm                            => exact absurd (he.symm.trans h.right.right) (by decide)
  case stopped                           => exact h.elim

-- The counter itself does not matter.
theorem At.control {c : Control} (h : σ.At use free k c) (c' : Control) :
    System.At { σ with control := c' } use free k c := by
  cases c
  case process | enter13h | firstTick | restoreTextMode | clearEnabled => exact Runs.control h c'
  case setPtr | setEnabled | clearPtr | switchkvm => exact ⟨h.left.control c', h.right⟩
  all_goals exact h

theorem At.tick {c : Control} (h : σ.At use free k c)
    (hr : (Kernel.mode13FbTick σ.mode13UserFbPtr σ.mode13Enabled).run σ.machine = .ok () s') :
    System.At { σ with machine := s' } use free k c ∧ SameLow σ.machine.mem s'.mem := by
  match he : σ.mode13Enabled with
  | false =>
    rw [he] at hr
    cases hr
    exact ⟨by rwa [← he], fun _ _ => rfl⟩
  | true  =>
    have ⟨hrun, hc, hl⟩ := (h.runs he).left.tick σ.control hr
    rw [he] at hrun
    refine ⟨?_, hl⟩
    cases c
    case process | enter13h | firstTick | restoreTextMode | clearEnabled => exact hrun
    case setPtr | setEnabled    => exact ⟨hrun, by simpa only [hc] using h.right⟩
    case clearPtr | switchkvm   => exact absurd (he.symm.trans h.right) (by decide)
    case shell | runElf | swtch => exact absurd (he.symm.trans h.right) (by decide)
    case freevm                 => exact absurd (he.symm.trans h.right.right) (by decide)
    case stopped                => exact h.elim

theorem Runs.after (h : σ.Runs use free k) (he : σ.mode13Enabled = false) (killed : Bool) :
    σ.At use free k (.afterTextMode killed) := by
  cases killed
  case false => exact h
  case true  => exact ⟨h, he⟩

-- A step which neither takes pages nor gives them back. Without a process, it does not change the machine.
structure Calm (σ σ' : System) : Prop where
  exhausted : σ'.machine.exhausted = σ.machine.exhausted
  process   : σ.control.HasProcess ↔ σ'.control.HasProcess
  machine   : ¬σ.control.HasProcess → σ'.machine = σ.machine
  low       : SameLow σ.machine.mem σ'.machine.mem

theorem Calm.of_process (he : σ'.machine.exhausted = σ.machine.exhausted)
    (hl : SameLow σ.machine.mem σ'.machine.mem) (h : σ.control.HasProcess)
    (h' : σ'.control.HasProcess) : Calm σ σ' where
  exhausted := he
  low := hl
  process := ⟨fun _ => h', fun _ => h⟩
  machine hn := absurd h hn

theorem At.step (h : σ.At use free k σ.control) (hs : Step trapret disk σ σ') :
    (σ'.At use free k σ'.control ∧ Calm σ σ') ∨
    (∃ name e s', σ.control = .runElf name ∧ (Kernel.runElf trapret disk name).run σ.machine = .ok e s' ∧
      σ' = { σ with machine := s', control := e.control }) ∨
    (∃ pgdir s' s'', σ.control = .freevm ∧
      (Kernel.load32 (σ.machine.userTask + Task.pgdir)).run σ.machine = .ok pgdir s' ∧
      (Kernel.freevm pgdir).run s' = .ok () s'' ∧ σ' = { σ with machine := s'', control := .swtch }) ∨
    (¬σ.control.HasProcess ∧ σ'.Stopped) := by
  have calm {c c' : Control} {σ' : System} (hc : σ.control = c) (hc' : σ'.control = c') (hp : c.HasProcess)
      (hp' : c'.HasProcess) (he : σ'.machine.exhausted = σ.machine.exhausted)
      (hl : SameLow σ.machine.mem σ'.machine.mem) : Calm σ σ' :=
    .of_process he hl (hc ▸ hp) (hc' ▸ hp')
  have low : SameLow σ.machine.mem σ.machine.mem := fun _ _ => rfl
  cases hs
  case tick s' _ hr        =>
    have ⟨h', hl⟩ := h.tick hr
    refine .inl ⟨h', (Kernel.Quiet.mode13FbTick _ _).of_ok hr, Iff.rfl, fun hn => ?_, hl⟩
    match he : σ.mode13Enabled with
    | false =>
      rw [he] at hr
      cases hr
      rfl
    | true  => exact absurd (h.runs he).right.hasProcess hn
  case command name hc     =>
    rw [hc] at h
    exact .inl ⟨h, rfl, by rw [hc]; rfl, fun _ => rfl, low⟩
  case returned hc hr      => exact .inr <| .inl ⟨_, _, _, hc, hr, rfl⟩
  case started hc hr       => exact .inr <| .inl ⟨_, _, _, hc, hr, rfl⟩
  case stopped hc _        =>
    rw [hc] at h
    exact .inr <| .inr <| .inr ⟨by rw [hc]; exact id, rfl, h.right⟩
  case write mem hc hm     =>
    rw [hc] at h
    have ⟨t, ht⟩ := h.task
    refine .inl ⟨?_, calm hc hc trivial trivial rfl <| ht.processWrites_low hm⟩
    rw [hc]
    exact Runs.machine h .process rfl <| ht.processWrites hm
  case enter13h hc         =>
    rw [hc] at h
    exact .inl ⟨h.control _, calm hc rfl trivial trivial rfl low⟩
  case refused hc hr hn    =>
    rw [hc] at h
    have ⟨t, ht⟩ := h.task
    cases (ht.owns.userReadableAfter_ok ht.cr3 hr).left
    exact .inl ⟨Runs.control h _, calm hc rfl trivial trivial rfl low⟩
  case accepted hc hr hn   =>
    rw [hc] at h
    have ⟨t, ht⟩ := h.task
    have ⟨he, hf⟩ := ht.owns.userReadableAfter_ok ht.cr3 hr
    cases he
    exact .inl ⟨⟨Runs.control h _, hf hn⟩, calm hc rfl trivial trivial rfl low⟩
  case setPtr hc           =>
    rw [hc] at h
    exact .inl ⟨⟨⟨h.left.task, fun _ => h.right⟩, h.right⟩, calm hc rfl trivial trivial rfl low⟩
  case setEnabled hc       =>
    rw [hc] at h
    exact .inl ⟨⟨h.left.task, fun _ => h.right⟩, calm hc rfl trivial trivial rfl low⟩
  case firstTick hc hr     =>
    rw [hc] at h
    have ⟨h', _, hl⟩ := Runs.tick h .process hr
    exact .inl ⟨h', calm hc rfl trivial trivial ((Kernel.Quiet.mode13FbTick _ _).of_ok hr) hl⟩
  case leave13h hc         =>
    rw [hc] at h
    exact .inl ⟨h.control _, calm hc rfl trivial trivial rfl low⟩
  case killproc hc         =>
    rw [hc] at h
    exact .inl ⟨h.control _, calm hc rfl trivial trivial rfl low⟩
  case inactive killed hc he =>
    rw [hc] at h
    exact .inl ⟨(h.after he killed).control _, calm hc rfl trivial (.afterTextMode killed) rfl low⟩
  case active hc he        =>
    rw [hc] at h
    exact .inl ⟨h.control _, calm hc rfl trivial trivial rfl low⟩
  case clearEnabled hc     =>
    rw [hc] at h
    exact .inl ⟨⟨⟨h.task, fun he => Bool.noConfusion he⟩, rfl⟩, calm hc rfl trivial trivial rfl low⟩
  case clearPtr killed hc  =>
    rw [hc] at h
    have hrun : System.Runs { σ with mode13UserFbPtr := 0 } use free k :=
      ⟨h.left.task, fun he => absurd (he.symm.trans h.right) (by decide)⟩
    exact .inl ⟨(hrun.after h.right killed).control _, calm hc rfl trivial (.afterTextMode killed) rfl low⟩
  case switchkvm hc hr     =>
    rw [hc] at h
    have ⟨t, ht⟩ := h.left.task
    cases hr
    have hk : v2p σ.machine.kvm = k := by
      rw [ht.kvm, v2p_kernbase (ht.owns.page (p := k) (by simp [ht.kernel])).upper]
    simp only [hk]
    exact .inl ⟨⟨⟨t, _, ht.with_cr3 ht.kernel⟩, rfl, h.right⟩, calm hc rfl trivial trivial rfl low⟩
  case freevm hc hl hr     => exact .inr <| .inr <| .inl ⟨_, _, _, hc, hl, hr, rfl⟩
  case swtch hc            =>
    rw [hc] at h
    exact .inl ⟨h, rfl, by rw [hc]; rfl, fun _ => rfl, low⟩

-- The invariant holds until the kernel stops.
theorem Inv.step (h : σ.Inv k) (hs : Step trapret disk σ σ') :
    σ'.Inv k ∨ (¬σ.control.HasProcess ∧ σ'.Stopped) := by
  have ⟨use, free, h⟩ := h
  rcases h.step hs with ⟨h', _⟩ | ⟨name, e, s', hc, hr, he⟩ | ⟨pgdir, s₁, s', hc, hl, hr, he⟩ | hstop
  case inl             => exact .inl ⟨use, free, h'⟩
  case inr.inl         =>
    rw [hc] at h
    have ⟨use', free', h', hu⟩ := h.left.runElf hr
    refine .inl ⟨use', free', ?_⟩
    rw [he]
    cases e
    case returned => exact ⟨h', h.right⟩
    case swtch    =>
      have ⟨t, d, ht, hd, _⟩ := hu _ _ rfl
      exact ⟨⟨t, by rwa [hd]⟩, fun he => absurd (he.symm.trans h.right) (by decide)⟩
  case inr.inr.inl     =>
    rw [hc] at h
    have ⟨⟨t, d, ht⟩, hk, hm⟩ := h
    have ⟨free', h', _, _⟩ := ht.freevm hk hl hr
    refine .inl ⟨partly use d (Belongs use d), free', ?_⟩
    rw [he]
    exact ⟨h', hm⟩
  case inr.inr.inr     => exact .inr hstop

theorem Inv.running (h : σ.Inv k) : σ.control ≠ .stopped := by
  have ⟨use, free, h⟩ := h
  intro hc
  rw [hc] at h
  exact h

-- Nothing happens after the kernel has stopped.
theorem Step.running (hs : Step trapret disk σ σ') : σ.control ≠ .stopped := by
  cases hs
  case tick hc _ => exact hc
  all_goals simp_all

theorem Inv.reachable (h : σ.Inv k) (hs : Relation.ReflTransGen (Step trapret disk) σ σ') :
    σ'.Inv k ∨ σ'.Stopped := by
  induction hs
  case refl         => exact .inl h
  case tail _ hs hi =>
    cases hi
    case inl hi => exact (hi.step hs).imp_right (·.right)
    case inr hi => exact absurd hi.control hs.running

-- A step of the process, or of the kernel on its behalf.
def ProcessStep (trapret : Nat) (disk : Disk) (σ σ' : System) : Prop :=
  Step trapret disk σ σ' ∧ σ.control.HasProcess

-- While there is a process, the memory in which the kernel has been started does not change.
theorem At.step_low (h : σ.At use free k σ.control) (hs : ProcessStep trapret disk σ σ') :
    SameLow σ.machine.mem σ'.machine.mem := by
  rcases h.step hs.left with ⟨_, hc⟩ | ⟨name, e, s', hc, _⟩ | ⟨pgdir, s₁, s', hc, hl, hr, he⟩ | ⟨hn, _⟩
  case inl             => exact hc.low
  case inr.inl         =>
    have hp := hs.right
    rw [hc] at hp
    exact hp.elim
  case inr.inr.inr     => exact absurd hs.right hn
  case inr.inr.inl     =>
    rw [hc] at h
    have ⟨⟨t, d, ht⟩, hk, _⟩ := h
    have ⟨_, _, _, hlow⟩ := ht.freevm hk hl hr
    rw [he]
    exact hlow

theorem Inv.run_low (h : σ.Inv k) (hs : Relation.ReflTransGen (ProcessStep trapret disk) σ σ') :
    SameLow σ.machine.mem σ'.machine.mem := by
  have hi : σ'.Inv k ∧ SameLow σ.machine.mem σ'.machine.mem := by
    induction hs
    case refl         => exact ⟨h, fun _ _ => rfl⟩
    case tail _ hs hi =>
      have ⟨hi, hl⟩ := hi
      have ⟨_, _, hat⟩ := hi
      have hi := (hi.step hs.left).resolve_right fun hstop => hstop.left hs.right
      exact ⟨hi, hl.trans <| hat.step_low hs⟩
  exact hi.right

end System

-- The blitter does not access memory which is not mapped, and it is disabled in the shell.
theorem System.mode13_mapped (hf : s.freelist = 0) (ht : s.userTask = 0)
    (hr : Kernel.kmain.run s = .ok () s₀)
    (hs : Relation.ReflTransGen (Step trapret disk) (.boot s₀) σ) :
    (σ.mode13Enabled = true → σ.control.Live ∧
      (Kernel.load32 (σ.machine.userTask + Task.pgdir)).run σ.machine =
        .ok (p2v σ.machine.cr3) σ.machine ∧
      ∀ i < Kernel.videoMode13FramebufferSize, σ.machine.UserAccessible (σ.mode13UserFbPtr + i)) ∧
    (σ.control = .shell → σ.mode13Enabled = false) ∧
    ∃ s', (Kernel.mode13FbTick σ.mode13UserFbPtr σ.mode13Enabled).run σ.machine = .ok () s' := by
  have ⟨s₁, use, free, k, hr₁, hb, _⟩ := Kernel.kmain_booted hf ht
  rw [hr] at hr₁
  cases hr₁
  have hi : (boot s₀).Inv k := ⟨use, free, .of_booted hb, rfl⟩
  rcases hi.reachable hs with ⟨use, free, h⟩ | hstop
  case inr =>
    have he := hstop.disabled
    exact ⟨fun hm => absurd (hm.symm.trans he) (by decide), fun _ => he, σ.machine, by rw [he]; rfl⟩
  refine ⟨fun he => ?_, fun hc => ?_, ?_⟩
  case refine_1 =>
    have ⟨hrun, hlive⟩ := h.runs he
    have ⟨t, ht⟩ := hrun.task
    have hp := ht.owns.page (p := σ.machine.cr3) (by simp [ht.cr3])
    refine ⟨hlive, ?_, (ht.owns.frame_iff ht.cr3).mp <| hrun.frame he⟩
    rw [ht.userTask, ht.load_pgdir, p2v_eq hp.upper]
  case refine_2 => exact (show σ.At use free k .shell from hc ▸ h).right
  case refine_3 =>
    match he : σ.mode13Enabled with
    | false => exact ⟨σ.machine, rfl⟩
    | true  =>
      have hrun := (h.runs he).left
      have ⟨t, ht⟩ := hrun.task
      have ⟨s', hr, _⟩ := ht.tick hrun.frame
      exact ⟨s', he ▸ hr⟩

-- An executable with a segment of 64 KB, in which there is room for a frame.
def frameFile : Bytes :=
  fun i => if i = 28 then 52 else if i = 42 then 32 else if i = 44 then 1 else if i = 52 then 1
    else if i = 62 then 0x40 else if i = 68 then 84 else if i = 74 then 1 else 0

theorem phdr_frameFile : phdr frameFile 0 = ⟨1, 0, 0x400000, 84, 0x10000⟩ := by
  simp [phdr, phdrOffset, Bytes.load32, Bytes.load16, frameFile]

theorem executable_frameFile : Executable (Disk.file (.single frameFile) ⟨512, 1⟩) 512 := by
  apply executable_single rfl rfl
  rw [phdr_frameFile]
  exact ⟨by decide, by decide, by decide, by decide⟩

-- The process of this executable has pages for a frame.
theorem Booted.exists_frame (h : Booted s use free k) : ∃ stack top s' use' free' t d,
    (Kernel.runElf 0 (.single frameFile) fun i => if i = 0 then 107 else 0).run s = .ok (.swtch stack top) s' ∧
    s'.HasTask use' free' k t d ∧ s'.cr3 = d ∧ Frame use' d userBase := by
  have hl := h.length_eq
  have hn := h.newPages
  have hd : Stat.demand ⟨512, 1⟩ = 5 := by decide
  have hst : Disk.stat (.single frameFile) (fun i => if i = 0 then 107 else 0) = some ⟨512, 1⟩ := rfl
  have ⟨stack, top, s', hs⟩ := Kernel.exists_swtch (.of_booted h) hst ⟨by decide, by decide⟩
    executable_frameFile (by omega) 0
  have ⟨use', free', t, d, h', _, _, htop⟩ :=
    Kernel.runElf_swtch (.of_booted h) hst (by omega) executable_frameFile hs
  have htop : 0x400000 + 0x10000 ≤ top := by
    have hp := phdr_frameFile
    exact htop ⟨1, 0, 0x400000, 84, 0x10000⟩ ((segment_single rfl rfl).mpr ⟨hp.symm, rfl⟩) (by decide)
  refine ⟨stack, top, s', use', free', t, d, hs, h'.task, h'.cr3, fun i hi => ?_⟩
  simp only [Kernel.videoMode13FramebufferSize, Nat.reduceMul] at hi
  have hva : userBase + i < kernbase := by
    simp only [userBase, kernbase]
    omega
  refine ⟨hva, (h'.task.owns.maps_iff h'.shows h'.task.user hva).mpr ?_⟩
  by_cases hlt : i < 512
  case pos =>
    have hf : Disk.imageUpTo (.single frameFile) ⟨512, 1⟩ top (userBase + i) = _ := Disk.imageUpTo_file hlt
    rw [hf]
    exact Option.some_ne_none _
  case neg =>
    rw [Disk.imageUpTo_zero]
    · exact Option.some_ne_none _
    · exact Nat.add_le_add_left (Nat.le_of_not_lt hlt) _
    · simp only [userBase]
      omega

-- A process is started, it binds a frame, and the timer interrupts it.
theorem System.mode13_mapped_frame : ∃ s₀ σ, Kernel.kmain.run .zero = .ok () s₀ ∧
    Relation.ReflTransGen (Step 0 (.single frameFile)) (.boot s₀) σ ∧
    σ.mode13Enabled = true ∧ σ.control = .process ∧
    (σ.mode13Enabled = true → σ.control.Live ∧
      (Kernel.load32 (σ.machine.userTask + Task.pgdir)).run σ.machine =
        .ok (p2v σ.machine.cr3) σ.machine ∧
      ∀ i < Kernel.videoMode13FramebufferSize, σ.machine.UserAccessible (σ.mode13UserFbPtr + i)) ∧
    (σ.control = .shell → σ.mode13Enabled = false) ∧
    ∃ s', (Kernel.mode13FbTick σ.mode13UserFbPtr σ.mode13Enabled).run σ.machine = .ok () s' := by
  have ⟨s₀, use₀, free₀, k, hr, hb, _⟩ := Kernel.kmain_booted (s := .zero) rfl rfl
  have ⟨stack, top, s, use, free, t, d, hs, ht, hd, hf⟩ := hb.exists_frame
  subst hd
  have ⟨n, hn, hgreat⟩ := (ht.owns.tablesInMemory ht.cr3).readable_eq userBase
  have hle : ¬n < Kernel.videoMode13FramebufferSize := fun hc =>
    hgreat.right <| (ht.owns.frame_iff ht.cr3).mp hf n hc
  have ⟨s₁, hr₁, h₁, hc₁, _⟩ := ht.tick (show true = true → Frame use s.cr3 userBase from fun _ => hf)
  have ⟨s₂, hr₂, _⟩ := h₁.tick (show true = true → Frame use s₁.cr3 userBase from fun _ => hc₁ ▸ hf)
  have hsteps : Relation.ReflTransGen (Step 0 (.single frameFile)) (.boot s₀)
      { (boot s₀) with
        machine := s₂
        mode13UserFbPtr := userBase
        mode13Enabled := true
        control := .process } :=
    .tail (.tail (.tail (.tail (.tail (.tail (.tail (.single (.command _ rfl)) (.started rfl hs))
      (.enter13h userBase rfl)) (.accepted rfl hn hle)) (.setPtr rfl)) (.setEnabled rfl)) (.firstTick rfl hr₁))
      (.tick nofun hr₂)
  exact ⟨s₀, _, hr, hsteps, rfl, rfl, mode13_mapped rfl rfl hr hsteps⟩
