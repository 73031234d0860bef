import Yabloko.Kernel.Poll
import Yabloko.Kernel.RunElf

namespace Kernel

abbrev videoMode13FramebufferSize : Nat := 320 * 200

-- The bytes are copied by way of the current directory.
def kmemmove (dst src size : Nat) : Kernel Unit := do
  if dst = src then
    return
  if dst > src ∧ dst < (src + size) % 2 ^ 32 then
    forM (List.range size).reverse copy
  else
    forM (List.range size) copy
where
  copy (i : Nat) : Kernel Unit := do
    let b ← loadByte ((src + i) % 2 ^ 32)
    storeByte ((dst + i) % 2 ^ 32) b

def mode13FbTick (mode13UserFbPtr : Nat) (mode13Enabled : Bool) : Kernel Unit := do
  if !mode13Enabled then
    return
  kmemmove (p2v 0xA0000) mode13UserFbPtr videoMode13FramebufferSize

end Kernel

theorem Kernel.Quiet.mode13FbTick (ptr : Nat) (enabled : Bool) : Kernel.Quiet (Kernel.mode13FbTick ptr enabled) := by
  have copy i : Kernel.Quiet (Kernel.kmemmove.copy (p2v 0xA0000) ptr i) :=
    .bind (.of_reads <| .loadByte _) fun _ => .storeByte _ _
  exact .ite (.pure ()) <| .ite (.pure ()) <| .ite (.forM copy) (.forM copy)

-- Where the kernel or the process is, in front of a statement which uses the variables of the blitter
-- or the page directories. In `proc_restore_text_mode`, it is told whether the process is being killed.
inductive Control
  | shell
  | runElf (name : CString)
  | process
  | enter13h (userFbPtr : Nat)
  | setPtr (userFbPtr : Nat)
  | setEnabled
  | firstTick
  | restoreTextMode (killed : Bool)
  | clearEnabled (killed : Bool)
  | clearPtr (killed : Bool)
  | switchkvm
  | freevm
  | swtch
  | stopped

structure System where
  machine         : Machine
  mode13UserFbPtr : Nat
  mode13Enabled   : Bool
  control         : Control

-- What follows `proc_restore_text_mode` in `handle_leave13h` and in `killproc`.
def Control.afterTextMode (killed : Bool) : Control :=
  if killed then switchkvm else process

namespace System

-- The process can change its memory, and the interrupts of the process use its kernel stack.
def ProcessWrites (s : Machine) (mem : Bytes) : Prop :=
  ∀ pa, mem pa ≠ s.mem pa → (∃ va < kernbase, s.translate va = some pa) ∨
    (v2p s.userTask + Task.stack ≤ pa ∧ pa < v2p s.userTask + pgsize)

-- The timer can interrupt the shell, the process and the system calls at any point. While `run_elf` and
-- `freevm` are being executed, the blitter is disabled, such that it does not matter where in these
-- functions that happens.
inductive Step (trapret : Nat) (disk : Disk) : System → System → Prop
  | command {σ} (name : CString) : σ.control = .shell →
      Step trapret disk σ { σ with control := .runElf name }
  | returned {σ s' name message} : σ.control = .runElf name →
      (Kernel.runElf trapret disk name).run σ.machine = .ok (.returned message) s' →
      Step trapret disk σ { σ with machine := s', control := .shell }
  | started {σ s' name stack imageTop} : σ.control = .runElf name →
      (Kernel.runElf trapret disk name).run σ.machine = .ok (.swtch stack imageTop) s' →
      Step trapret disk σ { σ with machine := s', control := .process }
  -- The kernel has panicked, or an exception of its own has ended in `panic`.
  | stopped {σ s' name fault} : σ.control = .runElf name →
      (Kernel.runElf trapret disk name).run σ.machine = .error fault s' →
      Step trapret disk σ { σ with machine := s', control := .stopped }
  | write {σ mem} : σ.control = .process → ProcessWrites σ.machine mem →
      Step trapret disk σ { σ with machine := { σ.machine with mem } }
  | enter13h {σ} (userFbPtr : Nat) : σ.control = .process →
      Step trapret disk σ { σ with control := .enter13h userFbPtr }
  | refused {σ s' userFbPtr n} : σ.control = .enter13h userFbPtr →
      (Kernel.userReadableAfter userFbPtr).run σ.machine = .ok n s' →
      n < Kernel.videoMode13FramebufferSize →
      Step trapret disk σ { σ with machine := s', control := .process }
  | accepted {σ s' userFbPtr n} : σ.control = .enter13h userFbPtr →
      (Kernel.userReadableAfter userFbPtr).run σ.machine = .ok n s' →
      ¬n < Kernel.videoMode13FramebufferSize →
      Step trapret disk σ { σ with machine := s', control := .setPtr userFbPtr }
  | setPtr {σ userFbPtr} : σ.control = .setPtr userFbPtr →
      Step trapret disk σ { σ with mode13UserFbPtr := userFbPtr, control := .setEnabled }
  | setEnabled {σ} : σ.control = .setEnabled →
      Step trapret disk σ { σ with mode13Enabled := true, control := .firstTick }
  | firstTick {σ s'} : σ.control = .firstTick →
      (Kernel.mode13FbTick σ.mode13UserFbPtr σ.mode13Enabled).run σ.machine = .ok () s' →
      Step trapret disk σ { σ with machine := s', control := .process }
  | leave13h {σ} : σ.control = .process →
      Step trapret disk σ { σ with control := .restoreTextMode false }
  -- By `SYS_exit`, or by an exception from user mode.
  | killproc {σ} : σ.control = .process →
      Step trapret disk σ { σ with control := .restoreTextMode true }
  | inactive {σ killed} : σ.control = .restoreTextMode killed → σ.mode13Enabled = false →
      Step trapret disk σ { σ with control := .afterTextMode killed }
  | active {σ killed} : σ.control = .restoreTextMode killed → σ.mode13Enabled = true →
      Step trapret disk σ { σ with control := .clearEnabled killed }
  | clearEnabled {σ killed} : σ.control = .clearEnabled killed →
      Step trapret disk σ { σ with mode13Enabled := false, control := .clearPtr killed }
  | clearPtr {σ killed} : σ.control = .clearPtr killed →
      Step trapret disk σ { σ with mode13UserFbPtr := 0, control := .afterTextMode killed }
  | switchkvm {σ s'} : σ.control = .switchkvm → Kernel.switchkvm.run σ.machine = .ok () s' →
      Step trapret disk σ { σ with machine := s', control := .freevm }
  | freevm {σ s' s'' pgdir} : σ.control = .freevm →
      (Kernel.load32 (σ.machine.userTask + Task.pgdir)).run σ.machine = .ok pgdir s' →
      (Kernel.freevm pgdir).run s' = .ok () s'' →
      Step trapret disk σ { σ with machine := s'', control := .swtch }
  | swtch {σ} : σ.control = .swtch → Step trapret disk σ { σ with control := .shell }
  | tick {σ s'} : σ.control ≠ .stopped →
      (Kernel.mode13FbTick σ.mode13UserFbPtr σ.mode13Enabled).run σ.machine = .ok () s' →
      Step trapret disk σ { σ with machine := s' }

-- The kernel has been booted, and the shell waits for a command.
def boot (machine : Machine) : System where
  machine := machine
  mode13UserFbPtr := 0
  mode13Enabled := false
  control := .shell

end System

-- The process can read as many bytes as a frame has.
def Frame (use : Nat → Use) (d ptr : Nat) : Prop :=
  ∀ i < Kernel.videoMode13FramebufferSize, ptr + i < kernbase ∧ Maps use d ((ptr + i) / pgsize)

variable {s s' : Machine} {use use' : Nat → Use} {free free' : List Nat} {k t d a n ptr : Nat} {mem : Bytes}
  {pages : Nat → Prop} {enabled : Bool}

namespace Machine

theorem Owns.frame_iff (h : s.Owns use free) (hd : use s.cr3 = .dir) :
    Frame use s.cr3 ptr ↔
      ∀ i < Kernel.videoMode13FramebufferSize, s.UserAccessible (ptr + i) :=
  forall₂_congr fun _ _ => (h.userAccessible_iff hd).symm

-- The check of `handle_enter13h`.
theorem Owns.userReadableAfter_ok (h : s.Owns use free) (hd : use s.cr3 = .dir)
    (hr : (Kernel.userReadableAfter ptr).run s = .ok n s') :
    s' = s ∧ (¬n < Kernel.videoMode13FramebufferSize → Frame use s.cr3 ptr) := by
  have ⟨m, hr', hl, _⟩ := (h.tablesInMemory hd).userBytesAfter_eq false ptr
  rw [Kernel.userReadableAfter, hr'] at hr
  cases hr
  refine ⟨rfl, fun hn => (h.frame_iff hd).mpr fun i hi => (hl i ?_).left⟩
  exact Nat.lt_of_lt_of_le hi <| Nat.le_of_not_lt hn

namespace HasTask

-- The contents of the frames, and of the pages which are not managed, do not matter.
theorem changesIn (h : s.HasTask use free k t d) (hm : ChangesIn pages s.mem mem)
    (hp : ∀ p, pages p → ∃ d v, use p = .frame d v) :
    Machine.HasTask { s with mem } use free k t d := by
  have ho := h.owns.touch hm fun p hc => by
    have ⟨_, _, hf⟩ := hp p hc
    simp [hf]
  have hs := hm t h.taskPage fun hc => by
    have ⟨_, _, hf⟩ := hp t hc
    simp [h.held] at hf
  have hl : mem.load32 (t + Task.pgdir) = s.mem.load32 (t + Task.pgdir) := hs.load32_eq (i := 26) (by decide)
  exact { h with owns := ho, pgdir := hl.trans h.pgdir }

-- A frame is copied to the video memory, which lies below the pages of the allocator.
theorem kmemmove (h : s.HasTask use free k t d) (hf : Frame use s.cr3 ptr) : ∃ s',
    (Kernel.kmemmove (kernbase + 0xA0000) ptr Kernel.videoMode13FramebufferSize).run s = .ok () s' ∧
    s'.HasTask use free k t d ∧ s'.cr3 = s.cr3 ∧ SameLow s.mem s'.mem := by
  have hlast := (hf 63999 (by decide)).left
  simp only [Frame, Kernel.videoMode13FramebufferSize, Nat.reduceMul] at hf ⊢
  have task {mem : Bytes} (hm : Bytes.AgreeOutside 0xA0000 64000 s.mem mem) :
      Machine.HasTask { s with mem } use free k t d := by
    refine h.changesIn (fun p hp _ i hi => hm _ ?_) (fun _ => False.elim)
    have hl := hp.lower
    omega
  have ⟨s', hr, he, hm⟩ := EStateM.forM_range (s := s)
    (P := fun _ s' => s' = { s with mem := s'.mem } ∧ Bytes.AgreeOutside 0xA0000 64000 s.mem s'.mem)
    (f := Kernel.kmemmove.copy (kernbase + 0xA0000) ptr) (n := 64000) ⟨rfl, .refl _ _ _⟩
    fun i s₁ hi ⟨he, hm⟩ => by
      have h₁ := task hm
      rw [← he] at h₁
      have ⟨hk, hmap⟩ := hf i hi
      have hc : s₁.cr3 = s.cr3 := by rw [he]
      have ⟨f, _, ht⟩ := h₁.owns.translate_maps hk (hc ▸ hmap)
      have hl : (Kernel.loadByte (ptr + i)).run s₁ = .ok (s₁.mem (f + (ptr + i) % pgsize)) s₁ :=
        loadByte_eq ht
      have hst := s₁.storeByte_kernbase (show 0xA0000 + i < phystop by simp only [phystop]; omega)
        (s₁.mem (f + (ptr + i) % pgsize))
      have hagree : Bytes.AgreeOutside 0xA0000 64000 s₁.mem _ :=
        (s₁.mem.store_agree (0xA0000 + i) (s₁.mem (f + (ptr + i) % pgsize))).mono (by omega) (by omega)
      refine ⟨{ s₁ with mem := s₁.mem.store (0xA0000 + i) (s₁.mem (f + (ptr + i) % pgsize)) }, ?_,
        by rw [he], hm.trans hagree⟩
      rw [Kernel.kmemmove.copy, Nat.mod_eq_of_lt (by simp only [kernbase] at hk; omega), EStateM.bind_ok hl,
        kernbase_add (by simp only [phystop]; omega), hst]
  have h' := task hm
  rw [← he] at h'
  refine ⟨s', ?_, h', by rw [he], .of_agree hm (Nat.le_refl _)⟩
  simp only [kernbase] at hlast
  rw [Kernel.kmemmove, if_neg (by simp only [kernbase]; omega), if_neg (by simp only [kernbase]; omega), ← hr]

-- The tick of the timer only accesses the frame and the video memory.
theorem tick (h : s.HasTask use free k t d) (hf : enabled = true → Frame use s.cr3 ptr) : ∃ s',
    (Kernel.mode13FbTick ptr enabled).run s = .ok () s' ∧ s'.HasTask use free k t d ∧
    s'.cr3 = s.cr3 ∧ SameLow s.mem s'.mem := by
  cases enabled
  case false => exact ⟨s, rfl, h, rfl, fun _ _ => rfl⟩
  case true  => exact h.kmemmove (hf rfl)

end HasTask

end Machine
