import Yabloko.Cpu.Vectors
import Yabloko.Kernel.Balance
import Yabloko.Kernel.Context

-- The machine with the memory which the processor sees above `KERNBASE`.
def Machine.sync (s : Machine) (c : Cpu) : Machine :=
  { s with mem := fun pa => if pa < phystop then c.mem (.ofNat 32 (kernbase + pa)) else s.mem pa }

-- The stack in the page of a task lies above the first megabyte.
theorem IsPage.stack_bounds {t : Nat} (h : IsPage t) :
    kernbase + 1 <<< 20 + Kstack.context ≤ kernbase + t + Task.stack + Kstack.context ∧
      kernbase + t + Task.stack + Kstack.context + Kstack.bottom ≤ 2 ^ 32 := by
  have hl := h.lower
  have hu := h.page_upper
  simp only [phystop, pgsize] at hu
  simp only [kernbase, Task.stack, Kstack.context, Kstack.bottom]
  omega

namespace Cpu

def swtch (c : Cpu) : Cpu :=
  let c := { c with eax := c.mem.load32 (c.esp + 4#32) }
  let c := { c with ecx := c.mem.load32 (c.esp + 8#32) }
  let c := c.push c.ebx
  let c := c.push c.ebp
  let c := c.push c.esi
  let c := c.push c.edi
  let c := { c with mem := c.mem.store32 c.eax c.esp }
  let c := { c with esp := c.ecx }
  let c := { c.drop with edi := c.top }
  let c := { c.drop with esi := c.top }
  let c := { c.drop with ebp := c.top }
  let c := { c.drop with ebx := c.top }
  { c.drop with eip := c.top }

-- The stack on which `swtch` leaves the registers of its caller.
def saved (c : Cpu) : Cpu :=
  c.push c.ebx |>.push c.ebp |>.push c.esi |>.push c.edi

-- The processor sees the pages of the allocator above `KERNBASE`.
def Sees (c : Cpu) (s : Machine) : Prop :=
  ∀ pa, 1 <<< 20 ≤ pa → pa < phystop → c.mem (.ofNat 32 (kernbase + pa)) = s.mem pa

-- The `n` bytes lie where the kernel and its first stack are, below the video memory.
def InKernel (a : Word) (n : Nat) : Prop :=
  kernbase ≤ a.toNat ∧ a.toNat + n ≤ kernbase + 0xA0000

-- The `n` bytes lie on the stack of the process, from whose context the process has been entered.
def OnStack (stack : Nat) (a : Word) (n : Nat) : Prop :=
  stack ≤ a.toNat + Kstack.context ∧ a.toNat + n + Kstack.context ≤ stack + Kstack.bottom

-- The processor when `run_elf` calls `swtch`. Its stack and the variable `vm.kernel_thread` do not overlap.
structure EntersProcess (c : Cpu) (kernelThread : Word) (stack : Nat) (s : Machine) : Prop where
  cpl    : c.cpl = 0
  sees   : c.Sees s
  old    : c.mem.load32 (c.esp + 4#32) = kernelThread
  new    : c.mem.load32 (c.esp + 8#32) = .ofNat 32 stack
  frame  : InKernel (c.esp - 16#32) 28
  thread : InKernel kernelThread 4
  apart  : Memory.Apart kernelThread 4 (c.esp - 16#32) 20

-- The processor `c'` when `killproc` calls `swtch` on the stack of the process. It still sees in the memory
-- what has been saved by `c`.
structure LeavesProcess (c' : Cpu) (kernelThread : Word) (stack : Nat) (c : Cpu) (s : Machine) : Prop where
  new       : c'.mem.load32 (c'.esp + 8#32) = c'.mem.load32 kernelThread
  frame     : OnStack stack (c'.esp - 16#32) 28
  taskStack : OnStack stack (c'.mem.load32 (c'.esp + 4#32)) 4
  saved     : ∀ a : Word, (a - (c.esp - 16#32)).toNat < 20 ∨ (a - kernelThread).toNat < 4 →
                c'.mem a = s.mem (a.toNat - kernbase)

variable {c c' : Cpu} {s : Machine} {old new edi esi ebp ebx eip : Word} {ws : List Word}

theorem swtch_eq (ho : c.mem.load32 (c.esp + 4#32) = old) (hn : c.mem.load32 (c.esp + 8#32) = new) :
    let mem := c.saved.mem.store32 old (c.esp - 16#32)
    c.swtch = { c with
      eax := old
      ecx := new
      edi := mem.load32 new
      esi := mem.load32 (new + 4#32)
      ebp := mem.load32 (new + 8#32)
      ebx := mem.load32 (new + 12#32)
      eip := mem.load32 (new + 16#32)
      esp := new + 20#32
      mem } := by
  simp [swtch, saved, push, top, drop, ho, hn, BitVec.add_assoc, BitVec.sub_sub]

theorem saved_esp (c : Cpu) : c.saved.esp = c.esp - 16#32 := by
  simp [saved, push, BitVec.sub_sub]

theorem saved_agree (c : Cpu) : Memory.AgreeOutside (c.esp - 16#32) 16 c.mem c.saved.mem := by
  have h : Memory.AgreeOutside c.esp 0 c.mem c.mem := fun _ _ => rfl
  have h := (((h.push (by decide) c.ebx).push (by decide) c.ebp).push (by decide) c.esi).push (by decide) c.edi
  rw [← saved_esp]
  exact h

theorem Stack.saved (h : c.Stack ws) (hl : ws.length ≤ 20) :
    c.saved.mem.Holds (c.esp - 16#32) (c.edi :: c.esi :: c.ebp :: c.ebx :: ws) := by
  have h₁ := h.push (by omega) c.ebx
  have h₂ := h₁.push (by simp only [List.length_cons]; omega) c.ebp
  have h₃ := h₂.push (by simp only [List.length_cons]; omega) c.esi
  have h₄ := h₃.push (by simp only [List.length_cons]; omega) c.edi
  rw [← saved_esp]
  exact h₄

-- The registers are taken from the other stack.
theorem swtch_resumes (ho : c.mem.load32 (c.esp + 4#32) = old) (hn : c.mem.load32 (c.esp + 8#32) = new)
    (h : c.mem.Holds new [edi, esi, ebp, ebx, eip]) (h₁ : Memory.Apart new 20 (c.esp - 16#32) 16)
    (h₂ : Memory.Apart new 20 old 4) :
    c.swtch = { c with
      eax := old
      ecx := new
      esp := new + 20#32
      mem := c.saved.mem.store32 old (c.esp - 16#32)
      edi, esi, ebp, ebx, eip } := by
  have h := c.saved_agree.holds h (Nat.le_of_ble_eq_true rfl) h₁
  have h := (c.saved.mem.store32_agree old (c.esp - 16#32)).holds h (Nat.le_of_ble_eq_true rfl) h₂
  have he := swtch_eq ho hn
  simp only [h.left, h.load (i := 1) rfl, h.load (i := 2) rfl, h.load (i := 3) rfl, h.load (i := 4) rfl] at he
  exact he

theorem toNat_kernbase {pa : Nat} (h : pa < phystop) : (BitVec.ofNat 32 (kernbase + pa)).toNat = kernbase + pa := by
  rw [BitVec.toNat_ofNat, Nat.mod_eq_of_lt]
  simp only [kernbase, phystop] at h ⊢
  omega

theorem Sees.load32 (h : c.Sees s) {a : Nat} (hl : 1 <<< 20 ≤ a) (hu : a + 4 ≤ phystop) :
    c.mem.load32 (.ofNat 32 (kernbase + a)) = .ofNat 32 (s.mem.load32 a) := by
  have byte (i : Nat) (hi : i < 4) : c.mem (.ofNat 32 (kernbase + a) + .ofNat 32 i) = s.mem (a + i) := by
    rw [← BitVec.ofNat_add, Nat.add_assoc]
    exact h _ (by omega) (by omega)
  have h₀ := byte 0 (by decide)
  rw [BitVec.add_zero, Nat.add_zero] at h₀
  rw [Memory.load32, h₀, byte 1 (by decide), byte 2 (by decide), byte 3 (by decide)]
  simp only [Bytes.load32, Bytes.load16, Nat.add_assoc, Nat.reduceAdd]
  congr 1
  omega

theorem Sees.holds (h : c.Sees s) {a : Nat} {ws : List Nat} (hw : s.mem.Words a ws) (hl : 1 <<< 20 ≤ a)
    (hu : a + 4 * ws.length ≤ phystop) : c.mem.Holds (.ofNat 32 (kernbase + a)) (ws.map (.ofNat 32)) := by
  induction ws generalizing a
  case nil          => trivial
  case cons w ws hi =>
    rw [List.length_cons] at hu
    refine ⟨?_, ?_⟩
    · rw [h.load32 hl (by omega)]
      exact congrArg _ <| hw 0 w rfl
    · rw [← BitVec.ofNat_add, Nat.add_assoc]
      refine hi (fun i v hv => ?_) (by omega) (by omega)
      have he : a + 4 + 4 * i = a + 4 * (i + 1) := by omega
      rw [he]
      exact hw (i + 1) v hv

-- The registers with which a process is entered.
def userEntry (entry : Word) (mem : Memory) : Cpu where
  edi := 0
  esi := 0
  ebp := 0
  esp := .ofNat 32 userStackBase
  ebx := 0
  edx := 0
  ecx := 0
  eax := 0
  gs  := .ofIndex segUdata dplUser
  fs  := .ofIndex segUdata dplUser
  es  := .ofIndex segUdata dplUser
  ds  := .ofIndex segUdata dplUser
  cs  := .ofIndex segUcode dplUser
  ss  := .ofIndex segUdata dplUser
  eip := entry
  eflags := .ofNat 32 flIf
  mem := mem

-- The trapframe which `run_elf` sets up.
def userFrame (entry : Word) : Registers where
  edi := 0
  esi := 0
  ebp := 0
  esp := 0
  ebx := 0
  edx := 0
  ecx := 0
  eax := 0
  gs  := 0x23
  fs  := 0x23
  es  := 0x23
  ds  := 0x23
  intNo   := 0
  errCode := 0
  eip := entry
  cs  := 0x1B
  eflags  := .ofNat 32 flIf
  useresp := .ofNat 32 userStackBase
  ss  := 0x23

variable {kernelThread : Word} {t trapret entry : Nat}

theorem userFrame_cpl (entry : Word) : (userFrame entry).cpl = dplUser :=
  show Selector.rpl (.ofWord 0x1B) = dplUser by decide

theorem userFrame_returnable (entry : Word) : (userFrame entry).Returnable := by
  have code : Selector.desc (.ofWord 0x1B) = some ⟨true, dplUser⟩ := by decide
  have data : Selector.usable dplUser (.ofWord 0x23) := by decide
  have stack : Selector.desc (.ofWord 0x23) = some ⟨false, dplUser⟩ ∧
      Selector.rpl (.ofWord 0x23) = dplUser := by decide
  constructor
  all_goals rw [userFrame_cpl]
  case cs => exact code
  case ss => exact fun _ => stack
  all_goals exact data

-- The return with the trapframe enters the process.
theorem trapret_userFrame {entry : Word} (hc : c.cpl = 0) (h : c.mem.Holds c.esp (userFrame entry).words) :
    c.trapret = some (userEntry entry c.mem) := by
  have hr := h.registers
  have data : Selector.ofWord 0x23 = .ofIndex segUdata dplUser := by decide
  have code : Selector.ofWord 0x1B = .ofIndex segUcode dplUser := by decide
  have user : (userFrame entry).cpl ≠ 0 := by
    rw [userFrame_cpl]
    decide
  rw [trapret_eq hc (hr ▸ userFrame_returnable entry), hr, resumed, if_neg user, if_neg user]
  simp only [userFrame, data, code]
  rfl

theorem InKernel.mono {a : Word} {n k : Nat} (h : InKernel a n) (hk : k ≤ n) : InKernel a k :=
  ⟨h.left, Nat.le_trans (Nat.add_le_add_left hk _) h.right⟩

theorem InKernel.byte {a b : Word} {n : Nat} (h : InKernel a n) (hb : (b - a).toNat < n) : InKernel b 1 := by
  have ⟨h₁, h₂⟩ := h
  simp only [kernbase] at h₁ h₂
  constructor
  all_goals simp only [kernbase]; bv_omega

theorem InKernel.apart {a b : Word} {n k : Nat} (h : InKernel a n) (hl : kernbase + 1 <<< 20 ≤ b.toNat)
    (hu : b.toNat + k ≤ 2 ^ 32) : Memory.Apart b k a n := by
  have ⟨h₁, h₂⟩ := h
  simp only [kernbase] at h₁ h₂ hl
  constructor
  all_goals rw [BitVec.toNat_sub]; omega

theorem EntersProcess.enters (h : c.EntersProcess kernelThread (kernbase + t + Task.stack + Kstack.context) s)
    (ht : IsPage t) (hw : s.mem.Words (t + Task.stack + Kstack.context) (contextWords trapret entry)) :
    c.swtch.eip = .ofNat 32 trapret ∧
    c.swtch.trapret = some (userEntry (.ofNat 32 entry) c.swtch.mem) := by
  have hlow := ht.lower
  have hup := ht.page_upper
  simp only [pgsize, phystop] at hup
  have hwords : (contextWords trapret entry).length = 24 := rfl
  have hctx := h.sees.holds hw (by omega) (by
    simp only [hwords, phystop, Task.stack, Kstack.context]
    omega)
  have he : kernbase + t + Task.stack + Kstack.context = kernbase + (t + Task.stack + Kstack.context) := by omega
  have hnew := h.new
  rw [he] at hnew
  generalize hn : BitVec.ofNat 32 (kernbase + (t + Task.stack + Kstack.context)) = new at hctx hnew
  have hl : kernbase + 1 <<< 20 ≤ new.toNat ∧ new.toNat + 96 ≤ 2 ^ 32 := by
    rw [← hn, BitVec.toNat_ofNat]
    simp only [kernbase, Task.stack, Kstack.context]
    omega
  have frame {k : Nat} (hk : k ≤ 96) : Memory.Apart new k (c.esp - 16#32) 16 :=
    (h.frame.mono <| by decide).apart hl.left (by omega)
  have thread {k : Nat} (hk : k ≤ 96) : Memory.Apart new k kernelThread 4 :=
    h.thread.apart hl.left (by omega)
  have hmem := c.saved_agree.holds hctx (Nat.le_of_ble_eq_true rfl) (frame <| Nat.le_refl 96)
  have hmem := (c.saved.mem.store32_agree kernelThread (c.esp - 16#32)).holds hmem (Nat.le_of_ble_eq_true rfl)
    (thread <| Nat.le_refl 96)
  have hw : (contextWords trapret entry).map (BitVec.ofNat 32) =
      [0, 0, 0, 0, .ofNat 32 trapret] ++ (userFrame (.ofNat 32 entry)).words := rfl
  rw [hw, Memory.Holds.append_iff] at hctx hmem
  rw [swtch_resumes h.old hnew hctx.left (frame <| by decide) (thread <| by decide)]
  refine ⟨rfl, trapret_userFrame ?_ ?_⟩
  · exact h.cpl
  · exact hmem.right

-- What is left in the memory by `swtch`.
theorem EntersProcess.saved {stack : Nat} (h : c.EntersProcess kernelThread stack s) :
    c.swtch.mem.Holds (c.esp - 16#32) [c.edi, c.esi, c.ebp, c.ebx, c.top] ∧
    c.swtch.mem.load32 kernelThread = c.esp - 16#32 ∧ c.swtch.Sees s := by
  have hs : c.Stack [c.top] := ⟨rfl, trivial⟩
  have hmem := congrArg mem <| swtch_eq h.old h.new
  simp only at hmem
  have hsaved := (c.saved.mem.store32_agree kernelThread (c.esp - 16#32)).holds (hs.saved (by simp))
    (Nat.le_of_ble_eq_true rfl) h.apart.symm
  refine ⟨hmem ▸ hsaved, hmem ▸ Memory.load32_store32 _ _ _, fun pa hl hu => ?_⟩
  rw [← h.sees pa hl hu, hmem]
  have hpa := toNat_kernbase hu
  have ⟨_, hthread⟩ := h.thread.apart (b := .ofNat 32 (kernbase + pa)) (k := 0) (by omega) (by omega)
  have ⟨_, hframe⟩ := h.frame.apart (b := .ofNat 32 (kernbase + pa)) (k := 0) (by omega) (by omega)
  rw [c.saved.mem.store32_agree _ _ _ hthread, c.saved_agree _ (Nat.le_trans (by decide) hframe)]

theorem sync_lt {pa : Nat} (h : pa < phystop) : (s.sync c).mem pa = c.mem (.ofNat 32 (kernbase + pa)) :=
  if_pos h

theorem Sees.inv {σ : System} {use : Nat → Use} {free : List Nat} {k t : Nat} (h : c.Sees s)
    (ht : s.HasTask use free k t s.cr3) (hm : σ.mode13Enabled = false) :
    System.Inv { σ with machine := s.sync c, control := .process } k := by
  have hs : ChangesIn (fun _ => False) s.mem (s.sync c).mem := fun p hp _ i hi => by
    have hl := hp.lower
    have hu := hp.page_upper
    rw [sync_lt (by omega), h _ (by omega) (by omega)]
  exact ⟨use, free, ⟨t, ht.changesIn hs fun _ => False.elim⟩, fun he => absurd (he.symm.trans hm) (by decide)⟩

-- A byte of the kernel, in the memory of the machine.
theorem sync_mem {a : Word} (h : InKernel a 1) : (s.sync c).mem (a.toNat - kernbase) = c.mem a := by
  have ⟨hl, hu⟩ := h
  simp only [kernbase] at hl hu
  rw [sync_lt (by simp only [kernbase, phystop]; omega), Nat.add_sub_cancel' h.left, BitVec.ofNat_toNat,
    BitVec.setWidth_eq]

theorem LeavesProcess.resumes {stack : Nat} {s' s'' : Machine} (hc : c.EntersProcess kernelThread stack s)
    (hs : SameLow (s'.sync c.swtch).mem s''.mem) (h : c'.LeavesProcess kernelThread stack c s'')
    (hl : kernbase + 1 <<< 20 + Kstack.context ≤ stack) (hu : stack + Kstack.bottom ≤ 2 ^ 32) :
    c'.swtch.ebx = c.ebx ∧ c'.swtch.ebp = c.ebp ∧ c'.swtch.esi = c.esi ∧ c'.swtch.edi = c.edi ∧
    c'.swtch.esp = c.esp + 4#32 ∧ c'.swtch.eip = c.top := by
  have ⟨hsaved, hthread, _⟩ := hc.saved
  have byte {a : Word} (ha : (a - (c.esp - 16#32)).toNat < 20 ∨ (a - kernelThread).toNat < 4) :
      c'.mem a = c.swtch.mem a := by
    have hk : InKernel a 1 := by
      cases ha
      case inl ha => exact hc.frame.byte (by omega)
      case inr ha => exact hc.thread.byte ha
    have hlt := hk.right
    rw [h.saved a ha, hs _ (by simp only [kernbase] at hlt ⊢; omega), sync_mem hk]
  have hstack : c'.mem.Holds (c.esp - 16#32) _ :=
    hsaved.congr (Nat.le_of_ble_eq_true rfl) fun i hi => byte <| .inl <| by
      simp only [List.length_cons, List.length_nil] at hi
      bv_omega
  have hnew : c'.mem.load32 (c'.esp + 8#32) = c.esp - 16#32 := by
    rw [h.new, ← hthread]
    exact Memory.load32_congr fun i hi => byte <| .inr <| by bv_omega
  have onStack {a : Word} {n : Nat} (ha : OnStack stack a n) : Memory.Apart (c.esp - 16#32) 20 a n := by
    have ⟨h₁, h₂⟩ := ha
    exact ((hc.frame.mono <| by decide).apart (by omega) (by omega)).symm
  have hframe : Memory.Apart (c.esp - 16#32) 20 (c'.esp - 16#32) 16 := ⟨(onStack h.frame).left,
    Nat.le_trans (by decide) (onStack h.frame).right⟩
  rw [swtch_resumes rfl hnew hstack hframe (onStack h.taskStack)]
  refine ⟨rfl, rfl, rfl, rfl, ?_, rfl⟩
  bv_omega

-- A processor which executes the kernel, and whose general registers are zero.
def kernel (esp : Word) (mem : Memory) : Cpu where
  edi := 0
  esi := 0
  ebp := 0
  esp := esp
  ebx := 0
  edx := 0
  ecx := 0
  eax := 0
  gs  := 0
  fs  := 0
  es  := .ofIndex segKdata 0
  ds  := .ofIndex segKdata 0
  cs  := .ofIndex segKcode 0
  ss  := .ofIndex segKdata 0
  eip := 0
  eflags := 0
  mem := mem

theorem kernel_cpl (esp : Word) (mem : Memory) : (kernel esp mem).cpl = 0 :=
  show Selector.rpl (.ofIndex segKcode 0) = 0 by decide

theorem kernel_esp (esp : Word) (mem : Memory) : (kernel esp mem).esp = esp :=
  rfl

theorem kernel_mem (esp : Word) (mem : Memory) : (kernel esp mem).mem = mem :=
  rfl

theorem exists_entersProcess (s : Machine) (stack : Nat) : ∃ c : Cpu, c.EntersProcess 0x80010000 stack s := by
  let mem : Memory := fun a => s.mem (a.toNat - kernbase)
  refine ⟨kernel 0x8008FFF0 (mem.store32 0x8008FFF4 0x80010000 |>.store32 0x8008FFF8 (.ofNat 32 stack)), ?_⟩
  constructor
  case cpl    => exact kernel_cpl _ _
  case sees   =>
    intro pa hl hu
    have hpa := toNat_kernbase hu
    rw [kernel_mem]
    simp only [kernbase, phystop] at hu hpa ⊢
    rw [Memory.store32_of_le (by bv_omega), Memory.store32_of_le (by bv_omega)]
    simp only [mem, kernbase, hpa, Nat.add_sub_cancel_left]
  case old    =>
    rw [kernel_mem, kernel_esp, Memory.load32_store32_of_le (by decide) (by decide)]
    exact Memory.load32_store32 _ _ _
  case new    => exact Memory.load32_store32 _ _ _
  case frame  => exact ⟨by rw [kernel_esp]; decide, by rw [kernel_esp]; decide⟩
  case thread => exact ⟨by decide, by decide⟩
  case apart  => exact ⟨by rw [kernel_esp]; decide, by rw [kernel_esp]; decide⟩

theorem exists_leavesProcess {stack : Nat} {s' : Machine} (h : c.EntersProcess kernelThread stack s')
    (hl : kernbase + 1 <<< 20 + Kstack.context ≤ stack) (hu : stack + Kstack.bottom ≤ 2 ^ 32) (s : Machine) :
    ∃ c' : Cpu, c'.LeavesProcess kernelThread stack c s := by
  let mem : Memory := fun a => s.mem (a.toNat - kernbase)
  have ⟨esp, hesp⟩ : ∃ esp : Word, esp.toNat = stack := ⟨.ofNat 32 stack, by
    rw [BitVec.toNat_ofNat, Nat.mod_eq_of_lt]
    simp only [Kstack.bottom] at hu
    omega⟩
  simp only [kernbase, Kstack.context, Kstack.bottom] at hl hu
  have stored {a : Word} (ha : InKernel a 1) (v w : Word) :
      (mem.store32 (esp + 4#32) v |>.store32 (esp + 8#32) w) a = s.mem (a.toNat - kernbase) := by
    have ⟨h₁, h₂⟩ := ha
    simp only [kernbase] at h₁ h₂
    rw [Memory.store32_of_le (by bv_omega), Memory.store32_of_le (by bv_omega)]
  refine ⟨kernel esp <| mem.store32 (esp + 4#32) (esp + 16#32)
    |>.store32 (esp + 8#32) (mem.load32 kernelThread), ?_⟩
  constructor
  case new       =>
    rw [kernel_mem, kernel_esp, Memory.load32_store32]
    refine (Memory.load32_congr fun i hi => ?_).symm
    exact stored (h.thread.byte (by bv_omega)) _ _
  case frame     =>
    rw [kernel_esp]
    constructor
    all_goals simp only [Kstack.context, Kstack.bottom]; bv_omega
  case taskStack =>
    rw [kernel_mem, kernel_esp, Memory.load32_store32_of_le (by bv_omega) (by bv_omega), Memory.load32_store32]
    constructor
    all_goals simp only [Kstack.context, Kstack.bottom]; bv_omega
  case saved     =>
    intro a ha
    refine stored ?_ _ _
    cases ha
    case inl ha => exact h.frame.byte (by omega)
    case inr ha => exact h.thread.byte ha

-- The frames of the interrupts, the stack from which `run_elf` enters a process, and the way back.
theorem frames_agree :
    (∀ zeroExtends trapGate tss address trap ret vector error (c : Cpu), ∃ c',
      c.enterTrap zeroExtends trapGate tss address trap ret vector error = some c' ∧ c'.eip = trap ∧
      c'.mem.load32 c'.esp = ret ∧
      c.Saves zeroExtends vector error (c'.mem.registers <| c'.mem.load32 <| c'.esp + 4#32) ∧
      (c.Valid → (c'.mem.registers <| c'.mem.load32 <| c'.esp + 4#32).Returnable)) ∧
    (∀ c : Cpu, c.cpl = 0 → (c.mem.registers (c.esp + 4#32)).Returnable →
      c.afterTrap = some (resumed (c.mem.registers (c.esp + 4#32)) { c with esp := c.esp + 4#32 })) ∧
    ∀ {s₀ s₁ s : Machine} {σ : System} {trapret stack imageTop : Nat} {disk : Disk} {name : CString},
      s₀.freelist = 0 → s₀.userTask = 0 → Kernel.kmain.run s₀ = .ok () s₁ →
      Relation.ReflTransGen (System.Step trapret disk) (.boot s₁) σ → σ.control = .runElf name →
      trapret < 2 ^ 32 → (Kernel.runElf trapret disk name).run σ.machine = .ok (.swtch stack imageTop) s →
      ∃ entry, (Kernel.load32 (userBase + 24)).run s = .ok entry s ∧
        ∀ (kernelThread : Word) (c : Cpu), c.EntersProcess kernelThread stack s →
          c.swtch.eip = .ofNat 32 trapret ∧
          c.swtch.trapret = some (userEntry (.ofNat 32 entry) c.swtch.mem) ∧
          ∀ (σ' : System) (c' : Cpu), Relation.ReflTransGen (System.ProcessStep trapret disk)
              { σ with machine := s.sync c.swtch, control := .process } σ' → σ'.control = .swtch →
            c'.LeavesProcess kernelThread stack c σ'.machine →
            c'.swtch.ebx = c.ebx ∧ c'.swtch.ebp = c.ebp ∧ c'.swtch.esi = c.esi ∧ c'.swtch.edi = c.edi ∧
            c'.swtch.esp = c.esp + 4#32 ∧ c'.swtch.eip = c.top := by
  refine ⟨fun zeroExtends trapGate tss address trap ret vector error c => ?_, fun c => afterTrap_eq, ?_⟩
  case refine_1 =>
    have ⟨c', hc', heip, hret, htf, hsaves, _⟩ :=
      c.enterTrap_saves zeroExtends trapGate tss address trap ret vector error
    rw [← htf] at hsaves
    exact ⟨c', hc', heip, hret, hsaves, hsaves.returnable⟩
  case refine_2 =>
    intro s₀ s₁ s σ trapret stack imageTop disk name hf hu hr hs hctl htr hrun
    have ⟨s₂, use, free, k, hr₂, hb, _⟩ := Kernel.kmain_booted hf hu
    cases hr.symm.trans hr₂
    have hi : (System.boot s₁).Inv k := ⟨use, free, .of_booted hb, rfl⟩
    have ⟨use, free, hat⟩ := (hi.reachable hs).resolve_right fun hstop =>
      absurd (hstop.control.symm.trans hctl) nofun
    rw [hctl] at hat
    have ⟨hrest, hm⟩ := hat
    have ⟨use', free', _, hswtch⟩ := hrest.runElf hrun
    have ⟨t, d, ht, hd, hentered⟩ := hswtch _ _ rfl
    have ⟨entry, hentry, hw⟩ := ht.entered hd htr hentered
    have hstack := hentered.stack
    refine ⟨entry, hentry, fun kernelThread c hc => ?_⟩
    rw [hstack] at hc
    have ⟨heip, htrapret⟩ := hc.enters ht.taskPage hw
    refine ⟨heip, htrapret, fun σ' c' hrun' hctl' hc' => ?_⟩
    have ⟨_, _, hsees⟩ := hc.saved
    have hlow := (hsees.inv (hd ▸ ht) hm).run_low hrun'
    have ⟨hl, hu⟩ := ht.taskPage.stack_bounds
    rw [hstack] at hc'
    exact hc'.resumes hc hlow hl hu

-- A frame of the kernel is returned from, and a process is entered and killed.
theorem frames_agree_killed :
    (∃ c : Cpu, c.cpl = 0 ∧ (c.mem.registers (c.esp + 4#32)).Returnable ∧
      c.afterTrap = some (resumed (c.mem.registers (c.esp + 4#32)) { c with esp := c.esp + 4#32 })) ∧
    ∃ (s₁ s : Machine) (σ σ' : System) (name : CString) (stack imageTop entry : Nat) (c c' : Cpu),
      Kernel.kmain.run .zero = .ok () s₁ ∧
      Relation.ReflTransGen (System.Step 0 (.single (bssFile 0))) (.boot s₁) σ ∧ σ.control = .runElf name ∧
      (Kernel.runElf 0 (.single (bssFile 0)) name).run σ.machine = .ok (.swtch stack imageTop) s ∧
      (Kernel.load32 (userBase + 24)).run s = .ok entry s ∧ c.EntersProcess 0x80010000 stack s ∧
      c.swtch.trapret = some (userEntry (.ofNat 32 entry) c.swtch.mem) ∧
      Relation.ReflTransGen (System.ProcessStep 0 (.single (bssFile 0)))
        { σ with machine := s.sync c.swtch, control := .process } σ' ∧ σ'.control = .swtch ∧
      c'.LeavesProcess 0x80010000 stack c σ'.machine ∧ c'.swtch.esp = c.esp + 4#32 ∧ c'.swtch.eip = c.top := by
  have ⟨_, hreturn, hswtch⟩ := frames_agree
  constructor
  case left  =>
    let c := kernel 0 (Memory.store32 (fun _ => 0) 64 8)
    have hc : c.cpl = 0 := kernel_cpl _ _
    have hr : (c.mem.registers (c.esp + 4#32)).Returnable := by
      constructor
      all_goals decide
    exact ⟨c, hc, hr, hreturn c hc hr⟩
  case right =>
    have ⟨s₁, use, free, k, hr₁, hb, _⟩ := Kernel.kmain_booted (s := .zero) rfl rfl
    have hrest := Machine.Rests.of_booted hb
    have hl := hb.length_eq
    have ⟨stack, top, s, hr⟩ := Kernel.exists_swtch hrest
      (show Disk.stat (.single (bssFile 0)) (fun i => if i = 0 then 107 else 0) = some ⟨512, 1⟩ from rfl)
      ⟨by decide, by decide⟩ (executable_bssFile 0) (by omega) 0
    have hs : Relation.ReflTransGen (System.Step 0 (.single (bssFile 0))) (.boot s₁)
        ⟨s₁, 0, false, .runElf fun i => if i = 0 then 107 else 0⟩ := .single (.command _ rfl)
    have ⟨entry, hentry, hprocess⟩ := hswtch rfl rfl hr₁ hs rfl (by decide) hr
    have ⟨c, hc⟩ := exists_entersProcess s stack
    have ⟨_, htrapret, hkilled⟩ := hprocess _ c hc
    have ⟨use', free', _, hin⟩ := hrest.runElf hr
    have ⟨t, d, ht, hd, hentered⟩ := hin _ _ rfl
    have ⟨_, _, hsees⟩ := hc.saved
    have ⟨use₁, free₁, hrun⟩ := hsees.inv (σ := ⟨s₁, 0, false, .shell⟩) (hd ▸ ht) rfl
    have ⟨s', hs'⟩ := hrun.exists_swtch rfl rfl 0 (.single (bssFile 0))
    have ⟨hlower, hupper⟩ := ht.taskPage.stack_bounds
    rw [← hentered.stack] at hlower hupper
    have ⟨c', hc'⟩ := exists_leavesProcess hc hlower hupper s'
    have ⟨_, _, _, _, hesp, heip⟩ := hkilled _ c' hs' rfl hc'
    exact ⟨s₁, s, _, _, _, stack, top, entry, c, c', hr₁, hs, rfl, hr, hentry, hc, htrapret, hs', rfl, hc',
      hesp, heip⟩

end Cpu
