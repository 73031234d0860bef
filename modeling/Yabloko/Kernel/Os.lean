import Yabloko.Kernel.System
import Yabloko.Kernel.Trap

-- The process can access the `n` bytes from `ptr` on.
def View.Has (x : View) (ptr n : Nat) : Prop :=
  ∀ i < n, ptr + i < kernbase ∧ x (ptr + i) ≠ none

-- A string which the process can access up to its end.
def View.IsString (x : View) (ptr : Nat) : Prop :=
  ∃ i, x (ptr + i) = some 0 ∧ x.Has ptr (i + 1)

-- The characters of a string, up to its end.
def View.Spells (x : View) : Nat → List UInt8 → Prop
  | ptr, []     => x ptr = some 0
  | ptr, c :: l => x ptr = some c ∧ c ≠ 0 ∧ View.Spells x (ptr + 1) l

variable {s s' : Machine} {use : Nat → Use} {free : List Nat} {k t d ptr n v size rounds : Nat} {x : View}
  {enabled : Bool} {c : Control} {msg : List UInt8}

-- The accessible bytes are the ones which have been counted.
theorem View.has_iff {P : Nat → Prop} (hP : ∀ va, P va ↔ va < kernbase ∧ x va ≠ none) (ha : ∀ i < n, P (ptr + i))
    (hn : ¬P (ptr + n)) : x.Has ptr size ↔ size ≤ n := by
  constructor
  case mp  =>
    intro hx
    by_contra hlt
    exact hn <| (hP _).mpr <| hx n <| Nat.lt_of_not_le hlt
  case mpr => exact fun hs i hi => (hP _).mp <| ha i <| Nat.lt_of_lt_of_le hi hs

-- What is read of a string which the process can access.
theorem Kernel.loadString_spells (hx : ∀ va < kernbase, s.view va = x va)
    (ha : ∀ j ≤ n, s.UserAccessible (ptr + j)) (hz : s.view (ptr + n) = some 0)
    (hr : (Kernel.loadString Kernel.loadByte rounds ptr).run s = .ok msg s') : x.Spells ptr msg := by
  induction rounds generalizing n ptr msg
  case zero            => cases hr
  case succ rounds hi =>
    have ha₀ : s.UserAccessible ptr := ha 0 (Nat.zero_le n)
    obtain ⟨c, hc, hl⟩ := ha₀.loadByte
    rw [Kernel.loadString, EStateM.bind_ok hl] at hr
    have hc' : x ptr = some c := (hx ptr ha₀.left).symm.trans hc
    split at hr
    case isTrue h₀  =>
      cases hr
      exact hc'.trans <| congrArg some h₀
    case isFalse h₀ =>
      cases n
      case zero   => exact absurd (Option.some.inj <| hc.symm.trans hz) h₀
      case succ n =>
        obtain ⟨l, _, hr', hr⟩ := EStateM.bind_eq_ok hr
        cases hr
        have hlt := (ha 1 (by omega)).left
        rw [Nat.mod_eq_of_lt (by simp only [kernbase] at hlt; omega)] at hr'
        have hadd j : ptr + 1 + j = ptr + (j + 1) := by omega
        refine ⟨hc', h₀, hi (n := n) (fun j hj => ?_) ?_ hr'⟩
        case refine_1 => exact hadd j ▸ ha (j + 1) (Nat.succ_le_succ hj)
        case refine_2 => exact hadd n ▸ hz


-- The blitter writes to the video memory and to nothing else.
theorem Kernel.mode13FbTick_agree (hr : (Kernel.mode13FbTick ptr enabled).run s = .ok () s') :
    s' = { s with mem := s'.mem } ∧ Bytes.AgreeOutside 0xA0000 64000 s.mem s'.mem := by
  have copy (l : List Nat) (hl : ∀ i ∈ l, i < 64000) {s s' : Machine}
      (hr : (forM l (Kernel.kmemmove.copy (p2v 0xA0000) ptr)).run s = .ok () s') :
      s' = { s with mem := s'.mem } ∧ Bytes.AgreeOutside 0xA0000 64000 s.mem s'.mem := by
    induction l generalizing s
    case nil         => cases hr; exact ⟨rfl, .refl _ _ _⟩
    case cons i l hi =>
      have hlt := hl i (.head _)
      obtain ⟨_, s₂, hr₂, hr⟩ := EStateM.bind_eq_ok hr
      obtain ⟨b, s₁, hr₁, hr₂⟩ := EStateM.bind_eq_ok hr₂
      rw [Kernel.Keeps.of_reads (.loadByte _) _ _ _ hr₁] at hr₂
      rw [show (p2v 0xA0000 + i) % 2 ^ 32 = kernbase + (0xA0000 + i) by simp only [p2v, kernbase]; omega,
        s.storeByte_kernbase (by simp only [phystop]; omega)] at hr₂
      cases hr₂
      obtain ⟨he, hm⟩ := hi (fun i hi => hl i <| .tail _ hi) hr
      exact ⟨he, ((s.mem.store_agree _ b).mono (by omega) (by omega)).trans hm⟩
  have same : s = { s with mem := s.mem } ∧ Bytes.AgreeOutside 0xA0000 64000 s.mem s.mem := ⟨rfl, .refl _ _ _⟩
  have hl (i : Nat) (hi : i ∈ List.range (320 * 200)) : i < 64000 := List.mem_range.mp hi
  rw [Kernel.mode13FbTick] at hr
  split at hr
  case isTrue  => cases hr; exact same
  case isFalse =>
    rw [Kernel.kmemmove] at hr
    split at hr
    case isTrue  => cases hr; exact same
    case isFalse =>
      split at hr
      case isTrue  => exact copy _ (fun i hi => hl i <| List.mem_reverse.mp hi) hr
      case isFalse => exact copy _ hl hr

namespace System

variable {σ : System}

-- In each state, the pages of the kernel and of the processes are known.
theorem At.owns (h : σ.At use free k c) : σ.machine.Owns use free ∧ use σ.machine.cr3 = .dir := by
  have runs (h : σ.Runs use free k) : σ.machine.Owns use free ∧ use σ.machine.cr3 = .dir := by
    obtain ⟨t, ht⟩ := h.task
    exact ⟨ht.owns, ht.cr3⟩
  cases c
  case shell | runElf | swtch => exact ⟨h.left.owns, h.left.cr3⟩
  case freevm                 =>
    obtain ⟨⟨t, d, ht⟩, _⟩ := h
    exact ⟨ht.owns, ht.cr3⟩
  case setPtr | setEnabled | clearPtr | switchkvm => exact runs h.left
  case stopped                => exact h.elim
  all_goals exact runs h

-- The timer can interrupt the kernel anywhere, and the memory of the process stays as it is.
theorem At.exists_tick (h : σ.At use free k c) (hs : σ.machine.Shows σ.machine.cr3 x) : ∃ s',
    (Kernel.mode13FbTick σ.mode13UserFbPtr σ.mode13Enabled).run σ.machine = .ok () s' ∧
      System.At { σ with machine := s' } use free k c ∧ s'.Shows s'.cr3 x := by
  obtain ⟨s', hr⟩ : ∃ s', (Kernel.mode13FbTick σ.mode13UserFbPtr σ.mode13Enabled).run σ.machine = .ok () s' := by
    cases he : σ.mode13Enabled
    case false => exact ⟨_, rfl⟩
    case true  =>
      have hrun := (h.runs he).left
      obtain ⟨t, ht⟩ := hrun.task
      obtain ⟨s', hr, _⟩ := ht.tick hrun.frame
      exact ⟨s', he ▸ hr⟩
  have h' := (h.tick hr).left
  obtain ⟨he, hm⟩ := Kernel.mode13FbTick_agree hr
  refine ⟨s', hr, h', ?_⟩
  rw [show s'.cr3 = σ.machine.cr3 by rw [he]]
  refine h.owns.left.shows_congr h'.owns.left hs h.owns.right fun f v hf i hi => ?_
  have hl := (h.owns.left.page (p := f) (by simp [hf])).lower
  exact hm _ <| by omega

end System

open KernelProg

namespace Os

def system (σ : Os) (control : Control) : System where
  machine := σ.machine
  mode13UserFbPtr := σ.mode13UserFbPtr
  mode13Enabled := σ.mode13Enabled
  control := control

-- The blitter is enabled if and only if the display is in its graphics mode.
abbrev ModesAgree (enabled graphics : Bool) : Prop :=
  enabled = graphics

abbrev ModesText (enabled graphics : Bool) : Prop :=
  enabled = false ∧ graphics = false

-- What does not change after the kernel has been booted: its directory, the address of `trapret`, the disk, and
-- the state in which the system has been started.
structure Origin where
  kernel  : Nat
  trapret : Nat
  disk    : Disk
  start   : System

-- Where the kernel is on behalf of a process which sees the memory `x`, and what it has printed. The assertion `F`
-- is about whether the blitter is enabled, and about whether the display is in its graphics mode.
structure Point (b : Origin) (x : View) (con : List UInt8) (F : Bool → Bool → Prop) (c : Control) (σ : Os) :
    Prop where
  stop    : σ.stop = none
  kbd     : ∃ l, σ.kbd.Remembers l
  pic     : σ.pic.Ready
  system  : (σ.system c).Inv b.kernel
  runs    : Relation.ReflTransGen (System.Step b.trapret b.disk) b.start (σ.system c)
  shows   : σ.machine.Shows σ.machine.cr3 x
  console : σ.console = con
  modes   : F σ.mode13Enabled σ.graphics

variable {b : Origin} {x : View} {con : List UInt8} {F : Bool → Bool → Prop} {c c' : Control} {σ σ' : Os}
  {r : Registers}

theorem device_step (h : σ.stop = none) (o : KernelOp) : device o σ = σ.step o := by
  rw [device, h]
  rfl

theorem exec_ok {α : Type} {f : Kernel α} {a : α} {s : Machine} (hr : f.run σ.machine = .ok a s) (g : α → Int) :
    σ.exec f g = (g a, { σ with machine := s }) := by
  rw [exec, hr]

namespace Point

-- A step of the system, which the operation takes.
theorem moves (h : Point b x con F c σ) (σ' : Os) (c' : Control) (hc : c' ≠ .stopped)
    (hs : System.Step b.trapret b.disk (σ.system c) (σ'.system c')) : (σ'.system c').Inv b.kernel ∧
      Relation.ReflTransGen (System.Step b.trapret b.disk) b.start (σ'.system c') :=
  ⟨(h.system.step hs).resolve_right fun hstop => hc hstop.right.control, h.runs.tail hs⟩

-- The operation is about to be performed.
theorem control (h : Point b x con F c σ) (c' : Control) (hc : c' ≠ .stopped)
    (hs : System.Step b.trapret b.disk (σ.system c) (σ.system c')) : Point b x con F c' σ :=
  have hm := h.moves σ c' hc hs
  { h with
    system := hm.left
    runs := hm.right }

-- The machine changes, and the process sees the memory `x'` from then on.
theorem machine {x' : View} (h : Point b x con F c σ) (c' : Control) (hc : c' ≠ .stopped)
    (hs : System.Step b.trapret b.disk (σ.system c) (Os.system { σ with machine := s } c')) (hx : s.Shows s.cr3 x') :
    Point b x' con F c' { σ with machine := s } :=
  have hm := h.moves { σ with machine := s } c' hc hs
  { h with
    system := hm.left
    runs := hm.right
    shows := hx }

theorem print (h : Point b x con F c σ) (msg : List UInt8) : Point b x (con ++ msg) F c (σ.print msg) :=
  { h with console := congrArg (· ++ msg) h.console }

theorem exists_tick (h : Point b x con F c σ) : ∃ s',
    (Kernel.mode13FbTick σ.mode13UserFbPtr σ.mode13Enabled).run σ.machine = .ok () s' ∧ s'.Shows s'.cr3 x := by
  obtain ⟨use, free, hat⟩ := h.system
  obtain ⟨s', hr, _, hs'⟩ := System.At.exists_tick hat h.shows
  exact ⟨s', hr, hs'⟩

theorem tick (h : Point b x con F c σ) : ∃ σ', σ.exec (Kernel.mode13FbTick σ.mode13UserFbPtr σ.mode13Enabled)
    (fun _ => 0) = (0, σ') ∧ Point b x con F c σ' := by
  obtain ⟨s', hr, hs'⟩ := h.exists_tick
  exact ⟨_, exec_ok hr _, h.machine c h.system.running (.tick h.system.running hr) hs'⟩

theorem timer (h : Point b x con F c σ) : ∃ σ', σ.timerInterruptHandler = (0, σ') ∧ Point b x con F c σ' :=
  tick (σ := { σ with speaker := σ.speaker.timerInterruptHandler }) { h with }

theorem keyboard (h : Point b x con F c σ) : ∃ σ', σ.step .keyboardInterruptHandler = (0, σ') ∧
    Point b x con F c σ' := by
  obtain ⟨l, hl⟩ := h.kbd
  obtain ⟨kbd, hk, hl'⟩ := hl.interrupt σ.kbdData
  refine ⟨{ σ with kbd }, ?_, { h with kbd := ⟨_, hl'⟩ }⟩
  simp only [Os.step, hk]

end Point

theorem run_execute (h : σ.stop = none) (o : KernelOp) : (execute o).run device σ = ((), (σ.step o).2) := by
  rw [execute, Prog.run_bind, Prog.run_perform, device_step h]
  rfl

theorem run_endOfInterrupt (h : σ.stop = none) (intNo : Nat) :
    (endOfInterrupt intNo).run device σ = ((), { σ with pic := σ.pic.trapEnds intNo }) := by
  by_cases hf : 40 ≤ intNo ∧ intNo ≤ 47
  case pos =>
    have hl : 32 ≤ intNo ∧ intNo ≤ 47 := ⟨by omega, hf.right⟩
    simp only [endOfInterrupt, irq0, Nat.reduceAdd, ge_iff_le, if_pos hf, if_pos hl, Pic.trapEnds, Prog.run_bind,
      run_execute h]
    rw [run_execute (by exact h)]
    rfl
  case neg =>
    simp only [endOfInterrupt, irq0, Nat.reduceAdd, ge_iff_le, if_neg hf, Pic.trapEnds]
    split
    case isTrue  => exact run_execute h _
    case isFalse => rfl

theorem interruptHandlers_eq (n : Nat) : interruptHandlers n =
    if n = tSyscall then some .syscall else if n = irq0 then some .timer
      else if n = irq1 then some .keyboard else none := by
  simp only [interruptHandlers, registerInterruptHandler, Function.update_apply]

-- The requests of the controllers are ended, and they do nothing else unless there is a handler.
theorem run_trap_irq (h : σ.stop = none) {irq : Nat} (hi : irq < 16) (hn : r.intNo.toNat = 32 + irq)
    (rounds : Nat) :
    ((trap rounds r).run device σ).2 =
      let σ := { σ with pic := σ.pic.trapEnds (32 + irq) }
      if irq = 0 then σ.timerInterruptHandler.2
      else if irq = 1 then (σ.step .keyboardInterruptHandler).2
      else σ := by
  rw [trap, Prog.run_bind, run_endOfInterrupt h, callHandler, hn]
  have h' : ({ σ with pic := σ.pic.trapEnds (32 + irq) } : Os).stop = none := h
  by_cases h₀ : irq = 0
  case pos =>
    subst h₀
    rw [show interruptHandlers (32 + 0) = some .timer from rfl, if_pos rfl]
    simp only [Prog.run_bind, run_execute h']
    rfl
  case neg =>
    rw [if_neg h₀]
    by_cases h₁ : irq = 1
    case pos =>
      subst h₁
      rw [show interruptHandlers (32 + 1) = some .keyboard from rfl, if_pos rfl]
      simp only [Prog.run_bind, run_execute h']
      rfl
    case neg =>
      rw [interruptHandlers_eq, if_neg (by simp only [tSyscall]; omega), if_neg (by simp only [irq0]; omega),
        if_neg (by simp only [irq1]; omega), if_neg h₁]
      simp only [if_neg (show ¬32 + irq < 32 by omega)]
      rfl

-- The interrupts leave the kernel where it is.
theorem Point.stable : Prog.Stable Irq (Point b x con F c) := by
  intro σ σ' hi h
  cases hi
  case intro request kbdData r hs _ hr =>
    obtain ⟨hv, he⟩ := h.pic.acknowledge request
    have hlt : request.irq < 16 := by cases request <;> simp only [PicRequest.irq] <;> omega
    have hn : r.intNo.toNat = 32 + request.irq := by rw [hr, hv, BitVec.toNat_ofNat]; omega
    rw [run_trap_irq (by exact hs) hlt hn]
    simp only [he]
    generalize (if request.irq = 0 then σ.ticks + 1 else σ.ticks) = ticks
    have h' : Point b x con F c { σ with kbdData, ticks } := { h with }
    split
    case isTrue  =>
      obtain ⟨σ', hσ, ht⟩ := h'.timer
      exact (congrArg Prod.snd hσ).symm ▸ ht
    case isFalse =>
      split
      case isTrue  =>
        obtain ⟨σ', hσ, ht⟩ := h'.keyboard
        exact (congrArg Prod.snd hσ).symm ▸ ht
      case isFalse => exact h'

namespace Point

-- What the process can access, in terms of the memory which it sees.
theorem accessible_iff (h : Point b x con F c σ) {va : Nat} :
    σ.machine.UserAccessible va ↔ va < kernbase ∧ x va ≠ none := by
  obtain ⟨use, free, hat⟩ := h.system
  obtain ⟨ho, hd⟩ := System.At.owns hat
  exact (ho.userAccessible_iff hd).trans <| and_congr_right fun hk => ho.maps_iff h.shows hd hk

theorem writable_iff (h : Point b x con F c σ) {va : Nat} :
    σ.machine.UserWritable va ↔ va < kernbase ∧ x va ≠ none := by
  obtain ⟨use, free, hat⟩ := h.system
  obtain ⟨ho, hd⟩ := System.At.owns hat
  constructor
  case mp  =>
    intro hw
    exact ⟨hw.left, (ho.maps_iff h.shows hd hw.left).mp (ho.maps_of_writable hd hw).right⟩
  case mpr =>
    intro ⟨hk, hx⟩
    exact ((ho.allows_iff hd hk true).right).mpr <| (ho.maps_iff h.shows hd hk).mpr hx

theorem string_iff (h : Point b x con F c σ) {ptr : Nat} : σ.machine.UserString ptr ↔ x.IsString ptr := by
  refine exists_congr fun i => ?_
  have hview (hk : ptr + i < kernbase) : σ.machine.view (ptr + i) = x (ptr + i) := h.shows _ hk
  constructor
  case mp  =>
    intro ⟨hz, ha⟩
    have ha j (hj : j < i + 1) := h.accessible_iff.mp <| ha j <| Nat.le_of_lt_succ hj
    exact ⟨hview (ha i (Nat.lt_succ_self i)).left ▸ hz, ha⟩
  case mpr =>
    intro ⟨hz, ha⟩
    refine ⟨hview (ha i (Nat.lt_succ_self i)).left ▸ hz, fun j hj => ?_⟩
    exact h.accessible_iff.mpr <| ha j <| Nat.lt_succ_of_le hj

-- An operation which has a result.
theorem spec {o : KernelOp} {Q : Int → Os → Prop} (h : ∀ σ, Point b x con F c σ → Q (σ.step o).1 (σ.step o).2)
    (hQ : ∀ r, Prog.Stable Irq (Q r)) : Prog.Triple device Irq (Point b x con F c) (Prog.perform o) Q :=
  .perform stable (fun σ hσ => by rw [device_step hσ.stop]; exact h σ hσ) hQ

theorem execute_spec {o : KernelOp} {Q : Os → Prop} (h : ∀ σ, Point b x con F c σ → Q (σ.step o).2)
    (hQ : Prog.Stable Irq Q) : Prog.Triple device Irq (Point b x con F c) (execute o) fun _ => Q :=
  .bind (spec (Q := fun _ => Q) h fun _ => hQ) fun _ => .pure hQ fun _ hq => hq

theorem printk_spec (msg : String) : Prog.Triple device Irq (Point b x con F c) (printk msg) fun _ =>
    Point b x (con ++ msg.toUTF8.toList) F c :=
  execute_spec (fun _ h => h.print _) stable

-- No request is in service when `trap` is called by the process itself.
theorem portByteOut_spec {port : Nat} (hp : port = 0x20 ∨ port = 0xa0) :
    Prog.Triple device Irq (Point b x con F c) (execute <| .portByteOut port 0x20) fun _ => Point b x con F c := by
  refine execute_spec (fun σ h => ?_) stable
  have hl : σ.pic.leader.service = fun _ => false := by rw [h.pic.leader]
  have hf : σ.pic.follower.service = fun _ => false := by rw [h.pic.follower]
  have he : σ.pic.portByteOut port 0x20 = σ.pic := by
    rcases hp with hp | hp
    all_goals
      subst hp
      simp only [Pic.portByteOut]
    case inl => exact congrArg (Pic.mk · σ.pic.follower) <| Pic.endOfInterrupt_none hl
    case inr => exact congrArg (Pic.mk σ.pic.leader) <| Pic.endOfInterrupt_none hf
  exact { h with pic := (congrArg Pic.Ready he).mpr h.pic }

theorem timer_spec :
    Prog.Triple device Irq (Point b x con F c) (execute .timerInterruptHandler) fun _ => Point b x con F c := by
  refine execute_spec (fun σ h => ?_) stable
  obtain ⟨σ', hσ, h'⟩ := h.timer
  exact (congrArg Prod.snd hσ).symm ▸ h'

theorem keyboard_spec :
    Prog.Triple device Irq (Point b x con F c) (execute .keyboardInterruptHandler) fun _ => Point b x con F c := by
  refine execute_spec (fun σ h => ?_) stable
  obtain ⟨σ', hσ, h'⟩ := h.keyboard
  exact (congrArg Prod.snd hσ).symm ▸ h'

theorem kbdPopEvent_spec :
    Prog.Triple device Irq (Point b x con F c) (Prog.perform .kbdPopEvent) fun _ => Point b x con F c := by
  refine spec (fun σ h => ?_) fun _ => stable
  obtain ⟨l, hl⟩ := h.kbd
  obtain ⟨event, kbd, he, hl', _⟩ := hl.pop
  simp only [Os.step, he]
  exact { h with kbd := ⟨_, hl'⟩ }

theorem kbdClearBuffer_spec :
    Prog.Triple device Irq (Point b x con F c) (execute .kbdClearBuffer) fun _ => Point b x con F c :=
  execute_spec (fun _ h => { h with kbd := h.kbd.imp' _ fun _ hl => hl.clear }) stable

theorem pitMonotonicMs_spec :
    Prog.Triple device Irq (Point b x con F c) (Prog.perform .pitMonotonicMs) fun _ => Point b x con F c :=
  spec (fun _ h => h) fun _ => stable

theorem speakerOn_spec (frequencyHz : UInt16) :
    Prog.Triple device Irq (Point b x con F c) (execute <| .speakerOn frequencyHz) fun _ => Point b x con F c :=
  execute_spec (fun _ h => { h with }) stable

theorem setOffDeadline_spec (ms : UInt32) :
    Prog.Triple device Irq (Point b x con F c) (execute <| .setOffDeadline ms) fun _ => Point b x con F c :=
  execute_spec (fun _ h => { h with }) stable

theorem userWritableAfter_spec (ptr : Nat) :
    Prog.Triple device Irq (Point b x con F c) (Prog.perform <| .userWritableAfter ptr) fun n σ =>
      (∀ size : Nat, x.Has ptr size ↔ size ≤ n) ∧ Point b x con F c σ := by
  refine spec (fun σ h => ?_) fun _ => .and (.const _) stable
  obtain ⟨use, free, hat⟩ := h.system
  obtain ⟨ho, hd⟩ := System.At.owns hat
  obtain ⟨n, hr, hw, hn⟩ := ho.userWritableAfter_eq hd ptr
  rw [Os.step, exec_ok hr]
  exact ⟨fun size => (View.has_iff (fun _ => h.writable_iff) hw hn).trans Int.ofNat_le.symm, { h with }⟩

theorem getUserspacePtr_spec (ptr : Nat) :
    Prog.Triple device Irq (Point b x con F c) (Prog.perform <| .getUserspacePtr ptr) fun p σ =>
      ((p = ptr ∧ x.IsString ptr) ∨ (p = 0 ∧ ¬x.IsString ptr)) ∧ Point b x con F c σ := by
  refine spec (fun σ h => ?_) fun _ => .and (.const _) stable
  obtain ⟨use, free, hat⟩ := h.system
  obtain ⟨ho, hd⟩ := System.At.owns hat
  obtain ⟨p, hr, _, hyes, hno⟩ := (ho.tablesInMemory hd).getUserspacePtr_eq (fun _ _ => rfl) ptr
  rw [Os.step, exec_ok hr]
  refine ⟨?_, { h with }⟩
  by_cases hs : x.IsString ptr
  case pos => exact .inl ⟨congrArg Nat.cast <| hyes <| h.string_iff.mpr hs, hs⟩
  case neg => exact .inr ⟨congrArg Nat.cast <| hno <| mt h.string_iff.mp hs, hs⟩

theorem printkUser_spec {ptr : Nat} (hs : x.IsString ptr) :
    Prog.Triple device Irq (Point b x con F c) (execute <| .printkUser ptr) fun _ σ =>
      ∃ msg, x.Spells ptr msg ∧ Point b x (con ++ msg) F c σ := by
  refine execute_spec (fun σ h => ?_) (.exists fun _ => .and (.const _) stable)
  obtain ⟨i, hz, ha⟩ := h.string_iff.mpr hs
  have hlt := (ha i (Nat.le_refl i)).left
  have hl : σ.machine.LoadsUser Kernel.loadByte := fun _ _ => rfl
  obtain ⟨l, hr, _⟩ := hl.loadString_eq (2 ^ 32) (by simp only [kernbase] at hlt; omega) ha hz
  have hp : (Kernel.printk Kernel.loadByte ptr).run σ.machine = .ok (l, l) σ.machine := by
    rw [Kernel.printk, EStateM.bind_ok hr, EStateM.bind_ok hr]
    rfl
  simp only [Os.step, hp]
  exact ⟨l, Kernel.loadString_spells h.shows ha hz hr, h.print l⟩

-- The kernel stores a word in the memory of the process.
theorem store32_spec {va v : Nat} (hx : x.Has va 4) :
    Prog.Triple device Irq (Point b x con F .process) (execute <| .store32 va v) fun _ =>
      Point b (x.write va 4 fun i => .ofNat (v / 2 ^ (8 * i))) con F .process := by
  refine execute_spec (fun σ h => ?_) stable
  obtain ⟨use, free, hat⟩ := h.system
  obtain ⟨ho, hd⟩ := System.At.owns hat
  have hm i (hi : i < 4) : va + i < kernbase ∧ Maps use σ.machine.cr3 ((va + i) / pgsize) :=
    ⟨(hx i hi).left, (ho.maps_iff h.shows hd (hx i hi).left).mpr (hx i hi).right⟩
  obtain ⟨s', hr, hw⟩ := (Machine.Writes.nil σ.machine va fun i => .ofNat (v / 2 ^ (8 * i))).store32 (ho.buffer hm)
    (Nat.le_refl 4) fun i _ => by rw [Nat.zero_add]
  have hp : System.ProcessWrites σ.machine s'.mem := by
    intro pa hne
    by_contra hc
    refine hne <| hw.others pa fun i hi ht => hc <| .inl ⟨va + i, (hx i (by omega)).left, ht⟩
  obtain ⟨t, ht⟩ := System.Runs.task hat
  have ht' : Machine.HasTask { σ.machine with mem := s'.mem } use free _ t σ.machine.cr3 := ht.processWrites hp
  have hs : System.Step b.trapret b.disk (σ.system .process) (Os.system { σ with machine := s' } .process) := by
    rw [hw.memory]
    exact .write rfl hp
  rw [← hw.memory] at ht'
  have hc : s'.cr3 = σ.machine.cr3 := by rw [hw.memory]
  rw [Nat.add_zero] at hr
  rw [Os.step, exec_ok hr]
  exact h.machine .process (by simp) hs <| hc ▸ ho.shows_writes ht'.owns hd h.shows hm hw

end Point

end Os
