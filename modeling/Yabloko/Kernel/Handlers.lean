import Yabloko.Kernel.Sleep

namespace Registers

-- The process is killed by its exceptions, and by `SYS_exit`.
def Kills (r : Registers) : Prop :=
  r.intNo.toNat < 32 ∨ (r.intNo.toNat = tSyscall ∧ r.eax.toNat = 0)

-- The message for it.
def farewell (r : Registers) : List UInt8 :=
  if r.intNo.toNat < 32 then
    "Exception: ".toUTF8.toList ++ (KernelProg.exceptionMessage r.intNo.toNat).toUTF8.toList ++ "\n".toUTF8.toList
  else
    (if r.ebx.toNat = 0 then "* success\n" else "* failure\n").toUTF8.toList

-- The result of a system call of a process which sees the memory `x`, and what the call prints.
def Answers (r : Registers) (x : View) (result : Int) (msg : List UInt8) : Prop :=
  let ebx := r.ebx.toNat
  match r.eax.toNat with
  | 1  => result = 0 ∧ msg = "Hello world!\n".toUTF8.toList
  | 2  => result = 0 ∧ msg = [.ofNat ebx].takeWhile (· ≠ 0)
  | 3  => (ebx ≠ 0 ∧ x.IsString ebx ∧ result = 0 ∧ x.Spells ebx msg) ∨
            (¬(ebx ≠ 0 ∧ x.IsString ebx) ∧ result = -1 ∧ msg = [])
  | 4  => msg = []
  | 5  => msg = [] ∧ (x.Has ebx Kernel.videoMode13FramebufferSize ∧ result = 0 ∨
            ¬x.Has ebx Kernel.videoMode13FramebufferSize ∧ result = -1)
  | 6  => result = 0 ∧ msg = []
  | 7  => msg = [] ∧ (x.Has ebx 4 ∧ (result = 0 ∨ result = 1) ∨ ¬x.Has ebx 4 ∧ result = -1)
  | 8  => msg = [] ∧ (x.Has ebx 8 ∧ result = 0 ∨ ¬x.Has ebx 8 ∧ result = -1)
  | 9  => msg = [] ∧ result = if toInt32 ebx < 0 then -1 else 0
  | 10 => result = 0 ∧ msg = []
  | _  => result = -1 ∧ msg = "Unknown syscall\n".toUTF8.toList

theorem Sleeps.survives {r : Registers} (h : r.Sleeps) : ¬r.Kills := by
  rw [Kills, h.syscall, h.sleep]
  decide

-- Only the system calls change a register.
def Returns (r : Registers) (x : View) (msg : List UInt8) (r' : Registers) : Prop :=
  if r.intNo.toNat = tSyscall then
    ∃ result, r' = r.withResult result ∧ r.Answers x result msg
  else
    r' = r ∧ msg = []

-- The addresses to which the system calls may store something.
def Stores (r : Registers) (va : Nat) : Prop :=
  r.intNo.toNat = tSyscall ∧ ((r.eax.toNat = 7 ∧ r.ebx.toNat ≤ va ∧ va < r.ebx.toNat + 4) ∨
    (r.eax.toNat = 8 ∧ r.ebx.toNat ≤ va ∧ va < r.ebx.toNat + 8))

end Registers

open KernelProg

namespace Os

variable {b : Origin} {x : View} {con : List UInt8} {F : Bool → Bool → Prop} {c c' : Control} {σ σ' : Os}
  {r : Registers}

namespace Point

theorem mode13FbIsActive_spec :
    Prog.Triple device Irq (Point b x con F c) (Prog.perform .mode13FbIsActive) fun r =>
      Point b x con (fun enabled graphics => F enabled graphics ∧ r = enabled.toNat) c :=
  spec (fun _ h => { h with modes := ⟨h.modes, rfl⟩ }) fun _ => stable

theorem weaken {F' : Bool → Bool → Prop} (h : Point b x con F c σ) (hF : ∀ e g, F e g → F' e g) :
    Point b x con F' c σ :=
  { h with modes := hF _ _ h.modes }

-- An operation which only sets the variables of the blitter.
theorem modes_spec {o : KernelOp} (F' : Bool → Bool → Prop) (c' : Control) (hc : c' ≠ .stopped)
    (ho : ∀ σ : Os, ∃ ptr enabled, σ.step o = (0, { σ with mode13UserFbPtr := ptr, mode13Enabled := enabled }))
    (hs : ∀ σ : Os, System.Step b.trapret b.disk (σ.system c) ((σ.step o).2.system c'))
    (hF : ∀ σ : Os, F σ.mode13Enabled σ.graphics → F' (σ.step o).2.mode13Enabled (σ.step o).2.graphics) :
    Prog.Triple device Irq (Point b x con F c) (execute o) fun _ => Point b x con F' c' := by
  refine execute_spec (fun σ h => ?_) stable
  have hm := h.moves (σ.step o).2 c' hc <| hs σ
  have hF := hF σ h.modes
  obtain ⟨ptr, enabled, he⟩ := ho σ
  rw [he] at hm hF ⊢
  exact { h with
    system := hm.left
    runs := hm.right
    modes := hF }

-- The check of `handle_enter13h`. After it, the pointer can be bound.
theorem checkFrame_spec (ptr : Nat) :
    Prog.Triple device Irq (Point b x con F .process) (Prog.perform <| .userReadableAfter ptr) fun n σ =>
      (x.Has ptr Kernel.videoMode13FramebufferSize ↔ Kernel.videoMode13FramebufferSize ≤ n) ∧
        (n < Kernel.videoMode13FramebufferSize → Point b x con F .process σ) ∧
        (¬n < Kernel.videoMode13FramebufferSize → Point b x con F (.setPtr ptr) σ) := by
  refine spec (fun σ h => ?_) fun _ => .and (.const _) <| .and (.imp stable) (.imp stable)
  obtain ⟨use, free, hat⟩ := h.system
  obtain ⟨ho, hd⟩ := System.At.owns hat
  obtain ⟨n, hr, ha, hn⟩ := (ho.tablesInMemory hd).readable_eq ptr
  have he : σ.step (.userReadableAfter ptr) = ((n : Int), σ) := exec_ok hr _
  have h' := h.control (.enter13h ptr) (by simp) <| .enter13h ptr rfl
  rewrite [he]
  refine ⟨(View.has_iff (fun _ => h.accessible_iff) ha hn).trans Int.ofNat_le.symm, ?accepts⟩
  constructor
  case accepts.left  => exact fun hn => h'.control .process (by simp) <| .refused rfl hr <| Int.ofNat_lt.mp hn
  case accepts.right => exact fun hn => h'.control (.setPtr ptr) (by simp) <| .accepted rfl hr <| mt Int.ofNat_lt.mpr hn

-- The steps of `mode13_fb_bind`, after the pointer has been checked.
theorem mode13FbBind_spec (ptr : Nat) :
    Prog.Triple device Irq (Point b x con F (.setPtr ptr)) (mode13FbBind ptr) fun _ =>
      Point b x con ModesAgree .process := by
  refine .bind (modes_spec F .setEnabled (by simp) (fun σ => ⟨_, _, rfl⟩) (fun _ => .setPtr rfl)
    fun _ hF => hF) fun _ => ?_
  refine .bind (modes_spec (fun enabled _ => enabled = true) .firstTick (by simp) (fun σ => ⟨_, _, rfl⟩)
    (fun _ => .setEnabled rfl) fun _ _ => rfl) fun _ => ?_
  refine .bind (Q := fun _ => Point b x con ModesAgree .firstTick)
    (execute_spec (fun σ h => { h with modes := h.modes }) stable) fun _ => ?_
  refine execute_spec (fun σ h => ?_) stable
  obtain ⟨s', hr, hs'⟩ := h.exists_tick
  rw [Os.step, exec_ok hr]
  exact h.machine .process (by simp) (.firstTick rfl hr) hs'

-- The variables of the blitter are reset, and the display is in its text mode again, if it has not been before.
theorem procRestoreTextMode_spec (killed : Bool) :
    Prog.Triple device Irq (Point b x con ModesAgree .process) procRestoreTextMode
      fun _ => Point b x con ModesText (.afterTextMode killed) := by
  have enter (σ : Os) : System.Step b.trapret b.disk (σ.system .process) (σ.system (.restoreTextMode killed)) := by
    cases killed
    case false => exact .leave13h rfl
    case true  => exact .killproc rfl
  refine .pre (.bind mode13FbIsActive_spec fun active => ?_) fun σ h =>
    h.control (.restoreTextMode killed) (by simp) <| enter σ
  refine .ite (fun ha => ?_) fun ha => ?_
  case refine_1 =>
    -- Nothing has to be done.
    refine .pure stable fun σ h => ?_
    obtain ⟨he, hr⟩ := h.modes
    have hf : σ.mode13Enabled = false := by
      cases hb : σ.mode13Enabled
      case false => rfl
      case true  => rw [ha, hb] at hr; cases hr
    have h' := h.control (.afterTextMode killed) (Control.afterTextMode_ne killed) <| .inactive rfl hf
    exact { h' with modes := ⟨hf, he ▸ hf⟩ }
  case refine_2 =>
    have active (σ : Os) (h : Point b x con (fun enabled graphics => enabled = graphics ∧ active = enabled.toNat)
        (.restoreTextMode killed) σ) : Point b x con (fun _ _ => True) (.clearEnabled killed) σ := by
      have ht : σ.mode13Enabled = true := by
        cases hb : σ.mode13Enabled
        case true  => rfl
        case false =>
          have hr := h.modes.right
          rw [hb] at hr
          exact absurd hr ha
      exact { h.control (.clearEnabled killed) (by simp) <| .active rfl ht with modes := trivial }
    refine .pre (.bind (.bind (modes_spec (fun enabled _ => enabled = false) (.clearPtr killed) (by simp)
      (fun σ => ⟨_, _, rfl⟩) (fun _ => .clearEnabled rfl) fun _ _ => rfl) fun _ =>
        modes_spec (fun enabled _ => enabled = false) (.afterTextMode killed) (Control.afterTextMode_ne killed)
          (fun σ => ⟨_, _, rfl⟩) (fun _ => .clearPtr rfl) fun _ hF => hF) fun _ => ?_) active
    refine .bind (Q := fun _ => Point b x con ModesText
      (.afterTextMode killed)) (execute_spec (fun σ h => { h with modes := ⟨h.modes, rfl⟩ }) stable) fun _ => ?_
    exact kbdClearBuffer_spec

theorem switchkvm_spec :
    Prog.Triple device Irq (Point b x con F .switchkvm) (execute .switchkvm) fun _ σ =>
      ∃ x, Point b x con F .freevm σ := by
  refine execute_spec (fun σ h => ?_) (.exists fun _ => stable)
  obtain ⟨s', hrun⟩ : ∃ s', Kernel.switchkvm.run σ.machine = .ok () s' := ⟨_, rfl⟩
  rw [Os.step, exec_ok hrun]
  exact ⟨_, h.machine .freevm (by simp) (.switchkvm rfl hrun) fun _ _ => rfl⟩

end Point

-- The process has been taken apart, unless its pages cannot be filled through `es`.
def TakenApart (b : Origin) (con : List UInt8) (F : Bool → Bool → Prop) (es : Selector) (σ : Os) : Prop :=
  if es.writable then ∃ x, Point b x con F .swtch σ else σ.stop = some (.fault Kernel.generalProtection)

theorem TakenApart.stable {es : Selector} : Prog.Stable Irq (TakenApart b con F es) := by
  intro σ σ' hi h
  rw [TakenApart] at h ⊢
  split
  case isTrue hw  =>
    rw [if_pos hw] at h
    exact Prog.Stable.exists (fun _ => Point.stable) σ σ' hi h
  case isFalse hw =>
    rw [if_neg hw] at h
    cases hi
    case intro hs _ _ => rw [hs] at h; cases h

namespace Point

theorem freevm_spec (es : Selector) :
    Prog.Triple device Irq (Point b x con F .freevm) (execute <| .freevm es) fun _ => TakenApart b con F es := by
  refine execute_spec (fun σ h => ?_) TakenApart.stable
  obtain ⟨use, free, ⟨t, d, ht⟩, _⟩ := h.system
  have ht : σ.machine.HasTask use free b.kernel t d := ht
  have hl : (Kernel.load32 (σ.machine.userTask + Task.pgdir)).run σ.machine = .ok (kernbase + d) σ.machine := by
    rw [ht.userTask, ht.load_pgdir]
  obtain ⟨s', hr, _⟩ := ht.owns.freevm ht.user
  rw [Os.step, TakenApart]
  split
  case isTrue hw  =>
    have hrun : (do Kernel.freevmIn es (← Kernel.load32 ((← get).userTask + Task.pgdir)) : Kernel Unit).run
        σ.machine = .ok () s' := by
      rw [EStateM.get_bind, EStateM.bind_ok hl, Kernel.freevmIn_eq hw, hr]
    rw [exec_ok hrun]
    exact ⟨_, h.machine .swtch (by simp) (.freevm rfl hl hr) fun _ _ => rfl⟩
  case isFalse hw =>
    obtain ⟨s'', he⟩ := Kernel.freevmIn_error (eq_false_of_ne_true hw) hr
    have hrun : (do Kernel.freevmIn es (← Kernel.load32 ((← get).userTask + Task.pgdir)) : Kernel Unit).run
        σ.machine = .error Kernel.generalProtection s'' := by
      rw [EStateM.get_bind, EStateM.bind_ok hl, he]
    simp only [exec, hrun]
    rfl

theorem killproc_spec (es : Selector) :
    Prog.Triple device Irq (Point b x con ModesAgree .process) (killproc es)
      fun e σ => e = .killed ∧ TakenApart b con ModesText es σ := by
  refine .bind (procRestoreTextMode_spec true) fun _ => .bind switchkvm_spec fun _ => .exists fun x' => ?_
  exact .bind (freevm_spec es) fun _ => .pure TakenApart.stable fun _ h => ⟨rfl, h⟩

theorem msleep_spec (rounds : Nat) (ms : Int) :
    Prog.Triple device Irq (Point b x con F c) (msleep rounds ms) fun awake σ =>
      (awake = false → 0 < ms) ∧ Point b x con F c σ := by
  refine .ite (fun _ => .pure stable fun _ h => ⟨nofun, h⟩) fun hpos => .bind pitMonotonicMs_spec fun deadline => ?_
  have hstep (σ : Os) (h : Point b x con F c σ) : Point b x con F c (device .pitMonotonicMs σ).2 := by
    rw [device_step h.stop]
    exact h
  exact .post (.poll stable hstep (fun σ h _ => hstep σ h) stable rounds) fun ends σ h =>
    ⟨fun _ => Int.not_le.mp hpos, by cases ends <;> exact h⟩

theorem speakerBeep_spec (frequencyHz durationMs : UInt16) :
    Prog.Triple device Irq (Point b x con F c) (speakerBeep frequencyHz durationMs) fun _ => Point b x con F c :=
  .bind (speakerOn_spec _) fun _ => .bind pitMonotonicMs_spec fun _ => setOffDeadline_spec _

theorem handleBeep_spec (packedTone : Word) :
    Prog.Triple device Irq (Point b x con F c) (handleBeep packedTone) fun result σ =>
      result = 0 ∧ Point b x con F c σ :=
  .ite (fun _ => .pure stable fun _ h => ⟨rfl, h⟩) fun _ =>
    .bind (speakerBeep_spec _ _) fun _ => .pure stable fun _ h => ⟨rfl, h⟩

theorem handlePuts_spec {p : Int} (hp : p ≠ 0 → x.IsString p.toNat) :
    Prog.Triple device Irq (Point b x con F c) (handlePuts p) fun result σ => ∃ msg,
      ((p ≠ 0 ∧ result = 0 ∧ x.Spells p.toNat msg) ∨ (p = 0 ∧ result = -1 ∧ msg = [])) ∧
        Point b x (con ++ msg) F c σ := by
  have hs : Prog.Stable Irq fun σ => ∃ msg, x.Spells p.toNat msg ∧ Point b x (con ++ msg) F c σ :=
    .exists fun _ => .and (.const _) stable
  refine .ite (fun hz => ?_) fun hn => .bind (printkUser_spec (hp hn)) fun _ => .pure hs fun _ h => ?_
  case refine_1 => exact .pure stable fun _ h => ⟨[], .inr ⟨hz, rfl, rfl⟩, (List.append_nil con).symm ▸ h⟩
  case refine_2 => exact h.imp fun _ h => ⟨.inl ⟨hn, rfl, h.left⟩, h.right⟩

theorem handleEnter13h_spec (ptr : Nat) :
    Prog.Triple device Irq (Point b x con ModesAgree .process) (handleEnter13h ptr) fun result σ =>
      (x.Has ptr Kernel.videoMode13FramebufferSize ∧ result = 0 ∨
        ¬x.Has ptr Kernel.videoMode13FramebufferSize ∧ result = -1) ∧ Point b x con ModesAgree .process σ := by
  refine .bind (checkFrame_spec ptr) fun n => .fact fun hx => .ite (fun hn => ?_) fun hn => ?_
  case refine_1 =>
    have hx : ¬x.Has ptr Kernel.videoMode13FramebufferSize := fun h => absurd (hx.mp h) <| Int.not_le.mpr hn
    exact .pre (.pure stable fun _ h => ⟨.inr ⟨hx, rfl⟩, h⟩) fun _ h => h.left hn
  case refine_2 =>
    have hx : x.Has ptr Kernel.videoMode13FramebufferSize := hx.mpr <| Int.not_lt.mp hn
    exact .pre (.bind (mode13FbBind_spec ptr) fun _ => .pure stable fun _ h => ⟨.inl ⟨hx, rfl⟩, h⟩) fun _ h =>
      h.right hn

theorem handleLeave13h_spec :
    Prog.Triple device Irq (Point b x con ModesAgree .process) handleLeave13h
      fun result σ => result = 0 ∧ Point b x con ModesAgree .process σ :=
  .bind (procRestoreTextMode_spec false) fun _ =>
    .pure stable fun _ h => ⟨rfl, h.weaken fun _ _ hm => hm.left.trans hm.right.symm⟩

-- The memory of the process has changed in the `n` bytes from `ptr` on, at most.
def Stored (b : Origin) (x : View) (con : List UInt8) (F : Bool → Bool → Prop) (ptr n : Nat) (σ : Os) : Prop :=
  ∃ x', Point b x' con F .process σ ∧ ∀ va, ¬(ptr ≤ va ∧ va < ptr + n) → x' va = x va

theorem stored (h : Point b x con F .process σ) (ptr n : Nat) : Stored b x con F ptr n σ :=
  ⟨x, h, fun _ _ => rfl⟩

theorem has_write {ptr n a m : Nat} {f : Nat → UInt8} (h : x.Has ptr n) : (x.write a m f).Has ptr n := by
  intro i hi
  obtain ⟨hk, hx⟩ := h i hi
  refine ⟨hk, ?_⟩
  rw [View.write]
  split
  case isTrue  => exact Option.some_ne_none _
  case isFalse => exact hx

theorem handlePoll_spec (ptr : Nat) :
    Prog.Triple device Irq (Point b x con F .process) (handlePoll ptr) fun result σ =>
      (x.Has ptr 4 ∧ (result = 0 ∨ result = 1) ∨ ¬x.Has ptr 4 ∧ result = -1) ∧ Stored b x con F ptr 4 σ := by
  refine .bind (userWritableAfter_spec ptr) fun n => .fact fun hn => .ite (fun hs => ?_) fun hs => ?_
  case refine_1 =>
    have hx : ¬x.Has ptr 4 := fun h => absurd ((hn 4).mp h) <| Int.not_le.mpr hs
    exact .pure stable fun _ h => ⟨.inr ⟨hx, rfl⟩, h.stored ptr 4⟩
  case refine_2 =>
    have hx : x.Has ptr 4 := (hn 4).mpr <| Int.not_lt.mp hs
    refine .bind kbdPopEvent_spec fun event => .ite (fun _ => ?_) fun _ => .bind (store32_spec hx) fun _ => ?_
    case refine_1 => exact .pure stable fun _ h => ⟨.inl ⟨hx, .inl rfl⟩, h.stored ptr 4⟩
    case refine_2 => exact .pure stable fun _ h => ⟨.inl ⟨hx, .inr rfl⟩, _, h, fun va hva => if_neg hva⟩

theorem handleTimeMs_spec (ptr : Nat) :
    Prog.Triple device Irq (Point b x con F .process) (handleTimeMs ptr) fun result σ =>
      (x.Has ptr 8 ∧ result = 0 ∨ ¬x.Has ptr 8 ∧ result = -1) ∧ Stored b x con F ptr 8 σ := by
  refine .bind (userWritableAfter_spec ptr) fun n => .fact fun hn => .ite (fun hs => ?_) fun hs => ?_
  case refine_1 =>
    have hx : ¬x.Has ptr 8 := fun h => absurd ((hn 8).mp h) <| Int.not_le.mpr hs
    exact .pure stable fun _ h => ⟨.inr ⟨hx, rfl⟩, h.stored ptr 8⟩
  case refine_2 =>
    have hx : x.Has ptr 8 := (hn 8).mpr <| Int.not_lt.mp hs
    have hk := (hx 4 (by decide)).left
    have he : (ptr + 4) % 2 ^ 32 = ptr + 4 := by
      simp only [kernbase] at hk
      omega
    have hupper : x.Has (ptr + 4) 4 := fun i hi => Nat.add_assoc ptr 4 i ▸ hx (4 + i) (by omega)
    refine .bind pitMonotonicMs_spec fun ms => .bind (store32_spec fun i hi => hx i (by omega)) fun _ => ?_
    rw [he]
    refine .bind (store32_spec (has_write hupper)) fun _ => .pure stable fun σ h =>
      ⟨.inl ⟨hx, rfl⟩, _, h, fun va hva => ?_⟩
    -- Neither of the two words contains the address.
    rw [View.write, if_neg (by omega), View.write, if_neg (by omega)]

end Point

-- What holds after `trap`, which has been called by the process with the registers `r`.
def After (b : Origin) (x : View) (con : List UInt8) (r : Registers) : TrapEnd → Os → Prop
  | .returned r', σ => ¬r.Kills ∧ ∃ x' msg, r.Returns x msg r' ∧ Point b x' (con ++ msg) ModesAgree .process σ ∧
                         ∀ va, ¬r.Stores va → x' va = x va
  | .killed, σ      => r.Kills ∧ TakenApart b (con ++ r.farewell)
                         ModesText (.ofWord r.es) σ
  | .asleep, σ      => r.Sleeps ∧ Point b x con ModesAgree .process σ
  | .halted, _      => False

namespace Point

-- The process goes on, with the result of a system call.
theorem returned_spec {p : KernelProg Int} (hn : r.intNo.toNat = tSyscall) (hk : ¬r.Kills)
    (hp : Prog.Triple device Irq (Point b x con ModesAgree .process) p fun result σ => ∃ x' msg,
        r.Answers x result msg ∧ Point b x' (con ++ msg) ModesAgree .process σ ∧ ∀ va, ¬r.Stores va → x' va = x va) :
    Prog.Triple device Irq (Point b x con ModesAgree .process)
      (do return .returned (r.withResult (← p))) (After b x con r) := by
  refine .bind hp fun result => .pure (.exists fun _ => .exists fun _ => .and (.const _) <| .and stable (.const _)) ?_
  intro σ h
  obtain ⟨x', msg, ha, h⟩ := h
  have hr : r.Returns x msg (r.withResult result) := by
    rw [Registers.Returns, if_pos hn]
    exact ⟨result, rfl, ha⟩
  exact ⟨hk, x', msg, hr, h⟩

-- The process sees the same memory as before, and nothing has been printed.
theorem same_spec {p : KernelProg Int} (hn : r.intNo.toNat = tSyscall) (hk : ¬r.Kills)
    (hp : Prog.Triple device Irq (Point b x con ModesAgree .process) p fun result σ =>
        r.Answers x result [] ∧ Point b x con ModesAgree .process σ) :
    Prog.Triple device Irq (Point b x con ModesAgree .process)
      (do return .returned (r.withResult (← p))) (After b x con r) :=
  returned_spec hn hk <| hp.post fun _ _ h =>
    ⟨x, [], h.left, (List.append_nil con).symm ▸ h.right, fun _ _ => rfl⟩

theorem printed_spec (hn : r.intNo.toNat = tSyscall) (hk : ¬r.Kills) {msg : List UInt8} {result : Int}
    (ha : r.Answers x result msg) : Prog.Triple device Irq (Point b x con ModesAgree .process)
      (do execute <| .printk msg; return .returned (r.withResult result)) (After b x con r) := by
  refine .bind (execute_spec (fun _ h => h.print msg) stable) fun _ => ?_
  have hr : r.Returns x msg (r.withResult result) := by
    rw [Registers.Returns, if_pos hn]
    exact ⟨result, rfl, ha⟩
  exact .pure stable fun _ h => ⟨hk, x, msg, hr, h, fun _ _ => rfl⟩

theorem handleSyscall_spec (hn : r.intNo.toNat = tSyscall) (rounds : Nat) :
    Prog.Triple device Irq (Point b x con ModesAgree .process)
      (handleSyscall rounds r) (After b x con r) := by
  have survives (h : r.eax.toNat ≠ 0) : ¬r.Kills := by
    rw [Registers.Kills, hn]
    simp only [tSyscall]
    omega
  have stores {size : Nat} {σ : Os} {result : Int} (ha : r.Answers x result [])
      (hs : ∀ va, r.ebx.toNat ≤ va ∧ va < r.ebx.toNat + size → r.Stores va)
      (h : Stored b x con ModesAgree r.ebx.toNat size σ) : ∃ x' msg, r.Answers x result msg ∧
        Point b x' (con ++ msg) ModesAgree .process σ ∧ ∀ va, ¬r.Stores va → x' va = x va := by
    obtain ⟨x', h, hx⟩ := h
    exact ⟨x', [], ha, (List.append_nil con).symm ▸ h, fun va hva => hx va <| mt (hs va) hva⟩
  rw [handleSyscall]
  split
  case h_1 he =>
    have hk : r.Kills := .inr ⟨hn, he⟩
    have hf : r.farewell = (if r.ebx.toNat = 0 then "* success\n" else "* failure\n").toUTF8.toList :=
      if_neg (by rw [hn]; decide)
    refine .bind (printk_spec _) fun _ => (killproc_spec _).post fun e σ h => ?_
    obtain ⟨he, h⟩ := h
    subst he
    exact ⟨hk, hf.symm ▸ h⟩
  case h_2 he  => exact printed_spec hn (survives <| by omega) <| by rw [Registers.Answers, he]; exact ⟨rfl, rfl⟩
  case h_3 he  => exact printed_spec hn (survives <| by omega) <| by rw [Registers.Answers, he]; exact ⟨rfl, rfl⟩
  case h_4 he  =>
    refine .bind (getUserspacePtr_spec _) fun p => .fact fun hp => ?_
    have hs (hz : p ≠ 0) : x.IsString p.toNat := by
      rcases hp with ⟨he, hs⟩ | ⟨he, _⟩
      case inl => exact he ▸ hs
      case inr => exact absurd he hz
    refine returned_spec hn (survives <| by omega) <| (handlePuts_spec hs).post fun result σ h => ?_
    obtain ⟨msg, ha, h⟩ := h
    refine ⟨x, msg, ?_, h, fun _ _ => rfl⟩
    rw [Registers.Answers, he]
    rcases ha with ⟨hz, hr, hm⟩ | ⟨hz, hr, hm⟩
    case inl =>
      rcases hp with ⟨he, hx⟩ | ⟨he, _⟩
      case inl =>
        subst he
        exact .inl ⟨fun h₀ => hz <| congrArg Nat.cast h₀, hx, hr, hm⟩
      case inr => exact absurd he hz
    case inr =>
      refine .inr ⟨fun h₀ => ?_, hr, hm⟩
      rcases hp with ⟨he, _⟩ | ⟨_, hs⟩
      case inl => exact h₀.left <| Int.ofNat_inj.mp <| he.symm.trans hz
      case inr => exact hs h₀.right
  case h_5 he  =>
    refine same_spec hn (survives <| by omega) <| kbdPopEvent_spec.post fun _ _ h => ⟨?_, h⟩
    rw [Registers.Answers, he]
    exact rfl
  case h_6 he  =>
    refine same_spec hn (survives <| by omega) <| (handleEnter13h_spec _).post fun _ _ h => ⟨?_, h.right⟩
    rw [Registers.Answers, he]
    exact ⟨rfl, h.left⟩
  case h_7 he  =>
    refine same_spec hn (survives <| by omega) <| handleLeave13h_spec.post fun _ _ h => ⟨?_, h.right⟩
    rw [Registers.Answers, he]
    exact ⟨h.left, rfl⟩
  case h_8 he  =>
    refine returned_spec hn (survives <| by omega) <| (handlePoll_spec _).post fun _ _ h =>
      stores ?_ (fun va hva => ⟨hn, .inl ⟨he, hva⟩⟩) h.right
    rw [Registers.Answers, he]
    exact ⟨rfl, h.left⟩
  case h_9 he  =>
    refine returned_spec hn (survives <| by omega) <| (handleTimeMs_spec _).post fun _ _ h =>
      stores ?_ (fun va hva => ⟨hn, .inr ⟨he, hva⟩⟩) h.right
    rw [Registers.Answers, he]
    exact ⟨rfl, h.left⟩
  case h_10 he =>
    have hk := survives <| by omega
    refine .ite (fun hneg => same_spec hn hk <| .pure stable fun _ h => ⟨?_, h⟩) fun hneg => ?_
    case refine_1 =>
      rw [Registers.Answers, he]
      exact ⟨rfl, (if_pos hneg).symm⟩
    case refine_2 =>
      refine .bind (msleep_spec rounds _) fun awake => .fact fun hpos => .pure stable fun σ h => ?_
      have hr : r.Returns x [] (r.withResult 0) := by
        rw [Registers.Returns, if_pos hn]
        refine ⟨0, rfl, ?_⟩
        rw [Registers.Answers, he]
        exact ⟨rfl, (if_neg hneg).symm⟩
      cases awake
      case false => exact ⟨⟨hn, he, hpos rfl⟩, h⟩
      case true  => exact ⟨hk, x, [], hr, (List.append_nil con).symm ▸ h, fun _ _ => rfl⟩
  case h_11 he =>
    refine same_spec hn (survives <| by omega) <| (handleBeep_spec _).post fun _ _ h => ⟨?_, h.right⟩
    rw [Registers.Answers, he]
    exact ⟨h.left, rfl⟩
  case h_12 he _ _ _ _ _ _ _ _ _ _ =>
    refine printed_spec hn (survives he) ?_
    rw [Registers.Answers]
    split
    case h_11 => exact ⟨rfl, rfl⟩
    all_goals contradiction

theorem endOfInterrupt_spec (intNo : Nat) :
    Prog.Triple device Irq (Point b x con F c) (endOfInterrupt intNo) fun _ => Point b x con F c := by
  have same : Prog.Triple device Irq (Point b x con F c) (pure ()) fun _ => Point b x con F c :=
    .pure stable fun _ h => h
  have leader : Prog.Triple device Irq (Point b x con F c)
      (if intNo ≥ irq0 ∧ intNo ≤ irq0 + 15 then execute <| .portByteOut 0x20 0x20 else pure ()) fun _ =>
        Point b x con F c :=
    .ite (fun _ => portByteOut_spec <| .inl rfl) fun _ => same
  rw [endOfInterrupt]
  exact .ite (fun _ => .bind (portByteOut_spec <| .inr rfl) fun _ => leader) fun _ => leader

-- Whatever the process has been interrupted by, and wherever the interrupts of the devices occur meanwhile.
theorem trap_spec (hc : r.cs.toNat % 4 ≠ 0) (rounds : Nat) :
    Prog.Triple device Irq (Point b x con ModesAgree .process)
      (trap rounds r) (After b x con r) := by
  refine .bind (endOfInterrupt_spec _) fun _ => ?_
  have same (hk : ¬r.Kills) (hr : r.Returns x [] r) : Prog.Triple device Irq (Point b x con ModesAgree .process)
      (pure (.returned r)) (After b x con r) :=
    .pure stable fun _ h => ⟨hk, x, [], hr, (List.append_nil con).symm ▸ h, fun _ _ => rfl⟩
  have hh := interruptHandlers_eq r.intNo.toNat
  by_cases hs : r.intNo.toNat = tSyscall
  case pos =>
    rw [if_pos hs] at hh
    simp only [callHandler, hh]
    exact handleSyscall_spec hs rounds
  case neg =>
    rw [if_neg hs] at hh
    have hr : r.Returns x [] r := (if_neg hs).mpr ⟨rfl, rfl⟩
    have survives (hn : ¬r.intNo.toNat < 32) : ¬r.Kills := fun hk => hk.elim hn fun hk => hs hk.left
    by_cases ht : r.intNo.toNat = irq0
    case pos =>
      rw [if_pos ht] at hh
      simp only [callHandler, hh]
      exact .bind timer_spec fun _ => same (survives <| ht ▸ by decide) hr
    case neg =>
      rw [if_neg ht] at hh
      by_cases hk : r.intNo.toNat = irq1
      case pos =>
        rw [if_pos hk] at hh
        simp only [callHandler, hh]
        exact .bind keyboard_spec fun _ => same (survives <| hk ▸ by decide) hr
      case neg =>
        rw [if_neg hk] at hh
        simp only [callHandler, hh]
        refine .ite (fun hl => .ite (fun _ => ?_) fun hu => absurd hc hu) fun hl => same (survives hl) hr
        -- An exception of the process, which is killed for it.
        refine .bind (printk_spec _) fun _ => .bind (printk_spec _) fun _ => .bind (printk_spec _) fun _ => ?_
        refine (killproc_spec _).post fun e σ h => ?_
        obtain ⟨he, h⟩ := h
        subst he
        have hf : r.farewell = "Exception: ".toUTF8.toList ++
            (exceptionMessage r.intNo.toNat).toUTF8.toList ++ "\n".toUTF8.toList := if_pos hl
        refine ⟨.inl hl, ?_⟩
        rw [hf, ← List.append_assoc, ← List.append_assoc]
        exact h

end Point

end Os
