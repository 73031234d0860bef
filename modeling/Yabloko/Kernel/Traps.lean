import Yabloko.Disk.RoundTrip
import Yabloko.Kernel.Apart
import Yabloko.Kernel.Handlers
import Yabloko.Kernel.Segments

-- If the file exists, it is an executable which fits below the stack, and there are enough pages for every such file.
def Machine.Runnable (s : Machine) (disk : Disk) (name : CString) : Prop :=
  ∀ statbuf, disk.stat name = some statbuf →
    statbuf.BelowStack ∧ Executable (disk.file statbuf) statbuf.size ∧ 2 ^ 14 ≤ s.freePages.length

open KernelProg

namespace Os

-- The kernel has been booted, and the shell has printed its prompt.
def boot (machine : Machine) (kbd : Keyboard) (speaker : Speaker) (pic : Pic) : Os where
  machine := machine
  mode13UserFbPtr := 0
  mode13Enabled := false
  graphics := false
  kbd := kbd.init
  kbdData := 0
  speaker := speaker
  pic := (initPic.run Pic.device pic).2
  console := "YABLOKO\n\n> ".toUTF8.toList
  ticks := 0
  stop := none

-- The shell handles the keys and starts programs, and what it echoes is arbitrary. A process changes its memory,
-- and it calls `trap` by its exceptions and by its system calls. Everything can be interrupted by the devices.
inductive Step (trapret : Nat) (disk : Disk) : Control × Os → Control × Os → Prop
  | key {σ event kbd} (echo : List UInt8) : σ.stop = none → σ.kbd.popEvent = some (event, kbd) →
      Step trapret disk (.shell, σ) (.shell, { σ with kbd }.print echo)
  | returned {σ s' name text message} : σ.stop = none → Spells name text →
      (Kernel.runElf trapret disk name).run σ.machine = .ok (.returned message) s' →
      Step trapret disk (.shell, σ) (.shell, { σ with machine := s' }.print (text ++ message.toUTF8.toList))
  | started {σ s' name stack imageTop} : σ.stop = none →
      (Kernel.runElf trapret disk name).run σ.machine = .ok (.swtch stack imageTop) s' →
      Step trapret disk (.shell, σ) (.process, { σ with machine := s' })
  | stopped {σ s' name fault} : σ.stop = none →
      (Kernel.runElf trapret disk name).run σ.machine = .error fault s' →
      Step trapret disk (.shell, σ) (.stopped, { σ with machine := s' }.fail fault)
  | write {σ mem} : σ.stop = none → System.ProcessWrites σ.machine mem →
      Step trapret disk (.process, σ) (.process, { σ with machine := { σ.machine with mem } })
  | trap {σ σ' rounds r r'} : σ.stop = none → r.cs.toNat % 4 ≠ 0 →
      Prog.Runs device Irq (trap rounds r) σ (.returned r') σ' → Step trapret disk (.process, σ) (.process, σ')
  | killed {σ σ' rounds r} : σ.stop = none → r.cs.toNat % 4 ≠ 0 →
      Prog.Runs device Irq (trap rounds r) σ .killed σ' → Step trapret disk (.process, σ) (.shell, σ')
  | irq {c σ σ'} : Irq σ σ' → Step trapret disk (c, σ) (c, σ')

-- What holds between the steps.
def Alive (b : Origin) : Control × Os → Prop
  | (.shell, σ)   => ∃ x, Point b x σ.console ModesText .shell σ
  | (.process, σ) => ∃ x, Point b x σ.console ModesAgree .process σ
  | _             => False

-- The steps with which the kernel stops: a process is killed through whose `es` its pages cannot be filled, or a
-- program is started which cannot be run.
inductive Crash (trapret : Nat) (disk : Disk) : Control × Os → Control × Os → Prop
  | killed {σ σ' rounds r} : r.cs.toNat % 4 ≠ 0 → r.Kills → (Selector.ofWord r.es).writable = false →
      Prog.Runs device Irq (trap rounds r) σ .killed σ' → σ'.stop = some (.fault Kernel.generalProtection) →
      Crash trapret disk (.process, σ) (.shell, σ')
  | runElf {σ s' name fault} : ¬σ.machine.Runnable disk name →
      (Kernel.runElf trapret disk name).run σ.machine = .error fault s' →
      Crash trapret disk (.shell, σ) (.stopped, { σ with machine := s' }.fail fault)

def Crashed (trapret : Nat) (disk : Disk) (p p' : Control × Os) : Prop :=
  ∃ q, Relation.ReflTransGen (Step trapret disk) p q ∧ q.2.stop = none ∧ Crash trapret disk q p'

-- What a process and the user can see of a system call or of an exception.
def Outcome (rounds : Nat) (σ : Os) (r : Registers) : TrapEnd → Os → Prop
  | .returned r', σ' => ¬r.Kills ∧ σ'.stop = none ∧ σ'.mode13Enabled = σ'.graphics ∧
                          (∃ msg, r.Returns σ.machine.view msg r' ∧ σ'.console = σ.console ++ msg) ∧
                          (∀ va < kernbase, ¬r.Stores va → σ'.machine.view va = σ.machine.view va) ∧
                          (r.Sleeps → σ.Slept r σ')
  | .killed, σ'      => r.Kills ∧
                          if (Selector.ofWord r.es).writable then
                            σ'.stop = none ∧ σ'.console = σ.console ++ r.farewell ∧
                              σ'.mode13Enabled = false ∧ σ'.graphics = false
                          else
                            σ'.stop = some (.fault Kernel.generalProtection)
  | .asleep, σ'      => r.Sleeps ∧ σ'.stop = none ∧ σ'.mode13Enabled = σ'.graphics ∧ σ'.console = σ.console ∧
                          (∀ va < kernbase, σ'.machine.view va = σ.machine.view va) ∧ σ.Wakes rounds r σ'
  | .halted, _       => False

variable {trapret : Nat} {disk : Disk} {σ σ' : Os} {p p' : Control × Os} {b : Origin}
  {rounds : Nat} {c : Control} {r : Registers}
  {e : TrapEnd} {x : View} {con : List UInt8} {F : Bool → Bool → Prop} {s s₀ : Machine} {kbd : Keyboard}
  {speaker : Speaker} {pic : Pic}

theorem Step.running (h : Step trapret disk p p') : p.2.stop = none := by
  cases h
  case irq hi => cases hi; assumption
  all_goals assumption

-- The memory and the messages are the ones which the process has.
theorem Point.self (h : Point b x con F c σ) : Point b σ.machine.view σ.console F c σ :=
  { h with
    shows := fun _ _ => rfl
    console := rfl }

theorem Alive.running (h : Alive b (c, σ)) : σ.stop = none := by
  cases c
  case shell | process =>
    obtain ⟨_, h⟩ := h
    exact h.stop
  all_goals exact h.elim

theorem boot_alive {use : Nat → Use} {free : List Nat} {k : Nat} (h : Booted s use free k) :
    Alive ⟨k, trapret, disk, .boot s⟩ (.shell, boot s kbd speaker pic) :=
  ⟨s.view, {
    stop := rfl
    kbd := ⟨_, kbd.init_remembers⟩
    pic := Pic.run_initPic pic
    system := ⟨use, free, .of_booted h, rfl⟩
    runs := .refl
    shows := fun _ _ => rfl
    console := rfl
    modes := ⟨rfl, rfl⟩ }⟩

-- All programs which can be run are entered.
theorem Point.runElf_ok (h : Point b x con F .shell σ) (name : CString) (hrun : σ.machine.Runnable b.disk name) :
    ∃ e s', (Kernel.runElf b.trapret b.disk name).run σ.machine = .ok e s' := by
  obtain ⟨use, free, hrest, _⟩ := h.system
  have hrest : σ.machine.Rests use free b.kernel := hrest
  cases hs : b.disk.stat name
  case none         => exact ⟨_, _, by rw [Kernel.runElf, hs]; rfl⟩
  case some statbuf =>
    obtain ⟨hb, hx, hl⟩ := hrun statbuf hs
    rw [hrest.owns.freePages_eq] at hl
    obtain ⟨stack, top, s', hr⟩ := Kernel.exists_swtch hrest hs hb hx hl b.trapret
    exact ⟨_, s', hr⟩

theorem Crash.stop_ne (h : Crash trapret disk p p') : p'.2.stop ≠ none := by
  cases h
  case killed hs  => exact hs ▸ Option.some_ne_none _
  case runElf e _ _ =>
    cases e
    all_goals exact Option.some_ne_none _

-- The steps keep the invariant until the kernel stops.
theorem Alive.step (h : Alive b p) (hs : Step b.trapret b.disk p p') :
    Alive b p' ∨ Crash b.trapret b.disk p p' := by
  cases hs
  case key σ _ kbd echo _ hp            =>
    obtain ⟨x, h⟩ := h
    obtain ⟨l, hl⟩ := h.kbd
    obtain ⟨_, _, he, hl', _⟩ := hl.pop
    cases he.symm.trans hp
    have h' : Point b x σ.console ModesText .shell { σ with kbd } := { h with kbd := ⟨_, hl'⟩ }
    exact .inl ⟨x, h'.print echo⟩
  case returned σ s' name _ _ _ _ hr    =>
    obtain ⟨x, h⟩ := h
    have h' := h.control (.runElf name) (by simp) <| .command name rfl
    exact .inl ⟨_, (h'.machine .shell (by simp) (.returned rfl hr) fun _ _ => rfl).print _⟩
  case started σ s' name _ _ _ hr       =>
    obtain ⟨x, h⟩ := h
    have h' := h.control (.runElf name) (by simp) <| .command name rfl
    have hp := h'.machine .process (by simp) (.started rfl hr) fun _ _ => rfl
    exact .inl ⟨_, { hp with modes := h.modes.left.trans h.modes.right.symm }⟩
  case stopped σ s' name _ _ hr         =>
    obtain ⟨x, h⟩ := h
    refine .inr <| .runElf (fun hrun => ?_) hr
    obtain ⟨_, _, hr'⟩ := h.runElf_ok name hrun
    cases hr.symm.trans hr'
  case write σ mem _ hm                 =>
    obtain ⟨x, h⟩ := h
    exact .inl ⟨_, h.machine .process (by simp) (.write rfl hm) fun _ _ => rfl⟩
  case trap rounds _ _ _ hc hr          =>
    obtain ⟨x, h⟩ := h
    obtain ⟨_, x', msg, _, h', _⟩ := Point.trap_spec hc rounds _ _ _ h hr
    exact .inl ⟨_, h'.self⟩
  case killed rounds r _ hc hr          =>
    obtain ⟨x, h⟩ := h
    obtain ⟨hk, ht⟩ := Point.trap_spec hc rounds _ _ _ h hr
    rw [TakenApart] at ht
    split at ht
    case isTrue hw  =>
      obtain ⟨x', h'⟩ := ht
      exact .inl ⟨_, h'.self.control .shell (by simp) <| .swtch rfl⟩
    case isFalse hw => exact .inr <| .killed hc hk (eq_false_of_ne_true hw) hr ht
  case irq c _ _ hi                     =>
    left
    cases c
    case shell | process =>
      obtain ⟨x, h⟩ := h
      exact ⟨_, (Point.stable _ _ hi h).self⟩
    all_goals exact h.elim

theorem Alive.run (h : Alive b p) (hs : Relation.ReflTransGen (Step b.trapret b.disk) p p') :
    Alive b p' ∨ Crashed b.trapret b.disk p p' := by
  induction hs
  case refl            => exact .inl h
  case tail q _ hs' hs hi =>
    rcases hi with hi | ⟨_, _, _, hi⟩
    case inl => exact (hi.step hs).imp_right fun hcrash => ⟨q, hs', hs.running, hcrash⟩
    case inr => exact absurd hs.running hi.stop_ne

theorem boot_run (hf : s.freelist = 0) (ht : s.userTask = 0) (hr : Kernel.kmain.run s = .ok () s₀)
    (hs : Relation.ReflTransGen (Step trapret disk) (.shell, boot s₀ kbd speaker pic) p) :
    (∃ k, Alive ⟨k, trapret, disk, .boot s₀⟩ p) ∨ Crashed trapret disk (.shell, boot s₀ kbd speaker pic) p := by
  obtain ⟨s₁, use, free, k, hr₁, hb, _⟩ := Kernel.kmain_booted hf ht
  rw [hr] at hr₁
  cases hr₁
  exact ((boot_alive hb).run hs).imp_left fun h => ⟨k, h⟩

-- An exception of the process always ends.
theorem Alive.exists_killed (h : Alive b (.process, σ)) (hc : r.cs.toNat % 4 ≠ 0) (hk : r.Kills) : ∃ σ',
    Prog.Runs device Irq (trap 0 r) σ .killed σ' ∧
      TakenApart b (σ.console ++ r.farewell) ModesText
        (.ofWord r.es) σ' := by
  obtain ⟨x, h⟩ := h
  have hr := Prog.Runs.of_run device Irq (trap 0 r) σ
  have ha := Point.trap_spec hc 0 _ _ _ h hr
  cases he : ((trap 0 r).run device σ).1
  all_goals rw [he] at hr ha
  case killed   => exact ⟨_, hr, ha.right⟩
  case returned => exact absurd hk ha.left
  case asleep   => exact absurd hk ha.left.survives
  case halted   => exact ha.elim

-- The registers of a process which has divided by zero.
def division (es : Word) : Registers where
  edi := 0
  esi := 0
  ebp := 0
  esp := 0
  ebx := 0
  edx := 0
  ecx := 0
  eax := 0
  gs := 0x23
  fs := 0x23
  es := es
  ds := 0x23
  intNo := 0
  errCode := 0
  eip := 0x400000
  cs := 0x1b
  eflags := 0x202
  useresp := 0xf00000
  ss := 0x23

theorem exists_division (es : Word) : ∃ b s₀ kbd speaker pic σ σ', Kernel.kmain.run .zero = .ok () s₀ ∧
      Relation.ReflTransGen (Step 0 (.single (bssFile 0))) (.shell, boot s₀ kbd speaker pic) (.process, σ) ∧
      σ.stop = none ∧ Prog.Runs device Irq (trap 0 (division es)) σ .killed σ' ∧
      TakenApart b (σ.console ++ (division es).farewell)
        ModesText (.ofWord es) σ' := by
  obtain ⟨s₀, use, free, k, hr, hb, _⟩ := Kernel.kmain_booted (s := .zero) rfl rfl
  have hl := hb.length_eq
  obtain ⟨stack, top, s, hs⟩ := Kernel.exists_swtch (.of_booted hb)
    (show Disk.stat (.single (bssFile 0)) (fun i => if i = 0 then 107 else 0) = some ⟨512, 1⟩ from rfl)
    ⟨by decide, by decide⟩ (executable_bssFile 0) (by omega) 0
  let pic : Pic := ⟨⟨0, 0, 0, 0, 0, fun _ => false⟩, ⟨0, 0, 0, 0, 0, fun _ => false⟩⟩
  let σ := boot s₀ default ⟨0, 0, 0, 0, 0, 0⟩ pic
  have hstep : Step 0 (.single (bssFile 0)) (.shell, σ) (.process, { σ with machine := s }) := .started rfl hs
  rcases (boot_alive hb).step hstep with h | h
  case inl =>
    obtain ⟨σ', hk, ht⟩ := h.exists_killed (r := division es)
      (show (0x1b : Word).toNat % 4 ≠ 0 by decide) <| .inl <| show (0 : Word).toNat < 32 by decide
    exact ⟨_, s₀, _, _, pic, _, σ', hr, .single hstep, rfl, hk, ht⟩
  case inr => cases h

-- Whatever has happened before, each exception and each system call of a process has the right outcome.
theorem run_trap (hf : s.freelist = 0) (ht : s.userTask = 0) (hr : Kernel.kmain.run s = .ok () s₀)
    (hs : Relation.ReflTransGen (Step trapret disk) (.shell, boot s₀ kbd speaker pic) (.process, σ))
    (hn : σ.stop = none) (hc : r.cs.toNat % 4 ≠ 0) (h : Prog.Runs device Irq (trap rounds r) σ e σ') :
    Outcome rounds σ r e σ' := by
  rcases boot_run hf ht hr hs with ⟨k, hp⟩ | ⟨_, _, _, hp⟩
  case inr => exact absurd hn hp.stop_ne
  case inl =>
    obtain ⟨x, hp⟩ := hp
    have ha := Point.trap_spec hc rounds _ _ _ hp.self h
    cases e
    case returned r' =>
      obtain ⟨hk, x', msg, hret, h', hx⟩ := ha
      exact ⟨hk, h'.stop, h'.modes, ⟨msg, hret, h'.console⟩,
        fun va hva hst => (h'.shows va hva).trans (hx va hst), fun hsleep => hp.slept hsleep h⟩
    case killed      =>
      obtain ⟨hk, ht⟩ := ha
      refine ⟨hk, ?_⟩
      rw [TakenApart] at ht
      split at ht
      case isTrue hw  =>
        obtain ⟨x', h'⟩ := ht
        rw [if_pos hw]
        exact ⟨h'.stop, h'.console, h'.modes.left, h'.modes.right⟩
      case isFalse hw =>
        rw [if_neg hw]
        exact ht
    case asleep      =>
      obtain ⟨hsleep, h'⟩ := ha
      exact ⟨hsleep, h'.stop, h'.modes, h'.console, fun va hva => h'.shows va hva, hp.wakes hsleep h⟩
    case halted      => exact ha.elim

-- A program is started, and it divides by zero.
theorem run_trap_division : ∃ s₀ kbd speaker pic σ σ', Kernel.kmain.run .zero = .ok () s₀ ∧
    Relation.ReflTransGen (Step 0 (.single (bssFile 0))) (.shell, boot s₀ kbd speaker pic) (.process, σ) ∧
    σ.stop = none ∧ Prog.Runs device Irq (trap 0 (division 0x23)) σ .killed σ' ∧
    Outcome 0 σ (division 0x23) .killed σ' := by
  obtain ⟨_, s₀, kbd, speaker, pic, σ, σ', hr, hs, hn, hk, _⟩ := exists_division 0x23
  exact ⟨s₀, kbd, speaker, pic, σ, σ', hr, hs, hn, hk, run_trap rfl rfl hr hs hn (by decide) hk⟩

-- The kernel only stops in one of these two steps.
theorem run_stop (hf : s.freelist = 0) (ht : s.userTask = 0) (hr : Kernel.kmain.run s = .ok () s₀)
    (hs : Relation.ReflTransGen (Step trapret disk) (.shell, boot s₀ kbd speaker pic) (c, σ)) :
    σ.stop = none ∨ Crashed trapret disk (.shell, boot s₀ kbd speaker pic) (c, σ) :=
  (boot_run hf ht hr hs).imp_left fun h => h.elim fun _ h => h.running

-- A process which has loaded the null selector divides by zero. A file is started which reaches the stack.
theorem run_stop_null : (∃ s₀ kbd speaker pic σ, Kernel.kmain.run .zero = .ok () s₀ ∧
      Relation.ReflTransGen (Step 0 (.single (bssFile 0))) (.shell, boot s₀ kbd speaker pic) (.shell, σ) ∧
      σ.stop = some (.fault Kernel.generalProtection) ∧
      (σ.stop = none ∨ Crashed 0 (.single (bssFile 0)) (.shell, boot s₀ kbd speaker pic) (.shell, σ))) ∧
    ∃ s₀ kbd speaker pic σ, Kernel.kmain.run .zero = .ok () s₀ ∧
      Relation.ReflTransGen (Step 0 .largeFile) (.shell, boot s₀ kbd speaker pic) (.stopped, σ) ∧
      σ.stop = some (.fault <| .panic "remap") ∧
      (σ.stop = none ∨ Crashed 0 .largeFile (.shell, boot s₀ kbd speaker pic) (.stopped, σ)) := by
  obtain ⟨_, s₀, kbd, speaker, pic, σ, σ', hr, hs, hn, hk, ht⟩ := exists_division 0
  constructor
  case left  =>
    have hs' := hs.tail <| .killed hn (by decide) hk
    rw [TakenApart, if_neg (by decide)] at ht
    exact ⟨s₀, kbd, speaker, pic, σ', hr, hs', ht, run_stop rfl rfl hr hs'⟩
  case right =>
    obtain ⟨s₁, use, free, k, hr₁, hb, _⟩ := Kernel.kmain_booted (s := .zero) rfl rfl
    obtain ⟨s', hr'⟩ := hb.runElf_largeFile
    have hstep : Step 0 .largeFile (.shell, boot s₁ kbd speaker pic) (.stopped, _) := .stopped rfl hr'
    exact ⟨s₁, kbd, speaker, pic, _, hr₁, .single hstep, rfl, run_stop rfl rfl hr₁ <| .single hstep⟩

-- The handlers and the shell take the steps of the system, as long as the kernel does not stop.
theorem run_refines (hf : s.freelist = 0) (ht : s.userTask = 0) (hr : Kernel.kmain.run s = .ok () s₀)
    (hs : Relation.ReflTransGen (Step trapret disk) (.shell, boot s₀ kbd speaker pic) (c, σ)) (hn : σ.stop = none) :
    Relation.ReflTransGen (System.Step trapret disk) (.boot s₀) (σ.system c) := by
  rcases boot_run hf ht hr hs with ⟨k, h⟩ | ⟨_, _, _, h⟩
  case inr => exact absurd hn h.stop_ne
  case inl =>
    cases c
    case shell | process =>
      obtain ⟨_, h⟩ := h
      exact h.runs
    all_goals exact h.elim

-- A process has been started, and it has been killed.
theorem run_refines_division : ∃ s₀ kbd speaker pic σ, Kernel.kmain.run .zero = .ok () s₀ ∧
    Relation.ReflTransGen (Step 0 (.single (bssFile 0))) (.shell, boot s₀ kbd speaker pic) (.shell, σ) ∧
    σ.stop = none ∧ Relation.ReflTransGen (System.Step 0 (.single (bssFile 0))) (.boot s₀) (σ.system .shell) := by
  obtain ⟨_, s₀, kbd, speaker, pic, σ, σ', hr, hs, hn, hk, ht⟩ := exists_division 0x23
  have hs' := hs.tail <| .killed hn (by decide) hk
  rw [TakenApart, if_pos (by decide)] at ht
  obtain ⟨_, h⟩ := ht
  exact ⟨s₀, kbd, speaker, pic, σ', hr, hs', h.stop, run_refines rfl rfl hr hs' h.stop⟩

end Os
