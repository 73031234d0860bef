import Yabloko.Drivers.Keyboard
import Yabloko.Lib.Masking

-- The accesses to the static variables of the keyboard driver.
inductive KeyboardAccess
  | head
  | tail
  | size
  | queue (i : Nat)
  | setHead (head : Nat)
  | setTail (tail : Nat)
  | setSize (size : Nat)

namespace Keyboard

def device : Device KeyboardAccess Nat Keyboard
  | .head, kbd         => (kbd.eventHead, kbd)
  | .tail, kbd         => (kbd.eventTail, kbd)
  | .size, kbd         => (kbd.eventSize, kbd)
  -- There are no accesses behind the end of the queue.
  | .queue i, kbd      => ((kbd.eventQueue.read i).getD 0, kbd)
  | .setHead head, kbd => (0, { kbd with eventHead := head })
  | .setTail tail, kbd => (0, { kbd with eventTail := tail })
  | .setSize size, kbd => (0, { kbd with eventSize := size })

def Interrupts (rawScancode : UInt8) (kbd kbd' : Keyboard) : Prop :=
  kbd.interruptHandler rawScancode = some kbd'

end Keyboard

def irqSaveDisable : Prog (MaskOp KeyboardAccess) Nat Nat := do
  let eflags ← Prog.perform .pushf
  let _ ← Prog.perform .cli
  return eflags

def irqRestore (eflags : Nat) : Prog (MaskOp KeyboardAccess) Nat Unit := do
  let _ ← Prog.perform (.popf eflags)
  return

-- The access to a static variable.
def shared (a : KeyboardAccess) : Prog (MaskOp KeyboardAccess) Nat Nat :=
  Prog.perform (.access a)

def kbdPopEvent : Prog (MaskOp KeyboardAccess) Nat Nat := do
  let eflags ← irqSaveDisable
  let size ← shared .size
  if size = 0 then
    irqRestore eflags
    return 0
  else
    let tail ← shared .tail
    let event ← shared (.queue tail)
    let tail ← shared .tail
    let _ ← shared (.setTail ((tail + 1) % kbdEventQueueCapacity))
    let size ← shared .size
    let _ ← shared (.setSize ((size + 2 ^ 32 - 1) % 2 ^ 32))
    irqRestore eflags
    return event

def kbdClearBuffer : Prog (MaskOp KeyboardAccess) Nat Unit := do
  let eflags ← irqSaveDisable
  let _ ← shared (.setHead 0)
  let _ ← shared (.setTail 0)
  let _ ← shared (.setSize 0)
  irqRestore eflags

-- The calls of the kernel outside of the interrupt handler.
inductive KbdCall
  | popEvent
  | clearBuffer

-- The calls, one after the other, with the events which they return.
def kbdCalls : List KbdCall → Prog (MaskOp KeyboardAccess) Nat (List Nat)
  | []                    => return []
  | .popEvent :: calls    => do
    let event ← kbdPopEvent
    let events ← kbdCalls calls
    return event :: events
  | .clearBuffer :: calls => do
    kbdClearBuffer
    kbdCalls calls

def KeyboardOp.call : KeyboardOp → Option KbdCall
  | interrupt _ => none
  | pop         => some .popEvent
  | clear       => some .clearBuffer

def KeyboardOp.scancode : KeyboardOp → Option UInt8
  | interrupt rawScancode => some rawScancode
  | pop | clear           => none

namespace Keyboard

variable {kbd : Keyboard} {l : KeyList}

-- The accesses between `irq_save_disable` and `irq_restore`.
def popAccesses : Prog KeyboardAccess Nat Nat := do
  let size ← Prog.perform .size
  if size = 0 then
    return 0
  else
    let tail ← Prog.perform .tail
    let event ← Prog.perform (.queue tail)
    let tail ← Prog.perform .tail
    let _ ← Prog.perform (.setTail ((tail + 1) % kbdEventQueueCapacity))
    let size ← Prog.perform .size
    let _ ← Prog.perform (.setSize ((size + 2 ^ 32 - 1) % 2 ^ 32))
    return event

def clearAccesses : Prog KeyboardAccess Nat Unit := do
  let _ ← Prog.perform (.setHead 0)
  let _ ← Prog.perform (.setTail 0)
  let _ ← Prog.perform (.setSize 0)
  return

theorem kbdPopEvent_eq : kbdPopEvent = Prog.critical irqRestore popAccesses := by
  refine congrArg (Prog.op _) <| funext fun eflags => congrArg (Prog.op _) <| funext fun _ =>
    congrArg (Prog.op _) <| funext fun size => ?_
  show (if size = 0 then _ else _) = (if size = 0 then _ else _ : Prog KeyboardAccess Nat Nat).accesses >>= _
  split
  case isTrue  => rfl
  case isFalse => rfl

theorem irqRestore_restores : Prog.Restores device.recorded (Recorded Interrupts) irqRestore :=
  Prog.popf_restores

theorem Remembers.run_popAccesses (h : kbd.Remembers l) :
    kbd.popEvent = some (popAccesses.run device kbd) := by
  have hs := h.size_le
  have ht := h.tail_lt
  rw [popEvent]
  show _ = some ((if kbd.eventSize = 0 then _ else _ : Prog KeyboardAccess Nat Nat).run device kbd)
  by_cases h₀ : kbd.eventSize = 0
  case pos =>
    rw [if_pos h₀, if_pos h₀]
    rfl
  case neg =>
    obtain ⟨event, he⟩ := Option.isSome_iff_exists.mp <|
      Arr.read_isSome (a := kbd.eventQueue) (i := kbd.eventTail) (by omega) (by exact_mod_cast ht)
    have hm : (kbd.eventSize + 2 ^ 32 - 1) % 2 ^ 32 = kbd.eventSize - 1 := by
      simp only [kbdEventQueueCapacity] at hs
      omega
    rw [if_neg h₀, if_neg h₀, he]
    show some (event, kbd.dropOldest) = some (_, _)
    simp only [device, he, hm]
    rfl

open Masked

-- The operations on the list of keys which correspond to the calls and to the recorded interrupts.
structure Explains (ops : List KeyboardOp) (calls : List KbdCall) (s s' : Keyboard × List UInt8) (l : KeyList)
    (keys : List (Option Key)) (popped : List Nat) : Prop where
  calls : ops.filterMap KeyboardOp.call = calls
  irqs  : s'.2 = s.2 ++ ops.filterMap KeyboardOp.scancode
  state : s'.1.Remembers (ops.foldl KeyList.step (l, keys)).1
  pops  : List.Forall₂ Pops popped (ops.foldl KeyList.step (l, keys)).2

theorem Explains.trans {ops ops' : List KeyboardOp} {calls calls' : List KbdCall} {s s' s'' : Keyboard × List UInt8}
    {popped popped' : List Nat} {keys : List (Option Key)} (h : Explains ops calls s s' l keys popped)
    (h' : Explains ops' calls' s' s'' (ops.foldl KeyList.step (l, keys)).1
      (ops.foldl KeyList.step (l, keys)).2 popped') :
    Explains (ops ++ ops') (calls ++ calls') s s'' l keys popped' where
  calls := by rw [List.filterMap_append, h.calls, h'.calls]
  irqs := by rw [List.filterMap_append, h'.irqs, h.irqs, List.append_assoc]
  state := by
    rw [List.foldl_append]
    exact h'.state
  pops := by
    rw [List.foldl_append]
    exact h'.pops

theorem Remembers.irqs {popped : List Nat} {keys : List (Option Key)} {s s' : Keyboard × List UInt8}
    (h : s.1.Remembers l) (hp : List.Forall₂ Pops popped keys)
    (hi : Relation.ReflTransGen (Recorded Interrupts) s s') : ∃ ops, Explains ops [] s s' l keys popped := by
  induction hi
  case refl       => exact ⟨[], rfl, (List.append_nil _).symm, h, hp⟩
  case tail s₁ _ _ hi hr =>
    have ⟨ops, hr⟩ := hr
    cases hi
    case intro byte _ hb =>
      have ⟨kbd, hb', hk⟩ := hr.state.interrupt byte
      cases hb'.symm.trans hb
      have h₁ : Explains [.interrupt byte] [] s₁ (_, s₁.2 ++ [byte]) _ _ popped := ⟨rfl, rfl, hk, hr.pops⟩
      exact ⟨_, hr.trans h₁⟩

-- A call is an operation on the list of keys, in between of the interrupts.
theorem Remembers.runs_call {α : Type} {p : Prog KeyboardAccess Nat α} {a : α} {s s' : Masked (Keyboard × List UInt8)}
    {popped popped' : List Nat} {keys : List (Option Key)} {op : KeyboardOp} {call : KbdCall}
    (h : s.state.1.Remembers l) (hp : List.Forall₂ Pops popped keys) (hc : [op].filterMap KeyboardOp.call = [call])
    (hi : [op].filterMap KeyboardOp.scancode = [])
    (hop : ∀ kbd l keys, kbd.Remembers l → List.Forall₂ Pops popped keys → (p.run device kbd).1 = a →
      (p.run device kbd).2.Remembers (KeyList.step (l, keys) op).1 ∧
        List.Forall₂ Pops popped' (KeyList.step (l, keys) op).2)
    (hr : Prog.Runs (Masked.device device.recorded) (Irq (Recorded Interrupts)) (Prog.critical irqRestore p) s a s') :
    s'.enabled = s.enabled ∧ ∃ ops, Explains ops [call] s.state s'.state l keys popped' := by
  have ⟨he, s₁, h₁, ha, h₂⟩ := Prog.runs_critical irqRestore_restores hr
  rw [Prog.run_recorded] at ha h₂
  have ⟨ops₁, hx₁⟩ := h.irqs hp h₁
  have ⟨hk₂, hp₂⟩ := hop _ _ _ hx₁.state hx₁.pops ha
  have hx₂ : Explains [op] [call] s₁ ((p.run device s₁.1).2, s₁.2) _ _ popped' :=
    ⟨hc, by rw [hi, List.append_nil], hk₂, hp₂⟩
  have ⟨ops₃, hx₃⟩ := Remembers.irqs hk₂ hp₂ h₂
  exact ⟨he, _, hx₁.trans <| hx₂.trans hx₃⟩

theorem Remembers.popAccesses {popped : List Nat} {keys : List (Option Key)} {event : Nat} (h : kbd.Remembers l)
    (hp : List.Forall₂ Pops popped keys) (he : (Keyboard.popAccesses.run device kbd).1 = event) :
    (Keyboard.popAccesses.run device kbd).2.Remembers (KeyList.step (l, keys) .pop).1 ∧
      List.Forall₂ Pops (popped ++ [event]) (KeyList.step (l, keys) .pop).2 := by
  have ⟨event', kbd', hpop, hk, hv⟩ := h.pop
  have hx := h.run_popAccesses.symm.trans hpop
  rw [Option.some.injEq] at hx
  rw [hx] at he ⊢
  subst he
  exact ⟨hk, List.rel_append hp (.cons hv .nil)⟩

theorem Remembers.clearAccesses {popped : List Nat} {keys : List (Option Key)} {u : Unit} (h : kbd.Remembers l)
    (hp : List.Forall₂ Pops popped keys) (_ : (Keyboard.clearAccesses.run device kbd).1 = u) :
    (Keyboard.clearAccesses.run device kbd).2.Remembers (KeyList.step (l, keys) .clear).1 ∧
      List.Forall₂ Pops popped (KeyList.step (l, keys) .clear).2 :=
  ⟨h.clear, hp⟩

theorem runs_kbdCalls {calls : List KbdCall} {popped : List Nat} {s s' : Masked (Keyboard × List UInt8)}
    (h : s.state.1.Remembers l)
    (hr : Prog.Runs (Masked.device device.recorded) (Irq (Recorded Interrupts)) (kbdCalls calls) s popped s') :
    s'.enabled = s.enabled ∧ ∃ ops : List KeyboardOp, ops.filterMap KeyboardOp.call = calls ∧
      s'.state.2 = s.state.2 ++ ops.filterMap KeyboardOp.scancode ∧
      s'.state.1.Remembers (l.run ops).1 ∧ List.Forall₂ Pops popped (l.run ops).2 := by
  have hg (popped₀ : List Nat) (keys : List (Option Key)) (hp : List.Forall₂ Pops popped₀ keys) :
      s'.enabled = s.enabled ∧ ∃ ops, Explains ops calls s.state s'.state l keys (popped₀ ++ popped) := by
    induction calls generalizing s l popped popped₀ keys
    case nil =>
      have ⟨hn, hs⟩ := hr.of_pure
      have ⟨he, hs⟩ := Prog.irqs_enabled hs
      subst hn
      rw [List.append_nil]
      exact ⟨he, h.irqs hp hs⟩
    case cons call calls hi =>
      cases call
      case popEvent =>
        have ⟨event, s₁, h₁, hr⟩ := Prog.Runs.of_bind hr
        have ⟨events, s₂, h₂, hr⟩ := hr.of_bind
        have ⟨hn, hs⟩ := hr.of_pure
        rw [kbdPopEvent_eq] at h₁
        have ⟨he₁, ops₁, hx₁⟩ := h.runs_call hp rfl rfl (fun _ _ _ => Remembers.popAccesses) h₁
        have ⟨he₂, ops₂, hx₂⟩ := hi hx₁.state (h₂.irqs_after hs) _ _ hx₁.pops
        rw [← hn, List.append_cons]
        exact ⟨he₂.trans he₁, _, hx₁.trans hx₂⟩
      case clearBuffer =>
        have ⟨_, s₁, h₁, hr⟩ := Prog.Runs.of_bind hr
        have ⟨he₁, ops₁, hx₁⟩ := h.runs_call hp rfl rfl (fun _ _ _ => Remembers.clearAccesses) h₁
        have ⟨he₂, ops₂, hx₂⟩ := hi hx₁.state hr _ _ hx₁.pops
        exact ⟨he₂.trans he₁, _, hx₁.trans hx₂⟩
  have ⟨he, ops, hx⟩ := hg [] [] .nil
  exact ⟨he, ops, hx.calls, hx.irqs, hx.state, hx.pops⟩

-- The key is pressed in front of the first call.
theorem runs_kbdCalls_interrupted : ∃ (popped : List Nat) (s' : Masked (Keyboard × List UInt8)), s'.enabled = true ∧
    ∃ ops : List KeyboardOp, ops.filterMap KeyboardOp.call = [.popEvent, .clearBuffer] ∧
      s'.state.2 = [] ++ ops.filterMap KeyboardOp.scancode ∧
      s'.state.1.Remembers (KeyList.empty.run ops).1 ∧ List.Forall₂ Pops popped (KeyList.empty.run ops).2 := by
  have h := init_remembers default
  have ⟨kbd, hk, _⟩ := h.interrupt 0x1e
  exact ⟨_, _, runs_kbdCalls (s := ⟨true, init default, []⟩) h <| .irq (.intro rfl <| .intro hk) <| .of_run ..⟩

end Keyboard

-- The 64 bits of `monotonic_ms` are loaded as two words.
inductive ClockAccess
  | low
  | high

namespace Clock

def device : Device ClockAccess Nat Nat
  | .low, monotonicMs  => (monotonicMs % 2 ^ 32, monotonicMs)
  | .high, monotonicMs => (monotonicMs / 2 ^ 32, monotonicMs)

inductive Ticks (monotonicMs : Nat) : Nat → Prop
  | intro : Ticks monotonicMs ((monotonicMs + 1000 / 100) % 2 ^ 64)

-- The ticks are counted by recording them.
abbrev Irq : Nat × List Unit → Nat × List Unit → Prop :=
  Recorded fun _ => Ticks

def loads : Prog ClockAccess Nat Nat := do
  let low ← Prog.perform .low
  let high ← Prog.perform .high
  return high * 2 ^ 32 + low

end Clock

def pitMonotonicMs : Prog (MaskOp ClockAccess) Nat Nat := do
  let eflags ← Prog.perform .pushf
  let _ ← Prog.perform .cli
  let low ← Prog.perform (.access .low)
  let high ← Prog.perform (.access .high)
  let ms := high * 2 ^ 32 + low
  if eflags.testBit 9 then
    let _ ← Prog.perform .sti
    return ms
  else
    return ms

namespace Clock

variable {result : Nat}

theorem pitMonotonicMs_eq : pitMonotonicMs = Prog.critical
    (fun flags => if flags.testBit 9 then (do let _ ← Prog.perform .sti; return) else return) loads := by
  refine congrArg (Prog.op _) <| funext fun eflags => congrArg (Prog.op _) <| funext fun _ =>
    congrArg (Prog.op _) <| funext fun low => congrArg (Prog.op _) <| funext fun high => ?_
  show (if eflags.testBit 9 then _ else _) =
    (if eflags.testBit 9 then _ else _ : Prog (MaskOp ClockAccess) Nat Unit) >>= _
  split
  case isTrue  => rfl
  case isFalse => rfl

theorem run_loads (ms : Nat) : loads.run device ms = (ms, ms) := by
  show (ms / 2 ^ 32 * 2 ^ 32 + ms % 2 ^ 32, ms) = _
  rw [Nat.div_add_mod']

theorem irqs_ticks {s s' : Nat × List Unit} (h : Relation.ReflTransGen Irq s s') (hm : s.1 < 2 ^ 64) : ∃ n,
    s'.1 = (s.1 + 10 * n) % 2 ^ 64 ∧ s'.2.length = s.2.length + n := by
  induction h
  case refl      => exact ⟨0, by rw [Nat.mul_zero, Nat.add_zero, Nat.mod_eq_of_lt hm], rfl⟩
  case tail h hi =>
    have ⟨n, hn, hl⟩ := hi
    cases h
    case intro h =>
      cases h
      refine ⟨n + 1, ?_, ?_⟩
      · rw [hn, Nat.mod_add_mod, Nat.mul_add, ← Nat.add_assoc]
      · rw [List.length_append, hl]
        rfl

-- The result is a time which the clock had during the call, after some of the ticks which have occurred, for every
-- order of the loads and the ticks.
theorem runs_pitMonotonicMs {s s' : Masked (Nat × List Unit)} (hm : s.state.1 < 2 ^ 64)
    (h : Prog.Runs (Masked.device device.recorded) (Masked.Irq Irq) pitMonotonicMs s result s') :
    s'.enabled = s.enabled ∧ ∃ n k, s'.state.2.length = s.state.2.length + n + k ∧
      result = (s.state.1 + 10 * n) % 2 ^ 64 ∧ s'.state.1 = (s.state.1 + 10 * (n + k)) % 2 ^ 64 := by
  rw [pitMonotonicMs_eq] at h
  have ⟨he, s₁, h₁, hr, h₂⟩ := Prog.runs_critical Prog.sti_restores h
  rw [Prog.run_recorded, run_loads] at hr h₂
  dsimp only at hr h₂
  have ⟨n, hn, hl⟩ := irqs_ticks h₁ hm
  have hlt : s₁.1 < 2 ^ 64 := by
    rw [hn]
    exact Nat.mod_lt _ (by decide)
  have ⟨k, hk, hl'⟩ := irqs_ticks h₂ hlt
  refine ⟨he, n, k, ?_, hr ▸ hn, ?_⟩
  · rw [hl', hl]
  · rw [hk, hn, Nat.mod_add_mod, Nat.mul_add, ← Nat.add_assoc]

-- The counter is advanced, with a carry, in front of the first load.
theorem runs_pitMonotonicMs_tick : ∃ (result : Nat) (s' : Masked (Nat × List Unit)), s'.enabled = true ∧ ∃ n k,
    s'.state.2.length = 0 + n + k ∧ result = (4294967290 + 10 * n) % 2 ^ 64 ∧
    s'.state.1 = (4294967290 + 10 * (n + k)) % 2 ^ 64 :=
  ⟨_, _, runs_pitMonotonicMs (s := ⟨true, 4294967290, []⟩) (by decide) <|
    .irq (.intro rfl <| .intro (e := ()) .intro) <| .of_run ..⟩

end Clock
