import Yabloko.Drivers.Keyboard

-- The bytes whose events are still in the queue.
def KeyboardOp.queue (bytes : List UInt8) : KeyboardOp → List UInt8
  | interrupt byte =>
    if byte = kbdExtendedScancodePrefixE0 ∨ byte = kbdExtendedScancodePrefixE1 then
      bytes
    else
      (bytes ++ [byte]).rtake 32
  | pop   => bytes.tail
  | clear => []

def KeyboardOp.queued (ops : List KeyboardOp) : List UInt8 :=
  ops.foldl queue []

namespace Keyboard

-- The loop over the results of `kbd_pop_event`, up to the first 0. One round more than the capacity of
-- the queue is enough.
def drain : Nat → Keyboard → Option (List Nat × Keyboard)
  | 0, _ => none
  | rounds + 1, kbd => do
    let (event, kbd) ← kbd.popEvent
    if event ≠ 0 then
      let (events, kbd) ← drain rounds kbd
      return (event :: events, kbd)
    else
      return ([], kbd)

def queued (kbd : Keyboard) : List Nat :=
  kbd.eventQueue.ring kbd.eventTail kbd.eventSize

-- The loop returns all queued events, and leaves none.
def Drains (kbd : Keyboard) : Prop :=
  ∃ kbd', drain (kbdEventQueueCapacity + 1) kbd = some (kbd.queued, kbd') ∧ kbd'.eventSize = 0

-- The event which has been queued for a byte.
def EventOf (byte : UInt8) (event : Nat) : Prop :=
  ∃ keycode : UInt8, (byte &&& kbdSet1ScancodeMask = 0 → keycode = 0) ∧
    event = kbdEventPack (byte &&& kbdSet1ScancodeMask) keycode (byte &&& kbdSet1ReleaseBit = 0)

-- The events of some bytes are in the queue.
def Queues (kbd : Keyboard) (bytes : List UInt8) : Prop :=
  ∃ events, kbd.Stores events ∧ List.Forall₂ EventOf bytes events

variable {kbd kbd' : Keyboard} {byte : UInt8} {bytes : List UInt8} {event : Nat} {events popped : List Nat}

theorem kbdEventPack_eq_zero {scancode keycode : UInt8} {pressed : Bool} :
    kbdEventPack scancode keycode pressed = 0 ↔ scancode = 0 ∧ keycode = 0 ∧ pressed = false := by
  rw [kbdEventPack_eq, ← UInt8.toNat_inj, ← UInt8.toNat_inj, UInt8.toNat_zero]
  cases pressed <;> simp

-- The release of the scancode 0 is packed to the value which stands for no event.
theorem EventOf.eq_zero_iff (h : EventOf byte event) : event = 0 ↔ byte = 0x80 := by
  have ⟨keycode, hk, he⟩ := h
  have hb : byte = 0x80 ↔ byte.toNat = 128 := UInt8.toNat_inj.symm
  have hlt := byte.toNat_lt
  have hm : byte &&& kbdSet1ScancodeMask = 0 ↔ byte.toNat % 128 = 0 := by
    rw [← UInt8.toNat_inj, kbdSet1ScancodeMask_and, UInt8.toNat_zero]
  rw [he, kbdEventPack_eq_zero, decide_eq_false_iff_not, kbdSet1ReleaseBit_and, hb]
  constructor
  case mp  =>
    intro ⟨h₀, _, hr⟩
    rw [hm] at h₀
    omega
  case mpr =>
    intro h
    have h₀ := hm.mpr (by omega)
    exact ⟨h₀, hk h₀, by omega⟩

theorem keycode_zero (kbd : Keyboard) : kbd.keycode 0 = some 0 := by
  cases h : kbd.shiftPressed <;> rw [keycode, h] <;> decide

theorem exists_keycode (kbd : Keyboard) (scancode : UInt8) :
    ∃ k, kbd.keycode scancode = some k ∧ (scancode = 0 → k = 0) := by
  have ⟨k, hk, _⟩ := keycode_eq (l := ⟨kbd.shiftPressed, false, []⟩) (Bool.or_false _).symm scancode
  refine ⟨k, hk, fun h₀ => ?_⟩
  rw [h₀, keycode_zero, Option.some.injEq] at hk
  exact hk.symm

theorem updateShift_stores (h : kbd.Stores events) (scancode : UInt8) (pressed : Bool) :
    (kbd.updateShift scancode pressed).Stores events := by
  rw [updateShift]
  split
  case isTrue  => exact ⟨h.head, h.size, h.queue⟩
  case isFalse =>
    split
    case isTrue  => exact ⟨h.head, h.size, h.queue⟩
    case isFalse => exact h

theorem Queues.interrupt (h : kbd.Queues bytes) (byte : UInt8) : ∃ kbd',
    kbd.interruptHandler byte = some kbd' ∧ kbd'.Queues ((KeyboardOp.interrupt byte).queue bytes) := by
  obtain ⟨events, hs, he⟩ := h
  rw [interruptHandler, KeyboardOp.queue]
  split
  case isTrue  => exact ⟨kbd, rfl, events, hs, he⟩
  case isFalse =>
    have hs := updateShift_stores hs (byte &&& kbdSet1ScancodeMask) (byte &&& kbdSet1ReleaseBit = 0)
    obtain ⟨k, hk, hz⟩ := exists_keycode (kbd.updateShift (byte &&& kbdSet1ScancodeMask)
      (byte &&& kbdSet1ReleaseBit = 0)) (byte &&& kbdSet1ScancodeMask)
    obtain ⟨kbd', hp, hs', _⟩ := hs.push
      (kbdEventPack (byte &&& kbdSet1ScancodeMask) k (byte &&& kbdSet1ReleaseBit = 0))
    refine ⟨kbd', ?_, _, hs', ?_⟩
    · simp only [hk, Option.bind_eq_bind, Option.bind_some]
      exact hp
    · have hf := List.rel_append he (.cons ⟨k, hz, rfl⟩ .nil)
      rw [List.rtake, List.rtake, ← hf.length_eq]
      exact List.forall₂_drop _ hf

theorem Queues.pop (h : kbd.Queues bytes) : ∃ event kbd',
    kbd.popEvent = some (event, kbd') ∧ kbd'.Queues bytes.tail := by
  have ⟨events, hs, he⟩ := h
  rw [popEvent]
  cases he
  case nil => exact ⟨0, kbd, if_pos hs.size, [], hs, .nil⟩
  case cons he =>
    rw [if_neg (by simp [hs.size]), hs.queue.read_front]
    exact ⟨_, kbd.dropOldest, rfl, _, hs.dropOldest, he⟩

theorem Queues.step (h : kbd.Queues bytes) (popped : List Nat) (op : KeyboardOp) : ∃ kbd' popped',
    Keyboard.step (kbd, popped) op = some (kbd', popped') ∧ kbd'.Queues (op.queue bytes) := by
  cases op
  case interrupt byte =>
    obtain ⟨kbd', hi, h'⟩ := h.interrupt byte
    exact ⟨kbd', popped, by simp [Keyboard.step, hi], h'⟩
  case pop =>
    obtain ⟨event, kbd', he, h'⟩ := h.pop
    exact ⟨kbd', popped ++ [event], by simp [Keyboard.step, he], h'⟩
  case clear =>
    have hq := Arr.Queue.nil (a := kbd.eventQueue) (show 0 < kbdEventQueueCapacity by decide)
    exact ⟨_, popped, rfl, [], ⟨rfl, rfl, hq⟩, .nil⟩

theorem init_queues (kbd : Keyboard) : kbd.init.Queues [] :=
  have hq := Arr.Queue.nil (a := kbd.eventQueue) (show 0 < kbdEventQueueCapacity by decide)
  ⟨[], ⟨rfl, rfl, hq⟩, .nil⟩

theorem run_queues (kbd : Keyboard) (ops : List KeyboardOp) : ∃ kbd' popped,
    kbd.init.run ops = some (kbd', popped) ∧ kbd'.Queues (KeyboardOp.queued ops) := by
  have hr (kbd : Keyboard) (bytes : List UInt8) (popped : List Nat) (h : kbd.Queues bytes) :
      ∃ kbd' popped', ops.foldlM Keyboard.step (kbd, popped) = some (kbd', popped') ∧
        kbd'.Queues (ops.foldl KeyboardOp.queue bytes) := by
    induction ops generalizing kbd bytes popped
    case nil            => exact ⟨kbd, popped, rfl, h⟩
    case cons op ops hi =>
      have ⟨kbd₁, popped₁, hs, h₁⟩ := h.step popped op
      have ⟨kbd', popped', hr, h'⟩ := hi _ _ popped₁ h₁
      exact ⟨kbd', popped', by simpa [hs] using hr, h'⟩
  exact hr kbd.init [] [] kbd.init_queues

-- The loop stops at the first event which is 0, or at the end of the queue.
theorem Stores.drain {rounds : Nat} (h : kbd.Stores events) (hr : events.length < rounds) : ∃ kbd',
    Keyboard.drain rounds kbd = some (events.takeWhile (· ≠ 0), kbd') ∧
      kbd'.Stores (events.dropWhile (· ≠ 0)).tail := by
  induction events generalizing kbd rounds
  case nil =>
    cases rounds
    case zero   => omega
    case succ n =>
      have hs : kbd.eventSize = 0 := h.size
      exact ⟨kbd, by simp [Keyboard.drain, popEvent, hs], h⟩
  case cons event events hi =>
    cases rounds
    case zero   => omega
    case succ n =>
      have hp : kbd.popEvent = some (event, kbd.dropOldest) := by
        rw [popEvent, if_neg (by simp [h.size]), h.queue.read_front]
        rfl
      obtain ⟨kbd', hd, h'⟩ := hi h.dropOldest (Nat.lt_of_succ_lt_succ hr)
      by_cases he : event = 0
      case pos => exact ⟨kbd.dropOldest, by simp [Keyboard.drain, hp, he], by simpa [he] using h.dropOldest⟩
      case neg => exact ⟨kbd', by simp [Keyboard.drain, hp, he, hd], by simpa [he] using h'⟩

theorem Stores.queued_eq (h : kbd.Stores events) : kbd.queued = events := by
  rw [queued, h.size, h.queue.ring_eq]

theorem Stores.drains_iff (h : kbd.Stores events) : kbd.Drains ↔ 0 ∉ events := by
  have hl : events.length < kbdEventQueueCapacity + 1 := Nat.lt_succ_of_le h.queue.length_le
  have ⟨kbd', hd, h'⟩ := h.drain hl
  have ht : events.takeWhile (· ≠ 0) = events ↔ 0 ∉ events := by
    rw [List.takeWhile_eq_self_iff]
    simp only [decide_eq_true_eq]
    exact ⟨fun hn hm => hn 0 hm rfl, fun hn e he h₀ => hn (h₀ ▸ he)⟩
  rw [Drains, h.queued_eq, hd, ← ht]
  constructor
  case mp  =>
    intro ⟨_, he, _⟩
    exact congrArg Prod.fst (Option.some.inj he)
  case mpr =>
    intro he
    rw [List.takeWhile_eq_self_iff, ← List.dropWhile_eq_nil_iff] at he
    rw [he] at h'
    exact ⟨kbd', by rw [List.takeWhile_eq_self_iff.mpr (List.dropWhile_eq_nil_iff.mp he)], h'.size⟩

theorem Queues.drains_iff (h : kbd.Queues bytes) : kbd.Drains ↔ 0x80 ∉ bytes := by
  have ⟨events, hs, he⟩ := h
  refine hs.drains_iff.trans <| not_congr ?_
  clear h hs
  induction he
  case nil          => simp
  case cons hb _ hi => rw [List.mem_cons, List.mem_cons, hi, eq_comm, hb.eq_zero_iff, eq_comm]

-- After any interrupts, pops and clears, the loop drains the queue, unless the release of the scancode 0
-- is in it.
theorem run_drains_iff (kbd : Keyboard) (ops : List KeyboardOp) : ∃ kbd' popped,
    kbd.init.run ops = some (kbd', popped) ∧ (kbd'.Drains ↔ 0x80 ∉ KeyboardOp.queued ops) := by
  have ⟨kbd', popped, hr, h⟩ := kbd.run_queues ops
  exact ⟨kbd', popped, hr, h.drains_iff⟩

-- The key `a` is pressed after the release of the scancode 0.
theorem release_zero_stalls : ∃ kbd' popped,
    (default : Keyboard).init.run [.interrupt 0x80, .interrupt 0x1e] = some (kbd', popped) ∧
      ¬kbd'.Drains := by
  have ⟨kbd', popped, hr, h⟩ := run_queues default [.interrupt 0x80, .interrupt 0x1e]
  exact ⟨kbd', popped, hr, fun hd => h.drains_iff.mp hd (by decide)⟩

end Keyboard
