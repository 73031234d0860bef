import Yabloko.Drivers.KeyboardEvent
import Yabloko.Lib.Ring

@[simp] abbrev kbdEventQueueCapacity : Nat := 32

def scAscii : List Char :=
  "??1234567890-=??qwertyuiop[]\n?asdfghjkl;'`?\\zxcvbnm,./??? ".toList

def scAsciiShift : List Char :=
  "??!@#$%^&*()_+??QWERTYUIOP\x7b\x7d\n?ASDFGHJKL:\"~?|ZXCVBNM<>???? ".toList

abbrev kbdExtendedScancodePrefixE0 : UInt8 := 0xe0
abbrev kbdExtendedScancodePrefixE1 : UInt8 := 0xe1
abbrev kbdSet1ReleaseBit : UInt8 := 0x80
abbrev kbdSet1ScancodeMask : UInt8 := 0x7f
abbrev leftShiftPressedScancode : UInt8 := 0x2a
abbrev rightShiftPressedScancode : UInt8 := 0x36
abbrev backspaceScancode : UInt8 := 0x0e

-- The static variables of the keyboard driver.
structure Keyboard where
  leftShiftPressed  : Bool
  rightShiftPressed : Bool
  shiftPressed      : Bool
  eventQueue        : Arr Nat kbdEventQueueCapacity
  eventHead         : Nat
  eventTail         : Nat
  eventSize         : Nat
  deriving Inhabited

namespace Keyboard

-- The updates of the shift keys in `interrupt_handler`.
def updateShift (kbd : Keyboard) (scancode : UInt8) (pressed : Bool) : Keyboard :=
  if scancode = leftShiftPressedScancode then
    let kbd := { kbd with leftShiftPressed := pressed }
    { kbd with shiftPressed := kbd.leftShiftPressed || kbd.rightShiftPressed }
  else if scancode = rightShiftPressedScancode then
    let kbd := { kbd with rightShiftPressed := pressed }
    { kbd with shiftPressed := kbd.leftShiftPressed || kbd.rightShiftPressed }
  else
    kbd

-- The keycode which `interrupt_handler` finds for a scancode.
def keycode (kbd : Keyboard) (scancode : UInt8) : Option UInt8 := do
  if scancode = backspaceScancode then
    return 8
  else if scancode.toNat < scAscii.length then
    let c ← (if kbd.shiftPressed then scAsciiShift[scancode.toNat]? else scAscii[scancode.toNat]?)
    return if c ≠ '?' then c.toNat.toUInt8 else 0
  else
    return 0

-- The updates of the tail in `interrupt_handler` and `kbd_pop_event`.
def dropOldest (kbd : Keyboard) : Keyboard :=
  { kbd with
    eventTail := (kbd.eventTail + 1) % kbdEventQueueCapacity
    eventSize := kbd.eventSize - 1 }

-- The updates of the head in `interrupt_handler`.
def append (kbd : Keyboard) (event : Nat) : Option Keyboard := do
  let eventQueue ← kbd.eventQueue.write kbd.eventHead event
  return { kbd with
    eventQueue
    eventHead := (kbd.eventHead + 1) % kbdEventQueueCapacity
    eventSize := (kbd.eventSize + 1) % 2 ^ 32 }

def interruptHandler (kbd : Keyboard) (rawScancode : UInt8) : Option Keyboard := do
  if rawScancode = kbdExtendedScancodePrefixE0 ∨ rawScancode = kbdExtendedScancodePrefixE1 then
    return kbd
  let pressed : Bool := rawScancode &&& kbdSet1ReleaseBit = 0
  let scancode := rawScancode &&& kbdSet1ScancodeMask
  let kbd := kbd.updateShift scancode pressed
  let keycode ← kbd.keycode scancode
  let event := kbdEventPack scancode keycode pressed
  let kbd := if kbd.eventSize = kbdEventQueueCapacity then kbd.dropOldest else kbd
  kbd.append event

-- The interrupts are disabled in `kbd_pop_event` and `kbd_clear_buffer`.
def popEvent (kbd : Keyboard) : Option (Nat × Keyboard) := do
  if kbd.eventSize = 0 then
    return (0, kbd)
  let event ← kbd.eventQueue.read kbd.eventTail
  return (event, kbd.dropOldest)

def clearBuffer (kbd : Keyboard) : Keyboard :=
  { kbd with eventHead := 0, eventTail := 0, eventSize := 0 }

def init (kbd : Keyboard) : Keyboard :=
  { kbd with
    leftShiftPressed := false
    rightShiftPressed := false
    shiftPressed := false
    eventHead := 0
    eventTail := 0
    eventSize := 0 }

end Keyboard

-- What happens to the keyboard queue.
inductive KeyboardOp
  | interrupt (rawScancode : UInt8)
  | pop
  | clear

-- Runs an operation, and records the event which has been popped.
def Keyboard.step : Keyboard × List Nat → KeyboardOp → Option (Keyboard × List Nat)
  | (kbd, popped), .interrupt rawScancode => do
    let kbd ← kbd.interruptHandler rawScancode
    return (kbd, popped)
  | (kbd, popped), .pop => do
    let (event, kbd) ← kbd.popEvent
    return (kbd, popped ++ [event])
  | (kbd, popped), .clear => some (kbd.clearBuffer, popped)

def Keyboard.run (kbd : Keyboard) (ops : List KeyboardOp) : Option (Keyboard × List Nat) :=
  ops.foldlM step (kbd, [])

-- A key which has been pressed or released.
structure Key where
  scancode : Nat
  keycode  : Nat
  pressed  : Bool
  deriving DecidableEq

def Key.ofEvent (event : Nat) : Key where
  scancode := kbdEventScancode event
  keycode  := kbdEventKeycode event
  pressed  := kbdEventIsPressed event

-- The purpose of the driver: it remembers the shift keys, and the newest keys in order.
structure KeyList where
  leftShift  : Bool
  rightShift : Bool
  keys       : List Key

namespace KeyList

def empty : KeyList where
  leftShift  := false
  rightShift := false
  keys       := []

-- The characters on the keys, where `?` stands for none.
def layout (l : KeyList) : List Char :=
  if l.leftShift || l.rightShift then scAsciiShift else scAscii

def keycode (l : KeyList) (scancode : Nat) : Nat :=
  if scancode = 0x0e then
    8
  else
    (l.layout[scancode]?).elim 0 fun c => if c = '?' then 0 else c.toNat

def shift (l : KeyList) (scancode : Nat) (pressed : Bool) : KeyList :=
  { l with
    leftShift := if scancode = 0x2a then pressed else l.leftShift
    rightShift := if scancode = 0x36 then pressed else l.rightShift }

def append (l : KeyList) (k : Key) : KeyList :=
  { l with keys := (l.keys ++ [k]).rtake 32 }

-- A byte of the keyboard controller: the prefixes are skipped, and the highest bit is set on a release.
def interrupt (l : KeyList) (byte : UInt8) : KeyList :=
  if byte = 0xe0 ∨ byte = 0xe1 then
    l
  else
    let scancode := byte.toNat % 128
    let pressed : Bool := byte.toNat < 128
    let l := l.shift scancode pressed
    l.append { scancode, keycode := l.keycode scancode, pressed }

def step : KeyList × List (Option Key) → KeyboardOp → KeyList × List (Option Key)
  | (l, popped), .interrupt byte => (l.interrupt byte, popped)
  | (l, popped), .pop            => ({ l with keys := l.keys.tail }, popped ++ [l.keys.head?])
  | (l, popped), .clear          => ({ l with keys := [] }, popped)

def run (l : KeyList) (ops : List KeyboardOp) : KeyList × List (Option Key) :=
  ops.foldl step (l, [])

end KeyList

theorem kbdSet1ScancodeMask_and (byte : UInt8) : (byte &&& kbdSet1ScancodeMask).toNat = byte.toNat % 128 := by
  rw [UInt8.toNat_and]
  exact Nat.and_two_pow_sub_one_eq_mod _ 7

theorem kbdSet1ReleaseBit_and (byte : UInt8) : byte &&& kbdSet1ReleaseBit = 0 ↔ byte.toNat < 128 := by
  have hb := byte.toNat_lt
  have ha : (byte &&& kbdSet1ReleaseBit).toNat = (byte.toNat.testBit 7).toNat * 2 ^ 7 := by
    rw [UInt8.toNat_and]
    exact Nat.and_two_pow _ 7
  rw [← UInt8.toNat_inj, ha, Nat.testBit_eq_decide_div_mod_eq]
  by_cases h : byte.toNat < 128
  case pos => simp [h, Nat.div_eq_of_lt h]
  case neg =>
    have hd : byte.toNat / 128 = 1 := by omega
    simp [h, hd]

namespace Keyboard

-- The queue stores the events, oldest first.
structure Stores (kbd : Keyboard) (events : List Nat) : Prop where
  head  : kbd.eventHead = (kbd.eventTail + events.length) % kbdEventQueueCapacity
  size  : kbd.eventSize = events.length
  queue : kbd.eventQueue.Queue kbd.eventTail events

-- The driver remembers the keys and the state of the shift keys.
structure Remembers (kbd : Keyboard) (l : KeyList) : Prop where
  head_lt    : kbd.eventHead < kbdEventQueueCapacity
  tail_lt    : kbd.eventTail < kbdEventQueueCapacity
  size_le    : kbd.eventSize ≤ kbdEventQueueCapacity
  head       : kbd.eventHead = (kbd.eventTail + kbd.eventSize) % kbdEventQueueCapacity
  keys       : (kbd.eventQueue.ring kbd.eventTail kbd.eventSize).map Key.ofEvent = l.keys
  leftShift  : kbd.leftShiftPressed = l.leftShift
  rightShift : kbd.rightShiftPressed = l.rightShift
  shift      : kbd.shiftPressed = (l.leftShift || l.rightShift)

variable {kbd kbd' : Keyboard} {events : List Nat} {event : Nat} {l : KeyList}

theorem Stores.head_lt (h : kbd.Stores events) : kbd.eventHead < kbdEventQueueCapacity := by
  rw [h.head]
  exact Nat.mod_lt _ (by decide)

theorem Remembers.stores (h : kbd.Remembers l) :
    kbd.Stores (kbd.eventQueue.ring kbd.eventTail kbd.eventSize) := by
  have hq := Arr.Queue.of_ring h.tail_lt h.size_le (a := kbd.eventQueue)
  have hl : (kbd.eventQueue.ring kbd.eventTail kbd.eventSize).length = kbd.eventSize :=
    (List.filterMap_range fun i _ => Arr.read_isSome (by omega)
      (by exact_mod_cast Nat.mod_lt _ (by decide))).left
  exact ⟨by rw [hl, h.head], hl.symm, hq⟩

theorem Stores.remembers (h : kbd.Stores events) (hk : events.map Key.ofEvent = l.keys)
    (h₁ : kbd.leftShiftPressed = l.leftShift) (h₂ : kbd.rightShiftPressed = l.rightShift)
    (h₃ : kbd.shiftPressed = (l.leftShift || l.rightShift)) : kbd.Remembers l where
  head_lt := h.head_lt
  tail_lt := h.queue.head_lt
  size_le := h.size ▸ h.queue.length_le
  head := by rw [h.head, h.size]
  keys := by rw [h.size, h.queue.ring_eq, hk]
  leftShift := h₁
  rightShift := h₂
  shift := h₃

-- The shift keys are not concerned.
def SameShift (kbd kbd' : Keyboard) : Prop :=
  kbd'.leftShiftPressed = kbd.leftShiftPressed ∧ kbd'.rightShiftPressed = kbd.rightShiftPressed ∧
    kbd'.shiftPressed = kbd.shiftPressed

theorem Stores.dropOldest (h : kbd.Stores (event :: events)) : kbd.dropOldest.Stores events where
  head := by
    simp only [Keyboard.dropOldest, h.head, Nat.mod_add_mod, List.length_cons]
    congr 1
    omega
  size := by simp [Keyboard.dropOldest, h.size]
  queue := h.queue.pop

theorem Stores.append (h : kbd.Stores events) (hl : events.length < kbdEventQueueCapacity) (event : Nat) :
    ∃ kbd', kbd.append event = some kbd' ∧ kbd'.Stores (events ++ [event]) ∧ kbd.SameShift kbd' := by
  have hh := h.head_lt
  have ⟨q, hw, _⟩ := Arr.exists_write (a := kbd.eventQueue) (v := event) (i := kbd.eventHead)
    (by omega) (by exact_mod_cast hh)
  refine ⟨{ kbd with
      eventQueue := q
      eventHead := (kbd.eventHead + 1) % kbdEventQueueCapacity
      eventSize := (kbd.eventSize + 1) % 2 ^ 32 }, ?_, ⟨?_, ?_, ?_⟩, rfl, rfl, rfl⟩
  · simp only [Keyboard.append, hw, Option.bind_eq_bind, Option.bind_some, Option.pure_def]
  · simp [h.head, Nat.add_assoc]
  · simp [h.size] at hl ⊢
    omega
  · exact h.queue.push hl (h.head ▸ hw)

-- A new event is appended, and the oldest one is dropped from a full queue.
theorem Stores.push (h : kbd.Stores events) (event : Nat) : ∃ kbd',
    (if kbd.eventSize = kbdEventQueueCapacity then kbd.dropOldest else kbd).append event = some kbd' ∧
      kbd'.Stores ((events ++ [event]).rtake 32) ∧ kbd.SameShift kbd' := by
  have hl := h.queue.length_le
  split
  case isFalse hf =>
    have hlt : events.length < kbdEventQueueCapacity := by
      rw [← h.size] at hl ⊢
      omega
    have hr : (events ++ [event]).rtake 32 = events ++ [event] := by
      rw [List.rtake, List.length_append, List.length_singleton, Nat.sub_eq_zero_of_le hlt,
        List.drop_zero]
    rw [hr]
    exact h.append hlt event
  case isTrue hf =>
    match events with
    | []               => simp [h.size] at hf
    | oldest :: events =>
      have hlen : events.length = 31 := by
        rw [h.size] at hf
        simpa using hf
      have hr : (oldest :: events ++ [event]).rtake 32 = events ++ [event] := by
        simp [List.rtake, hlen]
      rw [hr]
      exact h.dropOldest.append (by simp [hlen]) event

theorem layout_lt (l : KeyList) : ∀ c ∈ l.layout, c.toNat < 256 := by
  have h : l.layout.all (·.toNat < 256) = true := by
    rw [KeyList.layout]
    split <;> decide
  simpa using h

theorem length_layout (l : KeyList) : l.layout.length = scAscii.length := by
  rw [KeyList.layout]
  split <;> decide

theorem keycode_eq (h : kbd.shiftPressed = (l.leftShift || l.rightShift)) (scancode : UInt8) :
    ∃ k : UInt8, kbd.keycode scancode = some k ∧ k.toNat = l.keycode scancode.toNat := by
  have hn : scancode = backspaceScancode ↔ scancode.toNat = 0x0e := UInt8.toNat_inj.symm
  rw [keycode, KeyList.keycode]
  by_cases hb : scancode = backspaceScancode
  case pos =>
    rw [if_pos hb, if_pos (hn.mp hb)]
    exact ⟨8, rfl, rfl⟩
  case neg =>
    have ht := length_layout l
    have he : (if kbd.shiftPressed = true then scAsciiShift[scancode.toNat]?
        else scAscii[scancode.toNat]?) = l.layout[scancode.toNat]? := by
      rw [KeyList.layout, h]
      split <;> rfl
    rw [if_neg hb, if_neg (mt hn.mpr hb), he]
    split
    case isFalse hl =>
      rw [List.getElem?_eq_none (by omega)]
      exact ⟨0, rfl, rfl⟩
    case isTrue hl  =>
      have hc := layout_lt l _ <| List.getElem_mem (show scancode.toNat < l.layout.length by omega)
      rw [List.getElem?_eq_getElem (by omega)]
      refine ⟨_, rfl, ?_⟩
      simp only [Option.elim_some, ne_eq, ite_not]
      split
      case isTrue  => rfl
      case isFalse => exact Nat.mod_eq_of_lt hc

theorem Remembers.updateShift (h : kbd.Remembers l) (scancode : UInt8) (pressed : Bool) :
    (kbd.updateShift scancode pressed).Remembers (l.shift scancode.toNat pressed) := by
  have hl : scancode = leftShiftPressedScancode ↔ scancode.toNat = 0x2a := UInt8.toNat_inj.symm
  have hr : scancode = rightShiftPressedScancode ↔ scancode.toNat = 0x36 := UInt8.toNat_inj.symm
  have hs := h.stores
  simp only [Keyboard.updateShift, KeyList.shift, hl, hr]
  split
  case isTrue he =>
    refine Stores.remembers ⟨hs.head, hs.size, hs.queue⟩ h.keys ?_ ?_ ?_ <;> simp [he, h.rightShift]
  case isFalse =>
    split
    case isTrue =>
      refine Stores.remembers ⟨hs.head, hs.size, hs.queue⟩ h.keys h.leftShift rfl ?_
      simp [h.leftShift]
    case isFalse =>
      exact hs.remembers h.keys h.leftShift h.rightShift h.shift

theorem Remembers.interrupt (h : kbd.Remembers l) (byte : UInt8) :
    ∃ kbd', kbd.interruptHandler byte = some kbd' ∧ kbd'.Remembers (l.interrupt byte) := by
  rw [interruptHandler, KeyList.interrupt]
  split
  case isTrue  => exact ⟨kbd, rfl, h⟩
  case isFalse =>
    have hp : decide (byte &&& kbdSet1ReleaseBit = 0) = decide (byte.toNat < 128) :=
      decide_eq_decide.mpr <| kbdSet1ReleaseBit_and byte
    have hm := kbdSet1ScancodeMask_and byte
    have h₁ := h.updateShift (byte &&& kbdSet1ScancodeMask) (byte.toNat < 128)
    have ⟨k, hk, hk'⟩ := keycode_eq h₁.shift (byte &&& kbdSet1ScancodeMask)
    have ⟨kbd', hw, hs, he₁, he₂, he₃⟩ := h₁.stores.push
      (kbdEventPack (byte &&& kbdSet1ScancodeMask) k (byte.toNat < 128))
    rw [hm] at h₁ hk'
    have hlen := congrArg List.length h₁.keys
    rw [List.length_map] at hlen
    refine ⟨kbd', ?_, hs.remembers ?_ (he₁.trans h₁.leftShift) (he₂.trans h₁.rightShift)
      (he₃.trans h₁.shift)⟩
    · simp only [hp, hk, Option.bind_eq_bind, Option.bind_some]
      exact hw
    · have hkey : Key.ofEvent (kbdEventPack (byte &&& kbdSet1ScancodeMask) k (byte.toNat < 128)) =
          ⟨byte.toNat % 128, (l.shift (byte.toNat % 128) (byte.toNat < 128)).keycode (byte.toNat % 128),
            byte.toNat < 128⟩ := by
        rw [Key.ofEvent, kbdEventScancode_pack, kbdEventKeycode_pack, kbdEventIsPressed_pack, hm, hk']
      rw [KeyList.append, List.rtake, List.rtake, List.map_drop, List.map_append, List.map_singleton,
        h₁.keys, hkey, List.length_append, List.length_append, hlen]
      rfl

-- The oldest key is popped, and `kbd_pop_event` returns 0 when there is none.
theorem Remembers.pop (h : kbd.Remembers l) : ∃ event kbd',
    kbd.popEvent = some (event, kbd') ∧ kbd'.Remembers { l with keys := l.keys.tail } ∧
      (l.keys.head?).elim (event = 0) (Key.ofEvent event = ·) := by
  have hs := h.stores
  have hk := h.keys
  rw [popEvent]
  generalize kbd.eventQueue.ring kbd.eventTail kbd.eventSize = events at hs hk
  cases events
  case nil =>
    rw [if_pos (by simpa using hs.size), ← hk]
    exact ⟨0, kbd, rfl, hs.remembers rfl h.leftShift h.rightShift h.shift, rfl⟩
  case cons event events =>
    rw [if_neg (by simp [hs.size]), ← hk, hs.queue.read_front]
    exact ⟨event, kbd.dropOldest, rfl, hs.dropOldest.remembers rfl h.leftShift h.rightShift h.shift, rfl⟩

theorem Remembers.clear (h : kbd.Remembers l) : kbd.clearBuffer.Remembers { l with keys := [] } :=
  Stores.remembers (show Stores _ [] from ⟨rfl, rfl, Arr.Queue.nil (show 0 < kbdEventQueueCapacity by decide)⟩) rfl h.leftShift h.rightShift h.shift

theorem init_remembers (kbd : Keyboard) : kbd.init.Remembers .empty :=
  Stores.remembers (show Stores _ [] from ⟨rfl, rfl, Arr.Queue.nil (show 0 < kbdEventQueueCapacity by decide)⟩) rfl rfl rfl rfl

-- The popped event is the packed key, or 0 when no key was queued.
def Pops (event : Nat) (key : Option Key) : Prop :=
  key.elim (event = 0) (Key.ofEvent event = ·)

theorem Remembers.step {popped : List Nat} {keys : List (Option Key)} (h : kbd.Remembers l)
    (hp : List.Forall₂ Pops popped keys) (op : KeyboardOp) : ∃ kbd' popped',
      Keyboard.step (kbd, popped) op = some (kbd', popped') ∧
      kbd'.Remembers (KeyList.step (l, keys) op).1 ∧
      List.Forall₂ Pops popped' (KeyList.step (l, keys) op).2 := by
  cases op
  case interrupt byte =>
    have ⟨kbd', hi, h'⟩ := h.interrupt byte
    exact ⟨kbd', popped, by simp [Keyboard.step, hi], h', hp⟩
  case pop =>
    have ⟨event, kbd', he, h', hk⟩ := h.pop
    refine ⟨kbd', popped ++ [event], by simp [Keyboard.step, he], h', ?_⟩
    exact List.rel_append hp (.cons hk .nil)
  case clear => exact ⟨_, popped, rfl, h.clear, hp⟩

-- The keyboard queue is the list of the newest keys, for every order of interrupts, pops and clears.
theorem run_remembers (kbd : Keyboard) (ops : List KeyboardOp) : ∃ kbd' popped,
    kbd.init.run ops = some (kbd', popped) ∧ kbd'.Remembers (KeyList.empty.run ops).1 ∧
      List.Forall₂ Pops popped (KeyList.empty.run ops).2 := by
  have hr (kbd : Keyboard) (l : KeyList) (popped : List Nat) (keys : List (Option Key))
      (h : kbd.Remembers l) (hp : List.Forall₂ Pops popped keys) : ∃ kbd' popped',
      ops.foldlM Keyboard.step (kbd, popped) = some (kbd', popped') ∧
      kbd'.Remembers (ops.foldl KeyList.step (l, keys)).1 ∧
      List.Forall₂ Pops popped' (ops.foldl KeyList.step (l, keys)).2 := by
    induction ops generalizing kbd l popped keys
    case nil            => exact ⟨kbd, popped, rfl, h, hp⟩
    case cons op ops hi =>
      have ⟨kbd₁, popped₁, hs, h₁, hp₁⟩ := h.step hp op
      have ⟨kbd', popped', hr, h', hp'⟩ := hi _ _ _ _ h₁ hp₁
      exact ⟨kbd', popped', by simpa [hs] using hr, h', hp'⟩
  exact hr kbd.init .empty [] [] kbd.init_remembers .nil

end Keyboard
