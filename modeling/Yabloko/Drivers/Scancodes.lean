import Yabloko.Drivers.Keyboard

-- A code of a key, which is sent with a prefix for the extended keys.
structure Code where
  extended : Bool
  byte     : UInt8
  isByte   : byte ≠ kbdExtendedScancodePrefixE0 ∧ byte ≠ kbdExtendedScancodePrefixE1

namespace Code

def bytes (c : Code) : List UInt8 :=
  if c.extended then [kbdExtendedScancodePrefixE0, c.byte] else [c.byte]

def scancode (c : Code) : Nat :=
  c.byte.toNat % 128

def pressed (c : Code) : Bool :=
  c.byte.toNat < 128

-- Whether the last code of a key without a prefix was sent on a press.
def lastPressed (scancode : Nat) (codes : List Code) : Bool :=
  (codes.filter fun c => !c.extended && c.scancode = scancode).getLast?.any pressed

-- The codes which are sent with a prefix although they belong to no extended key.
def fakeShifts : List UInt8 :=
  [0x2a, 0xaa, 0x36, 0xb6]

variable {c : Code} {codes : List Code} {n : Nat}

theorem lastPressed_concat (n : Nat) (codes : List Code) (c : Code) : lastPressed n (codes ++ [c]) =
    if c.extended = false ∧ c.scancode = n then c.pressed else lastPressed n codes := by
  rw [lastPressed, List.filter_append, List.filter_singleton]
  by_cases h : c.extended = false ∧ c.scancode = n
  case pos => simp [h]
  case neg =>
    have h' : (!c.extended && decide (c.scancode = n)) = false := by simpa using h
    rw [h', if_neg h]
    simp [lastPressed]

theorem mem_fakeShifts : c.byte ∈ fakeShifts ↔ c.scancode = 0x2a ∨ c.scancode = 0x36 := by
  have hb := c.byte.toNat_lt
  simp only [fakeShifts, List.mem_cons, List.not_mem_nil, or_false, ← UInt8.toNat_inj,
    UInt8.toNat_ofNat, scancode]
  omega

end Code

namespace KeyList

variable {l : KeyList} {byte : UInt8} {codes : List Code}

-- The prefixes are skipped, so that only the byte of a code counts.
theorem interrupt_code (l : KeyList) (c : Code) : c.bytes.foldl interrupt l = l.interrupt c.byte := by
  have hp : l.interrupt kbdExtendedScancodePrefixE0 = l := if_pos (.inl rfl)
  rw [Code.bytes]
  split
  case isTrue  => rw [List.foldl_cons, List.foldl_cons, List.foldl_nil, hp]
  case isFalse => rfl

theorem interrupt_shift (l : KeyList) (c : Code) :
    (l.interrupt c.byte).leftShift = (if c.scancode = 0x2a then c.pressed else l.leftShift) ∧
    (l.interrupt c.byte).rightShift = if c.scancode = 0x36 then c.pressed else l.rightShift := by
  rw [interrupt, if_neg (not_or.mpr c.isByte)]
  exact ⟨rfl, rfl⟩

-- Without a fake shift among the extended codes, the shift keys are tracked.
theorem codes_shift (h : ∀ c ∈ codes, c.extended = true → c.byte ∉ Code.fakeShifts) :
    ((codes.flatMap Code.bytes).foldl interrupt empty).leftShift = Code.lastPressed 0x2a codes ∧
    ((codes.flatMap Code.bytes).foldl interrupt empty).rightShift = Code.lastPressed 0x36 codes := by
  induction codes using List.reverseRecOn
  case nil => exact ⟨rfl, rfl⟩
  case append_singleton codes c hi =>
    have ⟨hl, hr⟩ := hi fun c hc => h c (List.mem_append_left _ hc)
    have hc := h c (by simp)
    rw [Code.mem_fakeShifts, not_or] at hc
    have ⟨hsl, hsr⟩ := interrupt_shift ((codes.flatMap Code.bytes).foldl interrupt empty) c
    rw [List.flatMap_append, List.flatMap_singleton, List.foldl_append, interrupt_code,
      Code.lastPressed_concat, Code.lastPressed_concat, hsl, hsr, hl, hr]
    cases he : c.extended
    case false => simp
    case true  => simp [hc he]

end KeyList

namespace Keyboard

def deliver (kbd : Keyboard) (bytes : List UInt8) : Option Keyboard :=
  bytes.foldlM interruptHandler kbd

-- The shift keys which are down are the ones whose last code without a prefix was sent on a press.
def TracksShift (kbd : Keyboard) (codes : List Code) : Prop :=
  ∃ kbd', kbd.deliver (codes.flatMap Code.bytes) = some kbd' ∧
    kbd'.shiftPressed = (Code.lastPressed 0x2a codes || Code.lastPressed 0x36 codes)

variable {kbd kbd' : Keyboard} {l : KeyList} {codes : List Code}

theorem Remembers.deliver (h : kbd.Remembers l) (bytes : List UInt8) : ∃ kbd',
    kbd.deliver bytes = some kbd' ∧ kbd'.Remembers (bytes.foldl KeyList.interrupt l) := by
  induction bytes generalizing kbd l
  case nil                => exact ⟨kbd, rfl, h⟩
  case cons byte bytes hi =>
    have ⟨kbd₁, hb, h₁⟩ := h.interrupt byte
    have ⟨kbd', hr, h'⟩ := hi h₁
    refine ⟨kbd', ?_, h'⟩
    rw [Keyboard.deliver, List.foldlM_cons, hb]
    exact hr

theorem tracksShift_iff_keyList (kbd : Keyboard) (codes : List Code) : kbd.init.TracksShift codes ↔
    let l := (codes.flatMap Code.bytes).foldl KeyList.interrupt .empty
    (l.leftShift || l.rightShift) = (Code.lastPressed 0x2a codes || Code.lastPressed 0x36 codes) := by
  have ⟨kbd', hr, h⟩ := kbd.init_remembers.deliver (codes.flatMap Code.bytes)
  simp only [TracksShift, hr, Option.some.injEq, exists_eq_left', h.shift]

-- The shift keys are tracked on all streams of codes, exactly when no fake shift is among the codes
-- which are sent with a prefix.
theorem tracksShift_iff (kbd : Keyboard) (sent : Set UInt8) :
    (∀ codes : List Code, (∀ c ∈ codes, c.extended = true → c.byte ∈ sent) →
      kbd.init.TracksShift codes) ↔ ∀ byte ∈ Code.fakeShifts, byte ∉ sent := by
  constructor
  case mp =>
    intro h byte hb hs
    -- The unprefixed code is the opposite one of the same shift key.
    simp only [Code.fakeShifts, List.mem_cons, List.not_mem_nil, or_false] at hb
    rcases hb with rfl | rfl | rfl | rfl
    case inl =>
      have hc := h [⟨true, 0x2a, by decide⟩] (by simpa using hs)
      rw [tracksShift_iff_keyList] at hc
      exact absurd hc (by decide)
    case inr.inl =>
      have hc := h [⟨false, 0x2a, by decide⟩, ⟨true, 0xaa, by decide⟩] (by simpa using hs)
      rw [tracksShift_iff_keyList] at hc
      exact absurd hc (by decide)
    case inr.inr.inl =>
      have hc := h [⟨true, 0x36, by decide⟩] (by simpa using hs)
      rw [tracksShift_iff_keyList] at hc
      exact absurd hc (by decide)
    case inr.inr.inr =>
      have hc := h [⟨false, 0x36, by decide⟩, ⟨true, 0xb6, by decide⟩] (by simpa using hs)
      rw [tracksShift_iff_keyList] at hc
      exact absurd hc (by decide)
  case mpr =>
    intro h codes hs
    have ⟨hl, hr⟩ := KeyList.codes_shift fun c hc he hb => h c.byte hb (hs c hc he)
    rw [tracksShift_iff_keyList]
    simp only [hl, hr]

-- The left shift key is held while an arrow key is pressed.
theorem arrow_releases_shift : ¬(default : Keyboard).init.TracksShift
    [⟨false, 0x2a, by decide⟩, ⟨true, 0xaa, by decide⟩, ⟨true, 0x4b, by decide⟩] := by
  rw [tracksShift_iff_keyList]
  decide

end Keyboard
