import Mathlib

-- The packed key events of `keyboard_event.h`.
def kbdEventPack (scancode keycode : UInt8) (pressed : Bool) : Nat :=
  (keycode.toNat <<< 0) ||| (scancode.toNat <<< 8) ||| ((if pressed then 1 else 0) <<< 16)

def kbdEventKeycode (event : Nat) : Nat :=
  event &&& 0xff

def kbdEventScancode (event : Nat) : Nat :=
  (event >>> 8) &&& 0xff

def kbdEventIsPressed (event : Nat) : Bool :=
  (event >>> 16) &&& 0x1 = 1

-- The three parts of an event do not overlap.
theorem kbdEventPack_eq (scancode keycode : UInt8) (pressed : Bool) :
    kbdEventPack scancode keycode pressed =
      2 ^ 16 * (if pressed then 1 else 0) + (2 ^ 8 * scancode.toNat + keycode.toNat) := by
  have hs := scancode.toNat_lt
  have hk := keycode.toNat_lt
  rw [Nat.two_pow_add_eq_or_of_lt (by omega), Nat.two_pow_add_eq_or_of_lt hk, kbdEventPack]
  simp only [Nat.shiftLeft_eq, Nat.mul_comm, Nat.or_comm]
  simp

@[simp]
theorem kbdEventKeycode_pack (scancode keycode : UInt8) (pressed : Bool) :
    kbdEventKeycode (kbdEventPack scancode keycode pressed) = keycode.toNat := by
  have hk := keycode.toNat_lt
  rw [kbdEventKeycode, kbdEventPack_eq, Nat.and_two_pow_sub_one_eq_mod _ 8]
  omega

@[simp]
theorem kbdEventScancode_pack (scancode keycode : UInt8) (pressed : Bool) :
    kbdEventScancode (kbdEventPack scancode keycode pressed) = scancode.toNat := by
  have hs := scancode.toNat_lt
  have hk := keycode.toNat_lt
  rw [kbdEventScancode, kbdEventPack_eq, Nat.shiftRight_eq_div_pow,
    Nat.and_two_pow_sub_one_eq_mod _ 8]
  omega

@[simp]
theorem kbdEventIsPressed_pack (scancode keycode : UInt8) (pressed : Bool) :
    kbdEventIsPressed (kbdEventPack scancode keycode pressed) = pressed := by
  have hs := scancode.toNat_lt
  have hk := keycode.toNat_lt
  rw [kbdEventIsPressed, kbdEventPack_eq, Nat.shiftRight_eq_div_pow,
    Nat.and_two_pow_sub_one_eq_mod _ 1]
  cases pressed <;> simp <;> omega
