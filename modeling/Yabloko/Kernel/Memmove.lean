import Yabloko.Lib.Bytes

variable {m : Bytes} {a dst src size n : Nat}

-- The loop of `kmemmove` which copies the last byte first.
def kmemmoveRightToLeft (m : Bytes) (dst src : Nat) : Nat → Bytes
  | 0        => m
  | size + 1 =>
    let m := m.store ((dst + size) % 2 ^ 32) (m ((src + size) % 2 ^ 32))
    kmemmoveRightToLeft m dst src size

-- The loop which copies the first byte first.
def kmemmoveLeftToRight (m : Bytes) (dst src size : Nat) : Bytes :=
  (List.range size).foldl (fun m i => m.store ((dst + i) % 2 ^ 32) (m ((src + i) % 2 ^ 32))) m

def kmemmove (m : Bytes) (dst src size : Nat) : Bytes :=
  if dst = src then
    m
  else if dst > src ∧ dst < (src + size) % 2 ^ 32 then
    kmemmoveRightToLeft m dst src size
  else
    kmemmoveLeftToRight m dst src size

theorem kmemmoveRightToLeft_apply (hd : dst + size ≤ 2 ^ 32) (hs : src < dst) (a : Nat) :
    kmemmoveRightToLeft m dst src size a =
      if dst ≤ a ∧ a < dst + size then m (src + (a - dst)) else m a := by
  induction size generalizing m
  case zero         => rw [kmemmoveRightToLeft, if_neg (by omega)]
  case succ size hi =>
    rw [kmemmoveRightToLeft, hi (by omega), Nat.mod_eq_of_lt (by omega), Nat.mod_eq_of_lt (by omega)]
    -- The byte which has been written lies behind the ones which are still to be read.
    by_cases ha : a = dst + size
    case pos =>
      rw [if_neg (by omega), if_pos (by omega), Bytes.store, if_pos ha, show a - dst = size by omega]
    case neg =>
      by_cases hc : dst ≤ a ∧ a < dst + size
      case pos => rw [if_pos hc, if_pos (by omega), Bytes.store, if_neg (by omega)]
      case neg => rw [if_neg hc, if_neg (by omega), Bytes.store, if_neg ha]

theorem kmemmoveLeftToRight_apply (hd : dst + size ≤ 2 ^ 32) (hs : src + size ≤ 2 ^ 32)
    (h : dst ≤ src ∨ src + size ≤ dst) (a : Nat) :
    kmemmoveLeftToRight m dst src size a =
      if dst ≤ a ∧ a < dst + size then m (src + (a - dst)) else m a := by
  induction size generalizing a
  case zero         => rw [kmemmoveLeftToRight, List.range_zero, List.foldl_nil, if_neg (by omega)]
  case succ size hi =>
    have hi := hi (by omega) (by omega) (by omega)
    rw [kmemmoveLeftToRight] at hi ⊢
    rw [List.range_succ, List.foldl_append, List.foldl_cons, List.foldl_nil,
      Nat.mod_eq_of_lt (by omega), Nat.mod_eq_of_lt (by omega), Bytes.store]
    -- The byte which is read next has not been written before.
    by_cases ha : a = dst + size
    case pos =>
      rw [if_pos ha, hi, if_neg (by omega), if_pos (by omega), show a - dst = size by omega]
    case neg =>
      rw [if_neg ha, hi]
      by_cases hc : dst ≤ a ∧ a < dst + size
      case pos => rw [if_pos hc, if_pos (by omega)]
      case neg => rw [if_neg hc, if_neg (by omega)]

-- All bytes are copied at once. When the source ends with the address space, its end is 0, and the
-- bytes are copied from left to right, which is right as the destination then does not lie behind it.
theorem kmemmove_apply (hd : dst + size ≤ 2 ^ 32) (hs : src + size ≤ 2 ^ 32) (a : Nat) :
    kmemmove m dst src size a = if dst ≤ a ∧ a < dst + size then m (src + (a - dst)) else m a := by
  rw [kmemmove]
  split
  case isTrue he =>
    split
    case isTrue => rw [he, show src + (a - src) = a by omega]
    case isFalse => rfl
  case isFalse he =>
    split
    case isTrue hc  => exact kmemmoveRightToLeft_apply hd hc.left a
    case isFalse hc =>
      have h : dst ≤ src ∨ src + size ≤ dst := by
        by_cases hl : src + size < 2 ^ 32
        case neg => exact .inl (by omega)
        case pos =>
          rw [Nat.mod_eq_of_lt hl] at hc
          omega
      exact kmemmoveLeftToRight_apply hd hs h a

theorem kmemmove_simultaneous (hd : dst + size ≤ 2 ^ 32) (hs : src + size ≤ 2 ^ 32) :
    (∀ i < size, kmemmove m dst src size (dst + i) = m (src + i)) ∧
    ∀ a, ¬(dst ≤ a ∧ a < dst + size) → kmemmove m dst src size a = m a := by
  constructor
  case left =>
    intro i hi
    rw [kmemmove_apply hd hs, if_pos (by omega), Nat.add_sub_cancel_left]
  case right =>
    intro a ha
    rw [kmemmove_apply hd hs, if_neg ha]

-- The destination overlaps with the end of its source.
theorem kmemmove_simultaneous_overlap :
    (∀ i < 4, kmemmove (UInt8.ofNat ·) 0x1002 0x1000 4 (0x1002 + i) = .ofNat (0x1000 + i)) ∧
    ∀ a, ¬(0x1002 ≤ a ∧ a < 0x1002 + 4) → kmemmove (UInt8.ofNat ·) 0x1002 0x1000 4 a = .ofNat a :=
  kmemmove_simultaneous (by decide) (by decide)
