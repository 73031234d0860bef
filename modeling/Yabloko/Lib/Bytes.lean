import Mathlib

-- A memory which is addressed by the byte. Words are little-endian.
abbrev Bytes := Nat → UInt8

namespace Bytes

def store (m : Bytes) (a : Nat) (b : UInt8) : Bytes :=
  fun i => if i = a then b else m i

def load16 (m : Bytes) (a : Nat) : Nat :=
  (m a).toNat + 2 ^ 8 * (m (a + 1)).toNat

def load32 (m : Bytes) (a : Nat) : Nat :=
  m.load16 a + 2 ^ 16 * m.load16 (a + 2)

def store32 (m : Bytes) (a v : Nat) : Bytes :=
  m.store a (.ofNat v) |>.store (a + 1) (.ofNat (v / 2 ^ 8))
    |>.store (a + 2) (.ofNat (v / 2 ^ 16)) |>.store (a + 3) (.ofNat (v / 2 ^ 24))

def fill (m : Bytes) (a n : Nat) (b : UInt8) : Bytes :=
  fun i => if a ≤ i ∧ i < a + n then b else m i

variable {m m' m'' : Bytes} {a a' b n n' v : Nat} {c : UInt8}

theorem load16_lt (m : Bytes) (a : Nat) : m.load16 a < 2 ^ 16 := by
  have h₀ := (m a).toNat_lt
  have h₁ := (m (a + 1)).toNat_lt
  rw [load16]
  omega

theorem load32_lt (m : Bytes) (a : Nat) : m.load32 a < 2 ^ 32 := by
  have h i := (m i).toNat_lt
  have h₀ := h a
  have h₁ := h (a + 1)
  have h₂ := h (a + 2)
  have h₃ := h (a + 2 + 1)
  simp only [load32, load16]
  omega

theorem load32_store32 (h : v < 2 ^ 32) : (m.store32 a v).load32 a = v := by
  simp [load32, load16, store32, store, Nat.add_assoc]
  omega

theorem fill_zero (m : Bytes) (a : Nat) (c : UInt8) : m.fill a 0 c = m :=
  funext fun _ => if_neg (by omega)

-- The memories agree outside of the `n` bytes from `a` on.
def AgreeOutside (a n : Nat) (m m' : Bytes) : Prop :=
  ∀ i, i < a ∨ a + n ≤ i → m' i = m i

theorem AgreeOutside.refl (a n : Nat) (m : Bytes) : AgreeOutside a n m m :=
  fun _ _ => rfl

theorem AgreeOutside.trans (h : AgreeOutside a n m m') (h' : AgreeOutside a n m' m'') :
    AgreeOutside a n m m'' :=
  fun i hi => (h' i hi).trans (h i hi)

theorem AgreeOutside.mono (h : AgreeOutside a n m m') (hl : a' ≤ a) (hu : a + n ≤ a' + n') :
    AgreeOutside a' n' m m' :=
  fun i hi => h i <| by omega

theorem AgreeOutside.load32_eq (h : AgreeOutside a n m m') (hb : b + 4 ≤ a ∨ a + n ≤ b) :
    m'.load32 b = m.load32 b := by
  simp only [load32, load16]
  rw [h b (by omega), h (b + 1) (by omega), h (b + 2) (by omega), h (b + 2 + 1) (by omega)]

theorem store_agree (m : Bytes) (a : Nat) (c : UInt8) : AgreeOutside a 1 m (m.store a c) := by
  intro i hi
  apply if_neg
  omega

theorem store32_agree (m : Bytes) (a v : Nat) : AgreeOutside a 4 m (m.store32 a v) := by
  intro i hi
  simp only [store32, store]
  rw [if_neg (by omega), if_neg (by omega), if_neg (by omega), if_neg (by omega)]

theorem fill_agree (m : Bytes) (a n : Nat) (c : UInt8) : AgreeOutside a n m (m.fill a n c) := by
  intro i hi
  apply if_neg
  omega

theorem fill_eq (h₁ : a ≤ b) (h₂ : b < a + n) : m.fill a n c b = c :=
  if_pos ⟨h₁, h₂⟩

theorem load32_fill_zero (h₁ : a ≤ b) (h₂ : b + 4 ≤ a + n) : (m.fill a n 0).load32 b = 0 := by
  simp only [load32, load16]
  rw [fill_eq (by omega) (by omega), fill_eq (by omega) (by omega), fill_eq (by omega) (by omega),
    fill_eq (by omega) (by omega)]
  rfl

-- Filling goes on byte by byte, or word by word.
theorem fill_store (m : Bytes) (a n : Nat) (c : UInt8) :
    (m.store a c).fill (a + 1) n c = m.fill a (n + 1) c := by
  funext i
  by_cases hi : i = a
  case pos => simp [fill, store, hi]
  case neg =>
    have he : (a + 1 ≤ i ∧ i < a + 1 + n) ↔ (a ≤ i ∧ i < a + (n + 1)) := by omega
    simp only [fill, store, hi, he, if_false]

theorem store32_eq (m : Bytes) (a : Nat) (c : UInt8) : m.store32 a (c.toNat * 0x01010101) =
    (m.store a c |>.store (a + 1) c |>.store (a + 2) c |>.store (a + 3) c) := by
  have hl := c.toNat_lt
  have hb {k v : Nat} (hv : v = k * 256 + c.toNat) : UInt8.ofNat v = c := by
    apply UInt8.toNat_inj.mp
    simp [hv]
  have h₁ : c.toNat * 0x01010101 / 2 ^ 8 = c.toNat * 0x010101 := by omega
  have h₂ : c.toNat * 0x01010101 / 2 ^ 16 = c.toNat * 0x0101 := by omega
  have h₃ : c.toNat * 0x01010101 / 2 ^ 24 = c.toNat := by omega
  rw [store32, h₁, h₂, h₃, hb (k := c.toNat * 0x010101) (by omega), hb (k := c.toNat * 0x0101) (by omega),
    hb (k := c.toNat) (by omega), hb (k := 0) (by omega)]

theorem fill_store32 (m : Bytes) (a n : Nat) (c : UInt8) :
    (m.store32 a (c.toNat * 0x01010101)).fill (a + 4) n c = m.fill a (n + 4) c := by
  rw [store32_eq, fill_store, fill_store, fill_store, fill_store]

-- The words lie one after the other, from the address `a` on.
def Words (m : Bytes) (a : Nat) (ws : List Nat) : Prop :=
  ∀ i v, ws[i]? = some v → m.load32 (a + 4 * i) = v

theorem Words.store32 {ws : List Nat} (h : m.Words a ws) (hv : v < 2 ^ 32) (i : Nat) :
    (m.store32 (a + 4 * i) v).Words a (ws.set i v) := by
  intro j w hw
  rw [List.getElem?_set] at hw
  split at hw
  case isTrue he =>
    split at hw
    case isTrue  => cases hw; rw [← he, load32_store32 hv]
    case isFalse => cases hw
  case isFalse hn =>
    rw [(m.store32_agree _ _).load32_eq (by omega)]
    exact h j w hw

theorem fill_words (m : Bytes) (a : Nat) (hb : a ≤ b) (hn : b + 4 * n' ≤ a + n) :
    (m.fill a n 0).Words b (.replicate n' 0) := by
  intro i v hv
  have ⟨hi, hv⟩ := List.getElem?_eq_some_iff.mp hv
  rw [List.length_replicate] at hi
  rw [List.getElem_replicate] at hv
  rw [load32_fill_zero (by omega) (by omega), hv]

end Bytes
