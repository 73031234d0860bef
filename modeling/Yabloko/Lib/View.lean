import Yabloko.Lib.Bytes

-- The part of a memory which is accessible. Loads outside of it fail at the first address.
abbrev View := Nat → Option UInt8

namespace View

def loadByte (m : View) (a : Nat) : Except Nat UInt8 :=
  match m a with
  | some b => .ok b
  | none   => .error a

def load16 (m : View) (a : Nat) : Except Nat Nat := do
  let lower ← m.loadByte a
  let upper ← m.loadByte ((a + 1) % 2 ^ 32)
  return lower.toNat + 2 ^ 8 * upper.toNat

def load32 (m : View) (a : Nat) : Except Nat Nat := do
  let lower ← m.load16 a
  let upper ← m.load16 ((a + 2) % 2 ^ 32)
  return lower + 2 ^ 16 * upper

-- The addresses from `lo` to `hi` become accessible, and contain zeros.
def zero (m : View) (lo hi : Nat) : View :=
  fun a => if lo ≤ a ∧ a < hi then some 0 else m a

-- The `n` bytes from `a` on are overwritten.
def write (m : View) (a n : Nat) (f : Nat → UInt8) : View :=
  fun i => if a ≤ i ∧ i < a + n then some (f (i - a)) else m i

variable {m : View} {f : Bytes} {a b : Nat}

theorem zero_self (m : View) (a : Nat) : m.zero a a = m :=
  funext fun _ => if_neg (by omega)

-- The bytes of `f` from `b` on are accessible from `a` on.
theorem load16_eq (ha : a + 1 < 2 ^ 32) (h : ∀ j < 2, m (a + j) = some (f (b + j))) :
    m.load16 a = .ok (f.load16 b) := by
  have h₀ := h 0 (by decide)
  have h₁ := h 1 (by decide)
  rw [Nat.add_zero, Nat.add_zero] at h₀
  simp only [load16, loadByte, h₀, h₁, Nat.mod_eq_of_lt ha]
  rfl

theorem load32_eq (ha : a + 3 < 2 ^ 32) (h : ∀ j < 4, m (a + j) = some (f (b + j))) :
    m.load32 a = .ok (f.load32 b) := by
  have hl : m.load16 a = .ok (f.load16 b) := load16_eq (by omega) fun j hj => h j (by omega)
  have hu : m.load16 (a + 2) = .ok (f.load16 (b + 2)) := load16_eq (by omega) fun j hj => by
    rw [Nat.add_assoc, Nat.add_assoc]
    exact h (2 + j) (by omega)
  rw [load32, hl, Nat.mod_eq_of_lt (by omega), hu]
  rfl

theorem exists_load16 (h : ∀ j < 2, m ((a + j) % 2 ^ 32) ≠ none) : ∃ v, m.load16 (a % 2 ^ 32) = .ok v := by
  have ⟨b₀, h₀⟩ := Option.ne_none_iff_exists'.mp <| h 0 (by decide)
  have ⟨b₁, h₁⟩ := Option.ne_none_iff_exists'.mp <| h 1 (by decide)
  rw [Nat.add_zero] at h₀
  rw [← Nat.mod_add_mod] at h₁
  simp only [load16, loadByte, h₀, h₁]
  exact ⟨_, rfl⟩

theorem exists_load32 (h : ∀ j < 4, m ((a + j) % 2 ^ 32) ≠ none) : ∃ v, m.load32 (a % 2 ^ 32) = .ok v := by
  have ⟨v₀, h₀⟩ := exists_load16 fun j hj => h j (by omega)
  have ⟨v₁, h₁⟩ : ∃ v, m.load16 ((a + 2) % 2 ^ 32) = .ok v := exists_load16 fun j hj => by
    rw [Nat.add_assoc]
    exact h (2 + j) (by omega)
  rw [← Nat.mod_add_mod] at h₁
  rw [load32, h₀, h₁]
  exact ⟨_, rfl⟩

end View
