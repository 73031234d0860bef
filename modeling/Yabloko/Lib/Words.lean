import Yabloko.Lib.Bytes

abbrev Word := BitVec 32

-- A memory of bytes with addresses of 32 bits, which wrap around.
abbrev Memory := Word → UInt8

namespace Memory

def load32 (m : Memory) (a : Word) : Word :=
  .ofNat 32 ((m a).toNat + 2 ^ 8 * (m (a + 1#32)).toNat + 2 ^ 16 * (m (a + 2#32)).toNat +
    2 ^ 24 * (m (a + 3#32)).toNat)

def store32 (m : Memory) (a v : Word) : Memory :=
  fun i => if i - a < 4#32 then .ofNat (v.toNat / 2 ^ (8 * (i - a).toNat)) else m i

-- The words lie one after the other, from the address `a` on.
def Holds (m : Memory) (a : Word) : List Word → Prop
  | []      => True
  | w :: ws => m.load32 a = w ∧ Holds m (a + 4#32) ws

-- The `n` bytes from `a` on and the `k` bytes from `b` on do not meet.
def Apart (a : Word) (n : Nat) (b : Word) (k : Nat) : Prop :=
  n ≤ (b - a).toNat ∧ k ≤ (a - b).toNat

-- The memories agree outside of the `n` bytes from `a` on.
def AgreeOutside (a : Word) (n : Nat) (m m' : Memory) : Prop :=
  ∀ b, n ≤ (b - a).toNat → m' b = m b

variable {m m' m'' : Memory} {a b w v : Word} {ws : List Word} {n k : Nat}

theorem store32_apply (m : Memory) (a v : Word) {i : Nat} (hi : i < 4) :
    m.store32 a v (a + .ofNat 32 i) = .ofNat (v.toNat / 2 ^ (8 * i)) := by
  have he : a + .ofNat 32 i - a = .ofNat 32 i := by bv_omega
  have hl : BitVec.ofNat 32 i < 4#32 := by bv_omega
  have hn : (BitVec.ofNat 32 i).toNat = i := by
    rw [BitVec.toNat_ofNat, Nat.mod_eq_of_lt (by omega)]
  rw [store32, he, if_pos hl, hn]

theorem store32_of_le (h : 4#32 ≤ b - a) : m.store32 a v b = m b :=
  if_neg <| BitVec.not_lt.mpr h

theorem load32_store32 (m : Memory) (a v : Word) : (m.store32 a v).load32 a = v := by
  have h₀ := m.store32_apply a v (i := 0) (by decide)
  have h₁ := m.store32_apply a v (i := 1) (by decide)
  have h₂ := m.store32_apply a v (i := 2) (by decide)
  have h₃ := m.store32_apply a v (i := 3) (by decide)
  simp only [BitVec.add_zero] at h₀ h₁ h₂ h₃
  have hv := v.isLt
  apply BitVec.eq_of_toNat_eq
  simp only [load32, h₀, h₁, h₂, h₃, BitVec.toNat_ofNat, UInt8.toNat_ofNat', Nat.mul_zero, pow_zero, Nat.div_one]
  omega

theorem toNat_load32 (m : Memory) (a : Word) : (m.load32 a).toNat =
    (m a).toNat + 2 ^ 8 * (m (a + 1#32)).toNat + 2 ^ 16 * (m (a + 2#32)).toNat +
      2 ^ 24 * (m (a + 3#32)).toNat := by
  have h₀ := (m a).toNat_lt
  have h₁ := (m (a + 1#32)).toNat_lt
  have h₂ := (m (a + 2#32)).toNat_lt
  have h₃ := (m (a + 3#32)).toNat_lt
  rw [load32, BitVec.toNat_ofNat]
  omega

theorem load32_eq_zero_iff : m.load32 a = 0 ↔ ∀ i < 4, m (a + .ofNat 32 i) = 0 := by
  have hz : (0 : Word).toNat = 0 := rfl
  rw [← BitVec.toNat_inj, toNat_load32, hz]
  constructor
  case mp =>
    intro h i hi
    rw [← UInt8.toNat_inj, UInt8.toNat_zero]
    match i with
    | 0 => rw [BitVec.add_zero]; omega
    | 1 => omega
    | 2 => omega
    | 3 => omega
  case mpr =>
    intro h
    have h₀ := h 0 (by decide)
    rw [BitVec.add_zero] at h₀
    rw [h₀, h 1 (by decide), h 2 (by decide), h 3 (by decide)]
    rfl

-- A word depends on its four bytes only.
theorem load32_congr (h : ∀ i < 4, m' (a + .ofNat 32 i) = m (a + .ofNat 32 i)) :
    m'.load32 a = m.load32 a := by
  have h₀ := h 0 (by decide)
  have h₁ := h 1 (by decide)
  have h₂ := h 2 (by decide)
  have h₃ := h 3 (by decide)
  simp only [BitVec.add_zero] at h₀ h₁ h₂ h₃
  rw [load32, load32, h₀, h₁, h₂, h₃]

theorem load32_store32_of_le (h₁ : 4#32 ≤ b - a) (h₂ : 4#32 ≤ a - b) :
    (m.store32 a v).load32 b = m.load32 b :=
  load32_congr fun i hi => store32_of_le <| by bv_omega

-- The words which are stored lie outside of the 4 * n bytes from `a` on.
theorem Holds.congr (h : Holds m a ws) (hl : 4 * ws.length ≤ 2 ^ 32)
    (hm : ∀ i < 4 * ws.length, m' (a + .ofNat 32 i) = m (a + .ofNat 32 i)) : Holds m' a ws := by
  induction ws generalizing a
  case nil          => trivial
  case cons w ws hi =>
    have ⟨hw, hws⟩ := h
    rw [List.length_cons] at hl hm
    refine ⟨(load32_congr fun i hi => hm i (by omega)).trans hw, hi hws (by omega) fun i hi => ?_⟩
    have he : a + 4#32 + .ofNat 32 i = a + .ofNat 32 (i + 4) := by bv_omega
    rw [he]
    exact hm (i + 4) (by omega)

theorem Apart.symm (h : Apart a n b k) : Apart b k a n :=
  And.symm h

theorem store32_agree (m : Memory) (a v : Word) : AgreeOutside a 4 m (m.store32 a v) :=
  fun _ hb => store32_of_le hb

-- The bytes above those of a word.
theorem AgreeOutside.push (h : AgreeOutside a n m m') (hn : n < 2 ^ 32 - 4) (w : Word) :
    AgreeOutside (a - 4#32) (n + 4) m (m'.store32 (a - 4#32) w) :=
  fun b hb => (store32_of_le <| by bv_omega).trans <| h b <| by bv_omega

theorem AgreeOutside.holds (h : AgreeOutside b k m m') (hw : Holds m a ws) (hl : 4 * ws.length ≤ 2 ^ 32)
    (ha : Apart a (4 * ws.length) b k) : Holds m' a ws := by
  have ⟨h₁, h₂⟩ := ha
  exact hw.congr hl fun i hi => h _ <| by bv_omega

-- A word is pushed in front of the others.
theorem Holds.push (h : Holds m a ws) (hl : 4 * ws.length + 4 ≤ 2 ^ 32) (w : Word) :
    Holds (m.store32 (a - 4#32) w) (a - 4#32) (w :: ws) := by
  refine ⟨load32_store32 _ _ _, ?_⟩
  rw [BitVec.sub_add_cancel]
  refine h.congr (by omega) fun i hi => store32_of_le ?_
  bv_omega

theorem Holds.load (h : Holds m a ws) {i : Nat} (hw : ws[i]? = some w) :
    m.load32 (a + .ofNat 32 (4 * i)) = w := by
  induction ws generalizing a i
  case nil          => cases hw
  case cons v ws hi =>
    match i with
    | 0     =>
      cases hw
      rw [Nat.mul_zero, BitVec.add_zero]
      exact h.left
    | i + 1 =>
      have he : a + .ofNat 32 (4 * (i + 1)) = a + 4#32 + .ofNat 32 (4 * i) := by bv_omega
      rw [he]
      exact hi h.right hw

theorem Holds.append_iff {ws' : List Word} : Holds m a (ws ++ ws') ↔
    Holds m a ws ∧ Holds m (a + .ofNat 32 (4 * ws.length)) ws' := by
  induction ws generalizing a
  case nil          => simp [Holds]
  case cons w ws hi =>
    have he : a + 4#32 + .ofNat 32 (4 * ws.length) = a + .ofNat 32 (4 * (ws.length + 1)) := by
      rw [BitVec.add_assoc, ← BitVec.ofNat_add, Nat.mul_add, Nat.add_comm]
    rw [List.cons_append, Holds, Holds, hi, he, List.length_cons, and_assoc]

end Memory
