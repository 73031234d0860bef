import Yabloko.Kernel.Machine
import Yabloko.Lib.Words

namespace Kstart

-- The registers which `_start` reads or writes, the direction flag and the physical memory. The
-- instructions are not fetched from this memory.
structure Cpu where
  eax : Word
  ecx : Word
  edi : Word
  esp : Word
  eip : Word
  cr0 : Word
  cr3 : Word
  cr4 : Word
  df  : Bool
  mem : Memory

abbrev directory : Word := 0x1000

abbrev lowPage : Word := .ofNat 32 (0 ||| pteP ||| pteW ||| ptePS)

namespace Cpu

def stosd (s : Cpu) : Cpu :=
  { s with
    mem := s.mem.store32 s.edi s.eax
    edi := if s.df then s.edi - 4 else s.edi + 4
    ecx := s.ecx - 1 }

def repStosd (s : Cpu) : Cpu :=
  stosd^[s.ecx.toNat] s

-- The instructions of `_start` up to the one which loads `cr3`.
def loadDirectory (s : Cpu) : Cpu :=
  let s := { s with eax := 0 }
  let s := { s with ecx := 1024 }
  let s := s.repStosd
  let s := { s with eax := s.cr4 }
  let s := { s with eax := s.eax ||| 0x10 }
  let s := { s with cr4 := s.eax }
  let s := { s with mem := s.mem.store32 0x1000 lowPage }
  let s := { s with mem := s.mem.store32 (0x1000 + BitVec.ofNat 32 ((kernbase >>> 22) * 4)) lowPage }
  let s := { s with edi := 0x1000 }
  { s with cr3 := s.edi }

def start (kmain : Word) (s : Cpu) : Cpu :=
  let s := s.loadDirectory
  let s := { s with eax := s.cr0 }
  let s := { s with eax := s.eax ||| 1 <<< 31 }
  let s := { s with cr0 := s.eax }
  let s := { s with esp := s.esp + BitVec.ofNat 32 kernbase }
  let s := { s with eax := kmain }
  { s with eip := s.eax }

-- The directory maps the first 4 MiB twice and nothing else, and no other memory has changed.
structure Clean (kmain : Word) (s : Cpu) : Prop where
  entries : ∀ i < npdentries, s.loadDirectory.mem.load32 (s.loadDirectory.cr3 + BitVec.ofNat 32 (4 * i)) =
              if i = 0 ∨ i = 512 then lowPage else 0
  outside : ∀ a, ¬(directory ≤ a ∧ a < directory + 0x1000) → (s.start kmain).mem a = s.mem a

-- The distance from one store of `rep stosd` to the next one.
def stride (s : Cpu) : Word :=
  if s.df then -4 else 4

-- One of the first `n` stores of `rep stosd` writes the byte.
def Stored (s : Cpu) (n : Nat) (a : Word) : Prop :=
  ∃ k < n, a - (s.edi + BitVec.ofNat 32 k * s.stride) < 4#32

-- The byte belongs to one of the two entries which are written on their own.
def Mapping (a : Word) : Prop :=
  a - directory < 4#32 ∨ a - (directory + 2048) < 4#32

-- The stores hit only zeros outside of the directory, and in the directory they miss only zeros.
structure Harmless (s : Cpu) : Prop where
  outside : ∀ a, ¬(directory ≤ a ∧ a < directory + 0x1000) → s.Stored 1024 a → s.mem a = 0
  inside  : ∀ a, directory ≤ a ∧ a < directory + 0x1000 → ¬Mapping a → ¬s.Stored 1024 a → s.mem a = 0

variable {s : Cpu} {n : Nat} {a : Word}

theorem stored_succ : s.Stored (n + 1) a ↔ s.Stored n a ∨ a - (s.edi + BitVec.ofNat 32 n * s.stride) < 4#32 := by
  simp only [Stored, Nat.lt_succ_iff_lt_or_eq, or_and_right, exists_or, exists_eq_left]

-- After `n` rounds, the bytes of the first `n` stores are zero.
theorem iterate_stosd (h : s.eax = 0) (n : Nat) : ∃ mem, stosd^[n] s = { s with
      mem
      edi := s.edi + BitVec.ofNat 32 n * s.stride
      ecx := s.ecx - BitVec.ofNat 32 n } ∧
    ∀ a, (s.Stored n a → mem a = 0) ∧ (¬s.Stored n a → mem a = s.mem a) := by
  induction n
  case zero      =>
    exact ⟨s.mem, by simp, fun a => ⟨fun ⟨_, hk, _⟩ => absurd hk (Nat.not_lt_zero _), fun _ => rfl⟩⟩
  case succ n hi =>
    have ⟨mem, he, hm⟩ := hi
    refine ⟨mem.store32 (s.edi + BitVec.ofNat 32 n * s.stride) 0, ?_, fun a => ?_⟩
    · rw [Function.iterate_succ_apply', he, stosd]
      have hs : s.edi + BitVec.ofNat 32 (n + 1) * s.stride = s.edi + BitVec.ofNat 32 n * s.stride + s.stride := by
        rw [BitVec.ofNat_add, BitVec.add_mul, BitVec.one_mul, BitVec.add_assoc]
      have hc : s.ecx - BitVec.ofNat 32 (n + 1) = s.ecx - BitVec.ofNat 32 n - 1 := by bv_omega
      rw [hs, hc, h]
      simp only [stride]
      split
      case isTrue hd  => simp [hd, BitVec.sub_eq_add_neg]
      case isFalse hd => simp [hd]
    · rw [stored_succ, Memory.store32]
      split
      case isTrue hl  => simp [hl]
      case isFalse hl => simpa [hl] using hm a

-- The memory after the directory has been cleared, and after its two entries have been written.
theorem loadDirectory_eq (s : Cpu) : ∃ mem : Memory,
    (∀ a, (s.Stored 1024 a → mem a = 0) ∧ (¬s.Stored 1024 a → mem a = s.mem a)) ∧
    s.loadDirectory.cr3 = directory ∧
    s.loadDirectory.mem = (mem.store32 directory lowPage).store32 (directory + 2048) lowPage := by
  have ⟨mem, he, hm⟩ := iterate_stosd (s := { s with eax := 0, ecx := 1024 }) rfl 1024
  refine ⟨mem, hm, rfl, ?_⟩
  have hc : (1024 : Word).toNat = 1024 := rfl
  simp only [loadDirectory, repStosd, hc, he]
  rfl

-- Nothing is stored after the directory has been loaded.
theorem start_mem (kmain : Word) (s : Cpu) : (s.start kmain).mem = s.loadDirectory.mem :=
  rfl

theorem start_clean_iff (kmain : Word) (s : Cpu) : s.Clean kmain ↔ s.Harmless := by
  have ⟨mem, hm, hc, he⟩ := s.loadDirectory_eq
  have entry {i : Nat} (hi : i < 1024) : s.loadDirectory.mem.load32 (directory + BitVec.ofNat 32 (4 * i)) =
      if i = 0 ∨ i = 512 then lowPage else mem.load32 (directory + BitVec.ofNat 32 (4 * i)) := by
    rw [he]
    by_cases h₁ : i = 512
    case pos => simp [h₁, Memory.load32_store32]
    case neg =>
      rw [Memory.load32_store32_of_le (by bv_omega) (by bv_omega)]
      by_cases h₀ : i = 0
      case pos => simp [h₀, Memory.load32_store32]
      case neg =>
        rw [Memory.load32_store32_of_le (by bv_omega) (by bv_omega), if_neg (by omega)]
  have outside {a : Word} (ha : ¬(directory ≤ a ∧ a < directory + 0x1000)) : s.loadDirectory.mem a = mem a := by
    rw [he, Memory.store32_of_le (by bv_omega), Memory.store32_of_le (by bv_omega)]
  constructor
  case mp =>
    intro h
    refine ⟨fun a ha hs => ?_, fun a ha hn hs => ?_⟩
    · have ho := h.outside a ha
      rw [start_mem, outside ha, (hm a).left hs] at ho
      exact ho.symm
    · -- The byte belongs to an entry which is zero.
      have ⟨i, j, hj, hi, ha'⟩ : ∃ i j, j < 4 ∧ i < 1024 ∧
          a = directory + BitVec.ofNat 32 (4 * i) + BitVec.ofNat 32 j :=
        ⟨(a - directory).toNat / 4, (a - directory).toNat % 4, by omega, by bv_omega, by bv_omega⟩
      have h₀ : ¬(i = 0 ∨ i = 512) := fun h => hn <| by
        rw [Mapping, ha']
        bv_omega
      have hz := h.entries i hi
      rw [hc, entry hi, if_neg h₀, if_neg h₀, Memory.load32_eq_zero_iff] at hz
      rw [← (hm a).right hs, ha']
      exact hz j hj
  case mpr =>
    intro h
    refine ⟨fun i hi => ?_, fun a ha => ?_⟩
    · have hi : i < 1024 := hi
      rw [hc, entry hi]
      split
      case isTrue     => rfl
      case isFalse h₀ =>
        refine Memory.load32_eq_zero_iff.mpr fun j hj => ?_
        by_cases hs : s.Stored 1024 (directory + BitVec.ofNat 32 (4 * i) + BitVec.ofNat 32 j)
        case pos => exact (hm _).left hs
        case neg =>
          rw [(hm _).right hs]
          refine h.inside _ (by bv_omega) ?_ hs
          rw [Mapping]
          bv_omega
    · rw [start_mem, outside ha]
      by_cases hs : s.Stored 1024 a
      case pos => rw [(hm a).left hs, h.outside a ha hs]
      case neg => exact (hm a).right hs

-- `_start` never sets `edi`. When it is 0, the page in front of the directory is cleared instead.
theorem start_clears_page_zero : let s : Cpu := {
      eax := 0, ecx := 0, edi := 0, esp := 0, eip := 0, cr0 := 0, cr3 := 0, cr4 := 0, df := false
      mem := fun _ => 1 }
    s.loadDirectory.mem (directory + 4) = 1 ∧ (s.start 0).mem 0 = 0 ∧ ¬s.Clean 0 := by
  intro s
  have ⟨mem, hm, _, he⟩ := s.loadDirectory_eq
  have hs : s.Stored 1024 0 := ⟨0, by decide, by decide⟩
  have hn : ¬s.Stored 1024 (directory + 4) := by
    intro ⟨k, hk, hl⟩
    simp only [s, stride, Bool.false_eq_true, if_false] at hl
    bv_omega
  refine ⟨?_, ?_, fun h => ?_⟩
  · rw [he, Memory.store32_of_le (by decide), Memory.store32_of_le (by decide), (hm _).right hn]
  · rw [start_mem, he, Memory.store32_of_le (by decide), Memory.store32_of_le (by decide), (hm _).left hs]
  · exact absurd (((s.start_clean_iff 0).mp h).outside 0 (by decide) hs) (by decide)

-- The directory is clean for every content of the memory only if `edi` happens to point to it.
theorem start_clean_all_iff (kmain : Word) (s : Cpu) :
    (∀ mem, Clean kmain { s with mem }) ↔
      (s.df = false ∧ s.edi = directory) ∨ (s.df = true ∧ s.edi = directory + 0xFFC) := by
  have stored {mem : Memory} {a : Word} : Stored { s with mem } 1024 a ↔ s.Stored 1024 a := Iff.rfl
  simp only [start_clean_iff]
  constructor
  case mp =>
    intro h
    have inside {a : Word} (hs : s.Stored 1024 a) : directory ≤ a ∧ a < directory + 0x1000 := by
      by_contra hn
      have hz := (h fun _ => 1).outside a hn <| stored.mpr hs
      simp at hz
    have h₀ := inside (a := s.edi) ⟨0, by decide, by simp⟩
    have h₁ := inside (a := s.edi + BitVec.ofNat 32 1023 * s.stride) ⟨1023, by decide, by simp⟩
    have h₂ := inside (a := s.edi + 3) ⟨0, by decide, by bv_omega⟩
    have h₃ := inside (a := s.edi + BitVec.ofNat 32 1023 * s.stride + 3) ⟨1023, by decide, by bv_omega⟩
    rw [stride] at h₁ h₃
    cases hd : s.df
    case false =>
      simp only [hd, Bool.false_eq_true, if_false] at h₁ h₃
      exact .inl ⟨rfl, by bv_omega⟩
    case true  =>
      simp only [hd, if_true] at h₁ h₃
      exact .inr ⟨rfl, by bv_omega⟩
  case mpr =>
    intro h mem
    have hs {a : Word} : s.Stored 1024 a ↔ directory ≤ a ∧ a < directory + 0x1000 := by
      rw [Stored, stride]
      cases h
      case inl h =>
        simp only [h.left, h.right, Bool.false_eq_true, if_false]
        refine ⟨fun ⟨k, hk, hl⟩ => ?_, fun ha => ⟨(a - directory).toNat / 4, ?_, ?_⟩⟩
        all_goals bv_omega
      case inr h =>
        have hk (k : Nat) : BitVec.ofNat 32 k * -4 = -BitVec.ofNat 32 (k * 4) := by
          rw [BitVec.mul_neg, BitVec.ofNat_mul]
          rfl
        simp only [h.left, h.right, if_true, hk]
        refine ⟨fun ⟨k, hk, hl⟩ => ?_, fun ha => ⟨1023 - (a - directory).toNat / 4, ?_, ?_⟩⟩
        all_goals bv_omega
    exact {
      outside := fun a hn ha => absurd (hs.mp <| stored.mp ha) hn
      inside := fun a ha _ hn => absurd (stored.mpr <| hs.mpr ha) hn }

end Cpu

end Kstart
