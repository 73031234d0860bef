import Yabloko.Kernel.Fs

-- The file of the kernel, which starts in the third sector of the disk.
def Disk.kernel (disk : Disk) : Bytes :=
  fun i => disk.sector (i / sectorSize + 2) (i % sectorSize)

namespace Bootmain

abbrev sectsize : Nat := 512
abbrev elfMagic : Nat := 0x464C457F

-- The scratch space for the headers.
abbrev elf : Nat := 0x10000

-- The parts of a program header which `bootmain` reads.
structure Phdr where
  offset : Nat
  paddr  : Nat
  filesz : Nat
  memsz  : Nat

def phdr (m : Bytes) (ph : Nat) : Phdr where
  offset := m.load32 (ph + 4)
  paddr := m.load32 (ph + 12)
  filesz := m.load32 (ph + 16)
  memsz := m.load32 (ph + 20)

-- The `n` bytes from the address `dst` on are overwritten.
def copy (m : Bytes) (dst n : Nat) (f : Nat → UInt8) : Bytes :=
  fun a =>
    let i := (a + 2 ^ 32 - dst) % 2 ^ 32
    if i < n then f i else m a

def stosb (m : Bytes) (addr : Nat) (byte : UInt8) (count : Nat) : Bytes :=
  copy m addr count fun _ => byte

def readsect (disk : Disk) (m : Bytes) (dst offset : Nat) : Bytes :=
  copy m dst sectsize (disk.sector offset)

-- After 2²³ rounds, the loop is back at its first address and goes on forever.
def readseg (disk : Disk) (m : Bytes) (pa count offset : Nat) : Option Bytes :=
  let epa := (pa + count) % 2 ^ 32
  let pa := (pa + 2 ^ 32 - offset % sectsize) % 2 ^ 32
  let offset := offset / sectsize + 2
  go epa (2 ^ 23 + 1) m pa offset
where
  go (epa : Nat) : Nat → Bytes → Nat → Nat → Option Bytes
    | 0, _, _, _ => none
    | fuel + 1, m, pa, offset =>
      if pa < epa then
        go epa fuel (readsect disk m pa offset) ((pa + sectsize) % 2 ^ 32) ((offset + 1) % 2 ^ 32)
      else
        some m

-- What has been read of a program header: three fields before the sectors of the segment are read, and
-- two fields after it.
structure Used where
  offset  : Nat
  paddr   : Nat
  filesz  : Nat
  memsz'  : Nat
  filesz' : Nat

-- The loop over the program headers, which are read from the scratch space again in each round. There
-- are less than 2¹⁶ of them, so the bound on the rounds is not reached.
def loadSegments (disk : Disk) (eph : Nat) : Nat → Nat → Bytes → Option (List Used × Bytes)
  | 0, _, _ => none
  | fuel + 1, ph, m =>
    if ph < eph then do
      let { offset, paddr, filesz, .. } := phdr m ph
      let pa := paddr &&& 0x0fffffff
      let m ← readseg disk m pa filesz offset
      let { memsz := memsz', filesz := filesz', .. } := phdr m ph
      let m := if memsz' > filesz' then
        stosb m ((pa + filesz') % 2 ^ 32) 0 (memsz' - filesz')
      else
        m
      let (used, m) ← loadSegments disk eph fuel ((ph + 32) % 2 ^ 32) m
      return ({ offset, paddr, filesz, memsz', filesz' } :: used, m)
    else
      return ([], m)

-- The kernel is entered at the given address, unless `bootmain` returns.
inductive Outcome
  | returned
  | entered (used : List Used) (entry : Nat) (m : Bytes)

-- The address which is called.
def target (entry : Nat) : Nat :=
  entry &&& 0x0fffffff

def bootmain (disk : Disk) (m : Bytes) : Option Outcome := do
  let m ← readseg disk m elf 4096 0
  if m.load32 elf ≠ elfMagic then
    return .returned
  let ph := (elf + m.load32 (elf + 28)) % 2 ^ 32
  let eph := (ph + 32 * m.load16 (elf + 44)) % 2 ^ 32
  let (used, m) ← loadSegments disk eph (2 ^ 16) ph m
  return .entered used (m.load32 (elf + 24)) m

variable {disk : Disk} {m m' : Bytes} {pa epa count offset a n : Nat} {f : Nat → UInt8}

theorem copy_eq (hp : pa + n ≤ 2 ^ 32) (ha : a < 2 ^ 32) :
    copy m pa n f a = if pa ≤ a ∧ a < pa + n then f (a - pa) else m a := by
  simp only [copy]
  by_cases h : pa ≤ a ∧ a < pa + n
  case pos =>
    have he : (a + 2 ^ 32 - pa) % 2 ^ 32 = a - pa := by omega
    rw [he, if_pos h, if_pos (by omega)]
  case neg => rw [if_neg h, if_neg (by omega)]

-- The sectors from the rounded address on have been read.
theorem readseg_go (disk : Disk) (m : Bytes) (fuel pa offset : Nat) (hp : pa % sectsize = 0) (he : epa + sectsize ≤ 2 ^ 32)
    (hf : (epa + sectsize - 1 - pa) / sectsize < fuel) (ho : offset + fuel < 2 ^ 32) : ∃ m',
    readseg.go disk epa fuel m pa offset = some m' ∧ ∀ a < 2 ^ 32, m' a =
      if pa ≤ a ∧ a < (epa + sectsize - 1) / sectsize * sectsize then
        disk.sector (offset + (a - pa) / sectsize) ((a - pa) % sectsize)
      else
        m a := by
  simp only [sectsize] at *
  induction fuel generalizing m pa offset
  case zero         => omega
  case succ fuel hi =>
    rw [readseg.go]
    by_cases hlt : pa < epa
    case neg =>
      rw [if_neg hlt]
      refine ⟨m, rfl, fun a _ => ?_⟩
      rw [if_neg (by omega)]
    case pos =>
      have ⟨m', hr, hm⟩ := hi (readsect disk m pa offset) (pa + 512) (offset + 1)
        (by omega) (by omega) (by omega)
      have hp' : (pa + sectsize) % 2 ^ 32 = pa + 512 := Nat.mod_eq_of_lt <| by
        simp only [sectsize]
        omega
      rw [if_pos hlt, hp', Nat.mod_eq_of_lt (by omega)]
      refine ⟨m', hr, fun a ha => ?_⟩
      rw [hm a ha, readsect, copy_eq (by simp only [sectsize]; omega) ha]
      by_cases h₁ : pa + 512 ≤ a ∧ a < (epa + 512 - 1) / 512 * 512
      case pos =>
        have h₂ : offset + 1 + (a - (pa + 512)) / 512 = offset + (a - pa) / 512 := by omega
        have h₃ : (a - (pa + 512)) % 512 = (a - pa) % 512 := by omega
        rw [if_pos h₁, if_pos (by omega), h₂, h₃]
      case neg =>
        rw [if_neg h₁]
        by_cases h₂ : pa ≤ a ∧ a < pa + 512
        case neg => rw [if_neg h₂, if_neg (by omega)]
        case pos =>
          have h₃ : offset + (a - pa) / 512 = offset := by omega
          have h₄ : (a - pa) % 512 = a - pa := by omega
          rw [if_pos h₂, if_pos (by omega), h₃, h₄]

-- The segment is read as a range of whole sectors.
theorem readseg_eq (disk : Disk) (count : Nat) (hp : pa % sectsize = offset % sectsize) (hc : pa + count + sectsize ≤ 2 ^ 32)
    (ho : offset < 2 ^ 32) (m : Bytes) : ∃ m', readseg disk m pa count offset = some m' ∧
      ∀ a < 2 ^ 32, m' a =
        if pa / sectsize * sectsize ≤ a ∧ a < (pa + count + sectsize - 1) / sectsize * sectsize then
          disk.kernel (offset / sectsize * sectsize + (a - pa / sectsize * sectsize))
        else
          m a := by
  have he : (pa + count) % 2 ^ 32 = pa + count := Nat.mod_eq_of_lt <| by
    simp only [sectsize] at hc
    omega
  have hb : (pa + 2 ^ 32 - offset % sectsize) % 2 ^ 32 = pa / sectsize * sectsize := by
    simp only [sectsize] at hp hc ⊢
    omega
  have ⟨m', hr, hm⟩ := readseg_go disk m (2 ^ 23 + 1) (pa / sectsize * sectsize)
    (offset / sectsize + 2) (Nat.mul_mod_left _ _) hc
    (by simp only [sectsize] at hc ⊢; omega) (by simp only [sectsize]; omega)
  refine ⟨m', by rw [readseg, he, hb, hr], fun a ha => ?_⟩
  rw [hm a ha, Disk.kernel]
  simp only [sectorSize, sectsize]
  split
  case isFalse => rfl
  case isTrue  =>
    have h₁ : (offset / 512 * 512 + (a - pa / 512 * 512)) / 512 + 2 =
      offset / 512 + 2 + (a - pa / 512 * 512) / 512 := by omega
    have h₂ : (offset / 512 * 512 + (a - pa / 512 * 512)) % 512 = (a - pa / 512 * 512) % 512 := by omega
    rw [h₁, h₂]

-- The bytes of the segment itself.
theorem readseg_bytes (hp : pa % sectsize = offset % sectsize) (hc : pa + count + sectsize ≤ 2 ^ 32)
    (ho : offset < 2 ^ 32) (hr : readseg disk m pa count offset = some m') :
    ∀ i < count, m' (pa + i) = disk.kernel (offset + i) := by
  intro i hi
  have ⟨m'', hr', hm⟩ := readseg_eq disk count hp hc ho m
  rw [hr, Option.some.injEq] at hr'
  simp only [sectsize] at hp hc hm
  rw [hr', hm _ (by omega), if_pos (by omega)]
  apply congrArg
  omega

end Bootmain
