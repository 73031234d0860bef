import Yabloko.Boot.Bootmain

namespace Bootmain

namespace Phdr

variable (p : Phdr)

-- The place in memory to which the segment is loaded.
def pa : Nat :=
  p.paddr &&& 0x0fffffff

-- The segment has been loaded with the fields of its header.
def used : Used where
  offset := p.offset
  paddr := p.paddr
  filesz := p.filesz
  memsz' := p.memsz
  filesz' := p.filesz

-- The sectors which the segment touches.
def first : Nat :=
  p.pa / sectsize

def last : Nat :=
  (p.pa + p.memsz + sectsize - 1) / sectsize

-- What is written at an address when the sectors of the segment are read.
def reads (disk : Disk) (a : Nat) : Option UInt8 :=
  if p.pa / sectsize * sectsize ≤ a ∧ a < (p.pa + p.filesz + sectsize - 1) / sectsize * sectsize then
    some <| disk.kernel (p.offset / sectsize * sectsize + (a - p.pa / sectsize * sectsize))
  else
    none

-- What has been written at an address once the segment is loaded.
def loads (disk : Disk) (a : Nat) : Option UInt8 :=
  if p.pa + p.filesz ≤ a ∧ a < p.pa + p.memsz then some 0 else p.reads disk a

end Phdr

end Bootmain

namespace Disk

open Bootmain

variable (disk : Disk)

-- The headers of the kernel, as they are on the disk.
def phoff : Nat :=
  disk.kernel.load32 28

def phnum : Nat :=
  disk.kernel.load16 44

def phdr (i : Nat) : Phdr :=
  Bootmain.phdr disk.kernel (disk.phoff + 32 * i)

-- The segments of the kernel lie in the area which is meant for it, in order and in separate sectors.
structure KernelImage : Prop where
  magic  : disk.kernel.load32 0 = elfMagic
  table  : disk.phoff + 32 * disk.phnum ≤ 4096
  ptLoad : ∀ i < disk.phnum, disk.kernel.load32 (disk.phoff + 32 * i) = 1
  sizes  : ∀ i < disk.phnum, (disk.phdr i).filesz ≤ (disk.phdr i).memsz
  congr  : ∀ i < disk.phnum, (disk.phdr i).paddr % sectsize = (disk.phdr i).offset % sectsize
  lower  : ∀ i < disk.phnum, 0x9000 ≤ (disk.phdr i).pa
  upper  : ∀ i < disk.phnum, (disk.phdr i).pa + (disk.phdr i).memsz ≤ 0x15000
  apart  : ∀ i j, i < j → j < disk.phnum → (disk.phdr i).last ≤ (disk.phdr j).first

-- The headers which are on the disk have been used, and their segments are in memory.
structure Loaded (used : List Used) (entry : Nat) (m : Bytes) : Prop where
  used  : used = (List.range disk.phnum).map fun i => (disk.phdr i).used
  entry : entry = disk.kernel.load32 24
  file  : ∀ i < disk.phnum, ∀ k < (disk.phdr i).filesz,
            m ((disk.phdr i).pa + k) = disk.kernel ((disk.phdr i).offset + k)
  bss   : ∀ i < disk.phnum, ∀ k, (disk.phdr i).filesz ≤ k → k < (disk.phdr i).memsz →
            m ((disk.phdr i).pa + k) = 0

end Disk

namespace Bootmain

-- The bytes of a program header which are used.
def Field (k : Nat) : Prop :=
  4 ≤ k ∧ k < 8 ∨ 12 ≤ k ∧ k < 24

-- The bytes of the headers which are needed from the segment with number `i` on.
def Needed (disk : Disk) (i x : Nat) : Prop :=
  24 ≤ x ∧ x < 28 ∨ ∃ j k, i ≤ j ∧ j < disk.phnum ∧ Field k ∧ x = disk.phoff + 32 * j + k

-- No segment replaces a byte of the headers by another one before the byte is used for the last time.
structure Harmless (disk : Disk) : Prop where
  needed : ∀ i < disk.phnum, ∀ x, Needed disk (i + 1) x → ∀ b ∈ (disk.phdr i).loads disk (elf + x),
             b = disk.kernel x
  sizes  : ∀ i < disk.phnum, ∀ k, 16 ≤ k → k < 24 →
             ∀ b ∈ (disk.phdr i).reads disk (elf + (disk.phoff + 32 * i + k)),
               b = disk.kernel (disk.phoff + 32 * i + k)

variable {disk : Disk} {m m' m'' : Bytes} {p : Phdr} {a b i j k x : Nat} {c : UInt8}

-- Two words are the same if their bytes are.
theorem load32_eq_iff : m.load32 a = m'.load32 b ↔ ∀ k < 4, m (a + k) = m' (b + k) := by
  have h n := (m (a + n)).toNat_lt
  have h' n := (m' (b + n)).toNat_lt
  have h₀ := h 0
  have h₁ := h 1
  have h₂ := h 2
  have h₃ := h 3
  have h₀' := h' 0
  have h₁' := h' 1
  have h₂' := h' 2
  have h₃' := h' 3
  simp only [Bytes.load32, Bytes.load16, Nat.add_assoc, Nat.reduceAdd, Nat.add_zero] at *
  constructor
  case mp  =>
    intro he k hk
    rw [← UInt8.toNat_inj]
    obtain rfl | rfl | rfl | rfl : k = 0 ∨ k = 1 ∨ k = 2 ∨ k = 3 := by omega
    case inl => rw [Nat.add_zero, Nat.add_zero]; omega
    all_goals omega
  case mpr =>
    intro he
    have he₀ := he 0 (by decide)
    rw [Nat.add_zero, Nat.add_zero] at he₀
    rw [he₀, he 1 (by decide), he 2 (by decide), he 3 (by decide)]

theorem byte_of_load32 (h : m.load32 (a + i) = m'.load32 (b + i)) (hi : i ≤ k) (hk : k < i + 4) :
    m (a + k) = m' (b + k) := by
  have hb := load32_eq_iff.mp h (k - i) (by omega)
  rwa [Nat.add_assoc, Nat.add_assoc, Nat.add_sub_cancel' hi] at hb

theorem phdr_eq_iff : phdr m a = phdr m' b ↔ ∀ k, Field k → m (a + k) = m' (b + k) := by
  simp only [phdr, Phdr.mk.injEq, load32_eq_iff, Nat.add_assoc, Field]
  constructor
  case mp  =>
    intro ⟨h₁, h₂, h₃, h₄⟩ k hk
    cases hk
    case inl hk =>
      have := h₁ (k - 4) (by omega)
      rwa [Nat.add_sub_cancel' (by omega)] at this
    case inr hk =>
      by_cases hk₂ : k < 16
      case pos =>
        have := h₂ (k - 12) (by omega)
        rwa [Nat.add_sub_cancel' (by omega)] at this
      case neg =>
        by_cases hk₃ : k < 20
        case pos =>
          have := h₃ (k - 16) (by omega)
          rwa [Nat.add_sub_cancel' (by omega)] at this
        case neg =>
          have := h₄ (k - 20) (by omega)
          rwa [Nat.add_sub_cancel' (by omega)] at this
  case mpr =>
    intro h
    refine ⟨?_, ?_, ?_, ?_⟩
    all_goals exact fun k hk => h _ (by omega)

theorem Needed.lt (h : disk.KernelImage) (hx : Needed disk i x) : x < 4096 := by
  have ht := h.table
  rcases hx with hx | ⟨j, k, _, hj, hk, rfl⟩
  case inl => omega
  case inr =>
    simp only [Field] at hk
    omega

theorem Needed.succ (hx : Needed disk (i + 1) x) : Needed disk i x := by
  rcases hx with hx | ⟨j, k, hj, hx⟩
  case inl => exact .inl hx
  case inr => exact .inr ⟨j, k, by omega, hx⟩

theorem pa_mod (p : Phdr) : p.pa % sectsize = p.paddr % sectsize := by
  have he : p.pa = p.paddr % 2 ^ 28 := Nat.and_two_pow_sub_one_eq_mod p.paddr 28
  rw [he]
  simp only [sectsize]
  omega

theorem reads_eq_none (h : p.loads disk a = none) : p.reads disk a = none := by
  rw [Phdr.loads] at h
  split at h
  case isTrue  => cases h
  case isFalse => exact h

-- A segment only touches its own sectors.
theorem sector_of_loads (hs : p.filesz ≤ p.memsz) (hc : c ∈ p.loads disk a) :
    p.first ≤ a / sectsize ∧ a / sectsize < p.last := by
  rw [Phdr.loads, Phdr.reads] at hc
  simp only [Phdr.first, Phdr.last, sectsize] at hc ⊢
  split at hc
  case isTrue  => omega
  case isFalse =>
    split at hc
    case isTrue  => omega
    case isFalse => cases hc

theorem loads_eq_none (h : disk.KernelImage) (hi : i < disk.phnum) (hj : j < disk.phnum) (hn : i ≠ j)
    (hc : c ∈ (disk.phdr i).loads disk a) : (disk.phdr j).loads disk a = none := by
  by_contra hne
  have ⟨c', hc'⟩ := Option.ne_none_iff_exists'.mp hne
  have h₁ := sector_of_loads (h.sizes i hi) hc
  have h₂ := sector_of_loads (h.sizes j hj) hc'
  cases Nat.lt_or_gt_of_ne hn
  case inl hlt => have := h.apart i j hlt hj; omega
  case inr hlt => have := h.apart j i hlt hi; omega

-- The two parts of a round, with the fields which are on the disk.
theorem round (h : disk.KernelImage) (hi : i < disk.phnum) (m : Bytes) : ∃ m₁,
    readseg disk m (disk.phdr i).pa (disk.phdr i).filesz (disk.phdr i).offset = some m₁ ∧
    (∀ a < 2 ^ 32, m₁ a = ((disk.phdr i).reads disk a).getD (m a)) ∧
    ∀ a < 2 ^ 32, (if (disk.phdr i).memsz > (disk.phdr i).filesz then
      stosb m₁ (((disk.phdr i).pa + (disk.phdr i).filesz) % 2 ^ 32) 0
        ((disk.phdr i).memsz - (disk.phdr i).filesz)
    else m₁) a = ((disk.phdr i).loads disk a).getD (m a) := by
  have hs := h.sizes i hi
  have hu := h.upper i hi
  have ⟨m₁, hr, hm⟩ := readseg_eq disk (disk.phdr i).filesz
    ((pa_mod _).trans <| h.congr i hi) (by simp only [sectsize]; omega) (Bytes.load32_lt _ _) m
  have hm₁ a (ha : a < 2 ^ 32) : m₁ a = ((disk.phdr i).reads disk a).getD (m a) := by
    rw [hm a ha, Phdr.reads]
    split <;> rfl
  refine ⟨m₁, hr, hm₁, fun a ha => ?_⟩
  rw [Phdr.loads]
  split
  case isFalse => rw [if_neg (by omega), hm₁ a ha]
  case isTrue  =>
    rw [Nat.mod_eq_of_lt (by omega), stosb, copy_eq (by omega) ha]
    have he : ((disk.phdr i).pa + (disk.phdr i).filesz ≤ a ∧ a < (disk.phdr i).pa +
      (disk.phdr i).filesz + ((disk.phdr i).memsz - (disk.phdr i).filesz)) ↔
      (disk.phdr i).pa + (disk.phdr i).filesz ≤ a ∧ a < (disk.phdr i).pa + (disk.phdr i).memsz := by
      omega
    simp only [he, hm₁ a ha]
    split <;> rfl

theorem loadSegments_succ (disk : Disk) (eph fuel ph : Nat) (m : Bytes) :
    loadSegments disk eph (fuel + 1) ph m = if ph < eph then
      (readseg disk m (phdr m ph).pa (phdr m ph).filesz (phdr m ph).offset).bind fun m₁ =>
        (loadSegments disk eph fuel ((ph + 32) % 2 ^ 32)
          (if (phdr m₁ ph).memsz > (phdr m₁ ph).filesz then
            stosb m₁ (((phdr m ph).pa + (phdr m₁ ph).filesz) % 2 ^ 32) 0
              ((phdr m₁ ph).memsz - (phdr m₁ ph).filesz)
          else m₁)).bind fun r =>
          some ({ offset := (phdr m ph).offset, paddr := (phdr m ph).paddr,
                  filesz := (phdr m ph).filesz, memsz' := (phdr m₁ ph).memsz,
                  filesz' := (phdr m₁ ph).filesz } :: r.fst, r.snd)
    else some ([], m) :=
  rfl

-- The segments from number `i` on.
def usedFrom (disk : Disk) (i r : Nat) : List Used :=
  (List.range' i r).map fun j => (disk.phdr j).used

-- The rounds from number `i` on, if the headers which they need are in the scratch space.
theorem loadSegments_ok (h : disk.KernelImage) (hc : Harmless disk) (r : Nat) {fuel : Nat}
    (hr : i + r = disk.phnum) (hf : r < fuel)
    (hm : ∀ x, Needed disk i x → m (elf + x) = disk.kernel x) : ∃ m',
    loadSegments disk (elf + disk.phoff + 32 * disk.phnum) fuel (elf + disk.phoff + 32 * i) m =
      some (usedFrom disk i r, m') ∧
    (∀ x, Needed disk disk.phnum x → m' (elf + x) = disk.kernel x) ∧
    (∀ a < 2 ^ 32, (∀ j, i ≤ j → j < disk.phnum → (disk.phdr j).loads disk a = none) → m' a = m a) ∧
    ∀ j, i ≤ j → j < disk.phnum → ∀ a < 2 ^ 32, ∀ b ∈ (disk.phdr j).loads disk a, m' a = b := by
  induction r generalizing i m fuel
  case zero =>
    have hi : i = disk.phnum := by omega
    subst hi
    cases fuel
    case zero      => omega
    case succ fuel =>
      refine ⟨m, ?_, hm, fun _ _ _ => rfl, fun j hj hj' => by omega⟩
      rw [loadSegments_succ, if_neg (by omega)]
      rfl
  case succ r hi =>
    cases fuel
    case zero      => omega
    case succ fuel =>
      have hin : i < disk.phnum := by omega
      have ht := h.table
      have ⟨m₁, hr₁, hm₁, hm₂⟩ := round h hin m
      -- The header is read correctly before and after the sectors have been read.
      have hp : phdr m (elf + disk.phoff + 32 * i) = disk.phdr i := by
        apply phdr_eq_iff.mpr
        intro k hk
        have hx := hm (disk.phoff + 32 * i + k) <| .inr ⟨i, k, Nat.le_refl i, hin, hk, rfl⟩
        rw [← hx]
        exact congrArg m (by omega)
      have hf' : ∀ k, 16 ≤ k → k < 24 → m₁ (elf + disk.phoff + 32 * i + k) =
          disk.kernel (disk.phoff + 32 * i + k) := by
        intro k hk hk'
        have hx := hm (disk.phoff + 32 * i + k) <|
          .inr ⟨i, k, Nat.le_refl i, hin, .inr ⟨by omega, hk'⟩, rfl⟩
        have he : elf + disk.phoff + 32 * i + k = elf + (disk.phoff + 32 * i + k) := by omega
        rw [he, hm₁ _ (by simp only [elf]; omega)]
        match hb : (disk.phdr i).reads disk (elf + (disk.phoff + 32 * i + k)) with
        | none   => exact hx
        | some b => exact hc.sizes i hin k hk hk' b hb
      have hf₁ : (phdr m₁ (elf + disk.phoff + 32 * i)).filesz = (disk.phdr i).filesz :=
        load32_eq_iff.mpr fun k hk => by
          rw [Nat.add_assoc, Nat.add_assoc (disk.phoff + 32 * i)]
          exact hf' _ (by omega) (by omega)
      have hf₂ : (phdr m₁ (elf + disk.phoff + 32 * i)).memsz = (disk.phdr i).memsz :=
        load32_eq_iff.mpr fun k hk => by
          rw [Nat.add_assoc, Nat.add_assoc (disk.phoff + 32 * i)]
          exact hf' _ (by omega) (by omega)
      have hph : (elf + disk.phoff + 32 * i + 32) % 2 ^ 32 = elf + disk.phoff + 32 * (i + 1) := by
        simp only [elf]
        omega
      have hlt : elf + disk.phoff + 32 * i < elf + disk.phoff + 32 * disk.phnum := by omega
      rw [loadSegments_succ, if_pos hlt, hp, hr₁, Option.bind_some, hf₁, hf₂, hph]
      generalize (if (disk.phdr i).memsz > (disk.phdr i).filesz then _ else m₁) = m₂ at hm₂ ⊢
      have hm₂' x (hx : Needed disk (i + 1) x) : m₂ (elf + x) = disk.kernel x := by
        have hlt := hx.lt h
        rw [hm₂ _ (by simp only [elf]; omega)]
        match hb : (disk.phdr i).loads disk (elf + x) with
        | none   => exact hm x hx.succ
        | some b => exact hc.needed i hin x hx b hb
      have ⟨m', hr', hn, hkeep, hload⟩ := @hi _ _ fuel (by omega) (by omega) hm₂'
      refine ⟨m', ?_, hn, fun a ha hnone => ?_, fun j hj hj' a ha b hb => ?_⟩
      · rw [hr']
        rfl
      · rw [hkeep a ha fun j hj => hnone j (by omega), hm₂ a ha, hnone i (Nat.le_refl i) hin]
        rfl
      · by_cases hji : j = i
        case neg => exact hload j (by omega) hj' a ha b hb
        case pos =>
          subst hji
          rw [hkeep a ha fun k hk hk' => loads_eq_none h hin hk' (by omega) hb, hm₂ a ha, hb]
          rfl

-- If the rounds have used the headers on the disk, these have not been replaced before.
theorem harmless_of_used (h : disk.KernelImage) (r : Nat) {fuel : Nat} (hr : i + r = disk.phnum)
    (hl : loadSegments disk (elf + disk.phoff + 32 * disk.phnum) fuel (elf + disk.phoff + 32 * i) m =
      some (usedFrom disk i r, m'))
    (he : ∀ x, 24 ≤ x → x < 28 → m' (elf + x) = disk.kernel x) :
    (∀ j, i ≤ j → j < disk.phnum →
      (∀ x, Needed disk (j + 1) x → ∀ b ∈ (disk.phdr j).loads disk (elf + x), b = disk.kernel x) ∧
      ∀ k, 16 ≤ k → k < 24 → ∀ b ∈ (disk.phdr j).reads disk (elf + (disk.phoff + 32 * j + k)),
        b = disk.kernel (disk.phoff + 32 * j + k)) ∧
    ∀ x, Needed disk i x →
      (∀ j, i ≤ j → j < disk.phnum → (disk.phdr j).loads disk (elf + x) = none) →
      m (elf + x) = disk.kernel x := by
  induction r generalizing i m fuel
  case zero =>
    have hi : i = disk.phnum := by omega
    subst hi
    cases fuel
    case zero      => cases hl
    case succ fuel =>
      rw [loadSegments_succ, if_neg (by omega), Option.some.injEq, Prod.mk.injEq] at hl
      refine ⟨fun j hj hj' => by omega, fun x hx _ => ?_⟩
      rcases hx with hx | ⟨j, k, hj, hj', _⟩
      case inl => exact hl.right ▸ he x hx.left hx.right
      case inr => omega
  case succ r hi =>
    cases fuel
    case zero      => cases hl
    case succ fuel =>
      have hin : i < disk.phnum := by omega
      have ht := h.table
      have ⟨m₁, hr₁, hm₁, hm₂⟩ := round h hin m
      have hph : (elf + disk.phoff + 32 * i + 32) % 2 ^ 32 = elf + disk.phoff + 32 * (i + 1) := by
        simp only [elf]
        omega
      have hlt : elf + disk.phoff + 32 * i < elf + disk.phoff + 32 * disk.phnum := by omega
      rw [loadSegments_succ, if_pos hlt, hph] at hl
      -- The fields which have been used are those on the disk.
      have ⟨m₁', hr₁', hl⟩ := Option.bind_eq_some_iff.mp hl
      have ⟨⟨us, m''⟩, hl, hu⟩ := Option.bind_eq_some_iff.mp hl
      rw [Option.some.injEq, Prod.mk.injEq, usedFrom, List.range'_succ, List.map_cons, List.cons.injEq,
        Phdr.used, Used.mk.injEq] at hu
      have ⟨⟨⟨ho, hpa, hfs, hms', hfs'⟩, hus⟩, hm''⟩ := hu
      have hpa' : (phdr m (elf + disk.phoff + 32 * i)).pa = (disk.phdr i).pa := by
        rw [Phdr.pa, hpa, Phdr.pa]
      rw [hpa', ho, hfs, hr₁, Option.some.injEq] at hr₁'
      subst hr₁'
      simp only at hus hm''
      rw [hpa', hms', hfs', hus, hm''] at hl
      generalize (if (disk.phdr i).memsz > (disk.phdr i).filesz then _ else m₁) = m₂ at hm₂ hl
      have ⟨hi₁, hi₂⟩ := hi (by omega) hl
      have hadd k : elf + disk.phoff + 32 * i + k = elf + (disk.phoff + 32 * i + k) := by omega
      have hsizes k (hk : 16 ≤ k) (hk' : k < 24) :
          m₁ (elf + (disk.phoff + 32 * i + k)) = disk.kernel (disk.phoff + 32 * i + k) := by
        rw [← hadd]
        by_cases hk₁ : k < 20
        case pos => exact byte_of_load32 hfs' hk hk₁
        case neg => exact byte_of_load32 hms' (by omega) hk'
      have hfields k (hk : Field k) (hk' : k < 20) :
          m (elf + (disk.phoff + 32 * i + k)) = disk.kernel (disk.phoff + 32 * i + k) := by
        rw [← hadd]
        rcases hk with hk | hk
        case inl => exact byte_of_load32 ho hk.left hk.right
        case inr =>
          by_cases hk₁ : k < 16
          case pos => exact byte_of_load32 hpa hk.left hk₁
          case neg => exact byte_of_load32 hfs (by omega) hk'
      refine ⟨fun j hj hj' => ?_, fun x hx hnone => ?_⟩
      · by_cases hji : j = i
        case neg => exact hi₁ j (by omega) hj'
        case pos =>
          subst hji
          refine ⟨fun x hx b hb => ?_, fun k hk hk' b hb => ?_⟩
          · -- What the segment has written stays, as the later segments lie in other sectors.
            have hlt := hx.lt h
            rw [← hi₂ x hx fun k hk hk' => loads_eq_none h hin hk' (by omega) hb,
              hm₂ _ (by simp only [elf]; omega), hb]
            rfl
          · rw [← hsizes k hk hk', hm₁ _ (by simp only [elf]; omega), hb]
            rfl
      · have hlt := hx.lt h
        have hni := hnone i (Nat.le_refl i) hin
        have hm₂x := hm₂ (elf + x) (by simp only [elf]; omega)
        have hm₁x := hm₁ (elf + x) (by simp only [elf]; omega)
        rw [hni, Option.getD_none] at hm₂x
        rw [reads_eq_none hni, Option.getD_none] at hm₁x
        by_cases hx' : Needed disk (i + 1) x
        case pos => rw [← hm₂x, hi₂ x hx' fun j hj => hnone j (by omega)]
        case neg =>
          rcases hx with hx | ⟨j, k, hj, hj', hk, rfl⟩
          case inl => exact absurd (.inl hx) hx'
          case inr =>
            have hji : j = i := by
              by_contra hn
              exact hx' <| .inr ⟨j, k, by omega, hj', hk, rfl⟩
            subst hji
            by_cases hk' : k < 20
            case pos => exact hfields k hk hk'
            case neg =>
              rw [← hm₁x]
              simp only [Field] at hk
              exact hsizes k (by omega) (by omega)

-- The first 4096 bytes of the kernel are read to the scratch space.
theorem bootmain_eq (h : disk.KernelImage) (m : Bytes) : ∃ m₁,
    (∀ x < 4096, m₁ (elf + x) = disk.kernel x) ∧ bootmain disk m =
      (loadSegments disk (elf + disk.phoff + 32 * disk.phnum) (2 ^ 16) (elf + disk.phoff + 32 * 0) m₁).bind
        fun r => some (.entered r.fst (r.snd.load32 (elf + 24)) r.snd) := by
  have ⟨m₁, hr, _⟩ := readseg_eq disk 4096 (show elf % sectsize = 0 % sectsize from rfl) (by decide)
    (by decide) m
  have hm x (hx : x < 4096) : m₁ (elf + x) = disk.kernel x := by
    have hb := readseg_bytes (show elf % sectsize = 0 % sectsize from rfl) (by decide) (by decide) hr x hx
    rwa [Nat.zero_add] at hb
  have hword x (hx : x + 4 ≤ 4096) : m₁.load32 (elf + x) = disk.kernel.load32 x :=
    load32_eq_iff.mpr fun k hk => by
      rw [Nat.add_assoc]
      exact hm _ (by omega)
  have hnum : m₁.load16 (elf + 44) = disk.phnum := by
    rw [Disk.phnum, Bytes.load16, Bytes.load16, Nat.add_assoc, hm 44 (by decide), hm (44 + 1) (by decide)]
  have hoff : m₁.load32 (elf + 28) = disk.phoff := hword 28 (by decide)
  have hmagic : m₁.load32 elf = elfMagic := (hword 0 (by decide)).trans h.magic
  have ht := h.table
  refine ⟨m₁, hm, ?_⟩
  rw [bootmain, hr]
  simp only [Option.bind_eq_bind, Option.bind_some]
  have hph : (elf + disk.phoff) % 2 ^ 32 = elf + disk.phoff + 32 * 0 :=
    Nat.mod_eq_of_lt (by simp only [elf]; omega)
  have heph : (elf + disk.phoff + 32 * 0 + 32 * disk.phnum) % 2 ^ 32 =
      elf + disk.phoff + 32 * disk.phnum :=
    Nat.mod_eq_of_lt (by simp only [elf]; omega)
  rw [if_neg (not_not.mpr hmagic), hnum, hoff, hph, heph]
  rfl

theorem loads_file (h : disk.KernelImage) (hi : i < disk.phnum) (hk : k < (disk.phdr i).filesz) :
    (disk.phdr i).loads disk ((disk.phdr i).pa + k) = some (disk.kernel ((disk.phdr i).offset + k)) := by
  have hc := (pa_mod _).trans <| h.congr i hi
  simp only [sectsize] at hc
  rw [Phdr.loads, if_neg (by omega), Phdr.reads]
  simp only [sectsize]
  rw [if_pos (by omega)]
  apply congrArg (some <| disk.kernel ·)
  omega

theorem loads_bss (hk : p.filesz ≤ k) (hk' : k < p.memsz) : p.loads disk (p.pa + k) = some 0 := by
  rw [Phdr.loads, if_pos (by omega)]

theorem harmless_of_loaded (h : disk.KernelImage) {used : List Used} {entry : Nat}
    (hr : bootmain disk m = some (.entered used entry m')) (hl : disk.Loaded used entry m') :
    Harmless disk := by
  have ⟨m₁, _, hb⟩ := bootmain_eq h m
  rw [hb] at hr
  have ⟨⟨us, m''⟩, hr', hu⟩ := Option.bind_eq_some_iff.mp hr
  rw [Option.some.injEq, Outcome.entered.injEq] at hu
  have ⟨hus, he, hm'⟩ := hu
  simp only at hus he hm'
  rw [hus, hm', hl.used, List.range_eq_range'] at hr'
  have ⟨hc, _⟩ := harmless_of_used h disk.phnum (Nat.zero_add _) hr' fun x hx hx' => by
    have hw : m'.load32 (elf + 24) = disk.kernel.load32 (0 + 24) := by
      rw [← hm', he, hl.entry]
    exact (byte_of_load32 hw hx hx').trans <| congrArg _ (Nat.zero_add x)
  exact ⟨fun i hi => (hc i (Nat.zero_le i) hi).left, fun i hi => (hc i (Nat.zero_le i) hi).right⟩

theorem loaded_of_harmless (h : disk.KernelImage) (hc : Harmless disk) (m : Bytes) :
    ∃ used entry m', bootmain disk m = some (.entered used entry m') ∧ disk.Loaded used entry m' := by
  have ⟨m₁, hm₁, hb⟩ := bootmain_eq h m
  have hf : disk.phnum < 2 ^ 16 := by
    have ht := h.table
    omega
  have ⟨m', hr, hn, _, hload⟩ := loadSegments_ok h hc disk.phnum (i := 0) (Nat.zero_add _) hf fun x hx =>
    hm₁ x (hx.lt h)
  refine ⟨_, _, m', by rw [hb, hr]; rfl, ?_⟩
  exact {
    used := by rw [usedFrom, List.range_eq_range']
    entry := load32_eq_iff.mpr fun k hk => by
      rw [Nat.add_assoc]
      exact hn _ <| .inl ⟨by omega, by omega⟩
    file := fun i hi k hk => by
      have hs := h.sizes i hi
      have hu := h.upper i hi
      exact hload i (Nat.zero_le i) hi _ (by omega) _ (loads_file h hi hk)
    bss := fun i hi k hk hk' => by
      have hu := h.upper i hi
      exact hload i (Nat.zero_le i) hi _ (by omega) _ (loads_bss hk hk') }

-- A kernel outside of the scratch space is loaded.
theorem harmless_of_apart (h : disk.KernelImage) (ha : ∀ i < disk.phnum,
    (disk.phdr i).pa + (disk.phdr i).memsz ≤ elf ∨ elf + 4096 ≤ (disk.phdr i).pa) : Harmless disk := by
  have hnone i (hi : i < disk.phnum) x (hx : x < 4096) : (disk.phdr i).loads disk (elf + x) = none := by
    by_contra hn
    have ⟨c, hc⟩ := Option.ne_none_iff_exists'.mp hn
    have hs := sector_of_loads (h.sizes i hi) hc
    have hai := ha i hi
    simp only [Phdr.first, Phdr.last, sectsize, elf] at hs hai
    omega
  constructor
  case needed =>
    intro i hi x hx b hb
    rw [hnone i hi x (hx.lt h)] at hb
    cases hb
  case sizes  =>
    intro i hi k hk hk' b hb
    have ht := h.table
    rw [reads_eq_none <| hnone i hi _ (by omega)] at hb
    cases hb

-- The headers and segments are those on the disk exactly if no segment replaces them in the scratch
-- space, which lies in the area of the kernel.
theorem loaded_iff (h : disk.KernelImage) (m : Bytes) :
    (∃ used entry m', bootmain disk m = some (.entered used entry m') ∧ disk.Loaded used entry m') ↔
      Harmless disk := by
  constructor
  case mp  => exact fun ⟨_, _, _, hr, hl⟩ => harmless_of_loaded h hr hl
  case mpr => exact fun hc => loaded_of_harmless h hc m

-- A kernel with one segment, which consists of zeros and is loaded to 0x9000.
def kernelOf (size : Nat) : Disk :=
  fun lba => if lba ≠ 2 then fun _ => 0 else
    Bytes.store32 (fun _ => 0) 0 elfMagic |>.store32 24 0x80009010 |>.store32 28 52 |>.store32 44 1
      |>.store32 52 1 |>.store32 56 0x1000 |>.store32 64 0x80009000 |>.store32 68 size
      |>.store32 72 size

theorem image_of_single (hm : disk.kernel.load32 0 = elfMagic) (ho : disk.phoff = 52)
    (hn : disk.phnum = 1) (ht : disk.kernel.load32 52 = 1)
    (hs : (disk.phdr 0).filesz ≤ (disk.phdr 0).memsz)
    (hc : (disk.phdr 0).paddr % sectsize = (disk.phdr 0).offset % sectsize)
    (hl : 0x9000 ≤ (disk.phdr 0).pa) (hu : (disk.phdr 0).pa + (disk.phdr 0).memsz ≤ 0x15000) :
    disk.KernelImage := by
  have hi {i} (hi : i < disk.phnum) : i = 0 := by omega
  exact {
    magic := hm
    table := by rw [ho, hn]; decide
    ptLoad := fun i h => by rw [hi h, ho, ht]
    sizes := fun i h => by rwa [hi h]
    congr := fun i h => by rwa [hi h]
    lower := fun i h => by rwa [hi h]
    upper := fun i h => by rwa [hi h]
    apart := fun i j hij h => by
      have := hi h
      omega }

-- A kernel with two segments, which have a .bss section each. The sectors after its header are filled with ones.
def twoSegments : Disk :=
  fun lba => if lba ≠ 2 then fun _ => 1 else
    Bytes.store32 (fun _ => 0) 0 elfMagic |>.store32 24 0x80009010 |>.store32 28 52 |>.store32 44 2
      |>.store32 52 1 |>.store32 56 0x1000 |>.store32 64 0x80009000 |>.store32 68 0x180 |>.store32 72 0x500
      |>.store32 84 1 |>.store32 88 0x2040 |>.store32 96 0x8000a040 |>.store32 100 0x100 |>.store32 104 0x2000

theorem image_twoSegments : twoSegments.KernelImage := by
  have hn : twoSegments.phnum = 2 := rfl
  have hi {i} (hi : i < twoSegments.phnum) : i = 0 ∨ i = 1 := by omega
  constructor
  case magic | table => decide
  case apart         =>
    intro i j hij hj
    rw [show i = 0 by omega, show j = 1 by omega]
    decide
  all_goals
    intro i h
    rcases hi h with rfl | rfl
    all_goals decide

theorem loaded_iff_small : ∃ used entry m', bootmain twoSegments (fun _ => 0) = some (.entered used entry m') ∧
    twoSegments.Loaded used entry m' ∧ m' 0x9180 = 0 ∧ m' 0xa040 = 1 := by
  have hn : twoSegments.phnum = 2 := rfl
  obtain ⟨used, entry, m', hr, hl⟩ := (loaded_iff image_twoSegments fun _ => 0).mpr <|
    harmless_of_apart image_twoSegments fun i hi => .inl <| by
      rcases (show i = 0 ∨ i = 1 by omega) with rfl | rfl
      all_goals decide
  exact ⟨used, entry, m', hr, hl, hl.bss 0 (by omega) 0x180 (by decide) (by decide),
    hl.file 1 (by omega) 0 (by decide)⟩

-- The entry point is replaced by the contents of the segment.
theorem not_loaded_large : (kernelOf 0xc000).KernelImage ∧ ¬∃ used entry m',
    bootmain (kernelOf 0xc000) (fun _ => 0) = some (.entered used entry m') ∧
      (kernelOf 0xc000).Loaded used entry m' := by
  have h : (kernelOf 0xc000).KernelImage := image_of_single (by decide) (by decide) (by decide) (by decide)
    (by decide) (by decide) (by decide) (by decide)
  refine ⟨h, fun ⟨_, _, _, hr, hl⟩ => ?_⟩
  have hc := (harmless_of_loaded h hr hl).needed 0 (by decide) 24 (.inl (by decide)) 0 (by decide)
  exact absurd hc (by decide)

end Bootmain
