import Yabloko.Lib.Bytes
import Yabloko.Lib.Exec

abbrev kernbase : Nat := 0x80000000
abbrev pgsize : Nat := 0x1000
abbrev phystop : Nat := 0x8000000
abbrev npdentries : Nat := 1024
abbrev nptentries : Nat := 1024
abbrev userBase : Nat := 0x400000
abbrev userStackBase : Nat := 0xF00000

abbrev pteP : Nat := 0x001
abbrev pteW : Nat := 0x002
abbrev pteU : Nat := 0x004
abbrev ptePS : Nat := 0x080

def pgroundup (sz : Nat) : Nat :=
  (sz + pgsize - 1) % 2 ^ 32 / pgsize * pgsize

def pgrounddown (a : Nat) : Nat :=
  a / pgsize * pgsize

def v2p (a : Nat) : Nat :=
  (a + 2 ^ 32 - kernbase) % 2 ^ 32

def p2v (a : Nat) : Nat :=
  (a + kernbase) % 2 ^ 32

def pdx (va : Nat) : Nat :=
  va / 2 ^ 22 % 1024

def ptx (va : Nat) : Nat :=
  va / 2 ^ 12 % 1024

def pteAddr (pte : Nat) : Nat :=
  pte / pgsize * pgsize

-- The conversion of an unsigned number of 32 bits to `int`.
def toInt32 (n : Nat) : Int :=
  if n < 2 ^ 31 then n else n - 2 ^ 32

structure Machine where
  mem       : Bytes
  cr3       : Nat
  -- The variables of the kernel: `kmem.freelist`, `kvm` and `vm.user_task`.
  freelist  : Nat
  kvm       : Nat
  userTask  : Nat
  -- Whether `kalloc` has returned 0.
  exhausted : Bool

inductive Fault
  | panic (msg : String)
  | pageFault (va : Nat)
  -- The bound on the rounds of a loop is reached.
  | diverges
  deriving DecidableEq

abbrev Kernel := EStateM Fault Machine

-- The physical address behind a virtual one. In the lower half, the processor walks the page tables.
-- The upper half of every directory maps the physical memory to `KERNBASE`, cf. `setupkvm`.
def Machine.translate (s : Machine) (va : Nat) : Option Nat :=
  if kernbase ≤ va then
    if va < kernbase + phystop then some (va - kernbase) else none
  else
    let pde := s.mem.load32 (s.cr3 + 4 * pdx va)
    if pde % 2 = 0 then
      none
    else if pde / ptePS % 2 = 1 then
      some (pde / 2 ^ 22 * 2 ^ 22 + va % 2 ^ 22)
    else
      let pte := s.mem.load32 (pteAddr pde + 4 * ptx va)
      if pte % 2 = 0 then none else some (pteAddr pte + va % pgsize)

namespace Kernel

def physical (va : Nat) : Kernel Nat := do
  match (← get).translate va with
  | some pa => return pa
  | none    => throw (.pageFault va)

def loadByte (va : Nat) : Kernel UInt8 := do
  let pa ← physical va
  return (← get).mem pa

def storeByte (va : Nat) (b : UInt8) : Kernel Unit := do
  let pa ← physical va
  modify fun s => { s with mem := s.mem.store pa b }

def load16 (va : Nat) : Kernel Nat := do
  let lower ← loadByte va
  let upper ← loadByte ((va + 1) % 2 ^ 32)
  return lower.toNat + 2 ^ 8 * upper.toNat

def load32 (va : Nat) : Kernel Nat := do
  let lower ← load16 va
  let upper ← load16 ((va + 2) % 2 ^ 32)
  return lower + 2 ^ 16 * upper

def store16 (va v : Nat) : Kernel Unit := do
  storeByte va (.ofNat v)
  storeByte ((va + 1) % 2 ^ 32) (.ofNat (v / 2 ^ 8))

def store32 (va v : Nat) : Kernel Unit := do
  storeByte va (.ofNat v)
  storeByte ((va + 1) % 2 ^ 32) (.ofNat (v / 2 ^ 8))
  storeByte ((va + 2) % 2 ^ 32) (.ofNat (v / 2 ^ 16))
  storeByte ((va + 3) % 2 ^ 32) (.ofNat (v / 2 ^ 24))

def stosb (dst : Nat) (c : UInt8) : Nat → Kernel Unit
  | 0     => pure ()
  | n + 1 => do
    storeByte dst c
    stosb ((dst + 1) % 2 ^ 32) c n

def stosl (dst v : Nat) : Nat → Kernel Unit
  | 0     => pure ()
  | n + 1 => do
    store32 dst v
    stosl ((dst + 4) % 2 ^ 32) v n

def memset (dst c n : Nat) : Kernel Unit := do
  if dst % 4 = 0 ∧ n % 4 = 0 then
    let c := c % 2 ^ 8
    stosl dst ((c <<< 24) ||| (c <<< 16) ||| (c <<< 8) ||| c) (n / 4)
  else
    stosb dst (.ofNat c) n

-- The words which are loaded fit into their registers.
section

variable {s s' : Machine} {va v : Nat}

theorem load16_lt (hr : (load16 va).run s = .ok v s') : v < 2 ^ 16 := by
  have ⟨lower, _, _, hr⟩ := EStateM.bind_eq_ok hr
  have ⟨upper, _, _, hr⟩ := EStateM.bind_eq_ok hr
  cases hr
  have hl := lower.toNat_lt
  have hu := upper.toNat_lt
  omega

theorem load32_lt (hr : (load32 va).run s = .ok v s') : v < 2 ^ 32 := by
  have ⟨lower, _, hl, hr⟩ := EStateM.bind_eq_ok hr
  have ⟨upper, _, hu, hr⟩ := EStateM.bind_eq_ok hr
  cases hr
  have hl := load16_lt hl
  have hu := load16_lt hu
  omega

end

end Kernel

-- The accesses of the kernel to the physical memory.
namespace Machine

variable (s : Machine) {pa n c v : Nat}

theorem translate_kernbase (h : pa < phystop) : s.translate (kernbase + pa) = some pa := by
  rw [translate, if_pos (Nat.le_add_right _ _), if_pos (Nat.add_lt_add_left h _), Nat.add_sub_cancel_left]

theorem physical_kernbase (h : pa < phystop) : (Kernel.physical (kernbase + pa)).run s = .ok pa s := by
  have ht := s.translate_kernbase h
  rw [Kernel.physical, EStateM.get_bind, ht]
  rfl

theorem loadByte_kernbase (h : pa < phystop) :
    (Kernel.loadByte (kernbase + pa)).run s = .ok (s.mem pa) s := by
  rw [Kernel.loadByte, EStateM.bind_ok (s.physical_kernbase h)]
  rfl

theorem storeByte_kernbase (h : pa < phystop) (b : UInt8) :
    (Kernel.storeByte (kernbase + pa) b).run s = .ok () { s with mem := s.mem.store pa b } := by
  rw [Kernel.storeByte, EStateM.bind_ok (s.physical_kernbase h)]
  rfl

theorem kernbase_add (h : pa + n < phystop) : (kernbase + pa + n) % 2 ^ 32 = kernbase + (pa + n) := by
  simp only [kernbase, phystop] at h ⊢
  omega

theorem load16_kernbase (h : pa + 1 < phystop) :
    (Kernel.load16 (kernbase + pa)).run s = .ok (s.mem.load16 pa) s := by
  rw [Kernel.load16, EStateM.bind_ok (s.loadByte_kernbase (by omega)), kernbase_add h,
    EStateM.bind_ok (s.loadByte_kernbase h)]
  rfl

theorem load32_kernbase (h : pa + 3 < phystop) :
    (Kernel.load32 (kernbase + pa)).run s = .ok (s.mem.load32 pa) s := by
  rw [Kernel.load32, EStateM.bind_ok (s.load16_kernbase (by omega)), kernbase_add (by omega),
    EStateM.bind_ok (s.load16_kernbase (by omega))]
  rfl

theorem store32_kernbase (h : pa + 3 < phystop) (v : Nat) :
    (Kernel.store32 (kernbase + pa) v).run s = .ok () { s with mem := s.mem.store32 pa v } := by
  rw [Kernel.store32, EStateM.bind_ok (s.storeByte_kernbase (by omega) _), kernbase_add (by omega),
    EStateM.bind_ok (storeByte_kernbase _ (by omega) _), kernbase_add (by omega),
    EStateM.bind_ok (storeByte_kernbase _ (by omega) _), kernbase_add h, storeByte_kernbase _ h]
  rfl

theorem stosb_kernbase (h : pa + n ≤ phystop) (c : UInt8) :
    (Kernel.stosb (kernbase + pa) c n).run s = .ok () { s with mem := s.mem.fill pa n c } := by
  induction n generalizing pa s
  case zero      => simp [Kernel.stosb, Bytes.fill_zero]
  case succ n hi =>
    rw [Kernel.stosb, EStateM.bind_ok (s.storeByte_kernbase (by omega) c)]
    cases n
    case zero   => simp [Kernel.stosb, ← Bytes.fill_store, Bytes.fill_zero]
    case succ n =>
      rw [kernbase_add (by omega), hi _ (by omega)]
      simp only [Bytes.fill_store]

theorem stosl_kernbase (h : pa + 4 * n ≤ phystop) (c : UInt8) :
    (Kernel.stosl (kernbase + pa) (c.toNat * 0x01010101) n).run s =
      .ok () { s with mem := s.mem.fill pa (4 * n) c } := by
  induction n generalizing pa s
  case zero      => simp [Kernel.stosl, Bytes.fill_zero]
  case succ n hi =>
    rw [Kernel.stosl, EStateM.bind_ok (s.store32_kernbase (by omega) _)]
    cases n
    case zero   => simp [Kernel.stosl, ← Bytes.fill_store32, Bytes.fill_zero]
    case succ n =>
      rw [kernbase_add (by omega), hi _ (by omega)]
      simp only [Bytes.fill_store32, Nat.mul_add]

theorem spread_eq : ∀ c < 2 ^ 8,
    (c <<< 24) ||| (c <<< 16) ||| (c <<< 8) ||| c = c * 0x01010101 := by
  decide +kernel

theorem memset_kernbase (h : pa + n ≤ phystop) (c : Nat) :
    (Kernel.memset (kernbase + pa) c n).run s = .ok () { s with mem := s.mem.fill pa n (.ofNat c) } := by
  have hc : (c % 2 ^ 8) = (UInt8.ofNat c).toNat := by simp
  rw [Kernel.memset]
  split
  case isFalse => exact s.stosb_kernbase h _
  case isTrue hn =>
    have he : 4 * (n / 4) = n := by omega
    simp only [spread_eq _ (Nat.mod_lt c (by decide : 0 < 2 ^ 8))]
    rw [hc, s.stosl_kernbase (by omega), he]

end Machine
