import Yabloko.Kernel.UserMemory

-- The flag is set in the entry.
def Has (entry flag : Nat) : Prop :=
  entry / flag % 2 = 1

instance (entry flag : Nat) : Decidable (Has entry flag) :=
  inferInstanceAs (Decidable (entry / flag % 2 = 1))

namespace Kernel

-- A round of the loops in `user_readable_after` and `user_writable_after`: the end of the region which
-- is mapped by one entry. The latter function also checks `PTE_W`, in the entry which maps the page.
def pageEnd (writable : Bool) (pgdir va : Nat) : Kernel (Option Nat) := do
  let pde ← load32 ((pgdir + 4 * pdx va) % 2 ^ 32)
  if ¬Has pde pteP ∨ ¬Has pde pteU then
    return none
  if Has pde ptePS then
    if writable ∧ ¬Has pde pteW then
      return none
    return some (va / 2 ^ 22 * 2 ^ 22 + 2 ^ 22)
  else
    let pte ← load32 ((p2v (pteAddr pde) + 4 * ptx va) % 2 ^ 32)
    if ¬Has pte pteP ∨ ¬Has pte pteU ∨ (writable ∧ ¬Has pte pteW) then
      return none
    return some (pgrounddown va + pgsize)

-- The loop ends after less than 2¹⁹ + 2 rounds, as there are 2¹⁹ pages below `KERNBASE`.
def bytesAfter (writable : Bool) (pgdir : Nat) : Nat → Nat → Nat → Kernel Nat
  | 0, _, _               => throw .diverges
  | rounds + 1, va, bytes => do
    if va < kernbase then
      match ← pageEnd writable pgdir va with
      | none     => return bytes
      | some top =>
        let top := if top > kernbase then kernbase else top
        bytesAfter writable pgdir rounds top ((bytes + (top - va)) % 2 ^ 32)
    else
      return bytes

def userBytesAfter (writable : Bool) (ptr : Nat) : Kernel Nat := do
  if ptr ≥ kernbase then
    return 0
  bytesAfter writable (p2v (← get).cr3) (2 ^ 19 + 1) ptr 0

def userReadableAfter (ptr : Nat) : Kernel Nat :=
  userBytesAfter false ptr

end Kernel

namespace Machine

variable (s : Machine)

-- The entries of the directory and of the tables for an address.
def pde (va : Nat) : Nat :=
  s.mem.load32 (s.cr3 + 4 * pdx va)

def pte (va : Nat) : Nat :=
  s.mem.load32 (pteAddr (s.pde va) + 4 * ptx va)

-- The process can read the byte at the address.
def UserAccessible (va : Nat) : Prop :=
  va < kernbase ∧ Has (s.pde va) pteP ∧ Has (s.pde va) pteU ∧
    (Has (s.pde va) ptePS ∨ (Has (s.pte va) pteP ∧ Has (s.pte va) pteU))

-- The entry which maps the page of the address allows to write.
def LeafWritable (va : Nat) : Prop :=
  if Has (s.pde va) ptePS then Has (s.pde va) pteW else Has (s.pte va) pteW

-- The current directory and its tables are in the physical memory.
structure TablesInMemory : Prop where
  dir   : s.cr3 + pgsize ≤ phystop
  table : ∀ va < kernbase, Has (s.pde va) pteP → Has (s.pde va) pteU → ¬Has (s.pde va) ptePS →
            pteAddr (s.pde va) + pgsize ≤ phystop

-- What the two functions check, for each byte.
def Allows (writable : Bool) (va : Nat) : Prop :=
  s.UserAccessible va ∧ (writable → s.LeafWritable va)

end Machine

variable {s : Machine} {w : Bool} {va a ptr n : Nat}

theorem pdx_lt (va : Nat) : pdx va < 1024 :=
  Nat.mod_lt _ (by decide)

theorem ptx_lt (va : Nat) : ptx va < 1024 :=
  Nat.mod_lt _ (by decide)

namespace Machine.TablesInMemory

theorem load_pde (h : s.TablesInMemory) (va : Nat) :
    (Kernel.load32 ((p2v s.cr3 + 4 * pdx va) % 2 ^ 32)).run s = .ok (s.pde va) s := by
  have hd := h.dir
  have hx := pdx_lt va
  simp only [pgsize, phystop] at hd
  have hl : s.cr3 + 4 * pdx va + 3 < phystop := by
    simp only [phystop]
    omega
  have hn : s.cr3 + 4 * pdx va < phystop := by omega
  have hc : s.cr3 < phystop := by omega
  rw [p2v_eq hc, kernbase_add hn, load32_kernbase _ hl]
  rfl

theorem load_pte (h : s.TablesInMemory) (hv : va < kernbase) (hp : Has (s.pde va) pteP)
    (hu : Has (s.pde va) pteU) (hs : ¬Has (s.pde va) ptePS) :
    (Kernel.load32 ((p2v (pteAddr (s.pde va)) + 4 * ptx va) % 2 ^ 32)).run s = .ok (s.pte va) s := by
  have ht := h.table va hv hp hu hs
  have hx := ptx_lt va
  simp only [pgsize, phystop] at ht
  have hl : pteAddr (s.pde va) + 4 * ptx va + 3 < phystop := by
    simp only [phystop]
    omega
  have hn : pteAddr (s.pde va) + 4 * ptx va < phystop := by omega
  have hc : pteAddr (s.pde va) < phystop := by omega
  rw [p2v_eq hc, kernbase_add hn, load32_kernbase _ hl]
  rfl

end Machine.TablesInMemory

namespace Machine

-- All addresses of a region of 4 MB have the same entry in the directory.
theorem pde_eq (h : a / 2 ^ 22 = va / 2 ^ 22) : s.pde a = s.pde va := by
  simp only [pde, pdx, h]

theorem pte_eq (h : a / pgsize = va / pgsize) : s.pde a = s.pde va ∧ s.pte a = s.pte va := by
  simp only [pgsize] at h
  have hd : s.pde a = s.pde va := pde_eq (by omega)
  have hx : ptx a = ptx va := by
    simp only [ptx]
    omega
  exact ⟨hd, by simp only [pte, hd, hx]⟩

theorem TablesInMemory.pageEnd_eq (h : s.TablesInMemory) (hv : va < kernbase) :
    ∃ r, (Kernel.pageEnd w (p2v s.cr3) va).run s = .ok r s ∧ (r = none → ¬s.Allows w va) ∧
      ∀ top, r = some top → va < top ∧ top % pgsize = 0 ∧
        ∀ a, va ≤ a → a < top → a < kernbase → s.Allows w a := by
  have hpde := h.load_pde va
  rw [Kernel.pageEnd, EStateM.bind_ok hpde]
  by_cases hpu : ¬Has (s.pde va) pteP ∨ ¬Has (s.pde va) pteU
  case pos =>
    rw [if_pos hpu]
    refine ⟨none, rfl, fun _ hc => ?_, fun top ht => by simp at ht⟩
    obtain ⟨_, hp, hu, _⟩ := hc.left
    exact hpu.elim (· hp) (· hu)
  case neg =>
    rw [if_neg hpu]
    simp only [not_or, not_not] at hpu
    by_cases hs : Has (s.pde va) ptePS
    case pos =>
      rw [if_pos hs]
      by_cases hw : w ∧ ¬Has (s.pde va) pteW
      case pos =>
        rw [if_pos hw]
        refine ⟨none, rfl, fun _ hc => hw.right ?_, fun top ht => by simp at ht⟩
        have hl := hc.right hw.left
        rwa [LeafWritable, if_pos hs] at hl
      case neg =>
        rw [if_neg hw]
        refine ⟨_, rfl, fun hc => by simp at hc, fun top ht => ?_⟩
        cases ht
        refine ⟨by omega, by simp only [pgsize]; omega, fun a ha ht hk => ?_⟩
        have he : s.pde a = s.pde va := pde_eq (by omega)
        rw [Allows, UserAccessible, LeafWritable, he, if_pos hs]
        exact ⟨⟨hk, hpu.left, hpu.right, .inl hs⟩, fun hw' => not_not.mp fun hn => hw ⟨hw', hn⟩⟩
    case neg =>
      rw [if_neg hs, EStateM.bind_ok (h.load_pte hv hpu.left hpu.right hs)]
      by_cases hw : ¬Has (s.pte va) pteP ∨ ¬Has (s.pte va) pteU ∨ (w ∧ ¬Has (s.pte va) pteW)
      case pos =>
        rw [if_pos hw]
        refine ⟨none, rfl, fun _ hc => ?_, fun top ht => by simp at ht⟩
        obtain ⟨hp, hu⟩ := hc.left.right.right.right.resolve_left hs
        have hl := hc.right
        rw [LeafWritable, if_neg hs] at hl
        exact hw.elim (· hp) fun hw => hw.elim (· hu) fun hw => hw.right <| hl hw.left
      case neg =>
        rw [if_neg hw]
        simp only [not_or, not_not, not_and] at hw
        refine ⟨_, rfl, fun hc => by simp at hc, fun top ht => ?_⟩
        cases ht
        simp only [pgrounddown, pgsize]
        refine ⟨by omega, by omega, fun a ha ht hk => ?_⟩
        have hpage : a / pgsize = va / pgsize := by
          simp only [pgsize] at ht ⊢
          omega
        obtain ⟨he, he'⟩ := pte_eq (s := s) hpage
        rw [Allows, UserAccessible, LeafWritable, he, he', if_neg hs]
        exact ⟨⟨hk, hpu.left, hpu.right, .inr ⟨hw.left, hw.right.left⟩⟩, hw.right.right⟩

-- The loop counts the bytes up to the first one which is not allowed.
theorem TablesInMemory.bytesAfter_eq (h : s.TablesInMemory) (w : Bool) (rounds bytes : Nat) (hv : va ≤ kernbase)
    (hr : 2 ^ 19 < rounds + va / pgsize) (hb : bytes + (kernbase - va) < 2 ^ 32) :
    ∃ n, (Kernel.bytesAfter w (p2v s.cr3) rounds va bytes).run s = .ok (bytes + n) s ∧
      (∀ i < n, s.Allows w (va + i)) ∧ ¬s.Allows w (va + n) := by
  have hnot : ¬s.Allows w kernbase := fun hc => Nat.lt_irrefl _ hc.left.left
  induction rounds generalizing va bytes
  case zero =>
    simp only [pgsize, kernbase] at hr hv
    omega
  case succ rounds hi =>
    rw [Kernel.bytesAfter]
    by_cases hk : va < kernbase
    case neg =>
      have he : va = kernbase := by omega
      rw [if_neg hk]
      exact ⟨0, rfl, by simp, he ▸ hnot⟩
    case pos =>
      have ⟨r, hp, hnone, hsome⟩ := h.pageEnd_eq (w := w) hk
      rw [if_pos hk, EStateM.bind_ok hp]
      cases r
      case none     => exact ⟨0, rfl, by simp, hnone rfl⟩
      case some top =>
        have ⟨hlt, ht, hall⟩ := hsome top rfl
        have hmin : (if top > kernbase then kernbase else top) = min top kernbase := by
          split <;> omega
        simp only [hmin]
        have he : (bytes + (min top kernbase - va)) % 2 ^ 32 = bytes + (min top kernbase - va) := by
          apply Nat.mod_eq_of_lt
          omega
        have hr' : 2 ^ 19 < rounds + min top kernbase / pgsize := by
          simp only [pgsize, kernbase] at hr ht hk ⊢
          omega
        rw [he]
        have ⟨n, hrun, hlow, hup⟩ := hi (bytes + (min top kernbase - va))
          (by omega) hr' (by omega)
        refine ⟨min top kernbase - va + n, ?_, fun i hin => ?_, ?_⟩
        · rw [hrun, Nat.add_assoc]
        · by_cases hit : va + i < min top kernbase
          case pos => exact hall _ (by omega) (by omega) (by omega)
          case neg =>
            have hx := hlow (va + i - min top kernbase) (by omega)
            rwa [show min top kernbase + (va + i - min top kernbase) = va + i by omega] at hx
        · rwa [show va + (min top kernbase - va + n) = min top kernbase + n by omega]

theorem TablesInMemory.userBytesAfter_eq (h : s.TablesInMemory) (w : Bool) (ptr : Nat) :
    ∃ n, (Kernel.userBytesAfter w ptr).run s = .ok n s ∧
      (∀ i < n, s.Allows w (ptr + i)) ∧ ¬s.Allows w (ptr + n) := by
  rw [Kernel.userBytesAfter]
  by_cases hk : ptr ≥ kernbase
  case pos =>
    rw [if_pos hk]
    refine ⟨0, rfl, by simp, fun hc => ?_⟩
    have hlt := hc.left.left
    omega
  case neg =>
    rw [if_neg hk, EStateM.get_bind]
    have ⟨n, hr, hl, hu⟩ := h.bytesAfter_eq w (2 ^ 19 + 1) 0 (Nat.le_of_not_le hk)
      (by simp only [pgsize]; omega) (by simp only [kernbase]; omega)
    exact ⟨n, by rw [hr, Nat.zero_add], hl, hu⟩

end Machine
