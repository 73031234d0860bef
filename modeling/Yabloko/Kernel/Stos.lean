import Yabloko.Cpu.Registers
import Yabloko.Kernel.Vm

-- All data segments can be written.
def Selector.writable (s : Selector) : Bool :=
  match s.desc with
  | some d => !d.code
  | none   => false

namespace Kernel

-- In the kernel, an exception ends in `panic`.
abbrev generalProtection : Fault :=
  .panic "General Protection Fault"

section

variable (es : Selector)

-- The memory is filled by `rep stos`, which writes to the segment in `es`. On the way to `trap`, only `ds` is loaded
-- with the segment of the kernel, such that `es` is the one of the process.
def memsetIn (dst c n : Nat) : Kernel Unit := do
  if n ≠ 0 ∧ es.writable = false then
    throw generalProtection
  memset dst c n

def kfreeIn (v : Nat) : Kernel Unit := do
  if v % pgsize ≠ 0 ∨ v2p v ≥ phystop then
    throw (.panic "kfree")
  memsetIn es v 1 pgsize
  store32 v (← get).freelist
  modify fun s => { s with freelist := v }

def freeptIn (pt : Nat) : Kernel Unit := do
  forM (List.range nptentries) fun i => do
    let pte ← load32 (pt + 4 * i)
    if pte % 2 = 1 then
      kfreeIn es (p2v (pteAddr pte))
  kfreeIn es pt

def freevmIn (pgdir : Nat) : Kernel Unit := do
  forM (List.range (npdentries / 2)) fun i => do
    let pde ← load32 (pgdir + 4 * i)
    if pde % 2 = 1 then
      freeptIn es (p2v (pteAddr pde))
  kfreeIn es pgdir

end

variable {es : Selector} {α β : Type} {s s' : Machine}

-- The second computation does the same as the first one, unless it causes the exception.
def Guards (f g : Kernel α) : Prop :=
  ∀ s a s', f.run s = .ok a s' → g.run s = .ok a s' ∨ ∃ s'', g.run s = .error generalProtection s''

namespace Guards

variable {f g : Kernel α} {f' g' : α → Kernel β}

theorem refl (f : Kernel α) : Guards f f :=
  fun _ _ _ hr => .inl hr

theorem bind (h : Guards f g) (h' : ∀ a, Guards (f' a) (g' a)) : Guards (f >>= f') (g >>= g') := by
  intro s b s' hr
  have ⟨a, s₁, hr₁, hr₂⟩ := EStateM.bind_eq_ok hr
  rcases h s a s₁ hr₁ with hg | ⟨s'', hg⟩
  case inl =>
    rw [EStateM.bind_ok hg]
    exact h' a s₁ b s' hr₂
  case inr => exact .inr ⟨s'', EStateM.bind_error hg⟩

theorem ite {c : Prop} [Decidable c] (h : Guards f g) {f₂ g₂ : Kernel α} (h₂ : Guards f₂ g₂) :
    Guards (if c then f else f₂) (if c then g else g₂) := by
  split
  case isTrue  => exact h
  case isFalse => exact h₂

theorem forM {f g : Nat → Kernel Unit} (h : ∀ i, Guards (f i) (g i)) (l : List Nat) : Guards (forM l f) (forM l g) := by
  induction l
  case nil         => exact .refl _
  case cons i l hi => exact .bind (h i) fun _ => hi

theorem memsetIn (es : Selector) (dst c n : Nat) : Guards (memset dst c n) (memsetIn es dst c n) := by
  intro s a s' hr
  rw [Kernel.memsetIn]
  split
  case isTrue  => exact .inr ⟨s, EStateM.bind_error rfl⟩
  case isFalse => exact .inl hr

theorem kfreeIn (es : Selector) (v : Nat) : Guards (kfree v) (kfreeIn es v) :=
  have tail := fun (_ : Unit) => .bind (.memsetIn es v 1 pgsize) fun _ => .refl _
  .ite (.bind (.refl _) tail) (tail ())

theorem freeptIn (es : Selector) (pt : Nat) : Guards (freept pt) (freeptIn es pt) :=
  .bind (.forM (fun _ => .bind (.refl _) fun _ => .ite (.kfreeIn es _) (.refl _)) _) fun _ => .kfreeIn es pt

end Guards

theorem memsetIn_eq (h : es.writable = true) (dst c n : Nat) : memsetIn es dst c n = memset dst c n := by
  have hn : ¬(n ≠ 0 ∧ es.writable = false) := by simp [h]
  rw [memsetIn, if_neg hn]

theorem kfreeIn_eq (h : es.writable = true) (v : Nat) : kfreeIn es v = kfree v := by
  simp only [kfreeIn, memsetIn_eq h, kfree]

theorem kfreeIn_error (h : es.writable = false) {v : Nat} (hr : (kfree v).run s = .ok () s') :
    (kfreeIn es v).run s = .error generalProtection s := by
  by_cases hv : v % pgsize ≠ 0 ∨ v2p v ≥ phystop
  case pos =>
    rw [kfree, if_pos hv] at hr
    cases hr
  case neg =>
    have hn : pgsize ≠ 0 ∧ es.writable = false := ⟨by decide, h⟩
    rw [kfreeIn, if_neg hv]
    simp only [memsetIn, if_pos hn]
    rfl

-- With a segment for data, the pages are freed. Otherwise, the first page is not.
theorem freevmIn_eq (h : es.writable = true) (pgdir : Nat) : freevmIn es pgdir = freevm pgdir := by
  simp only [freevmIn, freeptIn, kfreeIn_eq h, freevm, freept]

theorem freevmIn_error (h : es.writable = false) {pgdir : Nat} (hr : (freevm pgdir).run s = .ok () s') :
    ∃ s'', (freevmIn es pgdir).run s = .error generalProtection s'' := by
  have ⟨_, s₁, hr₁, hr₂⟩ := EStateM.bind_eq_ok hr
  have hg := Guards.forM (fun i => .bind (.refl <| load32 (pgdir + 4 * i)) fun _ => .ite (.freeptIn es _) (.refl _))
    (List.range (npdentries / 2)) s () s₁ hr₁
  rcases hg with hg | ⟨s'', hg⟩
  case inl => exact ⟨s₁, (EStateM.bind_ok hg).trans <| kfreeIn_error h hr₂⟩
  case inr => exact ⟨s'', EStateM.bind_error hg⟩

end Kernel
