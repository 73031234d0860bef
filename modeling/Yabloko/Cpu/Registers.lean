import Yabloko.Kernel.Proc
import Yabloko.Lib.Words

abbrev segKcode : Nat := 1

-- A descriptor of a code segment or a data segment.
structure SegDesc where
  code : Bool
  dpl  : Nat
  deriving DecidableEq

-- The segments of `init_seg_desc`. No register but the task register can hold the segment of the task.
def segDesc (index : Nat) : Option SegDesc :=
  if index = segKcode then some ⟨true, 0⟩
  else if index = segKdata then some ⟨false, 0⟩
  else if index = segUcode then some ⟨true, dplUser⟩
  else if index = segUdata then some ⟨false, dplUser⟩
  else none

abbrev Selector := BitVec 16

namespace Selector

def ofIndex (index rpl : Nat) : Selector :=
  .ofNat 16 (index <<< 3 ||| rpl)

-- The selector in the lower half of a word.
def ofWord (w : Word) : Selector :=
  w.setWidth 16

def rpl (s : Selector) : Nat :=
  s.toNat % 4

-- There is no local descriptor table.
def desc (s : Selector) : Option SegDesc :=
  if s.toNat / 4 % 2 = 1 then none else segDesc (s.toNat / 8)

-- The registers for data can be loaded with the null selector, or with a segment which is accessible.
def usable (cpl : Nat) (s : Selector) : Bool :=
  if s.toNat / 4 = 0 then
    true
  else
    match s.desc with
    | some d => max cpl s.rpl ≤ d.dpl
    | none   => false

-- On the way to an outer privilege level, the registers for data lose inner segments.
def outer (cpl : Nat) (s : Selector) : Selector :=
  match s.desc with
  | some d => if d.dpl < cpl then 0 else s
  | none   => s

-- The word which is written when a selector is pushed. Processors which only write 16 bits keep the
-- upper half of the word which has been there.
def extend (zeroExtends : Bool) (old : Word) (s : Selector) : Word :=
  if zeroExtends then s.setWidth 32 else .ofNat 32 (old.toNat / 2 ^ 16 * 2 ^ 16 + s.toNat)

-- The word is the image of the selector.
def Image (zeroExtends : Bool) (s : Selector) (w : Word) : Prop :=
  .ofWord w = s ∧ (zeroExtends = true → w = s.setWidth 32)

variable {s : Selector} {cpl : Nat}

theorem outer_eq (h : s.usable cpl) : s.outer cpl = s := by
  rw [usable] at h
  rw [outer]
  match hd : s.desc with
  | none   => rfl
  | some d =>
    split at h
    case isTrue hn =>
      have hz : s.toNat / 8 = 0 := by omega
      have hl : s.toNat / 4 % 2 ≠ 1 := by omega
      rw [desc, if_neg hl, hz] at hd
      cases hd
    case isFalse =>
      simp only [hd, decide_eq_true_eq] at h
      exact if_neg (by omega)

-- A segment which is accessible from an outer level is accessible from the inner ones.
theorem usable_zero (h : s.usable cpl) : s.usable 0 := by
  rw [usable] at h ⊢
  split
  case isTrue  => rfl
  case isFalse hn =>
    rw [if_neg hn] at h
    match hd : s.desc with
    | none   => simp [hd] at h
    | some d =>
      simp only [hd, decide_eq_true_eq] at h ⊢
      omega

theorem image_extend (zeroExtends : Bool) (old : Word) (s : Selector) :
    s.Image zeroExtends (s.extend zeroExtends old) := by
  have hs := s.isLt
  have ho := old.isLt
  rw [extend, Image, ofWord]
  split
  case isTrue  =>
    refine ⟨?_, fun _ => rfl⟩
    apply BitVec.eq_of_toNat_eq
    rw [BitVec.toNat_setWidth, BitVec.toNat_setWidth]
    omega
  case isFalse hz =>
    refine ⟨?_, fun h => absurd h hz⟩
    apply BitVec.eq_of_toNat_eq
    rw [BitVec.toNat_setWidth, BitVec.toNat_ofNat]
    omega

end Selector

-- The registers of the processor, and the memory at linear addresses. The debug registers and the state
-- of the floating point unit are left out.
structure Cpu where
  edi    : Word
  esi    : Word
  ebp    : Word
  esp    : Word
  ebx    : Word
  edx    : Word
  ecx    : Word
  eax    : Word
  gs     : Selector
  fs     : Selector
  es     : Selector
  ds     : Selector
  cs     : Selector
  ss     : Selector
  eip    : Word
  eflags : Word
  mem    : Memory

namespace Cpu

def cpl (c : Cpu) : Nat :=
  c.cs.rpl

def push (c : Cpu) (w : Word) : Cpu :=
  { c with
    esp := c.esp - 4#32
    mem := c.mem.store32 (c.esp - 4#32) w }

def pushSel (zeroExtends : Bool) (c : Cpu) (s : Selector) : Cpu :=
  c.push <| s.extend zeroExtends <| c.mem.load32 (c.esp - 4#32)

-- The word on the top of the stack, and the processor without it. An instruction which pops a register
-- does both.
def top (c : Cpu) : Word :=
  c.mem.load32 c.esp

def drop (c : Cpu) : Cpu :=
  { c with esp := c.esp + 4#32 }

def popSel (c : Cpu) : Option (Selector × Cpu) :=
  let s : Selector := .ofWord c.top
  if s.usable c.cpl then some (s, c.drop) else none

def pushal (c : Cpu) : Cpu :=
  c.push c.eax |>.push c.ecx |>.push c.edx |>.push c.ebx |>.push c.esp |>.push c.ebp |>.push c.esi |>.push c.edi

-- The slot of `esp` is skipped.
def popal (c : Cpu) : Cpu :=
  let c := { c.drop with edi := c.top }
  let c := { c.drop with esi := c.top }
  let c := { c.drop with ebp := c.top }
  let c := c.drop
  let c := { c.drop with ebx := c.top }
  let c := { c.drop with edx := c.top }
  let c := { c.drop with ecx := c.top }
  { c.drop with eax := c.top }

-- Nothing but the stack differs, on which there are `n` more words.
def Pushes (n : Nat) (c c' : Cpu) : Prop :=
  ∃ mem, c' = { c with
    esp := c.esp - .ofNat 32 (4 * n)
    mem }

-- The words which lie on the stack.
def Stack (c : Cpu) (ws : List Word) : Prop :=
  c.mem.Holds c.esp ws

variable {c c' : Cpu} {n : Nat} {w : Word} {ws : List Word} {s : Selector}

theorem Pushes.refl (c : Cpu) : Pushes 0 c c :=
  ⟨c.mem, by rw [Nat.mul_zero, BitVec.sub_zero]⟩

theorem Pushes.push (h : Pushes n c c') (w : Word) : Pushes (n + 1) c (c'.push w) := by
  have ⟨_, h⟩ := h
  have he : c.esp - .ofNat 32 (4 * n) - 4#32 = c.esp - .ofNat 32 (4 * (n + 1)) := by bv_omega
  rw [h, Cpu.push, he]
  exact ⟨_, rfl⟩

theorem Pushes.pushSel (h : Pushes n c c') (zeroExtends : Bool) (s : Selector) :
    Pushes (n + 1) c (c'.pushSel zeroExtends s) :=
  h.push _

theorem Pushes.pushal (h : Pushes n c c') : Pushes (n + 8) c c'.pushal :=
  h.push _ |>.push _ |>.push _ |>.push _ |>.push _ |>.push _ |>.push _ |>.push _

theorem Stack.push (h : c.Stack ws) (hl : 4 * ws.length + 4 ≤ 2 ^ 32) (w : Word) :
    (c.push w).Stack (w :: ws) :=
  Memory.Holds.push h hl w

theorem Stack.pushSel (h : c.Stack ws) (hl : 4 * ws.length + 4 ≤ 2 ^ 32) (zeroExtends : Bool) (s : Selector) :
    ∃ w, s.Image zeroExtends w ∧ (c.pushSel zeroExtends s).Stack (w :: ws) :=
  ⟨_, s.image_extend _ _, h.push hl _⟩

theorem Stack.pushal (h : c.Stack ws) (hl : ws.length ≤ 20) : c.pushal.Stack
    (c.edi :: c.esi :: c.ebp :: c.esp :: c.ebx :: c.edx :: c.ecx :: c.eax :: ws) := by
  have push {c : Cpu} {ws : List Word} (h : c.Stack ws) (w : Word) (hl : ws.length ≤ 27) := h.push (by omega) w
  have h := push h c.eax (by omega)
  have h := push h c.ecx (by simp only [List.length_cons]; omega)
  have h := push h c.edx (by simp only [List.length_cons]; omega)
  have h := push h c.ebx (by simp only [List.length_cons]; omega)
  have h := push h c.esp (by simp only [List.length_cons]; omega)
  have h := push h c.ebp (by simp only [List.length_cons]; omega)
  have h := push h c.esi (by simp only [List.length_cons]; omega)
  exact push h c.edi (by simp only [List.length_cons]; omega)

theorem Stack.top (h : c.Stack (w :: ws)) : c.top = w :=
  h.left

theorem Stack.drop (h : c.Stack (w :: ws)) : c.drop.Stack ws :=
  h.right

end Cpu
