import Yabloko.Cpu.Registers

-- The words of `registers_t`, in the order of its fields.
structure Registers where
  edi     : Word
  esi     : Word
  ebp     : Word
  esp     : Word
  ebx     : Word
  edx     : Word
  ecx     : Word
  eax     : Word
  gs      : Word
  fs      : Word
  es      : Word
  ds      : Word
  intNo   : Word
  errCode : Word
  eip     : Word
  cs      : Word
  eflags  : Word
  useresp : Word
  ss      : Word

def Memory.registers (m : Memory) (r : Word) : Registers where
  edi     := m.load32 r
  esi     := m.load32 (r + 4)
  ebp     := m.load32 (r + 8)
  esp     := m.load32 (r + 12)
  ebx     := m.load32 (r + 16)
  edx     := m.load32 (r + 20)
  ecx     := m.load32 (r + 24)
  eax     := m.load32 (r + 28)
  gs      := m.load32 (r + 32)
  fs      := m.load32 (r + 36)
  es      := m.load32 (r + 40)
  ds      := m.load32 (r + 44)
  intNo   := m.load32 (r + 48)
  errCode := m.load32 (r + 52)
  eip     := m.load32 (r + 56)
  cs      := m.load32 (r + 60)
  eflags  := m.load32 (r + 64)
  useresp := m.load32 (r + 68)
  ss      := m.load32 (r + 72)

namespace Registers

def words (r : Registers) : List Word :=
  [r.edi, r.esi, r.ebp, r.esp, r.ebx, r.edx, r.ecx, r.eax, r.gs, r.fs, r.es, r.ds, r.intNo, r.errCode,
    r.eip, r.cs, r.eflags, r.useresp, r.ss]

-- The privilege level to which the frame belongs.
def cpl (r : Registers) : Nat :=
  Selector.rpl <| .ofWord r.cs

-- The segments of the frame belong to its privilege level.
structure Returnable (r : Registers) : Prop where
  cs : Selector.desc (.ofWord r.cs) = some ⟨true, r.cpl⟩
  gs : Selector.usable r.cpl (.ofWord r.gs)
  fs : Selector.usable r.cpl (.ofWord r.fs)
  es : Selector.usable r.cpl (.ofWord r.es)
  ds : Selector.usable r.cpl (.ofWord r.ds)
  ss : r.cpl ≠ 0 → Selector.desc (.ofWord r.ss) = some ⟨false, r.cpl⟩ ∧ Selector.rpl (.ofWord r.ss) = r.cpl

end Registers

theorem Memory.Holds.registers {m : Memory} {a : Word} {r : Registers} (h : m.Holds a r.words) :
    m.registers a = r := by
  rw [Registers.mk.injEq]
  exact ⟨h.left, h.load (i := 1) rfl, h.load (i := 2) rfl, h.load (i := 3) rfl, h.load (i := 4) rfl,
    h.load (i := 5) rfl, h.load (i := 6) rfl, h.load (i := 7) rfl, h.load (i := 8) rfl, h.load (i := 9) rfl,
    h.load (i := 10) rfl, h.load (i := 11) rfl, h.load (i := 12) rfl, h.load (i := 13) rfl, h.load (i := 14) rfl,
    h.load (i := 15) rfl, h.load (i := 16) rfl, h.load (i := 17) rfl, h.load (i := 18) rfl⟩

-- The stack for the interrupts from user mode.
structure Tss where
  esp0 : Word
  ss0  : Selector

namespace Cpu

-- The exceptions for which the processor pushes an error code.
def pushesError (vector : Fin 256) : Bool :=
  vector.val ∈ [8, 10, 11, 12, 13, 14, 17]

def errorCode (vector : Fin 256) (error : Word) : Option Word :=
  if pushesError vector then some error else none

-- The flags which are cleared when an interrupt is taken: TF, NT, RF and VM, and IF by interrupt gates.
def handlerFlags (trapGate : Bool) (eflags : Word) : Word :=
  eflags &&& ~~~(if trapGate then 0x34100 else 0x34300)

-- The processor takes an interrupt, with an error code or without one. All gates refer to the code segment of the
-- kernel.
def interrupt (zeroExtends trapGate : Bool) (tss : Tss) (address : Word) (error : Option Word) (c : Cpu) : Cpu :=
  let s := if c.cpl = 0 then
    c
  else
    { c with esp := tss.esp0, ss := tss.ss0 } |>.pushSel zeroExtends c.ss |>.push c.esp
  let s := s.push c.eflags |>.pushSel zeroExtends c.cs |>.push c.eip
  let s := error.elim s s.push
  { s with
    cs := .ofIndex segKcode 0
    eip := address
    eflags := handlerFlags trapGate c.eflags }

def handler (i : Fin 256) (c : Cpu) : Cpu :=
  let c := if !(i.val = 8 ∨ (i.val ≥ 10 ∧ i.val ≤ 14) ∨ i.val = 17) then c.push 0 else c
  c.push (.ofNat 32 i)

def buildTrapFrame (zeroExtends : Bool) (c : Cpu) : Cpu :=
  let c := c.pushSel zeroExtends c.ds
  let c := c.pushSel zeroExtends c.es
  let c := c.pushSel zeroExtends c.fs
  let c := c.pushSel zeroExtends c.gs
  c.pushal

-- The part of `alltraps` up to the entry of `trap`. The address `ret` follows the call.
def alltraps (zeroExtends : Bool) (trap ret : Word) (c : Cpu) : Option Cpu :=
  let c := c.buildTrapFrame zeroExtends
  let ax : Selector := 0x10
  let c := { c with eax := ax.extend false c.eax }
  if ax.usable c.cpl then
    let c := { c with ds := ax }
    let c := c.push c.esp
    let c := c.push ret
    some { c with eip := trap }
  else
    none

-- From the state in which an exception or a device has interrupted it to the entry of `trap`.
def enterTrap (zeroExtends trapGate : Bool) (tss : Tss) (address trap ret : Word) (vector : Fin 256)
    (error : Word) (c : Cpu) : Option Cpu :=
  c.interrupt zeroExtends trapGate tss address (errorCode vector error) |>.handler vector
    |>.alltraps zeroExtends trap ret

-- The return from an interrupt to the same privilege level, or to an outer one.
def iret (c : Cpu) : Option Cpu :=
  let s := { c.drop with eip := c.top }
  let cs : Selector := .ofWord s.top
  let s := s.drop
  let s := { s.drop with eflags := s.top }
  if cs.desc ≠ some ⟨true, cs.rpl⟩ ∨ cs.rpl < c.cpl then
    none
  else if cs.rpl = c.cpl then
    some { s with cs }
  else
    let esp := s.top
    let s := s.drop
    let ss : Selector := .ofWord s.top
    if ss.desc ≠ some ⟨false, cs.rpl⟩ ∨ ss.rpl ≠ cs.rpl then
      none
    else
      some { s with
        esp, cs, ss
        gs := s.gs.outer cs.rpl
        fs := s.fs.outer cs.rpl
        es := s.es.outer cs.rpl
        ds := s.ds.outer cs.rpl }

def trapret (c : Cpu) : Option Cpu := do
  let c := c.popal
  let (gs, c) ← c.popSel
  let c := { c with gs }
  let (fs, c) ← c.popSel
  let c := { c with fs }
  let (es, c) ← c.popSel
  let c := { c with es }
  let (ds, c) ← c.popSel
  let c := { c with ds }
  let c := { c with esp := c.esp + 8#32 }
  c.iret

-- The part of `alltraps` after `trap` has returned, where the argument is still on the stack.
def afterTrap (c : Cpu) : Option Cpu :=
  trapret { c with esp := c.esp + 4#32 }

-- The registers for data and for the stack hold segments which belong to the privilege level.
structure Valid (c : Cpu) : Prop where
  cs : c.cs.desc = some ⟨true, c.cpl⟩
  gs : c.gs.usable c.cpl
  fs : c.fs.usable c.cpl
  es : c.es.usable c.cpl
  ds : c.ds.usable c.cpl
  ss : c.ss.desc = some ⟨false, c.cpl⟩ ∧ c.ss.rpl = c.cpl

-- What has been saved of an interrupted processor. The words of the selectors are determined up to what
-- the processor leaves in their upper halves.
structure Saves (zeroExtends : Bool) (vector : Fin 256) (error : Word) (c : Cpu) (r : Registers) : Prop where
  edi     : r.edi = c.edi
  esi     : r.esi = c.esi
  ebp     : r.ebp = c.ebp
  ebx     : r.ebx = c.ebx
  edx     : r.edx = c.edx
  ecx     : r.ecx = c.ecx
  eax     : r.eax = c.eax
  gs      : c.gs.Image zeroExtends r.gs
  fs      : c.fs.Image zeroExtends r.fs
  es      : c.es.Image zeroExtends r.es
  ds      : c.ds.Image zeroExtends r.ds
  intNo   : r.intNo = .ofNat 32 vector
  errCode : r.errCode = if pushesError vector then error else 0
  eip     : r.eip = c.eip
  cs      : c.cs.Image zeroExtends r.cs
  eflags  : r.eflags = c.eflags
  useresp : c.cpl ≠ 0 → r.useresp = c.esp
  ss      : c.cpl ≠ 0 → c.ss.Image zeroExtends r.ss

-- The segments of a valid state can be loaded again.
theorem Saves.returnable {zeroExtends : Bool} {vector : Fin 256} {error : Word} {c : Cpu} {r : Registers}
    (h : c.Saves zeroExtends vector error r) (hv : c.Valid) : r.Returnable := by
  have hcpl : r.cpl = c.cpl := congrArg Selector.rpl h.cs.left
  constructor
  all_goals rw [hcpl]
  case cs => rw [h.cs.left, hv.cs]
  case gs => rw [h.gs.left]; exact hv.gs
  case fs => rw [h.fs.left]; exact hv.fs
  case es => rw [h.es.left]; exact hv.es
  case ds => rw [h.ds.left]; exact hv.ds
  case ss =>
    intro hn
    rw [(h.ss hn).left]
    exact hv.ss

variable {zeroExtends trapGate : Bool} {tss : Tss} {address trap ret : Word} {vector : Fin 256} {error : Word}
  {c c' : Cpu} {n : Nat} {ws : List Word}

-- The words which the processor pushes.
theorem exists_interrupt (zeroExtends trapGate : Bool) (tss : Tss) (address : Word) (error : Option Word)
    (c : Cpu) : ∃ esp ss mem cs us,
      c.interrupt zeroExtends trapGate tss address error = { c with
        esp, ss, mem
        cs := .ofIndex segKcode 0
        eip := address
        eflags := handlerFlags trapGate c.eflags } ∧
      mem.Holds esp (error.toList ++ c.eip :: cs :: c.eflags :: us) ∧
      c.cs.Image zeroExtends cs ∧ (c.cpl ≠ 0 → ∃ ss, us = [c.esp, ss] ∧ c.ss.Image zeroExtends ss) ∧
      us.length ≤ 2 ∧
      (c.cpl = 0 → ss = c.ss ∧ esp = c.esp - .ofNat 32 (4 * (3 + error.toList.length))) := by
  have ⟨esp₁, ss₁, mem₁, us, he₁, hs₁, hu, hl, hk⟩ : ∃ esp ss mem us,
      (if c.cpl = 0 then c else
        { c with esp := tss.esp0, ss := tss.ss0 } |>.pushSel zeroExtends c.ss |>.push c.esp) =
        { c with esp, ss, mem } ∧
      mem.Holds esp us ∧ (c.cpl ≠ 0 → ∃ ss, us = [c.esp, ss] ∧ c.ss.Image zeroExtends ss) ∧
      us.length ≤ 2 ∧ (c.cpl = 0 → ss = c.ss ∧ esp = c.esp) := by
    split
    case isTrue hc  =>
      exact ⟨_, _, _, [], rfl, trivial, fun hn => absurd hc hn, by decide, fun _ => ⟨rfl, rfl⟩⟩
    case isFalse hc =>
      have h₀ : Stack { c with esp := tss.esp0, ss := tss.ss0 } [] := trivial
      have ⟨ss, hss, h₁⟩ := h₀.pushSel (by decide) zeroExtends c.ss
      exact ⟨_, _, _, _, rfl, h₁.push (Nat.le_of_ble_eq_true rfl) c.esp, fun _ => ⟨ss, rfl, hss⟩, Nat.le_refl 2,
        fun hn => absurd hn hc⟩
  have h₂ : Stack { c with esp := esp₁, ss := ss₁, mem := mem₁ } us := hs₁
  have h₃ := h₂.push (by omega) c.eflags
  have ⟨cs, hcs, h₄⟩ := h₃.pushSel (by simp only [List.length_cons]; omega) zeroExtends c.cs
  have h₅ := h₄.push (by simp only [List.length_cons]; omega) c.eip
  rw [interrupt, he₁]
  cases error
  case some error =>
    refine ⟨_, _, _, cs, us, rfl, h₅.push (by simp only [List.length_cons]; omega) error, hcs, hu, hl,
      fun hc => ?_⟩
    have ⟨hss, hesp⟩ := hk hc
    have he : c.esp - 4#32 - 4#32 - 4#32 - 4#32 = c.esp - .ofNat 32 (4 * 4) := by bv_omega
    exact ⟨hss, hesp ▸ he⟩
  case none =>
    refine ⟨_, _, _, cs, us, rfl, h₅, hcs, hu, hl, fun hc => ?_⟩
    have ⟨hss, hesp⟩ := hk hc
    have he : c.esp - 4#32 - 4#32 - 4#32 = c.esp - .ofNat 32 (4 * 3) := by bv_omega
    exact ⟨hss, hesp ▸ he⟩

-- The handler pushes the error code which the processor has not pushed.
theorem handler_eq (vector : Fin 256) (c : Cpu) : c.handler vector =
    ((if pushesError vector then c else c.push 0).push <| .ofNat 32 vector) := by
  have hv : (!(vector.val = 8 ∨ (vector.val ≥ 10 ∧ vector.val ≤ 14) ∨ vector.val = 17 : Bool)) =
      !pushesError vector := by
    simp only [pushesError, List.mem_cons, List.not_mem_nil, or_false]
    congr 2
    apply propext
    omega
  rw [handler, hv]
  cases pushesError vector <;> rfl

theorem Pushes.handler (h : Pushes n c c') (vector : Fin 256) :
    Pushes (n + if pushesError vector then 1 else 2) c (c'.handler vector) := by
  rw [handler_eq]
  split
  case isTrue  => exact h.push _
  case isFalse => exact h.push _ |>.push _

theorem Stack.handler (h : c.Stack ((errorCode vector error).toList ++ ws)) (hl : ws.length ≤ 5) :
    (c.handler vector).Stack (.ofNat 32 vector :: (if pushesError vector then error else 0) :: ws) := by
  rw [handler_eq]
  cases hv : pushesError vector
  case true  =>
    simp only [errorCode, hv, if_true, Option.toList_some] at h ⊢
    exact h.push (by simp; omega) _
  case false =>
    simp only [errorCode, hv, Bool.false_eq_true, if_false, Option.toList_none, List.nil_append] at h ⊢
    exact (h.push (by omega) 0).push (by simp; omega) _

theorem Pushes.buildTrapFrame (h : Pushes n c c') (zeroExtends : Bool) :
    Pushes (n + 12) c (c'.buildTrapFrame zeroExtends) :=
  h.pushSel _ _ |>.pushSel _ _ |>.pushSel _ _ |>.pushSel _ _ |>.pushal

theorem Stack.buildTrapFrame (h : c.Stack ws) (hl : ws.length ≤ 7) (zeroExtends : Bool) : ∃ gs fs es ds esp,
    c.gs.Image zeroExtends gs ∧ c.fs.Image zeroExtends fs ∧ c.es.Image zeroExtends es ∧
    c.ds.Image zeroExtends ds ∧ (c.buildTrapFrame zeroExtends).Stack (c.edi :: c.esi :: c.ebp :: esp ::
      c.ebx :: c.edx :: c.ecx :: c.eax :: gs :: fs :: es :: ds :: ws) := by
  have ⟨ds, hds, h₁⟩ := h.pushSel (by omega) zeroExtends c.ds
  have ⟨es, hes, h₂⟩ := h₁.pushSel (by simp only [List.length_cons]; omega) zeroExtends c.es
  have ⟨fs, hfs, h₃⟩ := h₂.pushSel (by simp only [List.length_cons]; omega) zeroExtends c.fs
  have ⟨gs, hgs, h₄⟩ := h₃.pushSel (by simp only [List.length_cons]; omega) zeroExtends c.gs
  exact ⟨gs, fs, es, ds, _, hgs, hfs, hes, hds, h₄.pushal (by simp only [List.length_cons]; omega)⟩

-- The argument of `trap` points to the frame.
theorem exists_alltraps (h : (c.buildTrapFrame zeroExtends).Stack ws) (hl : ws.length ≤ 19) (hc : c.cpl = 0)
    (trap ret : Word) : ∃ c', c.alltraps zeroExtends trap ret = some c' ∧ c'.eip = trap ∧ c'.cs = c.cs ∧
      c'.ss = c.ss ∧ c'.esp + 56#32 = c.esp ∧ c'.Stack (ret :: (c'.esp + 8#32) :: ws) := by
  have ⟨mem, he⟩ := (Pushes.refl c).buildTrapFrame zeroExtends
  generalize hesp : c.esp - BitVec.ofNat 32 (4 * (0 + 12)) = esp at he
  have hu : Selector.usable c.cpl 0x10 := by
    rw [hc]
    decide
  rw [he] at h
  have h₁ : Stack { c with esp, mem } ws := h
  have h₂ := h₁.push (by omega) esp
  have h₃ := h₂.push (by simp only [List.length_cons]; omega) ret
  have hpop : esp - 4#32 - 4#32 + 8#32 = esp := by bv_omega
  have htop : esp - 4#32 - 4#32 + 56#32 = c.esp := by bv_omega
  rw [alltraps, he]
  refine ⟨_, if_pos hu, rfl, rfl, rfl, htop, ?_⟩
  show Stack _ (ret :: (esp - 4#32 - 4#32 + 8#32) :: ws)
  rw [hpop]
  exact h₃

theorem enterTrap_saves (zeroExtends trapGate : Bool) (tss : Tss) (address trap ret : Word) (vector : Fin 256)
    (error : Word) (c : Cpu) : ∃ c',
      c.enterTrap zeroExtends trapGate tss address trap ret vector error = some c' ∧ c'.eip = trap ∧
      c'.mem.load32 c'.esp = ret ∧ c'.mem.load32 (c'.esp + 4#32) = c'.esp + 8#32 ∧
      c.Saves zeroExtends vector error (c'.mem.registers <| c'.esp + 8#32) ∧
      (c.cpl = 0 → c'.ss = c.ss ∧ c'.esp + 76#32 = c.esp) := by
  have ⟨esp, ss, mem, cs, us, he, h₁, hcs, hus, hl, hk⟩ :=
    c.exists_interrupt zeroExtends trapGate tss address (errorCode vector error)
  have h₂ := Stack.handler (c := c.interrupt zeroExtends trapGate tss address (errorCode vector error))
    (by rw [he]; exact h₁) (by simp only [List.length_cons]; omega)
  have ⟨mem₂, hp⟩ := Pushes.handler
    (.refl <| c.interrupt zeroExtends trapGate tss address (errorCode vector error)) vector
  rw [hp, he] at h₂
  have ⟨gs, fs, es, ds, slot, hgs, hfs, hes, hds, h₃⟩ := h₂.buildTrapFrame
    (by simp only [List.length_cons]; omega) zeroExtends
  have ⟨c', hc', heip, _, hss, hesp, h₄⟩ := exists_alltraps h₃ (by simp only [List.length_cons]; omega)
    (show Selector.rpl (.ofIndex segKcode 0) = 0 by decide) trap ret
  rw [enterTrap, hp, he]
  refine ⟨c', hc', heip, h₄.top, h₄.drop.top, ?_, fun hc => ?_⟩
  case refine_2 =>
    have ⟨hss', hesp'⟩ := hk hc
    refine ⟨hss.trans hss', ?_⟩
    rw [hesp'] at hesp
    cases hv : pushesError vector
    all_goals
      simp only [errorCode, hv, Bool.false_eq_true, if_true, if_false, Option.toList_some, Option.toList_none,
        List.length_cons, List.length_nil] at hesp
      bv_omega
  have he : c'.esp + 4#32 + 4#32 = c'.esp + 8#32 := by bv_omega
  have frame := h₄.drop.drop
  simp only [Stack, drop, he] at frame
  have image {i : Nat} {s : Selector} {w : Word} (hs : s.Image zeroExtends w) (hw : _[i]? = some w) :
      s.Image zeroExtends (c'.mem.load32 (c'.esp + 8#32 + .ofNat 32 (4 * i))) :=
    (frame.load hw).symm ▸ hs
  exact {
    edi := frame.left
    esi := frame.load (i := 1) rfl
    ebp := frame.load (i := 2) rfl
    ebx := frame.load (i := 4) rfl
    edx := frame.load (i := 5) rfl
    ecx := frame.load (i := 6) rfl
    eax := frame.load (i := 7) rfl
    gs := image (i := 8) hgs rfl
    fs := image (i := 9) hfs rfl
    es := image (i := 10) hes rfl
    ds := image (i := 11) hds rfl
    intNo := frame.load (i := 12) rfl
    errCode := frame.load (i := 13) rfl
    eip := frame.load (i := 14) rfl
    cs := image (i := 15) hcs rfl
    eflags := frame.load (i := 16) rfl
    useresp := fun hc => by
      have ⟨_, hus, _⟩ := hus hc
      rw [hus] at frame
      exact frame.load (i := 17) rfl
    ss := fun hc => by
      have ⟨_, hus, hss⟩ := hus hc
      rw [hus] at image
      exact image (i := 18) hss rfl }

theorem popal_eq (c : Cpu) : c.popal =
    let r := c.mem.registers c.esp
    { c with
      edi := r.edi
      esi := r.esi
      ebp := r.ebp
      ebx := r.ebx
      edx := r.edx
      ecx := r.ecx
      eax := r.eax
      esp := c.esp + 32#32 } := by
  simp [popal, drop, top, Memory.registers, BitVec.add_assoc]

-- The processor with the registers which are stored in the frame.
def resumed (r : Registers) (c : Cpu) : Cpu where
  edi := r.edi
  esi := r.esi
  ebp := r.ebp
  esp := if r.cpl = 0 then c.esp + 68#32 else r.useresp
  ebx := r.ebx
  edx := r.edx
  ecx := r.ecx
  eax := r.eax
  gs  := .ofWord r.gs
  fs  := .ofWord r.fs
  es  := .ofWord r.es
  ds  := .ofWord r.ds
  cs  := .ofWord r.cs
  ss  := if r.cpl = 0 then c.ss else .ofWord r.ss
  eip := r.eip
  eflags := r.eflags
  mem := c.mem

-- The segment of an outer level can be loaded before the return.
theorem popSel_eq {cpl : Nat} {w : Word} (hu : Selector.usable cpl (.ofWord w)) (hc : c.cpl = 0)
    (hw : c.top = w) : c.popSel = some (.ofWord w, c.drop) := by
  rw [popSel, hw, hc, if_pos <| Selector.usable_zero hu]

theorem iret_eq {eip cs eflags : Word} (h : c.Stack [eip, cs, eflags]) (hc : c.cpl = 0)
    (hd : Selector.desc (.ofWord cs) = some ⟨true, 0⟩) (hr : Selector.rpl (.ofWord cs) = 0) :
    c.iret = some { c with
      esp := c.esp + 12#32
      cs := .ofWord cs
      eip, eflags } := by
  have h₀ := h.top
  have h₁ := h.drop.top
  have h₂ := h.drop.drop.top
  simp only [top, drop, BitVec.add_assoc, BitVec.reduceAdd] at h₀ h₁ h₂
  simp only [iret, top, drop, BitVec.add_assoc, BitVec.reduceAdd, h₀, h₁, h₂]
  rw [if_neg (by rw [hd, hr, hc]; simp), if_pos (by rw [hr, hc])]

theorem iret_outer {eip cs eflags esp ss : Word} {cpl : Nat} (h : c.Stack [eip, cs, eflags, esp, ss])
    (hc : c.cpl = 0) (hd : Selector.desc (.ofWord cs) = some ⟨true, cpl⟩) (hr : Selector.rpl (.ofWord cs) = cpl)
    (hn : cpl ≠ 0) (hs : Selector.desc (.ofWord ss) = some ⟨false, cpl⟩ ∧ Selector.rpl (.ofWord ss) = cpl) :
    c.iret = some { c with
      cs := .ofWord cs
      ss := .ofWord ss
      gs := c.gs.outer cpl
      fs := c.fs.outer cpl
      es := c.es.outer cpl
      ds := c.ds.outer cpl
      eip, eflags, esp } := by
  have h₀ := h.top
  have h₁ := h.drop.top
  have h₂ := h.drop.drop.top
  have h₃ := h.drop.drop.drop.top
  have h₄ := h.drop.drop.drop.drop.top
  simp only [top, drop, BitVec.add_assoc, BitVec.reduceAdd] at h₀ h₁ h₂ h₃ h₄
  simp only [iret, top, drop, BitVec.add_assoc, BitVec.reduceAdd, h₀, h₁, h₂, h₃, h₄]
  rw [hr, if_neg (by rw [hd, hc]; simp), if_neg (by rwa [hc]), if_neg (by rw [hs.left, hs.right]; simp)]

theorem trapret_eq (hc : c.cpl = 0) (hr : (c.mem.registers c.esp).Returnable) :
    c.trapret = some (c.resumed <| c.mem.registers c.esp) := by
  have field {a b : Word} (h : a = b) : c.mem.load32 a = c.mem.load32 b := h ▸ rfl
  have hi := hr.cs
  rw [trapret, popal_eq]
  simp only
  rw [popSel_eq hr.gs ?cpl ?top]
  case cpl => exact hc
  case top => exact field <| by bv_omega
  simp only [Option.bind_eq_bind, Option.bind_some, drop]
  rw [popSel_eq hr.fs ?cpl ?top]
  case cpl => exact hc
  case top => exact field <| by bv_omega
  simp only [Option.bind_some, drop]
  rw [popSel_eq hr.es ?cpl ?top]
  case cpl => exact hc
  case top => exact field <| by bv_omega
  simp only [Option.bind_some, drop]
  rw [popSel_eq hr.ds ?cpl ?top]
  case cpl => exact hc
  case top => exact field <| by bv_omega
  simp only [Option.bind_some, drop, BitVec.add_assoc, BitVec.reduceAdd]
  have stack : let r := c.mem.registers c.esp
      c.mem.Holds (c.esp + 56#32) [r.eip, r.cs, r.eflags, r.useresp, r.ss] := by
    simp only [Memory.Holds, BitVec.add_assoc, BitVec.reduceAdd]
    exact ⟨rfl, rfl, rfl, rfl, rfl, trivial⟩
  by_cases hcpl : (c.mem.registers c.esp).cpl = 0
  case pos =>
    have hd := hr.cs
    rw [hcpl] at hd
    rw [iret_eq ?stack ?cpl hd hcpl, resumed, if_pos hcpl, if_pos hcpl]
    case cpl => exact hc
    case stack => exact ⟨stack.left, stack.right.left, stack.right.right.left, trivial⟩
    simp only [BitVec.add_assoc, BitVec.reduceAdd]
  case neg =>
    rw [iret_outer ?stack ?cpl hr.cs rfl hcpl (hr.ss hcpl), resumed, if_neg hcpl, if_neg hcpl]
    case cpl => exact hc
    case stack => exact stack
    simp only [Selector.outer_eq hr.gs, Selector.outer_eq hr.fs, Selector.outer_eq hr.es, Selector.outer_eq hr.ds]

-- After `trap`, the argument is taken from the stack.
theorem afterTrap_eq (hc : c.cpl = 0) (hr : (c.mem.registers (c.esp + 4#32)).Returnable) :
    c.afterTrap = some (resumed (c.mem.registers (c.esp + 4#32)) { c with esp := c.esp + 4#32 }) :=
  trapret_eq (c := { c with esp := c.esp + 4#32 }) hc hr

-- An interrupt is not noticed when `trap` leaves the frame as it is.
theorem interrupt_transparent (hv : c.Valid)
    (h : c.enterTrap zeroExtends trapGate tss address trap ret vector error = some c') {s : Cpu} (hc : s.cpl = 0)
    (hesp : s.esp = c'.esp + 4#32) (hss : s.ss = c'.ss)
    (hm : s.mem.registers (s.esp + 4#32) = c'.mem.registers (c'.esp + 8#32)) :
    s.afterTrap = some { c with mem := s.mem } := by
  have ⟨c₁, hc₁, _, _, _, hsaves, hk⟩ := c.enterTrap_saves zeroExtends trapGate tss address trap ret vector error
  cases h.symm.trans hc₁
  have hr := hsaves.returnable hv
  have hcpl : (c'.mem.registers (c'.esp + 8#32)).cpl = c.cpl := congrArg Selector.rpl hsaves.cs.left
  rw [afterTrap_eq hc (hm ▸ hr), hm, resumed, hsaves.edi, hsaves.esi, hsaves.ebp, hsaves.ebx, hsaves.edx, hsaves.ecx,
    hsaves.eax, hsaves.gs.left, hsaves.fs.left, hsaves.es.left, hsaves.ds.left, hsaves.cs.left, hsaves.eip,
    hsaves.eflags, hcpl]
  by_cases hn : c.cpl = 0
  case pos =>
    have ⟨hss', hesp'⟩ := hk hn
    have he : s.esp + 4#32 + 68#32 = c.esp := by bv_omega
    simp only [if_pos hn, hss, hss', he]
  case neg =>
    simp only [if_neg hn, hsaves.useresp hn, (hsaves.ss hn).left]

end Cpu
