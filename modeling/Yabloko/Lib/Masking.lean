import Yabloko.Lib.Prog

-- The instructions of a program which shares its data with an interrupt handler. The bit 9 of the flags
-- enables the interrupts.
inductive MaskOp (Op : Type)
  | pushf
  | popf (flags : Nat)
  | cli
  | sti
  | access (o : Op)

structure Masked (σ : Type) where
  enabled : Bool
  state   : σ

namespace Masked

variable {Op α σ : Type}

def flags (enabled : Bool) : Nat :=
  if enabled then 0x200 else 0

def device (d : Device Op Nat σ) : Device (MaskOp Op) Nat (Masked σ)
  | .pushf, s      => (flags s.enabled, s)
  | .popf flags, s => (0, { s with enabled := flags.testBit 9 })
  | .cli, s        => (0, { s with enabled := false })
  | .sti, s        => (0, { s with enabled := true })
  | .access o, s   => ((d o s.state).1, { s with state := (d o s.state).2 })

-- A handler runs while the interrupts are disabled, and its end enables them again.
inductive Irq (irq : σ → σ → Prop) (s : Masked σ) : Masked σ → Prop
  | intro {state : σ} : s.enabled = true → irq s.state state → Irq irq s { s with state }

end Masked

namespace Prog

variable {Op α β σ : Type}

def accesses : Prog Op Nat α → Prog (MaskOp Op) Nat α
  | pure a    => pure a
  | op o next => op (.access o) fun r => (next r).accesses

-- The interrupts are disabled for the accesses. Afterwards, the flags are as before.
def critical (restore : Nat → Prog (MaskOp Op) Nat Unit) (p : Prog Op Nat α) : Prog (MaskOp Op) Nat α := do
  let flags ← perform .pushf
  let _ ← perform .cli
  let a ← p.accesses
  restore flags
  return a

variable {d : Device Op Nat σ} {irq : σ → σ → Prop} {p : Prog Op Nat α} {a : α} {s s' : Masked σ}
  {restore : Nat → Prog (MaskOp Op) Nat Unit}

open Masked

theorem irqs_enabled (h : Relation.ReflTransGen (Irq irq) s s') :
    s'.enabled = s.enabled ∧ Relation.ReflTransGen irq s.state s'.state := by
  induction h
  case refl        => exact ⟨rfl, .refl⟩
  case tail h hi   =>
    cases h
    case intro h => exact ⟨hi.left, hi.right.tail h⟩

theorem irqs_disabled (h : Relation.ReflTransGen (Irq irq) s s') (hd : s.enabled = false) : s' = s := by
  induction h
  case refl      => rfl
  case tail h hi =>
    cases h
    case intro he _ => rw [hi, hd] at he; cases he

-- The accesses of a critical section are performed without an interrupt.
theorem runs_accesses (h : Runs (device d) (Irq irq) p.accesses s a s') (hd : s.enabled = false) :
    a = (p.run d s.state).1 ∧ s' = { s with state := (p.run d s.state).2 } := by
  induction p generalizing s
  case pure      =>
    have ⟨ha, hs⟩ := h.of_pure
    exact ⟨ha.symm, irqs_disabled hs hd⟩
  case op o next hi =>
    have ⟨s₁, h₁, h₂⟩ := h.of_op
    rw [irqs_disabled h₁ hd] at h₂
    exact hi _ h₂ hd

-- What follows the critical section enables the interrupts if they had been enabled before.
def Restores (d : Device Op Nat σ) (irq : σ → σ → Prop) (restore : Nat → Prog (MaskOp Op) Nat Unit) : Prop :=
  ∀ b s s', s.enabled = false → Runs (device d) (Irq irq) (restore (flags b)) s () s' →
    s'.enabled = b ∧ Relation.ReflTransGen irq s.state s'.state

theorem testBit_flags (b : Bool) : (flags b).testBit 9 = b := by
  cases b <;> decide

theorem popf_restores : Restores d irq fun flags => do
    let _ ← perform (.popf flags)
    return := by
  intro b s s' hd h
  have ⟨s₁, h₁, h₂⟩ := h.of_op
  rw [irqs_disabled h₁ hd] at h₂
  have ⟨he, hs⟩ := irqs_enabled h₂.of_pure.right
  exact ⟨he.trans (testBit_flags b), hs⟩

theorem sti_restores :
    Restores d irq fun flags => if flags.testBit 9 then (do let _ ← perform .sti; return) else return := by
  intro b s s' hd h
  simp only [testBit_flags] at h
  cases b
  case false =>
    have hs := irqs_disabled h.of_pure.right hd
    rw [hs]
    exact ⟨hd, .refl⟩
  case true =>
    have ⟨s₁, h₁, h₂⟩ := Runs.of_op h
    rw [irqs_disabled h₁ hd] at h₂
    exact irqs_enabled h₂.of_pure.right

-- A critical section is executed at once, between interrupts.
theorem runs_critical (hr : Restores d irq restore) (h : Runs (device d) (Irq irq) (critical restore p) s a s') :
    s'.enabled = s.enabled ∧ ∃ state, Relation.ReflTransGen irq s.state state ∧ (p.run d state).1 = a ∧
      Relation.ReflTransGen irq (p.run d state).2 s'.state := by
  have ⟨s₁, h₁, h⟩ := h.of_op
  have ⟨s₂, h₂, h⟩ := h.of_op
  have h : Runs (device d) (Irq irq) (p.accesses >>= fun a => restore (flags s₁.enabled) >>= fun _ => .pure a)
      { s₂ with enabled := false } a s' := h
  have ⟨a', s₃, h₃, h⟩ := h.of_bind
  have ⟨_, s₄, h₄, h⟩ := h.of_bind
  have ⟨he₁, hs₁⟩ := irqs_enabled h₁
  have ⟨he₂, hs₂⟩ := irqs_enabled h₂
  have ⟨ha, hs₃⟩ := runs_accesses h₃ rfl
  have ⟨he₄, hs₄⟩ := hr s₁.enabled s₃ s₄ (by rw [hs₃]) h₄
  have ⟨ha', hs₅⟩ := h.of_pure
  have ⟨he₅, hs₅⟩ := irqs_enabled hs₅
  refine ⟨he₅.trans <| he₄.trans he₁, s₂.state, hs₁.trans hs₂, ha.symm.trans ha', ?_⟩
  rw [hs₃] at hs₄
  exact hs₄.trans hs₅

end Prog
