import Yabloko.Lib.Prog

namespace Prog

variable {Op ρ α β σ : Type}

-- The assertion is kept by the interrupts.
def Stable (irq : σ → σ → Prop) (P : σ → Prop) : Prop :=
  ∀ s s', irq s s' → P s → P s'

-- The runs which start with the precondition end with the postcondition, wherever they are interrupted.
def Triple (d : Device Op ρ σ) (irq : σ → σ → Prop) (P : σ → Prop) (p : Prog Op ρ α) (Q : α → σ → Prop) : Prop :=
  ∀ s a s', P s → Runs d irq p s a s' → Q a s'

variable {d : Device Op ρ σ} {irq : σ → σ → Prop} {P P' : σ → Prop} {p p' : Prog Op ρ α} {Q Q' : α → σ → Prop}
  {g : α → Prog Op ρ β} {R : β → σ → Prop} {o : Op} {a : α} {s s' : σ}

theorem Stable.irqs (h : Stable irq P) (hs : Relation.ReflTransGen irq s s') (hp : P s) : P s' := by
  induction hs
  case refl         => exact hp
  case tail _ hs hi => exact h _ _ hs hi

theorem Stable.and (h : Stable irq P) (h' : Stable irq P') : Stable irq fun s => P s ∧ P' s :=
  fun s s' hs hp => ⟨h s s' hs hp.left, h' s s' hs hp.right⟩

theorem Stable.exists {ι : Type} {P : ι → σ → Prop} (h : ∀ i, Stable irq (P i)) : Stable irq fun s => ∃ i, P i s :=
  fun s s' hs hp => hp.imp fun i hp => h i s s' hs hp

theorem Stable.imp {c : Prop} (h : Stable irq P) : Stable irq fun s => c → P s :=
  fun s s' hs hp hc => h s s' hs <| hp hc

theorem Stable.const (p : Prop) : Stable irq fun _ => p :=
  fun _ _ _ hp => hp

namespace Triple

theorem pure (hP : Stable irq P) (h : ∀ s, P s → Q a s) : Triple d irq P (pure a) Q := by
  intro s a' s' hp hr
  have ⟨he, hs⟩ := hr.of_pure
  exact he ▸ h s' (hP.irqs hs hp)

theorem op {next : ρ → Prog Op ρ α} {S : ρ → σ → Prop} (hP : Stable irq P) (h : ∀ s, P s → S (d o s).1 (d o s).2)
    (hn : ∀ r, Triple d irq (S r) (next r) Q) : Triple d irq P (.op o next) Q := by
  intro s a s' hp hr
  have ⟨s₁, hs, hr⟩ := hr.of_op
  exact hn _ _ _ _ (h s₁ <| hP.irqs hs hp) hr

theorem perform {S : ρ → σ → Prop} (hP : Stable irq P) (h : ∀ s, P s → S (d o s).1 (d o s).2)
    (hS : ∀ r, Stable irq (S r)) : Triple d irq P (perform o) S :=
  .op hP h fun r => .pure (hS r) fun _ hs => hs

theorem bind (h : Triple d irq P p Q) (hg : ∀ a, Triple d irq (Q a) (g a) R) : Triple d irq P (p >>= g) R := by
  intro s b s' hp hr
  have ⟨a, s₁, h₁, h₂⟩ := hr.of_bind
  exact hg a s₁ b s' (h s a s₁ hp h₁) h₂

theorem weaken (h : Triple d irq P p Q) (hP : ∀ s, P' s → P s) (hQ : ∀ a s, Q a s → Q' a s) :
    Triple d irq P' p Q' :=
  fun s a s' hp hr => hQ a s' <| h s a s' (hP s hp) hr

theorem pre (h : Triple d irq P p Q) (hP : ∀ s, P' s → P s) : Triple d irq P' p Q :=
  h.weaken hP fun _ _ hq => hq

theorem post (h : Triple d irq P p Q) (hQ : ∀ a s, Q a s → Q' a s) : Triple d irq P p Q' :=
  h.weaken (fun _ hp => hp) hQ

theorem «exists» {ι : Type} {P : ι → σ → Prop} (h : ∀ i, Triple d irq (P i) p Q) :
    Triple d irq (fun s => ∃ i, P i s) p Q :=
  fun s a s' hp hr => hp.elim fun i hp => h i s a s' hp hr

-- A fact about the data, which the precondition contains.
theorem fact {c : Prop} (h : c → Triple d irq P p Q) : Triple d irq (fun s => c ∧ P s) p Q :=
  fun s a s' hp hr => h hp.left s a s' hp.right hr

theorem ite {c : Prop} [Decidable c] (h : c → Triple d irq P p Q) (h' : ¬c → Triple d irq P p' Q) :
    Triple d irq P (if c then p else p') Q := by
  split
  case isTrue hc  => exact h hc
  case isFalse hc => exact h' hc

-- The loop stops after a round whose result passes the test.
theorem poll {test : ρ → Bool} (hP : Stable irq P) (h : ∀ s, P s → P (d o s).2)
    (ht : ∀ s, P s → test (d o s).1 = true → P' (d o s).2) (hP' : Stable irq P') (rounds : Nat) :
    Triple d irq P (poll o test rounds) fun ends s => if ends then P' s else P s := by
  induction rounds
  case zero    => exact .pure hP fun _ hp => hp
  case succ hi =>
    refine .op (S := fun r s => P s ∧ (test r = true → P' s)) hP (fun s hp => ⟨h s hp, ht s hp⟩) fun r => ?_
    refine .ite (fun hc => ?_) fun hc => ?_
    · refine .pre (.pure hP' fun _ hp => hp) fun s hs => hs.right hc
    · exact .pre hi fun _ hs => hs.left

end Triple

end Prog
