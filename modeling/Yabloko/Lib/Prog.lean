import Mathlib

-- A program which performs operations one after the other, and which goes on with their results.
inductive Prog (Op ρ α : Type)
  | pure (a : α)
  | op (o : Op) (next : ρ → Prog Op ρ α)

-- What performs the operations: the result of each one, and the state after it.
abbrev Device (Op ρ σ : Type) := Op → σ → ρ × σ

-- The operations have the same results in related states, and lead to related states.
def Device.Simulates {Op ρ σ τ : Type} (d : Device Op ρ σ) (e : Device Op ρ τ) (P : Op → Prop)
    (R : σ → τ → Prop) : Prop :=
  ∀ o s t, P o → R s t → (e o t).1 = (d o s).1 ∧ R (d o s).2 (e o t).2

-- A device whose interrupts are recorded, in the order in which they occur.
def Device.recorded {Op ρ σ ε : Type} (d : Device Op ρ σ) : Device Op ρ (σ × List ε) :=
  fun o s => ((d o s.1).1, (d o s.1).2, s.2)

inductive Recorded {σ ε : Type} (irq : ε → σ → σ → Prop) (s : σ × List ε) : σ × List ε → Prop
  | intro {e : ε} {t : σ} : irq e s.1 t → Recorded irq s (t, s.2 ++ [e])

namespace Prog

variable {Op ρ α β σ τ ε : Type}

def bind (p : Prog Op ρ α) (g : α → Prog Op ρ β) : Prog Op ρ β :=
  match p with
  | pure a    => g a
  | op o next => op o fun r => (next r).bind g

instance : Monad (Prog Op ρ) where
  pure := pure
  bind := bind

def perform (o : Op) : Prog Op ρ ρ :=
  op o pure

-- The result of the program, and the state after it, when nothing else happens.
def run (d : Device Op ρ σ) : Prog Op ρ α → σ → α × σ
  | pure a, s    => (a, s)
  | op o next, s => (next (d o s).1).run d (d o s).2

-- All operations of the program are as described, whatever the results of the ones before.
inductive Within (P : Op → Prop) : Prog Op ρ α → Prop
  | pure {a} : Within P (.pure a)
  | op {o next} : P o → (∀ r, Within P (next r)) → Within P (.op o next)

-- Repeats the operation until its result passes the test.
def poll (o : Op) (test : ρ → Bool) : Nat → Prog Op ρ Bool
  | 0          => pure false
  | rounds + 1 => op o fun r => if test r then pure true else poll o test rounds

-- The runs in which interrupts can occur in front of each operation, and after the last one.
inductive Runs (d : Device Op ρ σ) (irq : σ → σ → Prop) : Prog Op ρ α → σ → α → σ → Prop
  | pure {a s} : Runs d irq (.pure a) s a s
  | op {o next s a s'} : Runs d irq (next (d o s).1) (d o s).2 a s' → Runs d irq (.op o next) s a s'
  | irq {p s s₁ a s'} : irq s s₁ → Runs d irq p s₁ a s' → Runs d irq p s a s'

variable {d : Device Op ρ σ} {e : Device Op ρ τ} {irq : σ → σ → Prop} {P : Op → Prop}
  {p : Prog Op ρ α} {g : α → Prog Op ρ β} {s s' s₁ : σ} {t : τ}
  {R : σ → τ → Prop} {a : α} {b : β} {o : Op}

@[simp] theorem pure_bind (a : α) (g : α → Prog Op ρ β) : (.pure a : Prog Op ρ α) >>= g = g a :=
  rfl

@[simp] theorem op_bind (o : Op) (next : ρ → Prog Op ρ α) (g : α → Prog Op ρ β) :
    .op o next >>= g = .op o fun r => next r >>= g :=
  rfl

theorem map_id (p : Prog Op ρ α) : id <$> p = p := by
  induction p
  case pure  => rfl
  case op hi => exact congrArg (op _) <| funext hi

theorem bind_bind {γ : Type} (p : Prog Op ρ α) (g : α → Prog Op ρ β) (k : β → Prog Op ρ γ) :
    p >>= g >>= k = p >>= fun a => g a >>= k := by
  induction p
  case pure  => rfl
  case op hi => exact congrArg (op _) <| funext hi

instance : LawfulMonad (Prog Op ρ) :=
  .mk' _ map_id (fun _ _ => rfl) bind_bind

@[simp] theorem run_pure (a : α) (s : σ) : (pure a : Prog Op ρ α).run d s = (a, s) :=
  rfl

@[simp] theorem run_perform (o : Op) (s : σ) : (perform o).run d s = d o s :=
  rfl

@[simp] theorem run_bind (p : Prog Op ρ α) (g : α → Prog Op ρ β) (s : σ) :
    (p >>= g).run d s = (g (p.run d s).1).run d (p.run d s).2 := by
  induction p generalizing s
  case pure  => rfl
  case op hi => exact hi _ _

@[simp] theorem run_recorded (p : Prog Op ρ α) (s : σ × List ε) :
    p.run d.recorded s = ((p.run d s.1).1, (p.run d s.1).2, s.2) := by
  induction p generalizing s
  case pure  => rfl
  case op hi => exact hi _ _

-- A loop without a result.
theorem run_forM {γ : Type} (g : γ → Prog Op ρ PUnit) (l : List γ) (s : σ) :
    (forM l g).run d s = (⟨⟩, l.foldl (fun s c => ((g c).run d s).2) s) := by
  induction l generalizing s
  case nil         => rfl
  case cons c l hi => rw [List.forM_cons, run_bind, hi, List.foldl_cons]

-- What the rounds of a loop preserve.
theorem forM_range_inv {I : Nat → σ → Prop} {g : Nat → Prog Op ρ PUnit} {n : Nat} (h₀ : I 0 s)
    (hI : ∀ i s, i < n → I i s → I (i + 1) ((g i).run d s).2) : I n ((forM (List.range n) g).run d s).2 := by
  induction n
  case zero      => exact h₀
  case succ n hi =>
    rw [List.range_succ, List.forM_append, run_bind, List.forM_cons, run_bind]
    exact hI n _ (Nat.lt_succ_self n) <| hi fun i s hi => hI i s <| Nat.lt_succ_of_lt hi

theorem Within.bind (h : p.Within P) (hg : ∀ a, (g a).Within P) : (p >>= g).Within P := by
  induction h
  case pure a    => exact hg a
  case op ho _ hi => exact .op ho hi

theorem Within.forM {γ : Type} {g : γ → Prog Op ρ PUnit} {l : List γ} (h : ∀ c ∈ l, (g c).Within P) :
    (forM l g).Within P := by
  induction l
  case nil         => exact .pure
  case cons c l hi =>
    rw [List.forM_cons]
    exact (h c <| .head _).bind fun _ => hi fun c hc => h c <| .tail _ hc

theorem Within.poll {test : ρ → Bool} (h : P o) (rounds : Nat) : (poll o test rounds).Within P := by
  induction rounds
  case zero    => exact .pure
  case succ hi =>
    refine .op h fun r => ?_
    split
    case isTrue  => exact .pure
    case isFalse => exact hi

-- A program which uses one of two devices only.
theorem Within.run_fst {f : Device Op ρ (σ × τ)} (h : p.Within P)
    (hf : ∀ o s t, P o → f o (s, t) = ((d o s).1, (d o s).2, t)) (s : σ) (t : τ) :
    p.run f (s, t) = ((p.run d s).1, (p.run d s).2, t) := by
  induction h generalizing s
  case pure       => rfl
  case op ho _ hi => rw [run, run, hf _ _ _ ho, hi]

theorem Within.run_snd {f : Device Op ρ (σ × τ)} (h : p.Within P)
    (hf : ∀ o s t, P o → f o (s, t) = ((e o t).1, s, (e o t).2)) (s : σ) (t : τ) :
    p.run f (s, t) = ((p.run e t).1, s, (p.run e t).2) := by
  induction h generalizing t
  case pure       => rfl
  case op ho _ hi => rw [run, run, hf _ _ _ ho, hi]

namespace Runs

theorem of_run (d : Device Op ρ σ) (irq : σ → σ → Prop) (p : Prog Op ρ α) (s : σ) :
    Runs d irq p s (p.run d s).1 (p.run d s).2 := by
  induction p generalizing s
  case pure  => exact .pure
  case op hi => exact .op <| hi _ _

theorem of_run_unit (d : Device Op ρ σ) (irq : σ → σ → Prop) (p : Prog Op ρ Unit) (s : σ) :
    Runs d irq p s () (p.run d s).2 :=
  of_run d irq p s

theorem irqs (hs : Relation.ReflTransGen irq s s₁) (h : Runs d irq p s₁ a s') : Runs d irq p s a s' := by
  induction hs using Relation.ReflTransGen.head_induction_on
  case refl         => exact h
  case head hi _ hr => exact .irq hi hr

theorem irqs_after (h : Runs d irq p s a s₁) (hs : Relation.ReflTransGen irq s₁ s') : Runs d irq p s a s' := by
  induction h
  case pure         => exact .irqs hs .pure
  case op hi        => exact .op <| hi hs
  case irq hs' _ hi => exact .irq hs' <| hi hs

-- The run of a sequence consists of the runs of its parts.
theorem of_bind (h : Runs d irq (p >>= g) s b s') : ∃ a s₁, Runs d irq p s a s₁ ∧ Runs d irq (g a) s₁ b s' := by
  generalize hq : p >>= g = q at h
  induction h generalizing p
  case pure b s =>
    cases p
    case pure a =>
      have hq : g a = .pure b := hq
      exact ⟨a, s, .pure, hq ▸ .pure⟩
    case op     => cases hq
  case op o next s b s' h hi =>
    cases p
    case pure a      =>
      have hq : g a = .op o next := hq
      exact ⟨a, s, .pure, hq ▸ .op h⟩
    case op o' next' =>
      injection hq with ho hn
      subst ho
      have ⟨a, s₁, h₁, h₂⟩ := hi (congrFun hn _)
      exact ⟨a, s₁, .op h₁, h₂⟩
  case irq hs _ hi =>
    have ⟨a, s₁, h₁, h₂⟩ := hi hq
    exact ⟨a, s₁, .irq hs h₁, h₂⟩

theorem of_pure {a' : α} (h : Runs d irq (.pure a : Prog Op ρ α) s a' s') :
    a = a' ∧ Relation.ReflTransGen irq s s' := by
  generalize hq : (.pure a : Prog Op ρ α) = q at h
  induction h
  case pure        => cases hq; exact ⟨rfl, .refl⟩
  case op          => cases hq
  case irq hs _ hi => exact (hi hq).imp_right (.head hs)

theorem of_op {next : ρ → Prog Op ρ α} (h : Runs d irq (.op o next) s a s') : ∃ s₁,
    Relation.ReflTransGen irq s s₁ ∧ Runs d irq (next (d o s₁).1) (d o s₁).2 a s' := by
  generalize hq : Prog.op o next = q at h
  induction h
  case pure        => cases hq
  case op h _      => cases hq; exact ⟨_, .refl, h⟩
  case irq hs _ hi => have ⟨s₁, h₁, h₂⟩ := hi hq; exact ⟨s₁, .head hs h₁, h₂⟩

theorem bind (h : Runs d irq p s a s₁) (h' : Runs d irq (g a) s₁ b s') : Runs d irq (p >>= g) s b s' := by
  induction h
  case pure         => exact h'
  case op hi        => exact .op <| hi h'
  case irq hs' _ hi => exact .irq hs' <| hi h'

-- A loop whose operation only looks at the state. It ends after a look which passes the test.
theorem of_poll {test : ρ → Bool} {rounds : Nat} {ends : Bool} (ho : ∀ s, (d o s).2 = s)
    (h : Runs d irq (poll o test rounds) s ends s') : ∃ s₁, Relation.ReflTransGen irq s s₁ ∧
      Relation.ReflTransGen irq s₁ s' ∧ (ends = true → test (d o s₁).1 = true) := by
  induction rounds generalizing s
  case zero           =>
    have ⟨he, hs⟩ := h.of_pure
    subst he
    exact ⟨s', hs, .refl, nofun⟩
  case succ rounds hi =>
    have ⟨s₁, hs, hr⟩ := h.of_op
    rw [ho] at hr
    split at hr
    case isTrue ht  =>
      have ⟨he, hs'⟩ := hr.of_pure
      exact ⟨s₁, hs, hs', fun _ => ht⟩
    case isFalse    =>
      have ⟨s₂, hs', hs'', ht⟩ := hi hr
      exact ⟨s₂, hs.trans hs', hs'', ht⟩

-- One more round of the loop, whose look passes the test.
theorem poll_succ {test : ρ → Bool} {rounds : Nat} (h : Runs d irq (poll o test rounds) s false s₁)
    (hs : Relation.ReflTransGen irq s₁ s') (ht : test (d o s').1 = true) :
    Runs d irq (poll o test (rounds + 1)) s true (d o s').2 := by
  induction rounds generalizing s
  case zero           =>
    have ⟨_, hs'⟩ := h.of_pure
    refine .irqs (hs'.trans hs) <| .op ?_
    rw [if_pos ht]
    exact .pure
  case succ rounds hi =>
    have ⟨s₂, hs', hr⟩ := h.of_op
    refine .irqs hs' <| .op ?_
    split at hr
    case isTrue     => cases hr.of_pure.left
    case isFalse hf =>
      rw [if_neg hf]
      exact hi hr

-- Interrupts after which the states are still related are not noticed.
theorem simulates (h : Runs d irq p s a s') (hp : p.Within P) (hd : d.Simulates e P R)
    (hirq : ∀ s s' t, irq s s' → R s t → R s' t) (hr : R s t) :
    (p.run e t).1 = a ∧ R s' (p.run e t).2 := by
  induction h generalizing t
  case pure                 => exact ⟨rfl, hr⟩
  case op o next s _ _ _ hi =>
    cases hp with
    | op ho hn =>
      have ⟨he, hr'⟩ := hd o s t ho hr
      rw [run, he]
      exact hi (hn _) hr'
  case irq hs _ hi          => exact hi hp <| hirq _ _ _ hs hr

end Runs

end Prog
