import Mathlib

variable {α : Type}

-- The list which starts at a pointer and goes on through the pointers to the next cells.
def Linked (next : α → α) (null : α) : α → List α → Prop
  | a, []     => a = null
  | a, b :: l => a = b ∧ b ≠ null ∧ Linked next null (next b) l

namespace Linked

variable {next next' : α → α} {null a b : α} {l l' : List α}

theorem nil_iff : Linked next null null l ↔ l = [] := by
  cases l
  case nil      => simp [Linked]
  case cons b l =>
    simp only [Linked, reduceCtorEq, iff_false]
    exact fun ⟨he, hn, _⟩ => hn he.symm

theorem unique (h : Linked next null a l) (h' : Linked next null a l') : l = l' := by
  induction l generalizing a l'
  case nil =>
    rw [Linked.eq_def] at h
    subst h
    exact (nil_iff.mp h').symm
  case cons b l hi =>
    have ⟨he, hn, h⟩ := h
    subst he
    cases l'
    case nil       => exact absurd h' hn
    case cons b' l' =>
      have ⟨he', _, h'⟩ := h'
      subst he'
      rw [hi h h']

-- Only the cells of the list matter.
theorem congr (h : Linked next null a l) (hn : ∀ b ∈ l, next' b = next b) :
    Linked next' null a l := by
  induction l generalizing a
  case nil         => exact h
  case cons b l hi =>
    have ⟨he, hb, h⟩ := h
    refine ⟨he, hb, ?_⟩
    rw [hn b <| by simp]
    exact hi h fun b hm => hn b <| List.mem_cons_of_mem _ hm

end Linked
