import Mathlib

-- A trail is a list of distinct positions, the newest one first. It moves by gaining a position at
-- the front and losing the one at the back.
namespace List

variable {α : Type _} {R : α → α → Prop} {l marks : List α} {a v : α}

theorem Nodup.getLast_notMem_dropLast (h : l.Nodup) (hl : l.getLast? = some a) :
    a ∉ l.dropLast := by
  have ⟨l', he⟩ := getLast?_eq_some_iff.mp hl
  subst he
  intro hm
  simp [nodup_append] at h hm
  exact h.right a hm rfl

theorem mem_iff_mem_dropLast_or_eq (hl : l.getLast? = some a) {c : α} :
    c ∈ l ↔ c ∈ l.dropLast ∨ c = a := by
  have ⟨l', he⟩ := getLast?_eq_some_iff.mp hl
  simp [he]

theorem Nodup.mem_dropLast_iff (h : l.Nodup) (hl : l.getLast? = some a) {c : α} :
    c ∈ l.dropLast ↔ c ∈ l ∧ c ≠ a := by
  rw [mem_iff_mem_dropLast_or_eq hl]
  constructor
  case mp  => exact fun hc => ⟨.inl hc, fun he => h.getLast_notMem_dropLast hl (he ▸ hc)⟩
  case mpr => exact fun ⟨hc, hn⟩ => hc.resolve_right hn

theorem IsChain.cons_dropLast (h : (a :: l).IsChain R) (hv : R v a) :
    (v :: (a :: l).dropLast).IsChain R := by
  cases l
  case nil => simp
  case cons b l =>
    have hp : (a :: b :: l).dropLast.IsChain R := h.prefix <| dropLast_prefix _
    rw [dropLast_cons_cons] at hp ⊢
    exact .cons_cons hv hp

-- Positions of the trail can be marked. The marks are listed from the back of the trail to its
-- front. While the last position is not the first mark, moving keeps the marks on the trail.
theorem Sublist.reverse_dropLast (h : marks.reverse <+ l) (hl : l.getLast? ≠ marks.head? ∨ marks = []) :
    marks.reverse <+ l.dropLast := by
  cases hl
  case inr hm => simp [hm]
  case inl hm =>
    cases hg : l.getLast?
    case none =>
      rw [getLast?_eq_none_iff] at hg
      simpa [hg] using h
    case some z =>
      have ⟨l', he⟩ := getLast?_eq_some_iff.mp hg
      subst he
      have ⟨m₁, m₂, hr, h₁, h₂⟩ := sublist_append_iff.mp h
      cases m₂
      case nil => simpa [hr] using h₁
      case cons y m₂ =>
        have hs := h₂.length_le
        simp at hs
        subst hs
        have hy : y = z := by simpa using h₂
        have hh : marks.head? = some z := by
          rw [← getLast?_reverse, hr]
          simp [hy]
        exact absurd (hg.trans hh.symm) hm

theorem Sublist.reverse_tail (h : marks.reverse <+ l) : marks.tail.reverse <+ l :=
  (reverse_sublist.mpr <| tail_sublist marks).trans h

-- A mark at the last position is the first one.
theorem Sublist.getLast_mem_iff (h : marks.reverse <+ l) (hd : l.Nodup) (hl : l.getLast? = some a) :
    a ∈ marks ↔ marks.head? = some a := by
  constructor
  case mpr => exact mem_of_mem_head?
  case mp  =>
    intro hm
    by_contra hc
    have hs := h.reverse_dropLast (.inl fun he => hc <| he ▸ hl)
    exact hd.getLast_notMem_dropLast hl <| hs.mem (mem_reverse.mpr hm)

end List
