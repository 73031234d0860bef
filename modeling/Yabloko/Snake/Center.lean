import Yabloko.Snake.Move

open SnakeCell

namespace SnakeModel

-- The cells at which the occupancy is nonzero.
def occupiedCells (m : SnakeModel) : List (Nat × Nat) :=
  rowMajor.filter fun (x, y) => m.isOccupied x y = some true

-- The model is well-formed, and its snake looks in the direction of the model.
structure Centered (m : SnakeModel) : Prop extends m.Represents where
  occupied : m.occupiedCells.length = m.length
  behind   : ∀ c, m.bodyCells[1]? = some c → ∃ δ, m.dir.delta = some δ ∧ m.head = c.move δ

variable {m m' : SnakeModel} {b : Board} {d : SnakeDir} {n : Nat}

theorem Shows.occupiedCells_eq (h : m.Shows b) :
    m.occupiedCells = rowMajor.filter fun (x, y) => (⟨x, y⟩ : SnakeCell) ∈ b.body := by
  refine List.filter_congr fun (x, y) hm => ?_
  have ho := h.isOccupied_eq (c := ⟨x, y⟩) (mem_rowMajor.mp hm)
  simp only at ho
  simp [ho]

-- The cells of the snake are marked once each.
theorem Shows.length_occupiedCells (h : m.Shows b) (hf : ∀ c ∈ b.body, c.InField) (hn : b.body.Nodup) :
    m.occupiedCells.length = m.length := by
  have hp : (m.occupiedCells.map fun (x, y) => ({ x, y } : SnakeCell)).Perm b.body := by
    rw [h.occupiedCells_eq]
    refine (List.perm_ext_iff_of_nodup (rowMajor_map_nodup.sublist <| List.filter_sublist.map _) hn).mpr fun c => ?_
    have hi := hf c
    cases c
    simp [mem_rowMajor, InField] at hi ⊢
    exact hi
  rw [h.length, ← hp.length_eq, List.length_map]

-- The initial length is clamped to the number of cells of the field.
theorem initCenter_clamp (m : SnakeModel) (d : SnakeDir) (n : Nat) :
    m.initCenter d n = m.initCenter d (min (max n 1) snakeMaxLength) := by
  have h₁ : (if n = 0 then 1 else n) = max n 1 := by split <;> omega
  have h₂ : (if max n 1 > snakeMaxLength then snakeMaxLength else max n 1) =
      min (max n 1) snakeMaxLength := by split <;> omega
  have h₃ : ¬min (max n 1) snakeMaxLength = 0 := by
    simp only [snakeMaxLength, snakeFieldWidth, snakeFieldHeight]
    omega
  have h₄ : ¬min (max n 1) snakeMaxLength > snakeMaxLength := by omega
  simp only [initCenter, h₁, h₂, h₃, h₄, if_false]

theorem Shows.centered (h : m.Shows (Board.center d n m.rngState)) (h₁ : 1 ≤ n) (h₂ : n ≤ d.extent) :
    m.Centered where
  toRepresents := h.represents <| Board.center_settled h₁ h₂
  occupied := by
    have hs : (Board.center d n m.rngState).Settled := Board.center_settled h₁ h₂
    exact h.length_occupiedCells hs.body_field hs.body_nodup
  behind c hc := by
    obtain ⟨δ, hd, he⟩ := Board.centerCell_move d 0
    have hh := h.head
    have hb := h.bodyCells_eq
    rw [hb] at hc
    simp only [Board.center, List.getElem?_map, List.head?_map] at hc hh
    rw [List.head?_range, if_neg (by omega), Option.map_some, Option.some.injEq] at hh
    obtain ⟨i, hi, hc⟩ := Option.map_eq_some_iff.mp hc
    obtain ⟨_, hi⟩ := List.getElem?_eq_some_iff.mp hi
    rw [List.getElem_range] at hi
    exact ⟨δ, h.dir ▸ hd, by rw [← hh, ← hc, ← hi]; exact he⟩

theorem Shows.centered_iff (h : m.Shows (Board.center d n m.rngState)) (h₁ : 1 ≤ n) :
    m.Centered ↔ n ≤ d.extent := by
  refine ⟨fun hc => ?_, h.centered h₁⟩
  have hn := hc.body_nodup
  rw [h.bodyCells_eq] at hn
  exact Board.center_nodup_iff.mp hn

-- The initial body is laid along one column or row, but its length is only bounded by the number of
-- all cells. A longer body than the column or row covers its own cells again.
theorem initCenter_centered_iff (m : SnakeModel) (d : SnakeDir) (n : Nat) :
    ∃ m', m.initCenter d n = some m' ∧ (m'.Centered ↔ n ≤ d.extent) := by
  have he := d.le_extent
  have hl := d.extent_lt
  have ⟨m', hm, hs⟩ := m.initCenter_shows d (n := min (max n 1) snakeMaxLength)
    (by simp only [snakeMaxLength, snakeFieldWidth, snakeFieldHeight]; omega) (by omega)
  have hr : m'.rngState = m.rngState := hs.rngState
  rw [← hr] at hs
  refine ⟨m', (m.initCenter_clamp d n).trans hm, ?_⟩
  rw [hs.centered_iff (by simp only [snakeMaxLength, snakeFieldWidth, snakeFieldHeight]; omega),
    min_le_iff, max_le_iff]
  omega

-- A snake of 33 cells in a row of 32 cells.
theorem initCenter_overlaps : ∃ m', (default : SnakeModel).initCenter .right 33 = some m' ∧
    m'.length = 33 ∧ m'.occupiedCells.length = 32 ∧ ¬m'.bodyCells.Nodup ∧ ¬m'.Centered := by
  have ⟨m', hm, hs⟩ := (default : SnakeModel).initCenter_shows .right (n := 33) (by decide) (by decide)
  have hn : ¬m'.bodyCells.Nodup := by
    rw [hs.bodyCells_eq, Board.center_nodup_iff]
    decide
  refine ⟨m', hm, hs.length, ?_, hn, fun hc => hn hc.body_nodup⟩
  rw [hs.occupiedCells_eq]
  decide +kernel

end SnakeModel
