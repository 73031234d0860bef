import Yabloko.Snake.Growth
import Yabloko.Snake.Move

open SnakeCell

namespace Board

-- Every settled board is shown by a model.
theorem Settled.exists_shows {b : Board} (h : b.Settled) : ∃ m : SnakeModel, m.Shows b := by
  have ⟨body, hbody⟩ := Arr.Holds.exists_holds h.body_length
  have ⟨apples, happles⟩ := Arr.Holds.exists_holds h.apple_length
  have ⟨obstacles, hobstacles⟩ := Arr.Holds.exists_holds h.obstacle_length
  have ⟨growthPoints, hgrowth⟩ := Arr.Holds.exists_holds h.growth_length
  have ⟨occupancy, hoccupancy⟩ := MarksCells.exists_marks b.body
  have ⟨obstacleMap, hmap⟩ := MarksCells.exists_marks b.obstacles
  exact ⟨{
    dir := b.dir
    length := b.body.length
    score := b.score
    rngState := b.rngState
    head := b.body.head h.body_ne
    tail := b.body.getLast h.body_ne
    apples
    appleCount := b.apples.length
    obstacles
    obstacleCount := b.obstacles.length
    growthPoints
    growthHead := 0
    growthCount := b.growth.length
    body, occupancy, obstacleMap }, {
    dir := rfl
    score := rfl
    rngState := rfl
    length := rfl
    body := hbody
    head := List.head?_eq_some_head h.body_ne
    tail := List.getLast?_eq_some_getLast h.body_ne
    occupancy := hoccupancy
    appleCount := rfl
    apples := happles
    obstacleCount := rfl
    obstacles := hobstacles
    obstacleMap := hmap
    growthCount := rfl
    growth := .of_holds hgrowth (by decide) }⟩

-- The cell number `i` of a body which runs down and up the columns of the field, below its first row.
def loopCell (i : Nat) : SnakeCell where
  x := i / 19
  y := if i / 19 % 2 = 0 then 1 + i % 19 else 19 - i % 19

-- The first row is filled with obstacles, and the snake fills the rest of the field.
def looped (growth : List SnakeCell) : Board where
  dir       := .up
  body      := (List.range 608).map loopCell
  apples    := []
  obstacles := (List.range 32).map fun x => ⟨x, 0⟩
  growth    := growth
  score     := 0
  rngState  := 1

theorem loopCell_inField {i : Nat} (h : i < 608) : (loopCell i).InField := by
  simp only [InField, loopCell, snakeFieldWidth, snakeFieldHeight]
  constructor
  case left  => omega
  case right => split <;> omega

theorem loopCell_inj {i j : Nat} (h : loopCell i = loopCell j) : i = j := by
  simp only [loopCell, SnakeCell.mk.injEq] at h
  have ⟨hx, hy⟩ := h
  rw [hx] at hy
  split at hy <;> omega

theorem loopCell_neighbours {i : Nat} (h : i + 1 < 608) : Neighbours (loopCell i) (loopCell (i + 1)) := by
  by_cases hi : i % 19 = 18
  case pos =>
    have hx : (i + 1) / 19 = i / 19 + 1 := by omega
    have hy : (i + 1) % 19 = 0 := by omega
    refine ⟨.left, _, rfl, ?_⟩
    simp only [loopCell, move, hx, hy, hi, SnakeCell.mk.injEq, snakeFieldWidth, snakeFieldHeight]
    refine ⟨by omega, ?_⟩
    split <;> split <;> omega
  case neg =>
    have hx : (i + 1) / 19 = i / 19 := by omega
    have hy : (i + 1) % 19 = i % 19 + 1 := by omega
    by_cases hc : i / 19 % 2 = 0
    case pos =>
      refine ⟨.up, _, rfl, ?_⟩
      simp only [loopCell, move, hx, hy, hc, if_true, SnakeCell.mk.injEq, snakeFieldWidth, snakeFieldHeight]
      omega
    case neg =>
      refine ⟨.down, _, rfl, ?_⟩
      simp only [loopCell, move, hx, hy, hc, if_false, SnakeCell.mk.injEq, snakeFieldWidth, snakeFieldHeight]
      omega

theorem looped_head? (growth : List SnakeCell) : (looped growth).body.head? = some ⟨0, 1⟩ := by
  simp [looped, loopCell, List.head?_range]

theorem looped_getLast? (growth : List SnakeCell) : (looped growth).body.getLast? = some ⟨31, 1⟩ := by
  simp [looped, loopCell, List.getLast?_range]

theorem looped_dropLast (growth : List SnakeCell) :
    (looped growth).body.dropLast = (List.range 607).map loopCell := by
  simp only [looped, List.range_succ (n := 607), List.map_append, List.map_singleton, List.dropLast_concat]

theorem looped_settled {growth : List SnakeCell} (h : growth.length ≤ snakeMaxLength) :
    (looped growth).Settled where
  body_ne := by simp [looped]
  body_length := by simp [looped]
  body_field := by
    simp only [looped, List.mem_map, List.mem_range]
    rintro _ ⟨i, hi, rfl⟩
    exact loopCell_inField hi
  body_nodup := by
    simp only [looped]
    exact List.Nodup.map (fun _ _ => loopCell_inj) List.nodup_range
  body_chain := by
    rw [looped, List.isChain_map, List.isChain_iff_getElem]
    intro i hi
    rw [List.length_range] at hi
    simpa using loopCell_neighbours hi
  obstacle_field := by simp [looped, InField]
  obstacle_nodup := by
    simp only [looped]
    exact List.Nodup.map (fun _ _ => congrArg SnakeCell.x) List.nodup_range
  obstacle_length := by simp [looped]
  obstacle_body := by
    simp only [looped, List.mem_map, List.mem_range]
    rintro _ ⟨x, _, rfl⟩ ⟨i, _, he⟩
    have hy := congrArg SnakeCell.y he
    simp only [loopCell] at hy
    split at hy <;> omega
  apple_field := by simp [looped]
  apple_nodup := by simp [looped]
  apple_length := by simp [looped]
  apple_obstacle := by simp [looped]
  apple_body := by simp [looped]
  growth_length := h
  apple_head := by simp [looped]

end Board

namespace SnakeModel

-- There is no free cell.
structure Full (m : SnakeModel) : Prop where
  cells  : m.length + m.obstacleCount = snakeFieldWidth * snakeFieldHeight
  apples : m.appleCount = 0

-- The pending growth points are cells of the body in the order from the tail to the head, and the last
-- cell of the body is not one of them.
def GrowthOrdered (m : SnakeModel) : Prop :=
  m.length < snakeMaxLength → m.pendingGrowth.reverse.Sublist m.bodyCells.dropLast

variable {m m' : SnakeModel} {b : Board} {d : SnakeDir}

theorem Represents.step_eq_true_iff (h : m.Represents) {δ} (hd : d.delta = some δ) :
    (∃ m', m.step d = some (true, m')) ↔ ¬m.Blocked (m.head.move δ) := by
  rw [h.blocked_iff hd]
  cases hb : m.board.step d
  case none   => simp [h.shows.step_eq_of_none h.settled.toValid hb]
  case some b =>
    have ⟨m', hr, _⟩ := h.shows.step_eq_of_some h.settled.toValid hb
    simp [hr]

-- The cell of the tail is blocked only by the growth of the snake.
theorem Represents.blocked_tail_iff (h : m.Represents) : m.Blocked m.tail ↔ m.Grows := by
  have ht := List.mem_of_getLast? h.tail
  have ho : m.tail ∉ m.obstacleCells := h.body_obstacle ht
  simp [Blocked, ht, ho]

theorem Represents.grows_iff_mem (h : m.Represents) (ho : m.GrowthOrdered) (h₂ : 2 ≤ m.length) :
    m.Grows ↔ m.length < snakeMaxLength ∧
      ∃ c ∈ m.pendingGrowth, m.bodyCells[m.length - 2]? = some c := by
  constructor
  case mp  =>
    intro ⟨_, hl, c, hc, he⟩
    exact ⟨hl, c, List.mem_of_mem_head? hc, he⟩
  case mpr =>
    intro ⟨hl, c, hc, he⟩
    have hb : m.bodyCells.dropLast.getLast? = some c := by
      rw [List.getLast?_eq_getElem?, List.getElem?_dropLast, List.length_dropLast, h.body_length,
        if_pos (by omega), ← he]
      rfl
    have hbody : m.board.body.length = m.length := h.body_length
    exact h.grows_iff.mpr <| (h.settled.toValid.grows_iff (by omega) (by omega) (ho hl)).mpr ⟨c, hc, hb⟩

-- On a full board, the snake follows its tail exactly when there are no obstacles, or when its last but
-- one cell is not a pending growth point.
theorem follow_tail_iff (h : m.Represents) (ho : m.GrowthOrdered) (hf : m.Full) {δ} (hd : d.delta = some δ)
    (ht : m.head.move δ = m.tail) : (∃ m', m.step d = some (true, m')) ↔
      m.obstacleCount = 0 ∨ ∀ c ∈ m.pendingGrowth, m.bodyCells[m.length - 2]? ≠ some c := by
  have hc := hf.cells
  have hle := h.obstacle_count
  simp only [snakeFieldWidth, snakeFieldHeight, snakeMaxObstacles] at hc hle
  have hl : m.length < snakeMaxLength ↔ m.obstacleCount ≠ 0 := by
    simp only [snakeMaxLength, snakeFieldWidth, snakeFieldHeight]
    omega
  rw [h.step_eq_true_iff hd, ht, h.blocked_tail_iff, h.grows_iff_mem ho (by omega), hl]
  simp only [ne_eq, not_and_or, not_not, not_exists, imp_iff_not_or]

-- A full board, on which the cell on the left of the head is the tail.
theorem exists_looped (growth : List SnakeCell) (hl : growth.length ≤ snakeMaxLength)
    (hm : growth.reverse.Sublist (Board.looped growth).body.dropLast) : ∃ m : SnakeModel,
      m.Represents ∧ m.GrowthOrdered ∧ m.Full ∧ m.head.move (-1, 0) = m.tail ∧
      m.Shows (Board.looped growth) := by
  have hs := Board.looped_settled hl
  have ⟨m, h⟩ := hs.exists_shows
  have hh := Option.some.inj <| h.head.symm.trans <| Board.looped_head? growth
  have ht := Option.some.inj <| h.tail.symm.trans <| Board.looped_getLast? growth
  refine ⟨m, h.represents hs, fun _ => ?_, ⟨?_, h.appleCount⟩, by rw [hh, ht]; decide, h⟩
  · rwa [h.pendingGrowth_eq, h.bodyCells_eq]
  · rw [h.length, h.obstacleCount]
    simp [Board.looped]

theorem follow_tail_looped : ∃ m m' : SnakeModel, m.Full ∧ m.obstacleCount = 32 ∧
    m.head.move (-1, 0) = m.tail ∧ m.step .left = some (true, m') := by
  have ⟨m, h, ho, hf, ht, hm⟩ := exists_looped [] (by decide) (List.nil_sublist _)
  have ⟨m', hr⟩ := (follow_tail_iff h ho hf (d := .left) rfl ht).mpr <| .inr fun c hc => by
    rw [hm.pendingGrowth_eq] at hc
    cases hc
  exact ⟨m, m', hf, by rw [hm.obstacleCount]; simp [Board.looped], ht, hr⟩

-- The snake would grow into its tail, although the board is full.
theorem grows_into_tail : ∃ m : SnakeModel, m.Represents ∧ m.GrowthOrdered ∧ m.Full ∧
    m.head.move (-1, 0) = m.tail ∧ m.step .left = some (false, m) := by
  have hc : Board.loopCell 606 ∈ (Board.looped [Board.loopCell 606]).body.dropLast := by
    rw [Board.looped_dropLast, List.mem_map]
    exact ⟨606, List.mem_range.mpr (by decide), rfl⟩
  have ⟨m, h, ho, hf, ht, hm⟩ := exists_looped [Board.loopCell 606] (by decide)
    (List.singleton_sublist.mpr hc)
  refine ⟨m, h, ho, hf, ht, ?_⟩
  apply h.shows.step_eq_of_none h.settled.toValid
  apply (h.blocked_iff (d := .left) rfl).mp
  have hl : m.length = 608 := by simp [hm.length, Board.looped]
  rw [ht, h.blocked_tail_iff, h.grows_iff_mem ho (by omega)]
  refine ⟨by simp [hl], Board.loopCell 606, ?_, ?_⟩
  · rw [hm.pendingGrowth_eq]
    exact List.mem_singleton_self _
  · rw [hl, hm.bodyCells_eq, Board.looped, List.getElem?_map, List.getElem?_range (by decide)]
    rfl

end SnakeModel
