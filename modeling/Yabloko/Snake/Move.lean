import Yabloko.Snake.Runs

open SnakeCell

namespace SnakeModel

-- The model is consistent, and its growth queue is within the bounds of its array.
structure Represents (m : SnakeModel) : Prop extends m.Consistent where
  growth_head  : m.growthHead < snakeMaxLength
  growth_count : m.growthCount ≤ snakeMaxLength

-- The board which the model stands for.
def board (m : SnakeModel) : Board where
  dir       := m.dir
  body      := m.bodyCells
  apples    := m.appleCells
  obstacles := m.obstacleCells
  growth    := m.pendingGrowth
  score     := m.score
  rngState  := m.rngState

-- The tail reaches the first pending growth point with a normal step.
def Grows (m : SnakeModel) : Prop :=
  2 ≤ m.length ∧ m.length < snakeMaxLength ∧
    ∃ c, m.pendingGrowth.head? = some c ∧ m.bodyCells[m.length - 2]? = some c

-- A cell which the snake cannot enter.
def Blocked (m : SnakeModel) (c : SnakeCell) : Prop :=
  c ∈ m.obstacleCells ∨ (c ∈ m.bodyCells ∧ (m.Grows ∨ c ≠ m.tail))

-- The model after the snake has entered the cell `c`.
structure Moved (m : SnakeModel) (dir : SnakeDir) (c : SnakeCell) (m' : SnakeModel) : Prop where
  grown     : m.Grows → m'.bodyCells = c :: m.bodyCells ∧ m'.length = m.length + 1 ∧
                m'.pendingGrowth = m.pendingGrowth.tail ∧ m'.growthCount = m.growthCount - 1
  shifted   : ¬m.Grows → m'.bodyCells = c :: m.bodyCells.dropLast ∧ m'.length = m.length ∧
                m'.pendingGrowth = m.pendingGrowth ∧ m'.growthCount = m.growthCount
  dir       : m'.dir = dir
  head      : m'.head = c
  tail      : m'.bodyCells.getLast? = some m'.tail
  occupancy : MarksCells m'.occupancy m'.bodyCells
  -- The score, the apples, the obstacles and the random state are kept.
  rest      : m' = { m with
                dir := m'.dir
                length := m'.length
                head := m'.head
                tail := m'.tail
                growthHead := m'.growthHead
                growthCount := m'.growthCount
                body := m'.body
                occupancy := m'.occupancy }

variable {m m' : SnakeModel} {b : Board} {d : SnakeDir} {c : SnakeCell}

theorem Represents.shows (h : m.Represents) : m.Shows m.board where
  dir := rfl
  score := rfl
  rngState := rfl
  length := h.body_length.symm
  body := .of_take h.length_le
  head := h.head
  tail := h.tail
  occupancy := h.occupancy
  appleCount := h.apple_length.symm
  apples := .of_take h.apple_count
  obstacleCount := h.obstacle_length.symm
  obstacles := .of_take h.obstacle_count
  obstacleMap := h.obstacleMap
  growthCount := (List.filterMap_range fun i _ => Arr.read_isSome (by omega)
    (by exact_mod_cast Nat.mod_lt _ (by decide))).left.symm
  growth := .of_ring h.growth_head h.growth_count

theorem Represents.settled (h : m.Represents) : m.board.Settled where
  body_ne := by
    have hl := h.length_pos
    rw [← h.body_length] at hl
    exact List.length_pos_iff.mp hl
  body_length := h.body_length.trans_le h.length_le
  body_field := h.body_field
  body_nodup := h.body_nodup
  body_chain := h.body_chain
  obstacle_field := h.obstacle_field
  obstacle_nodup := h.obstacle_nodup
  obstacle_length := h.obstacle_length.trans_le h.obstacle_count
  obstacle_body := fun _ ho hb => h.body_obstacle hb ho
  apple_field := h.apple_field
  apple_nodup := h.apple_nodup
  apple_length := h.apple_length.trans_le h.apple_count
  apple_obstacle := fun _ ha ho => h.obstacle_apple ho ha
  apple_body := fun _ ha hb => h.body_apple (List.mem_of_mem_tail hb) ha
  growth_length := h.shows.growthCount.symm.trans_le h.growth_count
  apple_head := fun _ ha hh => h.body_apple (List.mem_of_mem_head? hh) ha

theorem Shows.represents (h : m.Shows b) (hs : b.Settled) : m.Represents where
  toConsistent := h.consistent hs
  growth_head := h.growth.head_lt
  growth_count := h.growthCount ▸ hs.growth_length

theorem Represents.grows_iff (h : m.Represents) : m.Grows ↔ m.board.Grows := by
  have hl := h.shows.length
  have hd (hl : 2 ≤ m.bodyCells.length) :
      m.bodyCells.dropLast.getLast? = m.bodyCells[m.bodyCells.length - 2]? := by
    rw [List.getLast?_eq_getElem?, List.getElem?_dropLast, List.length_dropLast, if_pos (by omega)]
    rfl
  simp only [board] at hl
  rw [Grows, Board.Grows, hl]
  simp only [board]
  apply and_congr_right
  intro h₂
  apply and_congr_right
  intro _
  rw [hd h₂]
  cases m.pendingGrowth <;> simp [eq_comm]

-- The updates of a step do not concern the other fields of the model.
theorem advance_rest {x y : Int} {grow : Bool} (h : m.advance x y grow d = some m') :
    m' = { m with
      dir := m'.dir
      length := m'.length
      head := m'.head
      tail := m'.tail
      growthHead := m'.growthHead
      growthCount := m'.growthCount
      body := m'.body
      occupancy := m'.occupancy } := by
  cases grow
  case true  =>
    simp only [advance, if_true, Bool.not_true, Bool.false_eq_true, if_false, Option.bind_eq_bind,
      Option.pure_def, Option.bind_eq_some_iff] at h
    obtain ⟨_, _, _, h₁, _, _, _, _, _, _, _, _, _, _, he⟩ := h
    cases h₁
    cases he
    simp only [popGrowthPoint]
    split <;> rfl
  case false =>
    by_cases hl : m.length > 1
    case pos =>
      simp only [advance, hl, if_true, Bool.not_false, Bool.false_eq_true, if_false, Option.bind_eq_bind,
        Option.pure_def, Option.bind_eq_some_iff] at h
      obtain ⟨_, _, _, h₁, _, _, _, _, _, _, _, _, _, _, he⟩ := h
      cases h₁
      cases he
      rfl
    case neg =>
      simp only [advance, hl, if_true, Bool.not_false, Bool.false_eq_true, if_false, Option.bind_eq_bind,
        Option.pure_def, Option.bind_eq_some_iff] at h
      obtain ⟨_, h₁, _, _, _, _, _, _, _, _, _, _, he⟩ := h
      cases h₁
      cases he
      rfl

theorem Represents.moved (h : m.Represents) (hb : m.board.step d = some b) (hm : m'.Shows b)
    (hr : m.step d = some (true, m')) {δ} (hd : d.delta = some δ) :
    Moved m d (m.head.move δ) m' := by
  obtain ⟨δ', head, hd', hh, _, _, he⟩ := Board.step_eq_some_iff.mp hb
  cases hd.symm.trans hd'
  cases h.head.symm.trans hh
  have hbody := hm.bodyCells_eq
  have hgrowth := hm.pendingGrowth_eq
  have hlen := hm.length
  have hcnt := hm.growthCount
  rw [he] at hbody hgrowth hlen hcnt
  exact {
    grown := fun hg => by
      have hg := h.grows_iff.mp hg
      simp only [Board.remains, hg, if_true] at hbody hgrowth hlen hcnt
      refine ⟨hbody, ?_, hgrowth, ?_⟩
      · rw [hlen, h.shows.length]
        rfl
      · rw [hcnt, h.shows.growthCount, List.length_tail]
    shifted := fun hg => by
      have hg := mt h.grows_iff.mpr hg
      simp only [Board.remains, hg, if_false] at hbody hgrowth hlen hcnt
      refine ⟨hbody, ?_, hgrowth, ?_⟩
      · have hp := h.length_pos
        rw [hlen, List.length_cons, List.length_dropLast, ← h.shows.length]
        omega
      · rw [hcnt, h.shows.growthCount]
    dir := by rw [hm.dir, he]
    head := by
      have hh := hm.head
      rw [he] at hh
      exact (Option.some.inj hh).symm
    tail := by rw [hm.bodyCells_eq, hm.tail]
    occupancy := by
      rw [hm.bodyCells_eq]
      exact hm.occupancy
    rest := by
      rw [h.shows.step_eq_ite h.settled.toValid hd] at hr
      split at hr
      case isTrue  => simp at hr
      case isFalse =>
        obtain ⟨m₁, ha, he⟩ := Option.map_eq_some_iff.mp hr
        cases he
        exact advance_rest ha }

theorem Represents.blocked_iff (h : m.Represents) {δ} (hd : d.delta = some δ) :
    m.Blocked (m.head.move δ) ↔ m.board.step d = none := by
  have hh : m.board.body.head? = some m.head := h.head
  have hr := Board.mem_remains_iff (c := m.head.move δ) h.settled.toValid h.tail
  simp only [Board.step, hd, hh, Option.bind_eq_bind, Option.bind_some, Option.pure_def,
    ite_eq_left_iff, reduceCtorEq, imp_false, not_not]
  rw [hr, Blocked, h.grows_iff, or_comm (a := m.board.Grows)]
  rfl

-- A step is refused exactly when the next cell is blocked, and then changes nothing.
theorem step_spec (h : m.Represents) {δ} (hd : d.delta = some δ) :
    (m.step d = some (false, m) ↔ m.Blocked (m.head.move δ)) ∧
    (¬m.Blocked (m.head.move δ) → ∃ m', m.step d = some (true, m') ∧
      Moved m d (m.head.move δ) m') := by
  have hblocked := h.blocked_iff hd
  constructor
  case left  =>
    rw [hblocked]
    constructor
    case mpr => exact h.shows.step_eq_of_none h.settled.toValid
    case mp  =>
      intro hs
      match hb : m.board.step d with
      | none   => rfl
      | some b =>
        have ⟨m', hr, _⟩ := h.shows.step_eq_of_some h.settled.toValid hb
        simp [hr] at hs
  case right =>
    intro hn
    have ⟨b, hb⟩ := Option.ne_none_iff_exists'.mp <| mt hblocked.mpr hn
    have ⟨m', hr, hm⟩ := h.shows.step_eq_of_some h.settled.toValid hb
    exact ⟨m', hr, h.moved hb hm hr hd⟩

-- The snake of a new game is free to move to the right.
theorem step_spec_start : ∃ m₀ m', start default .right 5 42 0 = some m₀ ∧
    m₀.step .right = some (true, m') ∧ Moved m₀ .right ⟨17, 10⟩ m' := by
  have ⟨m₀, s, hm, h₀⟩ := start_eq default .right 42 0 (show 1 ≤ 5 by decide) (by decide)
  have h := h₀.represents <| Board.start_settled .right s 0 (by decide) (by decide)
  have hb : Board.start .right 5 s 0 = Board.center .right 5 s := rfl
  have hh : m₀.head = ⟨16, 10⟩ := (Option.some.inj <| h₀.head).symm
  have hn : m₀.head.move (1, 0) = ⟨17, 10⟩ := by rw [hh]; decide
  have hs := (step_spec h (d := .right) rfl).right
  rw [hn] at hs
  have ⟨m', hr, hm'⟩ := hs fun hc => by
    rw [Blocked, h₀.obstacleCells_eq, h₀.bodyCells_eq, hb] at hc
    have hbody : (Board.center .right 5 s).body =
        [⟨16, 10⟩, ⟨15, 10⟩, ⟨14, 10⟩, ⟨13, 10⟩, ⟨12, 10⟩] := rfl
    have hobstacles : (Board.center .right 5 s).obstacles = [] := rfl
    simp [hbody, hobstacles] at hc
  exact ⟨m₀, m', hm, hr, hm'⟩

end SnakeModel
