import Yabloko.Snake.Move
import Yabloko.Snake.Ticks

open SnakeCell

namespace Board

-- The number of cells which can hold an apple, up to the maximal number of apples.
def room (b : Board) : Nat :=
  min snakeMaxApples (snakeMaxLength - b.body.length - b.obstacles.length)

variable {b b' : Board} {d : SnakeDir} {c : SnakeCell} {target n : Nat}

theorem effectiveAppleTarget_eq (b : Board) (target : Nat) :
    b.effectiveAppleTarget target = min target b.room :=
  rfl

-- The snake, the obstacles, the apples and the free cells make up the field.
theorem Settled.perm (h : b.Settled) : (b.body ++ b.obstacles ++ b.apples ++ b.freeCells).Perm
    (rowMajor.map fun (x, y) => { x, y }) := by
  have hfield c : c ∈ rowMajor.map (fun (x, y) => ({ x, y } : SnakeCell)) ↔ c.InField := by
    cases c
    simp [rowMajor, InField, and_comm]
  have hn : (b.body ++ b.obstacles ++ b.apples ++ b.freeCells).Nodup := by
    simp only [List.nodup_append', List.disjoint_append_left]
    refine ⟨⟨⟨h.body_nodup, h.obstacle_nodup, ?_⟩, h.apple_nodup, ?_, ?_⟩,
      rowMajor_map_nodup.filter _, ⟨?_, ?_⟩, ?_⟩
    · exact fun c hb ho => h.obstacle_body c ho hb
    · exact fun c hb ha => h.apple_notMem_body ha hb
    · exact fun c ho ha => h.apple_obstacle c ha ho
    · exact fun c hb hf => (mem_freeCells.mp hf).right.left hb
    · exact fun c ho hf => (mem_freeCells.mp hf).right.right.left ho
    · exact fun c ha hf => (mem_freeCells.mp hf).right.right.right ha
  apply (List.perm_ext_iff_of_nodup hn rowMajor_map_nodup).mpr
  intro c
  rw [hfield]
  simp only [List.mem_append, mem_freeCells, Free]
  constructor
  case mp  =>
    rintro (((hc | hc) | hc) | hc)
    case inl.inl.inl => exact h.body_field c hc
    case inl.inl.inr => exact h.obstacle_field c hc
    case inl.inr     => exact h.apple_field c hc
    case inr         => exact hc.left
  case mpr =>
    intro hc
    by_cases hb : c ∈ b.body
    case pos => exact .inl <| .inl <| .inl hb
    case neg =>
      by_cases ho : c ∈ b.obstacles
      case pos => exact .inl <| .inl <| .inr ho
      case neg =>
        by_cases ha : c ∈ b.apples
        case pos => exact .inl <| .inr ha
        case neg => exact .inr ⟨hc, hb, ho, ha⟩

theorem Settled.length_freeCells (h : b.Settled) :
    b.body.length + b.obstacles.length + b.apples.length + b.freeCells.length = snakeMaxLength := by
  simpa [rowMajor, Nat.add_assoc] using h.perm.length_eq

theorem Settled.apples_le (h : b.Settled) : b.apples.length ≤ b.room := by
  have hl := h.length_freeCells
  have ha := h.apple_length
  rw [room]
  omega

-- As long as there is room, a new apple is put on a free cell.
theorem Settled.spawnApple_eq_true (h : b.Settled) (hl : b.apples.length < b.room) :
    ∃ s c, c ∈ b.freeCells ∧
      b.spawnApple = (true, { b with rngState := s, apples := b.apples ++ [c] }) := by
  have hlen := h.length_freeCells
  rw [room] at hl
  have hpick : ∃ c b', b.pick = (some c, b') := by
    have hpos : ¬(snakeMaxLength : Int) - b.body.length - b.apples.length - b.obstacles.length ≤ 0 := by
      omega
    have hfree : ((snakeMaxLength : Int) - b.body.length - b.apples.length - b.obstacles.length).toNat =
        b.freeCells.length := by omega
    have hlt : xorshift32 b.rngState % b.freeCells.length < b.freeCells.length :=
      Nat.mod_lt _ (by simp at hl hlen ⊢; omega)
    rw [pick, if_neg hpos, hfree]
    exact ⟨b.freeCells[xorshift32 b.rngState % b.freeCells.length],
      { b with rngState := xorshift32 b.rngState }, by simp only [List.getElem?_eq_getElem hlt]⟩
  obtain ⟨c, b', hp⟩ := hpick
  cases b.spawnApple_cases
  case inl hc =>
    obtain ⟨s, he⟩ := hc
    simp [Board.spawnApple, hp, show ¬b.apples.length ≥ snakeMaxApples by omega] at he
  case inr hc =>
    obtain ⟨s, c, hc, _, he⟩ := hc
    exact ⟨s, c, hc, he⟩

-- The new apples are put on different free cells, until the target or the end of the room is reached.
theorem Settled.fillApples (h : b.Settled) (target : Nat) (ht : target ≤ b.room) (hn : target ≤ b.apples.length + n) :
    ∃ s as, fillApples target n b = { b with rngState := s, apples := b.apples ++ as } ∧
      (b.apples ++ as).length = max b.apples.length target ∧ as.Nodup ∧ ∀ c ∈ as, c ∈ b.freeCells := by
  induction n generalizing b
  case zero      => exact ⟨b.rngState, [], by simp [Board.fillApples], by simp; omega, by simp, by simp⟩
  case succ n hi =>
    rw [Board.fillApples]
    split
    case isFalse hl => exact ⟨b.rngState, [], by simp, by simp; omega, by simp, by simp⟩
    case isTrue hl  =>
      obtain ⟨s, c, hc, he⟩ := h.spawnApple_eq_true (by omega)
      have h' := h.spawnApple
      rw [he] at h' ⊢
      obtain ⟨s', as, he', hlen, hd, hf⟩ := hi h' ht (by simp; omega)
      refine ⟨s', c :: as, ?_, ?_, ?_, ?_⟩
      · exact he'.trans <| by simp
      · simp at hlen ⊢
        omega
      · refine List.nodup_cons.mpr ⟨fun hm => ?_, hd⟩
        have hf := (mem_freeCells.mp <| hf c hm).right.right.right
        simp at hf
      · intro c' hc'
        cases hc'
        case head    => exact hc
        case tail hm =>
          obtain ⟨hi, hb, ho, ha⟩ := mem_freeCells.mp <| hf c' hm
          exact mem_freeCells.mpr ⟨hi, hb, ho, fun hc => ha <| List.mem_append_left _ hc⟩

-- The arena holds as many apples as the target asks for, and as there is room for.
def Full (target : Nat) (b : Board) : Prop :=
  b.apples.length = min target b.room

theorem Settled.fillApples_full (h : b.Settled) (hl : b.apples.length ≤ target) :
    (Board.fillApples (b.effectiveAppleTarget target) (b.effectiveAppleTarget target) b).Full target := by
  have hr := h.apples_le
  rw [effectiveAppleTarget_eq]
  have ⟨s, as, he, hlen, _⟩ := h.fillApples (min target b.room) (n := min target b.room)
    (by omega) (by omega)
  rw [Full, he]
  simp only [room] at hlen hr ⊢
  omega

-- A move which grows the snake takes a cell without an apple, or the apple is eaten.
theorem Full.meal (h : b.Full target) (hs : b.Settled) (hb : b.step d = some b') :
    (b'.meal target).Full target := by
  have ⟨δ, head, hd, hh, ho, hr, he⟩ := step_eq_some_iff.mp hb
  have hv := hs.step_valid hb
  have hset := hv.consume
  have hhead : b'.body.head? = some (head.move δ) := by rw [he]; rfl
  have hap : b'.apples = b.apples := by rw [he]
  cases consume_cases hhead
  case inl hc =>
    rw [hc.right] at hset
    rw [Board.meal, hc.right]
    have hle := hset.apples_le
    have hlen : b.body.length ≤ b'.body.length := by
      have hp := List.length_pos_iff.mpr hs.body_ne
      rw [he, List.length_cons, remains]
      split
      case isTrue  => omega
      case isFalse => rw [List.length_dropLast]; omega
    have hobs : b'.obstacles = b.obstacles := by rw [he]
    simp only [Full, room, hap, hobs, Bool.false_eq_true, if_false] at h hle ⊢
    omega
  case inr hc =>
    rw [hc.right] at hset
    rw [Board.meal, hc.right]
    simp only [if_true]
    apply hset.fillApples_full
    have hlen : (b'.apples.erase (head.move δ)).length ≤ b'.apples.length := List.length_erase_le
    rw [Full] at h
    rw [hap] at hlen
    simp only [enqueueGrowth]
    split <;> simp only [hap] <;> omega

end Board

namespace SnakeModel

-- The effective number of apples.
def appleGoal (m : SnakeModel) (target : Nat) : Nat :=
  min target (min snakeMaxApples (snakeMaxLength - m.length - m.obstacleCount))

-- The model after the apples have been filled up.
structure Filled (m : SnakeModel) (target : Nat) (m' : SnakeModel) : Prop where
  count  : m'.appleCount = max m.appleCount (m.appleGoal target)
  -- The new apples are put on different cells, which were free.
  apples : ∃ cells, m'.appleCells = m.appleCells ++ cells ∧ cells.Nodup ∧ ∀ c ∈ cells,
             c.InField ∧ c ∉ m.bodyCells ∧ c ∉ m.obstacleCells ∧ c ∉ m.appleCells
  rest   : m' = { m with
             rngState := m'.rngState
             apples := m'.apples
             appleCount := m'.appleCount }

variable {m m' : SnakeModel} {b b' : Board} {d : SnakeDir} {target : Nat}

theorem Shows.appleGoal_eq (h : m.Shows b) (target : Nat) :
    m.appleGoal target = min target b.room := by
  rw [appleGoal, Board.room, h.length, h.obstacleCount]

-- Spawning an apple concerns the random state and the apples only.
theorem addApple_rest {x y : Int} {r : Bool} (h : m.addApple x y = some (r, m')) : m' = { m with
    apples := m'.apples
    appleCount := m'.appleCount } := by
  simp only [addApple, Option.bind_eq_bind, Option.bind_eq_some_iff, Option.pure_def] at h
  obtain ⟨_, _, h⟩ := h
  split at h
  case isTrue  => cases h; rfl
  case isFalse =>
    split at h
    case isTrue  => cases h; rfl
    case isFalse =>
      obtain ⟨_, _, h⟩ := Option.bind_eq_some_iff.mp h
      cases h
      rfl

theorem pickRandomFreeCell_rest {c : Option (Nat × Nat)} (h : m.pickRandomFreeCell = some (c, m')) :
    m' = { m with rngState := m'.rngState } := by
  simp only [pickRandomFreeCell, Option.bind_eq_bind, Option.pure_def] at h
  split at h
  case isTrue  => cases h; rfl
  case isFalse =>
    obtain ⟨_, _, h⟩ := Option.bind_eq_some_iff.mp h
    cases h
    rfl

-- The cell is free of the body, the obstacles and the apples.
def Free (m : SnakeModel) (c : SnakeCell) : Prop :=
  c.InField ∧ c ∉ m.bodyCells ∧ c ∉ m.obstacleCells ∧ c ∉ m.appleCells

-- The cells for which `snake_model_cell_is_free` holds, in row-major order.
def freeCells (m : SnakeModel) : List (Nat × Nat) :=
  rowMajor.filter fun (x, y) => m.cellIsFree x y = some true

-- The result of `snake_model_pick_random_free_cell`. The drawn number is the new random state.
structure Picked (m : SnakeModel) (r : Option (Nat × Nat)) (m' : SnakeModel) : Prop where
  -- The number which is computed from the lengths of the lists.
  count  : (snakeFieldWidth * snakeFieldHeight - m.length - m.appleCount - m.obstacleCount : Int) =
             m.freeCells.length
  free   : ∀ c : SnakeCell, (c.x, c.y) ∈ m.freeCells ↔ m.Free c
  isSome : r.isSome ↔ ∃ c, m.Free c
  result : r = m.freeCells[xorshift32 m.rngState % m.freeCells.length]?
  -- The scan does not fall through, and each free cell belongs to one residue.
  scan   : ∀ target < m.freeCells.length,
             ∃ c ∈ m.freeCells, m.scanFree rowMajor target = some (some c)
  unique : ∀ c ∈ m.freeCells, ∃! target, target < m.freeCells.length ∧
             m.scanFree rowMajor target = some (some c)
  rest   : m' = { m with rngState := if m.freeCells = [] then m.rngState else xorshift32 m.rngState }

theorem Shows.freeCells_eq (h : m.Shows b) :
    m.freeCells = rowMajor.filter fun (x, y) => b.Free ⟨x, y⟩ := by
  refine List.filter_congr fun (x, y) hm => ?_
  have hf := h.cellIsFree_eq (c := ⟨x, y⟩) (mem_rowMajor.mp hm)
  simp only at hf
  simp [hf]

theorem Shows.map_freeCells (h : m.Shows b) :
    m.freeCells.map (fun (x, y) => ({ x, y } : SnakeCell)) = b.freeCells := by
  rw [h.freeCells_eq, Board.freeCells, List.filter_map]
  rfl

theorem Shows.scanFree_rowMajor (h : m.Shows b) (target : Nat) :
    m.scanFree rowMajor target = some m.freeCells[target]? := by
  rw [h.scanFree_eq fun x y => mem_rowMajor.mp, h.freeCells_eq]

theorem Shows.freeCells_withRng (h : m.Shows b) (s : Nat) :
    freeCells { m with rngState := s } = m.freeCells := by
  rw [(h.withRng s).freeCells_eq, h.freeCells_eq]
  rfl

theorem freeCells_nodup (m : SnakeModel) : m.freeCells.Nodup :=
  .filter _ rowMajor_nodup

theorem Represents.count_freeCells (h : m.Represents) :
    (snakeFieldWidth * snakeFieldHeight - m.length - m.appleCount - m.obstacleCount : Int) =
      m.freeCells.length := by
  have hl := h.settled.length_freeCells
  rw [← h.shows.map_freeCells, List.length_map, ← h.shows.length, ← h.shows.obstacleCount,
    ← h.shows.appleCount] at hl
  simp only [snakeMaxLength, snakeFieldWidth, snakeFieldHeight] at hl ⊢
  omega

theorem Represents.mem_freeCells (h : m.Represents) (c : SnakeCell) :
    (c.x, c.y) ∈ m.freeCells ↔ m.Free c := by
  rw [h.shows.freeCells_eq, List.mem_filter, mem_rowMajor, decide_eq_true_iff]
  rfl

theorem Represents.exists_free_iff (h : m.Represents) : (∃ c, m.Free c) ↔ m.freeCells ≠ [] := by
  constructor
  case mp  =>
    intro ⟨c, hc⟩
    exact List.ne_nil_of_mem <| (h.mem_freeCells c).mpr hc
  case mpr =>
    intro hn
    have ⟨(x, y), hm⟩ := List.exists_mem_of_ne_nil _ hn
    exact ⟨⟨x, y⟩, (h.mem_freeCells ⟨x, y⟩).mp hm⟩

theorem Represents.pickRandomFreeCell_eq (h : m.Represents) : m.pickRandomFreeCell =
    some (m.freeCells[xorshift32 m.rngState % m.freeCells.length]?, { m with
      rngState := if m.freeCells = [] then m.rngState else xorshift32 m.rngState }) := by
  have hs := (h.shows.withRng (xorshift32 m.rngState)).scanFree_rowMajor
  rw [h.shows.freeCells_withRng] at hs
  simp only [pickRandomFreeCell, randU32, h.count_freeCells, Int.toNat_natCast]
  split
  case isTrue hl =>
    have he : m.freeCells = [] := List.length_eq_zero_iff.mp (by omega)
    simp [he]
  case isFalse hl =>
    have he : m.freeCells ≠ [] := fun he => hl <| by simp [he]
    simp only [hs, he, if_false]
    rfl

theorem pickRandomFreeCell_spec (h : m.Represents) :
    ∃ r m', m.pickRandomFreeCell = some (r, m') ∧ m.Picked r m' := by
  have hlt (hn : m.freeCells ≠ []) :
      xorshift32 m.rngState % m.freeCells.length < m.freeCells.length :=
    Nat.mod_lt _ <| List.length_pos_iff.mpr hn
  refine ⟨_, _, h.pickRandomFreeCell_eq, {
    count := h.count_freeCells
    free := h.mem_freeCells
    isSome := ?isSome
    result := rfl
    scan := ?scan
    unique := ?unique
    rest := rfl }⟩
  case isSome =>
    rw [h.exists_free_iff, Option.isSome_iff_ne_none, ne_eq, List.getElem?_eq_none_iff, Nat.not_le]
    refine ⟨fun hl he => ?_, hlt⟩
    simp [he] at hl
  case scan =>
    intro target hl
    refine ⟨m.freeCells[target], List.getElem_mem hl, ?_⟩
    rw [h.shows.scanFree_rowMajor, List.getElem?_eq_getElem hl]
  case unique =>
    intro c hc
    have ⟨target, hl, he⟩ := List.mem_iff_getElem.mp hc
    refine ⟨target, ⟨hl, ?_⟩, ?_⟩
    · rw [h.shows.scanFree_rowMajor, List.getElem?_eq_getElem hl, he]
    · intro target' ⟨hl', he'⟩
      rw [h.shows.scanFree_rowMajor, List.getElem?_eq_getElem hl', Option.some.injEq,
        Option.some.injEq] at he'
      exact m.freeCells_nodup.getElem_inj_iff.mp <| he'.trans he.symm

-- At the start of a game with five cells and no obstacles there are free cells.
theorem pickRandomFreeCell_spec_start : ∃ m₀ r m', start default .right 5 42 0 = some m₀ ∧
    m₀.pickRandomFreeCell = some (r, m') ∧ m₀.Picked r m' ∧ r.isSome ∧ m₀.freeCells.length = 635 := by
  have ⟨m₀, s, hm, h₀⟩ := start_eq default .right 42 0 (show 1 ≤ 5 by decide) (by decide)
  have hs := Board.start_settled .right s 0 (show 1 ≤ 5 by decide) (by decide)
  have ⟨r, m', hp, hr⟩ := pickRandomFreeCell_spec (h₀.represents hs)
  have hc := hr.count
  rw [h₀.length, h₀.appleCount, h₀.obstacleCount] at hc
  have hl : m₀.freeCells.length = 635 := Int.ofNat.inj hc.symm
  have hlt : xorshift32 m₀.rngState % m₀.freeCells.length < m₀.freeCells.length :=
    Nat.mod_lt _ (by omega)
  refine ⟨m₀, r, m', hm, hp, hr, ?_, hl⟩
  rw [hr.result, List.getElem?_eq_getElem hlt]
  rfl

theorem spawnApple_rest {r : Bool} (h : m.spawnApple = some (r, m')) : m' = { m with
    rngState := m'.rngState
    apples := m'.apples
    appleCount := m'.appleCount } := by
  simp only [spawnApple, Option.bind_eq_bind, Option.pure_def] at h
  split at h
  case isTrue  => cases h; rfl
  case isFalse =>
    obtain ⟨⟨c, m₁⟩, hp, h⟩ := Option.bind_eq_some_iff.mp h
    have h₁ := pickRandomFreeCell_rest hp
    cases c
    case none        => cases h; rw [h₁]
    case some c =>
      have h₂ := addApple_rest h
      rw [h₂, h₁]

theorem fillApples_go_rest {rounds : Nat} (h : fillApples.go target rounds m = some m') : m' = { m with
    rngState := m'.rngState
    apples := m'.apples
    appleCount := m'.appleCount } := by
  induction rounds generalizing m
  case zero           => simp [fillApples.go] at h
  case succ rounds hi =>
    simp only [fillApples.go, Option.bind_eq_bind, Option.pure_def] at h
    split at h
    case isFalse => cases h; rfl
    case isTrue  =>
      obtain ⟨⟨r, m₁⟩, hs, h⟩ := Option.bind_eq_some_iff.mp h
      have h₁ := spawnApple_rest hs
      cases r
      case false => cases h; exact h₁
      case true  =>
        have h₂ := hi h
        rw [h₂, h₁]

theorem Represents.fillApples (h : m.Represents) (target : Nat) :
    ∃ m', m.fillApples target = some m' ∧ m.Filled target m' := by
  have hs := h.settled
  have ⟨m', hm, h'⟩ := h.shows.fillApples_eq hs.toValid target
  have hg := h.shows.appleGoal_eq target
  rw [Board.effectiveAppleTarget_eq] at h'
  have ⟨s, as, he, hlen, hd, hf⟩ := hs.fillApples (min target m.board.room)
    (n := min target m.board.room) (by omega) (by omega)
  rw [he] at h'
  refine ⟨m', hm, ?_, ⟨as, ?_, hd, ?_⟩, fillApples_go_rest hm⟩
  · rw [h'.appleCount, hlen, hg, h.shows.appleCount]
  · exact h'.appleCells_eq
  · exact fun c hc => ⟨(Board.mem_freeCells.mp <| hf c hc).left, (Board.mem_freeCells.mp <| hf c hc).right⟩

-- A call of `snake_fill_apples` ends, and only when the effective number of apples is reached.
structure Refilled (m : SnakeModel) (target : Nat) (m' : SnakeModel) : Prop where
  call   : m.fillApples target = some m'
  filled : m.Filled target m'
  full   : m'.appleCount = m'.appleGoal target

theorem Shows.full_iff (h : m.Shows b) : b.Full target ↔ m.appleCount = m.appleGoal target := by
  rw [Board.Full, h.appleGoal_eq, h.appleCount]

theorem Shows.refilled (h : m.Shows b) (target : Nat) (hs : b.Settled) (hl : b.apples.length ≤ target) :
    ∃ m', m.Refilled target m' ∧
      m'.Shows (b.fillApples (b.effectiveAppleTarget target) (b.effectiveAppleTarget target)) := by
  have ⟨m', hm, hf⟩ := (h.represents hs).fillApples target
  have ⟨m₁, hm₁, h₁⟩ := h.fillApples_eq hs.toValid target
  cases hm.symm.trans hm₁
  exact ⟨m', ⟨hm, hf, h₁.full_iff.mp <| hs.fillApples_full hl⟩, h₁⟩

end SnakeModel

namespace SnakeGameState

-- The moves of the snake in a game.
def ticks (s : SnakeGameState) (dirs : List SnakeDir) : Option SnakeGameState :=
  dirs.foldlM (fun s dir => (s.moveSnake dir).map Prod.snd) s

-- The model shows a board with the effective number of apples.
structure Stocked (s : SnakeGameState) (b : Board) : Prop where
  shows   : s.model.Shows b
  settled : b.Settled
  full    : b.Full s.targetAppleCount

variable {s : SnakeGameState} {b : Board} {dir : SnakeDir} {length : Nat}

theorem Stocked.moveSnake (h : s.Stocked b) (dir : SnakeDir) :
    ∃ r s' b', s.moveSnake dir = some (r, s') ∧ s'.Stocked b' ∧
      s'.targetAppleCount = s.targetAppleCount := by
  match hb : b.step dir with
  | none    => exact ⟨_, s, b, moveSnake_shows_of_none h.shows h.settled hb, h, rfl⟩
  | some b₁ =>
    have ⟨model, framebuffer, hm, hs, hs', _⟩ := moveSnake_shows_of_some h.shows h.settled hb
    exact ⟨true, _, _, hm, ⟨hs, hs', h.full.meal h.settled hb⟩, rfl⟩

theorem Stocked.ticks (h : s.Stocked b) (dirs : List SnakeDir) :
    ∃ s' b', s.ticks dirs = some s' ∧ s'.Stocked b' ∧ s'.targetAppleCount = s.targetAppleCount := by
  induction dirs generalizing s b
  case nil              => exact ⟨s, b, rfl, h, rfl⟩
  case cons dir dirs hi =>
    have ⟨r, s₁, b₁, hm, h₁, ht₁⟩ := h.moveSnake dir
    have ⟨s', b', hs, h', ht⟩ := hi h₁
    refine ⟨s', b', ?_, h', ht.trans ht₁⟩
    rw [SnakeGameState.ticks, List.foldlM_cons, hm]
    exact hs

-- The apples are filled up after a meal.
theorem Stocked.refilled (h : s.Stocked b) {m₁ m₂ : SnakeModel}
    (hm : s.model.step dir = some (true, m₁)) (hc : m₁.tryConsumeApple = some (true, m₂)) :
    ∃ m₃, m₂.Refilled s.targetAppleCount m₃ := by
  match hb : b.step dir with
  | none    =>
    have hn := h.shows.step_eq_of_none h.settled.toValid hb
    simp [hn] at hm
  | some b₁ =>
    have ⟨m₁', hm', h₁⟩ := h.shows.step_eq_of_some h.settled.toValid hb
    cases hm.symm.trans hm'
    have ⟨m₂', hc', h₂⟩ := h₁.tryConsumeApple_eq
    have ⟨he, hm₂⟩ := Prod.mk.inj <| Option.some.inj <| hc.symm.trans hc'
    subst hm₂
    have hset := (h.settled.step_valid hb).consume
    have hf := h.full.meal h.settled hb
    have ⟨m₃, hm₃, hf₃⟩ := (h₂.represents hset).fillApples s.targetAppleCount
    have ⟨m₃', hm₃', h₃⟩ := h₂.fillApples_eq hset.toValid s.targetAppleCount
    cases hm₃.symm.trans hm₃'
    rw [Board.meal, if_pos he.symm] at hf
    exact ⟨m₃, hm₃, hf₃, h₃.full_iff.mp hf⟩

theorem resetGame_stocked (s : SnakeGameState) (dir : SnakeDir) (nowMs : UInt64)
    (h₁ : 1 ≤ length) (h₂ : length ≤ 20) : ∃ m₀ m₁ s₀ b,
      s.model.start dir length (nowMs.toNat % 2 ^ 32) snakeTargetObstacleCount = some m₀ ∧
      m₀.Refilled s.targetAppleCount m₁ ∧
      s.resetGame dir length s.targetAppleCount nowMs = some s₀ ∧ s₀.model = m₁ ∧ s₀.Stocked b ∧
      s₀.targetAppleCount = s.targetAppleCount := by
  obtain ⟨m₀, rngState, hm, h₀⟩ := s.model.start_eq dir (nowMs.toNat % 2 ^ 32) snakeTargetObstacleCount h₁ h₂
  have hs := Board.start_settled dir rngState snakeTargetObstacleCount h₁ h₂
  have ha : (Board.start dir length rngState snakeTargetObstacleCount).apples = [] := by
    obtain ⟨s, l, he⟩ := Board.fillObstacles_eq (min snakeTargetObstacleCount snakeMaxObstacles)
      { Board.center dir length rngState with obstacles := [] }
    rw [Board.start, Board.initRandomObstacles, he]
    rfl
  obtain ⟨m₁, hr, h₃⟩ := h₀.refilled s.targetAppleCount hs (by simp [ha])
  obtain ⟨m₂, hc, hi⟩ : ∃ m₂, s.model.initCenter dir length = some m₂ ∧
      (m₂.seedRandom (nowMs.toNat % 2 ^ 32)).initRandomObstacles snakeTargetObstacleCount = some m₀ := by
    simpa only [SnakeModel.start, Option.bind_eq_bind, Option.bind_eq_some_iff] using hm
  have hreset : s.resetGame dir length s.targetAppleCount nowMs = some { s with
      input := s.input.init dir
      model := m₁
      alive := true
      paused := false
      accumulatorMs := 0
      lastTimeMs := nowMs } := by
    simp only [resetGame, hc, hi, hr.call, Option.bind_eq_bind, Option.bind_some, Option.pure_def]
  refine ⟨m₀, m₁, _, _, hm, hr, hreset, rfl, ⟨h₃, ?_, h₃.full_iff.mpr hr.full⟩, rfl⟩
  exact (Board.fillApples_eq_spawns _ _ _).elim fun k he => he ▸ hs.spawns _

-- At every boundary of a tick the arena holds the effective number of apples, and every call of
-- `snake_fill_apples`, in the reset and after a meal, reaches this number.
theorem ticks_full (s : SnakeGameState) (dir : SnakeDir) (nowMs : UInt64) (dirs : List SnakeDir)
    (h₁ : 1 ≤ length) (h₂ : length ≤ 20) : ∃ m₀ m₁ s₀ s',
      s.model.start dir length (nowMs.toNat % 2 ^ 32) snakeTargetObstacleCount = some m₀ ∧
      m₀.Refilled s.targetAppleCount m₁ ∧
      s.resetGame dir length s.targetAppleCount nowMs = some s₀ ∧ s₀.model = m₁ ∧
      s₀.ticks dirs = some s' ∧ s'.targetAppleCount = s.targetAppleCount ∧
      s'.model.appleCount = s'.model.appleGoal s.targetAppleCount ∧
      ∀ d m₂ m₃, s'.model.step d = some (true, m₂) → m₂.tryConsumeApple = some (true, m₃) →
        ∃ m₄, m₃.Refilled s.targetAppleCount m₄ := by
  have ⟨m₀, m₁, s₀, b, hm, hr, he, hm₁, h, ht⟩ := s.resetGame_stocked dir nowMs h₁ h₂
  have ⟨s', b', hs, h', ht'⟩ := h.ticks dirs
  have ht' := ht'.trans ht
  refine ⟨m₀, m₁, s₀, s', hm, hr, he, hm₁, hs, ht', ?_, ?_⟩
  · rw [← ht']
    exact h'.shows.full_iff.mp h'.full
  · intro d m₂ m₃ hm₂ hm₃
    rw [← ht']
    exact h'.refilled hm₂ hm₃

theorem ticks_full_length_five : ∃ m₀ m₁ s₀ s',
    (default : SnakeModel).start .right 5 42 snakeTargetObstacleCount = some m₀ ∧
    m₀.Refilled 7 m₁ ∧
    { (default : SnakeGameState) with targetAppleCount := 7 }.resetGame .right 5 7 42 = some s₀ ∧
    s₀.model = m₁ ∧
    s₀.ticks [.up, .left] = some s' ∧ s'.targetAppleCount = 7 ∧
    s'.model.appleCount = s'.model.appleGoal 7 ∧
    ∀ d m₂ m₃, s'.model.step d = some (true, m₂) → m₂.tryConsumeApple = some (true, m₃) →
      ∃ m₄, m₃.Refilled 7 m₄ :=
  ticks_full { (default : SnakeGameState) with targetAppleCount := 7 } .right 42 [.up, .left]
    (by decide) (by decide)

end SnakeGameState
