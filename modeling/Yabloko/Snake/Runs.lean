import Yabloko.Snake.Refinement.Init

open SnakeCell

-- A call of `snake_model_spawn_apple` or `snake_model_spawn_obstacle`.
inductive Spawn
  | apple
  | obstacle

-- A tick moves the snake in a direction, and a move which succeeds is followed by the meal. Things
-- can be spawned before and after the meal.
structure Tick where
  dir    : SnakeDir
  before : List Spawn
  after  : List Spawn

namespace SnakeModel

def bodyCells (m : SnakeModel) : List SnakeCell :=
  m.body.take m.length

def appleCells (m : SnakeModel) : List SnakeCell :=
  m.apples.take m.appleCount

def obstacleCells (m : SnakeModel) : List SnakeCell :=
  m.obstacles.take m.obstacleCount

-- The pending growth points, from `growthHead` on.
def pendingGrowth (m : SnakeModel) : List SnakeCell :=
  m.growthPoints.ring m.growthHead m.growthCount

def spawn (m : SnakeModel) : Spawn → Option (Bool × SnakeModel)
  | .apple    => m.spawnApple
  | .obstacle => m.spawnObstacle

def spawns (m : SnakeModel) (l : List Spawn) : Option SnakeModel :=
  l.foldlM (fun m s => (m.spawn s).map Prod.snd) m

def tick (m : SnakeModel) (t : Tick) : Option SnakeModel := do
  let (moved, m) ← m.step t.dir
  if !moved then
    return m
  let m ← m.spawns t.before
  let (_, m) ← m.tryConsumeApple
  m.spawns t.after

-- The initialization of the model for a new game.
def start (m : SnakeModel) (dir : SnakeDir) (length seed obstacles : Nat) : Option SnakeModel := do
  let m ← m.initCenter dir length
  (m.seedRandom seed).initRandomObstacles obstacles

def play (m : SnakeModel) (ts : List Tick) : Option SnakeModel :=
  ts.foldlM tick m

-- The redundant parts of the model describe one well-formed board.
structure Consistent (m : SnakeModel) : Prop where
  length_pos      : 1 ≤ m.length
  length_le       : m.length ≤ snakeMaxLength
  body_length     : m.bodyCells.length = m.length
  body_field      : ∀ c ∈ m.bodyCells, c.InField
  body_nodup      : m.bodyCells.Nodup
  body_chain      : m.bodyCells.IsChain Neighbours
  head            : m.bodyCells.head? = some m.head
  tail            : m.bodyCells.getLast? = some m.tail
  occupancy       : MarksCells m.occupancy m.bodyCells
  obstacle_length : m.obstacleCells.length = m.obstacleCount
  obstacle_count  : m.obstacleCount ≤ snakeMaxObstacles
  obstacle_field  : ∀ c ∈ m.obstacleCells, c.InField
  obstacle_nodup  : m.obstacleCells.Nodup
  obstacleMap     : MarksCells m.obstacleMap m.obstacleCells
  apple_length    : m.appleCells.length = m.appleCount
  apple_count     : m.appleCount ≤ snakeMaxApples
  apple_field     : ∀ c ∈ m.appleCells, c.InField
  apple_nodup     : m.appleCells.Nodup
  body_obstacle   : m.bodyCells.Disjoint m.obstacleCells
  body_apple      : m.bodyCells.Disjoint m.appleCells
  obstacle_apple  : m.obstacleCells.Disjoint m.appleCells

variable {m : SnakeModel} {b : Board}

theorem Shows.bodyCells_eq (h : m.Shows b) : m.bodyCells = b.body := by
  rw [bodyCells, h.length, h.body.take_eq]

theorem Shows.appleCells_eq (h : m.Shows b) : m.appleCells = b.apples := by
  rw [appleCells, h.appleCount, h.apples.take_eq]

theorem Shows.obstacleCells_eq (h : m.Shows b) : m.obstacleCells = b.obstacles := by
  rw [obstacleCells, h.obstacleCount, h.obstacles.take_eq]

theorem Shows.pendingGrowth_eq (h : m.Shows b) : m.pendingGrowth = b.growth := by
  rw [pendingGrowth, h.growthCount, h.growth.ring_eq]

theorem Shows.consistent (h : m.Shows b) (hs : b.Settled) : m.Consistent := by
  have hb := h.bodyCells_eq
  have ha := h.appleCells_eq
  have ho := h.obstacleCells_eq
  exact {
    length_pos := h.length ▸ List.length_pos_iff.mpr hs.body_ne
    length_le := h.length ▸ hs.body_length
    body_length := by rw [hb, h.length]
    body_field := hb ▸ hs.body_field
    body_nodup := hb ▸ hs.body_nodup
    body_chain := hb ▸ hs.body_chain
    head := hb ▸ h.head
    tail := hb ▸ h.tail
    occupancy := hb ▸ h.occupancy
    obstacle_length := by rw [ho, h.obstacleCount]
    obstacle_count := h.obstacleCount ▸ hs.obstacle_length
    obstacle_field := ho ▸ hs.obstacle_field
    obstacle_nodup := ho ▸ hs.obstacle_nodup
    obstacleMap := ho ▸ h.obstacleMap
    apple_length := by rw [ha, h.appleCount]
    apple_count := h.appleCount ▸ hs.apple_length
    apple_field := ha ▸ hs.apple_field
    apple_nodup := ha ▸ hs.apple_nodup
    body_obstacle := fun c hc hc' => hs.obstacle_body c (ho ▸ hc') (hb ▸ hc)
    body_apple := fun c hc hc' => hs.apple_notMem_body (ha ▸ hc') (hb ▸ hc)
    obstacle_apple := fun c hc hc' => hs.apple_obstacle c (ha ▸ hc') (ho ▸ hc) }

end SnakeModel

namespace Board

def spawn (b : Board) : Spawn → Bool × Board
  | .apple    => b.spawnApple
  | .obstacle => b.spawnObstacle

def spawns (b : Board) (l : List Spawn) : Board :=
  l.foldl (fun b s => (b.spawn s).2) b

-- The board after a move which succeeds.
def digest (b : Board) (t : Tick) : Board :=
  (b.spawns t.before).consume.2.spawns t.after

def tick (b : Board) (t : Tick) : Board :=
  match b.step t.dir with
  | none   => b
  | some b => b.digest t

def start (dir : SnakeDir) (length rngState obstacles : Nat) : Board :=
  (center dir length rngState).initRandomObstacles obstacles

variable {b : Board}

theorem start_settled (dir : SnakeDir) {length : Nat} (rngState obstacles : Nat)
    (h₁ : 1 ≤ length) (h₂ : length ≤ 20) : (start dir length rngState obstacles).Settled :=
  (center_settled h₁ (h₂.trans dir.le_extent)).initRandomObstacles obstacles

theorem Valid.spawns (h : b.Valid) (l : List Spawn) : (b.spawns l).Valid := by
  induction l generalizing b
  case nil         => exact h
  case cons s l hi =>
    cases s
    case apple    => exact hi h.spawnApple
    case obstacle => exact hi h.spawnObstacle

theorem Settled.spawns (h : b.Settled) (l : List Spawn) : (b.spawns l).Settled := by
  induction l generalizing b
  case nil         => exact h
  case cons s l hi =>
    cases s
    case apple    => exact hi h.spawnApple
    case obstacle => exact hi h.spawnObstacle

-- Spawning only adds apples and obstacles, and moves the random state on.
theorem spawns_eq (b : Board) (l : List Spawn) : ∃ s as os, b.spawns l =
    { b with rngState := s, apples := b.apples ++ as, obstacles := b.obstacles ++ os } := by
  induction l generalizing b
  case nil         => exact ⟨b.rngState, [], [], by simp [spawns]⟩
  case cons s l hi =>
    have ⟨s', as', os', he'⟩ : ∃ s' as os, (b.spawn s).2 =
        { b with rngState := s', apples := b.apples ++ as, obstacles := b.obstacles ++ os } := by
      cases s
      case apple =>
        cases b.spawnApple_cases
        case inl hc => have ⟨s, he⟩ := hc; exact ⟨s, [], [], by simp [spawn, he]⟩
        case inr hc => have ⟨s, c, _, _, he⟩ := hc; exact ⟨s, [c], [], by simp [spawn, he]⟩
      case obstacle =>
        cases b.spawnObstacle_cases
        case inl hc => have ⟨s, he⟩ := hc; exact ⟨s, [], [], by simp [spawn, he]⟩
        case inr hc => have ⟨s, c, _, _, he⟩ := hc; exact ⟨s, [], [c], by simp [spawn, he]⟩
    have ⟨s'', as'', os'', he''⟩ := hi (b.spawn s).2
    rw [he'] at he''
    exact ⟨s'', as' ++ as'', os' ++ os'', by simpa [spawns, he'] using he''⟩

theorem Valid.digest (h : b.Valid) (t : Tick) : (b.digest t).Settled :=
  (h.spawns t.before).consume.spawns t.after

theorem Settled.tick (h : b.Settled) (t : Tick) : (b.tick t).Settled := by
  rw [Board.tick]
  split
  case h_1      => exact h
  case h_2 b hs => exact (h.step_valid hs).digest t

end Board

namespace SnakeModel

variable {m : SnakeModel} {b : Board}

theorem Shows.spawns_eq (h : m.Shows b) (l : List Spawn) :
    ∃ m', m.spawns l = some m' ∧ m'.Shows (b.spawns l) := by
  induction l generalizing m b
  case nil         => exact ⟨m, rfl, h⟩
  case cons s l hi =>
    have ⟨m₁, hs, hs'⟩ : ∃ m₁, m.spawn s = some ((b.spawn s).1, m₁) ∧ m₁.Shows (b.spawn s).2 := by
      cases s
      case apple    => exact h.spawnApple_eq
      case obstacle => exact h.spawnObstacle_eq
    have ⟨m₂, hl, hl'⟩ := hi hs'
    exact ⟨m₂, by simpa [spawns, hs] using hl, hl'⟩

theorem Shows.tick_eq (h : m.Shows b) (hs : b.Settled) (t : Tick) :
    ∃ m', m.tick t = some m' ∧ m'.Shows (b.tick t) := by
  cases hb : b.step t.dir
  case none =>
    have hm := h.step_eq_of_none hs.toValid hb
    exact ⟨m, by simp [tick, hm], by simpa [Board.tick, hb] using h⟩
  case some b₁ =>
    have ⟨m₁, hm, h₁⟩ := h.step_eq_of_some hs.toValid hb
    have ⟨m₂, hm₂, h₂⟩ := h₁.spawns_eq t.before
    have ⟨m₃, hm₃, h₃⟩ := h₂.tryConsumeApple_eq
    have ⟨m₄, hm₄, h₄⟩ := h₃.spawns_eq t.after
    exact ⟨m₄, by simp [tick, hm, hm₂, hm₃, hm₄], by simpa [Board.tick, hb, Board.digest] using h₄⟩

theorem start_eq (m : SnakeModel) (dir : SnakeDir) {length : Nat} (seed obstacles : Nat)
    (h₁ : 1 ≤ length) (h₂ : length ≤ 20) :
    ∃ m' rngState, m.start dir length seed obstacles = some m' ∧
      m'.Shows (Board.start dir length rngState obstacles) := by
  have ⟨m₁, hc, h₁⟩ := m.initCenter_shows dir h₁ (h₂.trans (by decide))
  have ⟨m₂, ho, h₂⟩ := initRandomObstacles_shows (seedRandom_shows h₁ seed) obstacles
  exact ⟨m₂, _, by simp [start, hc, ho], h₂⟩

theorem Shows.play_eq (h : m.Shows b) (hs : b.Settled) (ts : List Tick) :
    ∃ m', m.play ts = some m' ∧ m'.Shows (ts.foldl Board.tick b) ∧ (ts.foldl Board.tick b).Settled := by
  induction ts generalizing m b
  case nil          => exact ⟨m, rfl, h, hs⟩
  case cons t ts hi =>
    have ⟨m₁, ht, h₁⟩ := h.tick_eq hs t
    have ⟨m₂, hm, h₂⟩ := hi h₁ (hs.tick t)
    exact ⟨m₂, by simpa [play, ht] using hm, h₂⟩

-- From the start of a game on, the model is consistent after every number of ticks, and every access
-- to one of its arrays is within the bounds.
theorem play_consistent (m : SnakeModel) (dir : SnakeDir) (length seed obstacles : Nat)
    (ts : List Tick) (h₁ : 1 ≤ length) (h₂ : length ≤ 20) :
    ∃ m₀ m', m.start dir length seed obstacles = some m₀ ∧ m₀.play ts = some m' ∧ m'.Consistent := by
  have ⟨m₀, _, hs, h₀⟩ := m.start_eq dir seed obstacles h₁ h₂
  have ⟨m', hp, h', hs'⟩ := h₀.play_eq (Board.start_settled _ _ _ h₁ h₂) ts
  exact ⟨m₀, m', hs, hp, h'.consistent hs'⟩

theorem play_consistent_length_five :
    ∃ m₀ m', start default .right 5 42 10 = some m₀ ∧
      m₀.play [⟨.up, [], [.apple]⟩, ⟨.left, [], []⟩] = some m' ∧ m'.Consistent :=
  play_consistent default .right 5 42 10 _ (by decide) (by decide)

end SnakeModel
