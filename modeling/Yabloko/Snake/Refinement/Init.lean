import Yabloko.Snake.Refinement.Step

open SnakeCell

-- The number of cells of the column or the row in which the initial body is laid.
def SnakeDir.extent : SnakeDir → Nat
  | up      => snakeFieldHeight
  | right   => snakeFieldWidth
  | down    => snakeFieldHeight
  | left    => snakeFieldWidth
  | other _ => snakeFieldWidth

theorem SnakeDir.le_extent (d : SnakeDir) : 20 ≤ d.extent := by
  cases d <;> simp [extent]

theorem SnakeDir.extent_lt (d : SnakeDir) : d.extent < snakeMaxLength := by
  cases d <;> simp [extent]

namespace Board

-- The cell number `i` of the initial body.
def centerCell (d : SnakeDir) (i : Nat) : SnakeCell where
  x := ((16 + d.behind.2.1 * i) % snakeFieldWidth).toNat
  y := ((10 + d.behind.2.2 * i) % snakeFieldHeight).toNat

-- The board with a snake of `n` cells in the center.
def center (d : SnakeDir) (n : Nat) (rngState : Nat) : Board where
  dir       := d.behind.1
  body      := (List.range n).map (centerCell d)
  apples    := []
  obstacles := []
  growth    := []
  score     := 0
  rngState  := rngState

-- Spawns up to `n` obstacles, until there is no free cell.
def fillObstacles : Nat → Board → Board
  | 0, b => b
  | n + 1, b =>
    match b.spawnObstacle with
    | (true, b)  => fillObstacles n b
    | (false, b) => b

def initRandomObstacles (b : Board) (targetCount : Nat) : Board :=
  fillObstacles (min targetCount snakeMaxObstacles) { b with obstacles := [] }

variable {b : Board} {d : SnakeDir} {n rngState : Nat}

theorem centerCell_inField (d : SnakeDir) (i : Nat) : (centerCell d i).InField := by
  simp [centerCell, InField]
  omega

theorem centerCell_inj {i j : Nat} (hi : i < d.extent) (hj : j < d.extent)
    (h : centerCell d i = centerCell d j) : i = j := by
  cases d <;> simp [centerCell, SnakeDir.behind] at h <;> simp [SnakeDir.extent] at hi hj <;> omega

-- A body which is longer than its column or row bites itself.
theorem centerCell_extent (d : SnakeDir) : centerCell d d.extent = centerCell d 0 := by
  cases d <;> rfl

-- A cell lies in front of the next one.
theorem centerCell_move (d : SnakeDir) (i : Nat) :
    ∃ δ, d.behind.1.delta = some δ ∧ centerCell d i = (centerCell d (i + 1)).move δ := by
  cases d
  case up    => exact ⟨_, rfl, by simp [centerCell, SnakeDir.behind, move]; omega⟩
  case right => exact ⟨_, rfl, by simp [centerCell, SnakeDir.behind, move]; omega⟩
  case down  => exact ⟨_, rfl, by simp [centerCell, SnakeDir.behind, move]; omega⟩
  case left  => exact ⟨_, rfl, by simp [centerCell, SnakeDir.behind, move]; omega⟩
  case other => exact ⟨_, rfl, by simp [centerCell, SnakeDir.behind, move]; omega⟩

theorem centerCell_neighbours (d : SnakeDir) (i : Nat) :
    Neighbours (centerCell d i) (centerCell d (i + 1)) := by
  have ⟨_, hd, he⟩ := centerCell_move d i
  exact he ▸ .of_delta hd

theorem center_nodup_iff : (center d n rngState).body.Nodup ↔ n ≤ d.extent := by
  have hp := d.le_extent
  constructor
  case mpr =>
    intro h
    refine List.Nodup.map_on ?_ List.nodup_range
    intro i hi j hj
    simp only [List.mem_range] at hi hj
    exact centerCell_inj (by omega) (by omega)
  case mp =>
    intro h
    by_contra hn
    have := List.inj_on_of_nodup_map h (List.mem_range.mpr (by omega : d.extent < n))
      (List.mem_range.mpr (by omega : 0 < n)) (centerCell_extent d)
    omega

theorem center_settled (h₁ : 1 ≤ n) (h₂ : n ≤ d.extent) : (center d n rngState).Settled where
  body_ne := by simp [center]; omega
  body_length := by simpa [center] using h₂.trans d.extent_lt.le
  body_field := by simp [center, centerCell_inField]
  body_nodup := center_nodup_iff.mpr h₂
  body_chain := by
    rw [center, List.isChain_map, List.isChain_iff_getElem]
    intro i hi
    simpa using centerCell_neighbours d i
  obstacle_field := by simp [center]
  obstacle_nodup := by simp [center]
  obstacle_length := by simp [center]
  obstacle_body := by simp [center]
  apple_field := by simp [center]
  apple_nodup := by simp [center]
  apple_length := by simp [center]
  apple_obstacle := by simp [center]
  apple_body := by simp [center]
  growth_length := by simp [center]
  apple_head := by simp [center]

theorem fillObstacles_settled (h : b.Settled) : (fillObstacles n b).Settled := by
  induction n generalizing b
  case zero => exact h
  case succ n hi =>
    have hs := h.spawnObstacle
    rw [fillObstacles]
    split <;> simp_all

-- Spawned obstacles change nothing but the obstacles and the random state.
theorem fillObstacles_eq (n : Nat) (b : Board) :
    ∃ s l, fillObstacles n b = { b with rngState := s, obstacles := b.obstacles ++ l } := by
  induction n generalizing b
  case zero => exact ⟨b.rngState, [], by simp [fillObstacles]⟩
  case succ n hi =>
    cases b.spawnObstacle_cases
    case inl hs =>
      have ⟨s, he⟩ := hs
      exact ⟨s, [], by simp [fillObstacles, he]⟩
    case inr hs =>
      have ⟨s, c, _, _, he⟩ := hs
      have ⟨s', l, hl⟩ := hi { b with rngState := s, obstacles := b.obstacles ++ [c] }
      exact ⟨s', c :: l, by simp [fillObstacles, he, hl]⟩

theorem Settled.initRandomObstacles (h : b.Settled) (targetCount : Nat) :
    (b.initRandomObstacles targetCount).Settled := by
  apply fillObstacles_settled
  exact { h with
    obstacle_field := by simp
    obstacle_nodup := by simp
    obstacle_length := by simp
    obstacle_body := by simp
    apple_obstacle := by simp }

end Board

namespace SnakeModel

open Board

variable {m : SnakeModel} {b : Board}

theorem initCenter_shows (m : SnakeModel) (d : SnakeDir) {n : Nat} (h₁ : 1 ≤ n)
    (h₂ : n ≤ snakeMaxLength) : ∃ m', m.initCenter d n = some m' ∧ m'.Shows (center d n m.rngState) := by
  have ⟨occupancy, ho, ho'⟩ := clearMap_marks m.occupancy
  have ⟨obstacleMap, hb, hb'⟩ := clearMap_marks m.obstacleMap
  have hx (i : Nat) : wrapCoord (16 + d.behind.2.1 * i) 32 = (centerCell d i).x := by
    rw [wrapCoord_eq _ (by simp)]
    simp [centerCell]
    omega
  have hy (i : Nat) : wrapCoord (10 + d.behind.2.2 * i) 20 = (centerCell d i).y := by
    rw [wrapCoord_eq _ (by simp)]
    simp [centerCell]
    omega
  let m₀ : SnakeModel := { m with
    dir := d.behind.1
    length := n
    score := 0
    appleCount := 0
    growthHead := 0
    growthCount := 0
    occupancy
    obstacleCount := 0
    obstacleMap }
  -- After `i` rounds, the first `i` cells of the body are in place.
  have ⟨m₁, hl, hp⟩ := List.foldlM_range_inv (s := m₀)
    (P := fun i m₁ => ∃ body occupancy, m₁ = { m₀ with body, occupancy } ∧
      body.Holds ((List.range i).map (centerCell d)) ∧
      MarksCells occupancy ((List.range i).map (centerCell d)))
    (f := fun (m : SnakeModel) (i : Nat) => do
      let body ← m.body.write i (.ofInts (centerCell d i).x (centerCell d i).y)
      let occupancy ← m.occupancy.write₂ (centerCell d i).y (centerCell d i).x 1
      return { m with body, occupancy })
    n ⟨m.body, occupancy, rfl, .nil, by simpa using ho'⟩
    fun i m₁ hi ⟨body, occupancy, he, hh, hm⟩ => by
      have hc := centerCell_inField d i
      have ⟨body', hw, _⟩ := Arr.exists_write (a := body) (i := i) (v := centerCell d i)
        (by omega) (by exact_mod_cast hi.trans_le h₂)
      have ⟨occupancy', hw', hm'⟩ := hm.set hc
      refine ⟨{ m₁ with body := body', occupancy := occupancy' }, ?_, body', occupancy', ?_, ?_, ?_⟩
      · simp [he, Shows.ofInts_eq hc, hw, hw']
      · simp [he]
      · rw [List.range_succ, List.map_append]
        exact hh.append (by simpa using hw)
      · exact hm'.congr <| by simp [List.range_succ, or_comm]
  have ⟨body, occupancy', he, hh, hm⟩ := hp
  obtain ⟨n, rfl⟩ : ∃ k, n = k + 1 := ⟨n - 1, by omega⟩
  have hhead : body.read 0 = some (centerCell d 0) := by
    have := hh.read_eq 0 (by simp)
    simpa using this
  have htail : body.read n = some (centerCell d n) := by
    have := hh.read_eq n (by simp)
    simpa using this
  refine ⟨{ m₁ with head := centerCell d 0, tail := centerCell d n }, ?_, ?_⟩
  · have hn : ¬640 ≤ n := Nat.not_le.mpr h₂
    simp [initCenter, hn, clearOccupancy, clearObstacles, ho, hb, hx, hy]
    simp [m₀] at hl
    simp [hl, he, m₀, hhead, htail]
  · rw [he]
    exact {
      dir := rfl
      score := rfl
      rngState := rfl
      length := by simp [m₀, center]
      body := hh
      head := by simp [center, List.range_succ_eq_map]
      tail := by simp [center, List.range_succ]
      occupancy := hm
      appleCount := rfl
      apples := .nil
      obstacleCount := rfl
      obstacles := .nil
      obstacleMap := hb'
      growthCount := rfl
      growth := .nil (by simp [m₀]) }

theorem initRandomObstacles_go_shows (target : Nat) {n : Nat} (h : m.Shows b)
    (hn : b.obstacles.length + n = target) :
    ∃ m', initRandomObstacles.go target (n + 1) m = some m' ∧ m'.Shows (fillObstacles n b) := by
  induction n generalizing m b
  case zero =>
    have : ¬m.obstacleCount < target := by simp [h.obstacleCount]; omega
    exact ⟨m, by simp [initRandomObstacles.go, this], h⟩
  case succ n hi =>
    have hlt : m.obstacleCount < target := by simp [h.obstacleCount]; omega
    have ⟨m₁, hs, hs'⟩ := h.spawnObstacle_eq
    cases b.spawnObstacle_cases
    case inl hc =>
      have ⟨s, he⟩ := hc
      rw [he] at hs hs'
      exact ⟨m₁, by simp [initRandomObstacles.go, hlt, hs], by simpa [fillObstacles, he] using hs'⟩
    case inr hc =>
      have ⟨s, c, _, _, he⟩ := hc
      rw [he] at hs hs'
      have ⟨m₂, hg, hg'⟩ := hi hs' (by simp; omega)
      refine ⟨m₂, ?_, by simpa [fillObstacles, he] using hg'⟩
      rw [initRandomObstacles.go]
      simp [hlt, hs, hg]

theorem initRandomObstacles_shows (h : m.Shows b) (targetCount : Nat) :
    ∃ m', m.initRandomObstacles targetCount = some m' ∧
      m'.Shows (b.initRandomObstacles targetCount) := by
  have ⟨obstacleMap, hb, hb'⟩ := clearMap_marks m.obstacleMap
  have h₀ : Shows { m with obstacleCount := 0, obstacleMap } { b with obstacles := [] } := { h with
    obstacleCount := rfl
    obstacles := .nil
    obstacleMap := hb' }
  have ⟨m', hg, hg'⟩ := initRandomObstacles_go_shows (min targetCount snakeMaxObstacles) h₀
    (n := min targetCount snakeMaxObstacles) (by simp)
  have ht : (if targetCount > snakeMaxObstacles then snakeMaxObstacles else targetCount) =
      min targetCount snakeMaxObstacles := by
    split <;> omega
  refine ⟨m', ?_, hg'⟩
  simp only [initRandomObstacles, ht, clearObstacles, hb, Option.bind_eq_bind, Option.bind_some,
    Option.pure_def, hg]

theorem seedRandom_shows (h : m.Shows b) (seed : Nat) :
    (m.seedRandom seed).Shows { b with rngState := (m.seedRandom seed).rngState } :=
  h.withRng _

end SnakeModel
