import Yabloko.Snake.Board

open SnakeCell

-- The map of the field is nonzero exactly at the cells of `l`.
def MarksCells (map : FieldMap) (l : List SnakeCell) : Prop :=
  ∀ c : SnakeCell, c.InField → ∃ v, map.read₂ c.y c.x = some v ∧ (v ≠ 0 ↔ c ∈ l)

namespace MarksCells

variable {map map' : FieldMap} {l l' : List SnakeCell}
variable {c : SnakeCell}

theorem exists_marks (l : List SnakeCell) : ∃ map, MarksCells map l := by
  refine ⟨⟨fun y => ⟨fun x => if (⟨x, y⟩ : SnakeCell) ∈ l then 1 else 0⟩⟩, fun c hc => ?_⟩
  have ⟨hx, hy⟩ := hc
  refine ⟨if c ∈ l then 1 else 0, ?_, by simp⟩
  rw [Arr.read₂, Arr.read_of_mem (by omega) (by exact_mod_cast hy)]
  simp only [Option.bind_eq_bind, Option.bind_some]
  rw [Arr.read_of_mem (by omega) (by exact_mod_cast hx)]
  rfl

theorem congr (h : MarksCells map l) (hl : ∀ c, c ∈ l' ↔ c ∈ l) : MarksCells map l' := by
  intro c hc
  have ⟨v, hv, hm⟩ := h c hc
  exact ⟨v, hv, hm.trans (hl c).symm⟩

theorem exists_write (map : FieldMap) (v : Nat) (hc : c.InField) :
    ∃ map', map.write₂ c.y c.x v = some map' ∧
      ∀ c' : SnakeCell, map'.read₂ c'.y c'.x = if c' = c then some v else map.read₂ c'.y c'.x := by
  have ⟨hx, hy⟩ := hc
  have ⟨map', hw, hr⟩ := Arr.exists_write₂ (a := map) (v := v) (y := c.y) (x := c.x)
    (by omega) (by exact_mod_cast hy) (by omega) (by exact_mod_cast hx)
  refine ⟨map', hw, fun c' => ?_⟩
  rw [hr]
  congr 1
  cases c; cases c'
  simp [and_comm]

theorem set (h : MarksCells map l) (hc : c.InField) :
    ∃ map', map.write₂ c.y c.x 1 = some map' ∧ MarksCells map' (c :: l) := by
  have ⟨map', hw, hr⟩ := exists_write map 1 hc
  refine ⟨map', hw, fun c' hc' => ?_⟩
  have ⟨v, hv, hm⟩ := h c' hc'
  by_cases he : c' = c
  case pos => exact ⟨1, by simp [hr, he], by simp [he]⟩
  case neg => exact ⟨v, by simp [hr, he, hv], by simp [he, hm]⟩

theorem clear (h : MarksCells map l) (hc : c.InField) (hl : ∀ c', c' ∈ l' ↔ c' ∈ l ∧ c' ≠ c) :
    ∃ map', map.write₂ c.y c.x 0 = some map' ∧ MarksCells map' l' := by
  have ⟨map', hw, hr⟩ := exists_write map 0 hc
  refine ⟨map', hw, fun c' hc' => ?_⟩
  have ⟨v, hv, hm⟩ := h c' hc'
  by_cases he : c' = c
  case pos => exact ⟨0, by simp [hr, he], by simp [hl, he]⟩
  case neg => exact ⟨v, by simp [hr, he, hv], by simp [hl, he, hm]⟩

end MarksCells

theorem mem_rowMajor {x y : Nat} : (x, y) ∈ rowMajor ↔ x < snakeFieldWidth ∧ y < snakeFieldHeight := by
  simp [rowMajor, and_comm]

theorem rowMajor_nodup : rowMajor.Nodup := by
  rw [rowMajor, List.nodup_flatMap]
  constructor
  case left  => exact fun y _ => List.nodup_range.map fun _ _ he => congrArg Prod.fst he
  case right =>
    refine List.nodup_range.imp fun {y y'} hn => ?_
    simp only [Function.onFun, List.disjoint_left, List.mem_map]
    rintro _ ⟨x, _, he⟩ ⟨x', _, he'⟩
    exact hn <| congrArg Prod.snd <| he.trans he'.symm

theorem rowMajor_map_nodup : (rowMajor.map fun (x, y) => ({ x, y } : SnakeCell)).Nodup :=
  rowMajor_nodup.map fun _ _ he => Prod.ext (congrArg SnakeCell.x he) (congrArg SnakeCell.y he)

theorem SnakeModel.clearMap_marks (map : FieldMap) : ∃ map', clearMap map = some map' ∧ MarksCells map' [] := by
  have ⟨map', h, hp⟩ := List.foldlM_inv (s := map) (f := fun map (x, y) => map.write₂ y x 0)
    (P := fun pre map => ∀ c : SnakeCell, (c.x, c.y) ∈ pre → map.read₂ c.y c.x = some 0)
    rowMajor (by simp) fun pre (x, y) map hp hi => by
      have hc : SnakeCell.InField ⟨x, y⟩ := mem_rowMajor.mp <| hp.mem (by simp)
      have ⟨map', hw, hr⟩ := MarksCells.exists_write map 0 hc
      refine ⟨map', hw, fun c hm => ?_⟩
      rw [hr]
      by_cases he : c = ⟨x, y⟩
      case pos => simp [he]
      case neg =>
        have hm : (c.x, c.y) ∈ pre := by
          cases c
          simp at hm he ⊢
          exact hm.resolve_right fun ⟨hx, hy⟩ => he hx hy
        simp [he, hi c hm]
  exact ⟨map', h, fun c hc => ⟨0, hp c (mem_rowMajor.mpr hc), by simp⟩⟩

-- The redundant parts of the model agree with each other, and show the board `b`.
structure SnakeModel.Shows (m : SnakeModel) (b : Board) : Prop where
  dir           : m.dir = b.dir
  score         : m.score = b.score
  rngState      : m.rngState = b.rngState
  length        : m.length = b.body.length
  body          : m.body.Holds b.body
  head          : b.body.head? = some m.head
  tail          : b.body.getLast? = some m.tail
  occupancy     : MarksCells m.occupancy b.body
  appleCount    : m.appleCount = b.apples.length
  apples        : m.apples.Holds b.apples
  obstacleCount : m.obstacleCount = b.obstacles.length
  obstacles     : m.obstacles.Holds b.obstacles
  obstacleMap   : MarksCells m.obstacleMap b.obstacles
  growthCount   : m.growthCount = b.growth.length
  growth        : m.growthPoints.Queue m.growthHead b.growth

namespace SnakeModel.Shows

variable {m m' : SnakeModel} {b : Board} {c : SnakeCell}

theorem isInBounds_eq (hc : c.InField) : isInBounds c.x c.y = true := by
  obtain ⟨hx, hy⟩ := hc
  simp [isInBounds] at hx hy ⊢
  omega

theorem ofInts_eq (hc : c.InField) : SnakeCell.ofInts c.x c.y = c := by
  obtain ⟨hx, hy⟩ := hc
  cases c
  simp [SnakeCell.ofInts, toUInt8] at hx hy ⊢
  omega

theorem hasObstacle_eq (h : m.Shows b) (hc : c.InField) :
    m.hasObstacle c.x c.y = some (decide (c ∈ b.obstacles)) := by
  have ⟨v, hv, hm⟩ := h.obstacleMap c hc
  simp [hasObstacle, isInBounds_eq hc, hv, ← hm]

theorem isOccupied_eq (h : m.Shows b) (hc : c.InField) :
    m.isOccupied c.x c.y = some (decide (c ∈ b.body)) := by
  have ⟨v, hv, hm⟩ := h.occupancy c hc
  simp [isOccupied, isInBounds_eq hc, hv, ← hm]

-- The search from the index `i` on.
theorem findAppleAt_go_eq (h : m.apples.Holds b.apples) {n i : Nat} (hn : i + n = b.apples.length) :
    findAppleAt.go m c.x c.y n i =
      some (if c ∈ b.apples.drop i then ((i + (b.apples.drop i).idxOf c : Nat) : Int) else -1) := by
  induction n generalizing i
  case zero =>
    have : b.apples.length ≤ i := by omega
    simp [findAppleAt.go, List.drop_eq_nil_of_le this]
  case succ n hi =>
    have hlt : i < b.apples.length := by omega
    rw [List.drop_eq_getElem_cons hlt]
    simp only [findAppleAt.go, h.read_getElem hlt, Option.bind_eq_bind, Option.bind_some]
    by_cases he : b.apples[i] = c
    case pos => simp [he]
    case neg =>
      have hne : ¬((b.apples[i].x : Int) = c.x ∧ (b.apples[i].y : Int) = c.y) := by
        intro hc
        apply he
        cases hb : b.apples[i]; cases c
        simp_all
      have hne' : ¬c = b.apples[i] := fun hc => he hc.symm
      rw [if_neg hne, hi (by omega)]
      generalize b.apples.drop (i + 1) = rest
      by_cases hm : c ∈ rest <;> simp [hne', hm, List.idxOf_cons_ne _ he]
      omega

theorem findAppleAt_eq (h : m.Shows b) :
    m.findAppleAt c.x c.y = some (if c ∈ b.apples then (b.apples.idxOf c : Int) else -1) := by
  have := findAppleAt_go_eq (c := c) h.apples (i := 0) (n := m.appleCount) (by simp [h.appleCount])
  simpa [findAppleAt] using this

theorem cellIsFree_eq (h : m.Shows b) (hc : c.InField) :
    m.cellIsFree c.x c.y = some (decide (b.Free c)) := by
  have ⟨v, hv, hm⟩ := h.occupancy c hc
  have ⟨w, hw, hn⟩ := h.obstacleMap c hc
  simp only [cellIsFree, isInBounds_eq hc, hv, hw, h.findAppleAt_eq, Board.Free, ← hm, ← hn]
  by_cases hb : v = 0 <;> by_cases ho : w = 0 <;> by_cases ha : c ∈ b.apples <;>
    simp [hb, ho, ha]

theorem withRng (h : m.Shows b) (s : Nat) :
    Shows { m with rngState := s } { b with rngState := s } :=
  { h with rngState := rfl }

theorem scanFree_eq (h : m.Shows b) {cells : List (Nat × Nat)} {target : Nat}
    (hc : ∀ x y, (x, y) ∈ cells → SnakeCell.InField ⟨x, y⟩) :
    m.scanFree cells target = some (cells.filter fun (x, y) => b.Free ⟨x, y⟩)[target]? := by
  induction cells generalizing target
  case nil => simp [scanFree]
  case cons cell cells hi =>
    have ⟨x, y⟩ := cell
    have hi target := @hi target fun x y hm => hc x y <| .tail _ hm
    have hf : m.cellIsFree x y = _ := h.cellIsFree_eq (hc x y <| .head _)
    by_cases hb : b.Free ⟨x, y⟩
    case neg => simp [scanFree, hf, hb, hi]
    case pos => cases target <;> simp [scanFree, hf, hb, hi]

theorem pickRandomFreeCell_eq (h : m.Shows b) :
    ∃ r m', m.pickRandomFreeCell = some (r, m') ∧
      (r.map fun (x, y) => ⟨x, y⟩) = b.pick.1 ∧ m'.Shows b.pick.2 := by
  have hf : (snakeFieldWidth * snakeFieldHeight : Int) - m.length - m.appleCount - m.obstacleCount =
      snakeMaxLength - b.body.length - b.apples.length - b.obstacles.length := by
    simp [h.length, h.appleCount, h.obstacleCount]
  simp only [pickRandomFreeCell, Board.pick, hf, randU32, h.rngState]
  split
  case isTrue  => exact ⟨none, m, rfl, rfl, h⟩
  case isFalse =>
    have hs := h.withRng (xorshift32 b.rngState)
    simp only [hs.scanFree_eq fun x y => mem_rowMajor.mp, Option.bind_eq_bind, Option.bind_some]
    refine ⟨_, _, rfl, ?_, hs⟩
    simp only [Board.freeCells, List.filter_map, List.getElem?_map]
    rfl

theorem pick_cases (h : m.Shows b) :
    (∃ s m', b.pick = (none, { b with rngState := s }) ∧ m.pickRandomFreeCell = some (none, m') ∧
      m'.Shows { b with rngState := s }) ∨
    ∃ s c m', c ∈ b.freeCells ∧ b.pick = (some c, { b with rngState := s }) ∧
      m.pickRandomFreeCell = some (some (c.x, c.y), m') ∧ m'.Shows { b with rngState := s } := by
  have ⟨r, m', hp, hr, hs⟩ := h.pickRandomFreeCell_eq
  cases b.pick_cases
  case inl hb =>
    have ⟨s, hb⟩ := hb
    rw [hb] at hr hs
    rw [Option.map_eq_none_iff.mp hr] at hp
    exact .inl ⟨s, m', hb, hp, hs⟩
  case inr hb =>
    have ⟨s, c, hc, hb⟩ := hb
    rw [hb] at hr hs
    have ⟨p, hr, he⟩ := Option.map_eq_some_iff.mp hr
    subst hr he
    exact .inr ⟨s, _, m', hc, hb, hp, hs⟩

theorem addObstacle_eq (h : m.Shows b) (hc : c ∈ b.freeCells)
    (hl : b.obstacles.length < snakeMaxObstacles) :
    ∃ m', m.addObstacle c.x c.y = some (true, m') ∧
      m'.Shows { b with obstacles := b.obstacles ++ [c] } := by
  have ⟨hi, hf⟩ := Board.mem_freeCells.mp hc
  have ⟨obstacles, hw, _⟩ := Arr.exists_write (a := m.obstacles) (i := b.obstacles.length) (v := c)
    (by omega) (by exact_mod_cast hl)
  have ⟨obstacleMap, hw', hm⟩ := h.obstacleMap.set hi
  have hn : ¬snakeMaxObstacles ≤ b.obstacles.length := by omega
  have hr : (b.obstacles.length + 1) % 2 ^ 8 = b.obstacles.length + 1 := by
    simp at hl ⊢
    omega
  refine ⟨_, by
    simp only [addObstacle, h.cellIsFree_eq hi, hf, h.obstacleCount, ofInts_eq hi, hw, hw', hn,
      Option.bind_eq_bind, Option.bind_some, decide_true, Bool.not_true, if_false, Bool.false_eq_true]
    rfl, ?_⟩
  exact { h with
    obstacleCount := by simpa using hr
    obstacles := h.obstacles.append hw
    obstacleMap := hm.congr (by simp [or_comm]) }

theorem addApple_eq (h : m.Shows b) (hc : c ∈ b.freeCells) (hl : b.apples.length < snakeMaxApples) :
    ∃ m', m.addApple c.x c.y = some (true, m') ∧ m'.Shows { b with apples := b.apples ++ [c] } := by
  have ⟨hi, hf⟩ := Board.mem_freeCells.mp hc
  have ⟨apples, hw, _⟩ := Arr.exists_write (a := m.apples) (i := b.apples.length) (v := c)
    (by omega) (by exact_mod_cast hl)
  have hn : ¬snakeMaxApples ≤ b.apples.length := by omega
  have hr : (b.apples.length + 1) % 2 ^ 8 = b.apples.length + 1 := by
    simp at hl ⊢
    omega
  refine ⟨_, by
    simp only [addApple, h.cellIsFree_eq hi, hf, h.appleCount, ofInts_eq hi, hw, hn,
      Option.bind_eq_bind, Option.bind_some, decide_true, Bool.not_true, if_false, Bool.false_eq_true]
    rfl, ?_⟩
  exact { h with
    appleCount := by simpa using hr
    apples := h.apples.append hw }

theorem spawnObstacle_eq (h : m.Shows b) :
    ∃ m', m.spawnObstacle = some (b.spawnObstacle.1, m') ∧ m'.Shows b.spawnObstacle.2 := by
  simp only [spawnObstacle, Board.spawnObstacle, h.obstacleCount]
  split
  case isTrue => exact ⟨m, rfl, h⟩
  case isFalse hl =>
    cases h.pick_cases
    case inl hp =>
      obtain ⟨s, m', hb, hp, hs⟩ := hp
      rw [hb, hp]
      exact ⟨m', rfl, hs⟩
    case inr hp =>
      obtain ⟨s, c, m', hc, hb, hp, hs⟩ := hp
      rw [hb, hp]
      exact hs.addObstacle_eq hc (by simpa using hl)

theorem spawnApple_eq (h : m.Shows b) :
    ∃ m', m.spawnApple = some (b.spawnApple.1, m') ∧ m'.Shows b.spawnApple.2 := by
  simp only [spawnApple, Board.spawnApple, h.appleCount]
  split
  case isTrue => exact ⟨m, rfl, h⟩
  case isFalse hl =>
    cases h.pick_cases
    case inl hp =>
      obtain ⟨s, m', hb, hp, hs⟩ := hp
      rw [hb, hp]
      exact ⟨m', rfl, hs⟩
    case inr hp =>
      obtain ⟨s, c, m', hc, hb, hp, hs⟩ := hp
      rw [hb, hp]
      exact hs.addApple_eq hc (by simpa using hl)

end SnakeModel.Shows
