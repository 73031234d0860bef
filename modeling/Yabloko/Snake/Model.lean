import Yabloko.Snake.Input

@[simp] abbrev snakeFieldWidth : Nat := 32
@[simp] abbrev snakeFieldHeight : Nat := 20
@[simp] abbrev snakeMaxLength : Nat := snakeFieldWidth * snakeFieldHeight
@[simp] abbrev snakeMaxApples : Nat := 16
@[simp] abbrev snakeMaxObstacles : Nat := 64

structure SnakeCell where
  x : Nat
  y : Nat
  deriving DecidableEq, Inhabited

-- The conversion of an `int` to `uint8_t`.
def toUInt8 (value : Int) : Nat :=
  (value % 256).toNat

def SnakeCell.ofInts (x y : Int) : SnakeCell :=
  { x := toUInt8 x, y := toUInt8 y }

-- An array of bytes which has one entry for each cell of the field, indexed by `y` and `x`.
abbrev FieldMap := Arr (Arr Nat snakeFieldWidth) snakeFieldHeight

structure SnakeModel where
  dir           : SnakeDir
  length        : Nat
  score         : Nat
  rngState      : Nat
  head          : SnakeCell
  tail          : SnakeCell
  apples        : Arr SnakeCell snakeMaxApples
  appleCount    : Nat
  obstacles     : Arr SnakeCell snakeMaxObstacles
  obstacleCount : Nat
  growthPoints  : Arr SnakeCell snakeMaxLength
  growthHead    : Nat
  growthCount   : Nat
  body          : Arr SnakeCell snakeMaxLength
  occupancy     : FieldMap
  obstacleMap   : FieldMap
  deriving Inhabited

-- The offset to the next cell in a given direction, when the direction is an enumerator.
def SnakeDir.delta : SnakeDir → Option (Int × Int)
  | up      => some (0, -1)
  | right   => some (1, 0)
  | down    => some (0, 1)
  | left    => some (-1, 0)
  | other _ => none

-- The initial direction, and the offset from a cell of the initial body to the next one.
def SnakeDir.behind : SnakeDir → SnakeDir × Int × Int
  | up      => (up, 0, 1)
  | right   => (right, -1, 0)
  | down    => (down, 0, -1)
  | left    => (left, 1, 0)
  | other _ => (right, -1, 0)

def wrapCoord (value limit : Int) : Int :=
  let wrapped := value.tmod limit
  if wrapped < 0 then wrapped + limit else wrapped

-- The steps of the xorshift generator in `snake_model_rand_u32`.
def xorshift32 (state : Nat) : Nat :=
  let x := if state = 0 then 0x9E3779B9 else state
  let x := x ^^^ ((x <<< 13) % 2 ^ 32)
  let x := x ^^^ (x >>> 17)
  x ^^^ ((x <<< 5) % 2 ^ 32)

-- The cells of the field as the nested loops over `y` and `x` visit them.
def rowMajor : List (Nat × Nat) :=
  (List.range snakeFieldHeight).flatMap fun y => (List.range snakeFieldWidth).map fun x => (x, y)

namespace SnakeModel

-- Results are absent when an access is outside of the bounds of its array.

def isInBounds (x y : Int) : Bool :=
  x ≥ 0 ∧ y ≥ 0 ∧ x < snakeFieldWidth ∧ y < snakeFieldHeight

def randU32 (m : SnakeModel) : Nat × SnakeModel :=
  let x := xorshift32 m.rngState
  (x, { m with rngState := x })

-- The nested loops which set every entry of a map to zero.
def clearMap (map : FieldMap) : Option FieldMap :=
  rowMajor.foldlM (fun map (x, y) => map.write₂ y x 0) map

def clearOccupancy (m : SnakeModel) : Option SnakeModel := do
  let occupancy ← clearMap m.occupancy
  return { m with occupancy }

def clearObstacles (m : SnakeModel) : Option SnakeModel := do
  let obstacleMap ← clearMap m.obstacleMap
  return { m with obstacleCount := 0, obstacleMap }

-- The index of the first apple at the given cell, or -1.
def findAppleAt (m : SnakeModel) (x y : Int) : Option Int :=
  go m.appleCount 0
where
  go : Nat → Nat → Option Int
    | 0, _ => some (-1)
    | n + 1, i => do
      let apple ← m.apples.read i
      if (apple.x : Int) = x ∧ (apple.y : Int) = y then
        return i
      go n (i + 1)

def cellIsFree (m : SnakeModel) (x y : Int) : Option Bool := do
  if !isInBounds x y then
    return false
  if (← m.occupancy.read₂ y x) ≠ 0 then
    return false
  if (← m.obstacleMap.read₂ y x) ≠ 0 then
    return false
  if (← m.findAppleAt x y) ≥ 0 then
    return false
  return true

def addObstacle (m : SnakeModel) (x y : Int) : Option (Bool × SnakeModel) := do
  if !(← m.cellIsFree x y) then
    return (false, m)
  if m.obstacleCount ≥ snakeMaxObstacles then
    return (false, m)
  let obstacles ← m.obstacles.write m.obstacleCount (.ofInts x y)
  let obstacleMap ← m.obstacleMap.write₂ y x 1
  return (true, { m with obstacles, obstacleCount := (m.obstacleCount + 1) % 2 ^ 8, obstacleMap })

def addApple (m : SnakeModel) (x y : Int) : Option (Bool × SnakeModel) := do
  if !(← m.cellIsFree x y) then
    return (false, m)
  if m.appleCount ≥ snakeMaxApples then
    return (false, m)
  let apples ← m.apples.write m.appleCount (.ofInts x y)
  return (true, { m with apples, appleCount := (m.appleCount + 1) % 2 ^ 8 })

-- The scan for the free cell number `target`, over the cells which remain to be visited.
def scanFree (m : SnakeModel) : List (Nat × Nat) → Nat → Option (Option (Nat × Nat))
  | [], _ => some none
  | (x, y) :: cells, target => do
    if !(← m.cellIsFree x y) then
      m.scanFree cells target
    else
      match target with
      | 0          => some (x, y)
      | target + 1 => m.scanFree cells target

def pickRandomFreeCell (m : SnakeModel) : Option (Option (Nat × Nat) × SnakeModel) := do
  let totalCells : Int := snakeFieldWidth * snakeFieldHeight
  let freeCells := totalCells - m.length - m.appleCount - m.obstacleCount
  if freeCells ≤ 0 then
    return (none, m)
  let (r, m) := m.randU32
  let target := r % freeCells.toNat
  let cell ← m.scanFree rowMajor target
  return (cell, m)

def enqueueGrowthPoint (m : SnakeModel) (point : SnakeCell) : Option (Bool × SnakeModel) := do
  if m.growthCount ≥ snakeMaxLength then
    return (false, m)
  let index := (m.growthHead + m.growthCount) % snakeMaxLength
  let growthPoints ← m.growthPoints.write index point
  return (true, { m with growthPoints, growthCount := (m.growthCount + 1) % 2 ^ 16 })

def growthPointFront (m : SnakeModel) : Option SnakeCell :=
  m.growthPoints.read m.growthHead

def popGrowthPoint (m : SnakeModel) : SnakeModel :=
  if m.growthCount = 0 then
    m
  else
    { m with
      growthHead := (m.growthHead + 1) % snakeMaxLength
      growthCount := m.growthCount - 1 }

def initCenter (m : SnakeModel) (initialDir : SnakeDir) (initialLength : Nat) :
    Option SnakeModel := do
  let initialLength := if initialLength = 0 then 1 else initialLength
  let initialLength := if initialLength > snakeMaxLength then snakeMaxLength else initialLength
  let cx : Int := snakeFieldWidth / 2
  let cy : Int := snakeFieldHeight / 2
  let (initialDir, tailDx, tailDy) := initialDir.behind
  let m := { m with
    dir := initialDir
    length := initialLength
    score := 0
    appleCount := 0
    growthHead := 0
    growthCount := 0 }
  let m ← m.clearOccupancy
  let m ← m.clearObstacles
  let m ← (List.range m.length).foldlM (fun (m : SnakeModel) (i : Nat) => do
    let x := wrapCoord (cx + tailDx * i) snakeFieldWidth
    let y := wrapCoord (cy + tailDy * i) snakeFieldHeight
    let body ← m.body.write i (.ofInts x y)
    let occupancy ← m.occupancy.write₂ y x 1
    return { m with body, occupancy }) m
  let head ← m.body.read 0
  let tail ← m.body.read ((m.length : Int) - 1)
  return { m with head, tail }

def hasObstacle (m : SnakeModel) (x y : Int) : Option Bool := do
  if !isInBounds x y then
    return false
  return (← m.obstacleMap.read₂ y x) ≠ 0

def spawnObstacle (m : SnakeModel) : Option (Bool × SnakeModel) := do
  if m.obstacleCount ≥ snakeMaxObstacles then
    return (false, m)
  let (cell, m) ← m.pickRandomFreeCell
  match cell with
  | none        => return (false, m)
  | some (x, y) => m.addObstacle x y

-- The loops of the game which end after finitely many rounds get a number of rounds, and have no
-- result when these do not suffice.
def initRandomObstacles (m : SnakeModel) (targetCount : Nat) : Option SnakeModel := do
  let targetCount := if targetCount > snakeMaxObstacles then snakeMaxObstacles else targetCount
  let m ← m.clearObstacles
  go targetCount (targetCount + 1) m
where
  go (targetCount : Nat) : Nat → SnakeModel → Option SnakeModel
    | 0, _ => none
    | rounds + 1, m => do
      if m.obstacleCount < targetCount then
        let (spawned, m) ← m.spawnObstacle
        if !spawned then
          return m
        go targetCount rounds m
      else
        return m

def seedRandom (m : SnakeModel) (seed : Nat) : SnakeModel :=
  { m with rngState := if seed = 0 then 0xA341316C else seed }

def spawnApple (m : SnakeModel) : Option (Bool × SnakeModel) := do
  if m.appleCount ≥ snakeMaxApples then
    return (false, m)
  let (cell, m) ← m.pickRandomFreeCell
  match cell with
  | none        => return (false, m)
  | some (x, y) => m.addApple x y

def isOccupied (m : SnakeModel) (x y : Int) : Option Bool := do
  if !isInBounds x y then
    return false
  return (← m.occupancy.read₂ y x) ≠ 0

-- Moves the apples behind the index `i` to the left, in `n` rounds.
def shiftApples (apples : Arr SnakeCell snakeMaxApples) (i : Nat) :
    Nat → Option (Arr SnakeCell snakeMaxApples)
  | 0 => some apples
  | n + 1 => do
    let apple ← apples.read (i + 1)
    let apples ← apples.write i apple
    shiftApples apples (i + 1) n

def tryConsumeApple (m : SnakeModel) : Option (Bool × SnakeModel) := do
  if m.appleCount = 0 then
    return (false, m)
  let appleIndex ← m.findAppleAt m.head.x m.head.y
  if appleIndex < 0 then
    return (false, m)
  let consumedApple ← m.apples.read appleIndex
  let apples ← shiftApples m.apples appleIndex.toNat (m.appleCount - 1 - appleIndex.toNat)
  let m := { m with
    apples
    appleCount := m.appleCount - 1
    score := (m.score + 1) % 2 ^ 16 }
  let (_, m) ← m.enqueueGrowthPoint consumedApple
  return (true, m)

-- Moves the cells `body[0]` to `body[n - 1]` to the right, the last one first.
def shiftBody (body : Arr SnakeCell snakeMaxLength) : Nat → Option (Arr SnakeCell snakeMaxLength)
  | 0 => some body
  | i + 1 => do
    let cell ← body.read i
    let body ← body.write (i + 1) cell
    shiftBody body i

-- Whether the tail reaches the first pending growth point with a normal step.
def shouldGrow (m : SnakeModel) : Option Bool := do
  if m.growthCount > 0 ∧ m.length > 1 ∧ m.length < snakeMaxLength then
    let reachedOnNormalStep ← m.body.read ((m.length : Int) - 2)
    return reachedOnNormalStep = (← m.growthPointFront)
  else
    return false

-- The updates in `snake_model_step`, after the checks of the next cell.
def advance (m : SnakeModel) (nextX nextY : Int) (shouldGrow : Bool) (nextDir : SnakeDir) :
    Option SnakeModel := do
  let tailX : Int := m.tail.x
  let tailY : Int := m.tail.y
  let m ←
    if shouldGrow then do
      let body ← shiftBody m.body m.length
      pure <| popGrowthPoint { m with body, length := (m.length + 1) % 2 ^ 16 }
    else if m.length > 1 then do
      let body ← shiftBody m.body (m.length - 1)
      pure { m with body }
    else
      pure m
  let occupancy ←
    if !shouldGrow then m.occupancy.write₂ tailY tailX 0 else pure m.occupancy
  let body ← m.body.write 0 (.ofInts nextX nextY)
  let occupancy ← occupancy.write₂ nextY nextX 1
  let head ← body.read 0
  let tail ← body.read ((m.length : Int) - 1)
  return { m with body, occupancy, head, tail, dir := nextDir }

def step (m : SnakeModel) (nextDir : SnakeDir) : Option (Bool × SnakeModel) := do
  match nextDir.delta with
  | none => return (false, m)
  | some (dx, dy) =>
    let nextX := wrapCoord (m.head.x + dx) snakeFieldWidth
    let nextY := wrapCoord (m.head.y + dy) snakeFieldHeight
    let movingIntoTail := nextX = m.tail.x ∧ nextY = m.tail.y
    let shouldGrow ← m.shouldGrow
    if ← m.hasObstacle nextX nextY then
      return (false, m)
    if (← m.isOccupied nextX nextY) ∧ (¬movingIntoTail ∨ shouldGrow) then
      return (false, m)
    let m ← m.advance nextX nextY shouldGrow nextDir
    return (true, m)

end SnakeModel
