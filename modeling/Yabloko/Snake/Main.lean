import Yabloko.Snake.Render

abbrev snakeInitialLength : Nat := 5
abbrev snakeDefaultAppleCount : Nat := 5
abbrev snakeTargetObstacleCount : Nat := 10
abbrev snakeBaseTickMs : UInt64 := 120
abbrev snakeFastTickMs : UInt64 := 60
abbrev snakeFrameTimeCapMs : UInt64 := 50

inductive SnakePhase
  | menu
  | game
  | gameOver
  deriving DecidableEq, Inhabited

structure SnakeGameState where
  model            : SnakeModel
  input            : SnakeInput
  phase            : SnakePhase
  alive            : Bool
  paused           : Bool
  accumulatorMs    : UInt64
  lastTimeMs       : UInt64
  targetAppleCount : Nat
  -- The static variables of the graphics library.
  framebuffer      : Framebuffer
  framebufferBound : Int
  deriving Inhabited

namespace SnakeModel

def effectiveAppleTarget (m : SnakeModel) (requested : Nat) : Nat :=
  let freeForApples : Int := snakeFieldWidth * snakeFieldHeight - m.length - m.obstacleCount
  let maxTarget : Int := snakeMaxApples
  let freeForApples := if freeForApples < 0 then 0 else freeForApples
  let maxTarget := if freeForApples < maxTarget then freeForApples else maxTarget
  if requested > maxTarget then toUInt8 maxTarget else requested

def fillApples (m : SnakeModel) (targetAppleCount : Nat) : Option SnakeModel :=
  let targetAppleCount := m.effectiveAppleTarget targetAppleCount
  go targetAppleCount (targetAppleCount + 1) m
where
  go (targetAppleCount : Nat) : Nat → SnakeModel → Option SnakeModel
    | 0, _ => none
    | rounds + 1, m => do
      if m.appleCount < targetAppleCount then
        let (spawned, m) ← m.spawnApple
        if !spawned then
          return m
        go targetAppleCount rounds m
      else
        return m

end SnakeModel

namespace SnakeGameState

def resetGame (state : SnakeGameState) (initialDir : SnakeDir) (initialLength targetAppleCount : Nat)
    (nowMs : UInt64) : Option SnakeGameState := do
  let input := state.input.init initialDir
  let model ← state.model.initCenter initialDir initialLength
  let model := model.seedRandom (nowMs.toNat % 2 ^ 32)
  let model ← model.initRandomObstacles snakeTargetObstacleCount
  let model ← model.fillApples targetAppleCount
  return { state with
    input
    model
    alive := true
    paused := false
    accumulatorMs := 0
    lastTimeMs := nowMs }

def startGame (state : SnakeGameState) (initialDir : SnakeDir) (nowMs : UInt64) :
    Option SnakeGameState := do
  let state ← state.resetGame initialDir snakeInitialLength state.targetAppleCount nowMs
  let framebuffer ← state.framebuffer.snakeRenderFull state.model
  return { state with phase := .game, framebuffer }

def renderMenu (state : SnakeGameState) : SnakeGameState :=
  { state with framebuffer := state.framebuffer.snakeRenderMenu state.targetAppleCount }

def showMenu (state : SnakeGameState) : SnakeGameState :=
  { state with phase := .menu }.renderMenu

def showGameOver (state : SnakeGameState) : Option SnakeGameState := do
  let framebuffer ← state.framebuffer.snakeRenderGameOver state.model
  return { state with phase := .gameOver, framebuffer }

-- Whether the screen is bound to the framebuffer. The system call is made only once.
def present (state : SnakeGameState) (enter13h : Bool) : Bool × SnakeGameState :=
  if state.framebufferBound = 1 then
    (true, state)
  else if state.framebufferBound = 0 then
    (false, state)
  else if enter13h then
    (true, { state with framebufferBound := 1 })
  else
    (false, { state with framebufferBound := 0 })

def takeAction (state : SnakeGameState) (actionMask : BitVec 8) : Bool × SnakeGameState :=
  let (isSet, input) := state.input.takeAction actionMask
  (isSet, { state with input })

-- The keys of the menu, and whether they change the target.
def decApples (state : SnakeGameState) : Bool × SnakeGameState :=
  let (dec, state) := state.takeAction snakeInputActionMenuApplesDec
  if dec ∧ state.targetAppleCount > 1 then
    (true, { state with targetAppleCount := state.targetAppleCount - 1 })
  else
    (false, state)

def incApples (state : SnakeGameState) : Bool × SnakeGameState :=
  let (inc, state) := state.takeAction snakeInputActionMenuApplesInc
  if inc ∧ state.targetAppleCount < snakeMaxApples then
    (true, { state with targetAppleCount := state.targetAppleCount + 1 })
  else
    (false, state)

-- The pause key.
def togglePause (state : SnakeGameState) (nowMs : UInt64) : Option SnakeGameState := do
  let state := { state with paused := !state.paused, accumulatorMs := 0, lastTimeMs := nowMs }
  let state := { state with input := state.input.setTurnQueueEnabled (!state.paused) }
  if state.paused then
    let input := state.input.clearTurnQueue
    let framebuffer ← state.framebuffer.snakeRenderPause state.model
    return { state with input, framebuffer }
  else
    let framebuffer ← state.framebuffer.snakeRenderFull state.model
    return { state with framebuffer }

-- A tick of the game in a direction, and whether the snake has moved.
def moveSnake (state : SnakeGameState) (tickDir : SnakeDir) : Option (Bool × SnakeGameState) := do
  let prevHead := state.model.head
  let prevTail := state.model.tail
  let (moved, model) ← state.model.step tickDir
  if !moved then
    return (false, { state with model })
  let (eaten, model) ← model.tryConsumeApple
  let model ← if eaten then model.fillApples state.targetAppleCount else pure model
  let framebuffer ← state.framebuffer.snakeRenderStep model prevHead prevTail
  return (true, { state with model, framebuffer })

end SnakeGameState

-- The results of the system calls which are made in one step of `main`. The three times are the ones
-- which are read in `snake_reset_game`, at the pause key, and in each frame.
structure Syscalls where
  batch    : SnakeInput.Batch
  startMs  : UInt64
  pauseMs  : UInt64
  frameMs  : UInt64
  enter13h : Bool
  sleep    : Bool

-- What `main` does next: a frame of the outer loop, a round of the inner loop, or nothing.
inductive Pc
  | frame
  | ticks (tickMs : UInt64)
  | exited (code : Int)

-- What has happened in a run: the key events which were delivered, the starts of the games, the calls
-- of `snake_model_step` with the target of the apples, and the ends of the games.
inductive SnakeEvent
  | key (event : Nat)
  | start
  | move (dir : SnakeDir) (model : SnakeModel) (targetAppleCount : Nat)
  | gameOver

structure SnakeMain where
  state : SnakeGameState
  pc    : Pc
  log   : List SnakeEvent

namespace SnakeMain

def exit (main : SnakeMain) (code : Int) : SnakeMain :=
  { main with pc := .exited code }

-- Presents the screen, and goes on with `next` when this succeeds.
def present (main : SnakeMain) (sys : Syscalls) (next : SnakeMain → SnakeMain) : SnakeMain :=
  let (presented, state) := main.state.present sys.enter13h
  if presented then next { main with state } else { main with state }.exit 1

def sleep (main : SnakeMain) (sys : Syscalls) : SnakeMain :=
  if sys.sleep then { main with pc := .frame } else main.exit 1

-- Starts a game, and continues the outer loop.
def start (main : SnakeMain) (sys : Syscalls) : Option SnakeMain := do
  let state ← main.state.startGame .right sys.startMs
  let main : SnakeMain := { main with state, log := main.log ++ [.start] }
  return main.present sys fun main => { main with pc := .frame }

-- The keys which start a game in the menu, and restart it when it is over.
def startOrSleep (main : SnakeMain) (sys : Syscalls) : Option SnakeMain :=
  let (restart, state) := main.state.takeAction snakeInputActionRestart
  let main := { main with state }
  if restart then
    main.start sys
  else
    let (confirm, state) := main.state.takeAction snakeInputActionConfirm
    let main := { main with state }
    if confirm then main.start sys else some <| main.sleep sys

def menuFrame (main : SnakeMain) (sys : Syscalls) : Option SnakeMain :=
  let (decreased, state) := main.state.decApples
  let (increased, state) := state.incApples
  let menuChanged := decreased || increased
  if menuChanged then
    let (presented, state) := state.renderMenu.present sys.enter13h
    let main := { main with state }
    if presented then main.startOrSleep sys else some <| main.exit 1
  else
    let main := { main with state }
    main.startOrSleep sys

def gameFrame (main : SnakeMain) (sys : Syscalls) : Option SnakeMain := do
  let (restart, state) := main.state.takeAction snakeInputActionRestart
  let main := { main with state }
  if restart then
    main.start sys
  else
    let (pauseToggle, state) := main.state.takeAction snakeInputActionPauseToggle
    let state ← if pauseToggle then state.togglePause sys.pauseMs else pure state
    let tickMs := if state.input.isHeld snakeInputKeySpeed then snakeFastTickMs else snakeBaseTickMs
    let elapsedMs := sys.frameMs - state.lastTimeMs
    let elapsedMs := if elapsedMs > snakeFrameTimeCapMs then snakeFrameTimeCapMs else elapsedMs
    let accumulatorMs :=
      if !state.paused then state.accumulatorMs + elapsedMs else state.accumulatorMs
    let state := { state with lastTimeMs := sys.frameMs, accumulatorMs }
    return { main with state, pc := .ticks tickMs }

def frame (main : SnakeMain) (sys : Syscalls) : Option SnakeMain := do
  let (processed, input) ← main.state.input.poll sys.batch
  let state := { main.state with input }
  let main : SnakeMain := { main with state, log := main.log ++ sys.batch.events.map .key }
  if processed < 0 then
    return main.exit 1
  let (quit, state) := main.state.takeAction snakeInputActionQuit
  let main := { main with state }
  if quit then
    return main.exit 0
  match main.state.phase with
  | .menu     => main.menuFrame sys
  | .gameOver => main.startOrSleep sys
  | .game     => main.gameFrame sys

-- The end of a frame in which the game is running.
def endFrame (main : SnakeMain) (sys : Syscalls) : SnakeMain :=
  main.present sys fun main => main.sleep sys

-- A round of the inner loop, or the rest of the frame.
def tick (main : SnakeMain) (tickMs : UInt64) (sys : Syscalls) : Option SnakeMain := do
  let state := main.state
  if !state.paused ∧ state.alive ∧ state.accumulatorMs ≥ tickMs then
    let (queuedDir, input) ← state.input.popTurn
    let tickDir := queuedDir.getD state.model.dir
    let (moved, state') ← { state with input }.moveSnake tickDir
    let log := main.log ++ [.move tickDir state.model state.targetAppleCount]
    if !moved then
      let state' ← { state' with alive := false, phase := .gameOver }.showGameOver
      let main : SnakeMain := { main with state := state', log := log ++ [.gameOver] }
      return main.present sys (endFrame · sys)
    else
      return { main with
        state := { state' with accumulatorMs := state'.accumulatorMs - tickMs }
        log }
  else
    return main.endFrame sys

def step (main : SnakeMain) (sys : Syscalls) : Option SnakeMain :=
  match main.pc with
  | .frame        => main.frame sys
  | .ticks tickMs => main.tick tickMs sys
  | .exited _     => some main

-- The part of `main` in front of the loop. The local state is not initialized, except for the fields
-- which are set here.
def init (state : SnakeGameState) (enter13h : Bool) : SnakeMain :=
  let state := { state with
    input := state.input.init .right
    targetAppleCount := snakeDefaultAppleCount
    framebufferBound := -1 }.showMenu
  if gfxGridWidth ≠ snakeFieldWidth ∨ gfxGridHeight ≠ snakeFieldHeight then
    { state, pc := .exited 1, log := [] }
  else
    let (presented, state) := state.present enter13h
    { state, pc := if presented then .frame else .exited 1, log := [] }

def run (main : SnakeMain) (calls : List Syscalls) : Option SnakeMain :=
  calls.foldlM step main

end SnakeMain
