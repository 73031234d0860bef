import Yabloko.Drivers.KeyboardEvent
import Yabloko.Lib.Ring

-- An object of the enumeration type can hold other values than the enumerators.
inductive SnakeDir
  | up
  | right
  | down
  | left
  | other (value : Nat)
  deriving DecidableEq, Inhabited

namespace SnakeDir

def toNat : SnakeDir → Nat
  | up          => 0
  | right       => 1
  | down        => 2
  | left        => 3
  | other value => value

-- The enumerators.
def Valid : SnakeDir → Prop
  | other _ => False
  | _       => True

instance : DecidablePred Valid
  | other _                    => isFalse id
  | up | right | down | left => isTrue trivial

end SnakeDir

def snakeInputKeySpeed : BitVec 8 := 1 <<< 4

def snakeInputActionQuit : BitVec 8 := 1 <<< 0
def snakeInputActionRestart : BitVec 8 := 1 <<< 1
def snakeInputActionPauseToggle : BitVec 8 := 1 <<< 2
def snakeInputActionConfirm : BitVec 8 := 1 <<< 3
def snakeInputActionMenuApplesDec : BitVec 8 := 1 <<< 4
def snakeInputActionMenuApplesInc : BitVec 8 := 1 <<< 5

@[simp] abbrev snakeInputTurnQueueCapacity : Nat := 8

-- The directions are stored as bytes. Only enumerators are ever stored.
structure SnakeInput where
  heldKeys         : BitVec 8
  pendingActions   : BitVec 8
  committedDir     : SnakeDir
  turnQueueEnabled : Bool
  queueHead        : Nat
  queueSize        : Nat
  turnQueue        : Arr SnakeDir snakeInputTurnQueueCapacity
  deriving Inhabited

namespace SnakeInput

def isOpposite (a b : SnakeDir) : Bool :=
  a.toNat ^^^ b.toNat = 2

def enqueueTurn (input : SnakeInput) (dir : SnakeDir) : Option SnakeInput := do
  if !input.turnQueueEnabled then
    return input
  let tailDir ←
    if input.queueSize > 0 then
      let tailIndex := (input.queueHead + input.queueSize - 1) % snakeInputTurnQueueCapacity
      input.turnQueue.read tailIndex
    else
      some input.committedDir
  if dir = tailDir ∨ isOpposite dir tailDir then
    return input
  if input.queueSize ≥ snakeInputTurnQueueCapacity then
    return input
  let writeIndex := (input.queueHead + input.queueSize) % snakeInputTurnQueueCapacity
  let turnQueue ← input.turnQueue.write writeIndex dir
  return { input with turnQueue, queueSize := input.queueSize + 1 }

def keyToDir (keycode : Nat) : Option SnakeDir :=
  if keycode = 'w'.toNat ∨ keycode = 'W'.toNat then
    some .up
  else if keycode = 'd'.toNat ∨ keycode = 'D'.toNat then
    some .right
  else if keycode = 's'.toNat ∨ keycode = 'S'.toNat then
    some .down
  else if keycode = 'a'.toNat ∨ keycode = 'A'.toNat then
    some .left
  else
    none

def init (input : SnakeInput) (initialDir : SnakeDir) : SnakeInput :=
  { input with
    heldKeys := 0
    pendingActions := 0
    committedDir := initialDir
    turnQueueEnabled := true
    queueHead := 0
    queueSize := 0 }

-- The body of the loop in `snake_input_poll`, for one delivered event.
def handleEvent (input : SnakeInput) (event : Nat) : Option SnakeInput :=
  let keycode := kbdEventKeycode event
  let pressed := kbdEventIsPressed event
  match keyToDir keycode with
  | some dir =>
    let keyMask := BitVec.ofNat 8 (1 <<< dir.toNat)
    if pressed then
      let input := { input with heldKeys := input.heldKeys ||| keyMask }
      let input :=
        if dir = .left then
          { input with pendingActions := input.pendingActions ||| snakeInputActionMenuApplesDec }
        else if dir = .right then
          { input with pendingActions := input.pendingActions ||| snakeInputActionMenuApplesInc }
        else
          input
      input.enqueueTurn dir
    else
      some { input with heldKeys := input.heldKeys &&& ~~~keyMask }
  | none =>
    if keycode = ' '.toNat then
      if pressed then
        some { input with heldKeys := input.heldKeys ||| snakeInputKeySpeed }
      else
        some { input with heldKeys := input.heldKeys &&& ~~~snakeInputKeySpeed }
    else if !pressed then
      some input
    else if keycode = 'q'.toNat ∨ keycode = 'Q'.toNat then
      some { input with pendingActions := input.pendingActions ||| snakeInputActionQuit }
    else if keycode = 'r'.toNat ∨ keycode = 'R'.toNat then
      some { input with pendingActions := input.pendingActions ||| snakeInputActionRestart }
    else if keycode = 'p'.toNat ∨ keycode = 'P'.toNat then
      some { input with pendingActions := input.pendingActions ||| snakeInputActionPauseToggle }
    else if keycode = '\n'.toNat ∨ keycode = '\r'.toNat then
      some { input with pendingActions := input.pendingActions ||| snakeInputActionConfirm }
    else
      some input

-- What the calls of `SYS_poll` in one `snake_input_poll` return: the delivered events, and whether
-- the call after these fails or finds no event.
structure Batch where
  events : List Nat
  failed : Bool

def poll (input : SnakeInput) (batch : Batch) : Option (Int × SnakeInput) := do
  let input ← batch.events.foldlM handleEvent input
  return (if batch.failed then -1 else batch.events.length, input)

def popTurn (input : SnakeInput) : Option (Option SnakeDir × SnakeInput) := do
  if input.queueSize = 0 then
    return (none, input)
  let dir ← input.turnQueue.read input.queueHead
  return (some dir, { input with
    queueHead := (input.queueHead + 1) % snakeInputTurnQueueCapacity
    queueSize := input.queueSize - 1
    committedDir := dir })

def isHeld (input : SnakeInput) (keyMask : BitVec 8) : Bool :=
  input.heldKeys &&& keyMask != 0

def takeAction (input : SnakeInput) (actionMask : BitVec 8) : Bool × SnakeInput :=
  (input.pendingActions &&& actionMask != 0,
    { input with pendingActions := input.pendingActions &&& ~~~actionMask })

def setTurnQueueEnabled (input : SnakeInput) (enabled : Bool) : SnakeInput :=
  if enabled then
    { input with turnQueueEnabled := true }
  else
    { input with turnQueueEnabled := false, queueHead := 0, queueSize := 0 }

def clearTurnQueue (input : SnakeInput) : SnakeInput :=
  { input with queueHead := 0, queueSize := 0 }

end SnakeInput
