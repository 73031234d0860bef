import Yabloko.Snake.Input

namespace SnakeDir

-- One of the directions is vertical and the other one is horizontal.
def Perpendicular : SnakeDir → SnakeDir → Prop
  | up, d | down, d    => d = left ∨ d = right
  | left, d | right, d => d = up ∨ d = down
  | other _, _         => False

theorem Perpendicular.of_accepted {a b : SnakeDir} (ha : a.Valid) (hb : b.Valid) (hn : a ≠ b)
    (ho : SnakeInput.isOpposite a b = false) : Perpendicular b a := by
  cases a <;> cases b <;> simp_all [Perpendicular, Valid, SnakeInput.isOpposite, toNat]

theorem Perpendicular.valid {a b : SnakeDir} (h : Perpendicular a b) : b.Valid := by
  cases a <;> cases b <;> simp_all [Perpendicular, Valid]

end SnakeDir

open SnakeDir

namespace SnakeInput

-- The action which a key sets when it is pressed.
def keyAction (keycode : Nat) : BitVec 8 :=
  match keyToDir keycode with
  | some .left  => snakeInputActionMenuApplesDec
  | some .right => snakeInputActionMenuApplesInc
  | some _      => 0
  | none        =>
    if keycode = ' '.toNat then
      0
    else if keycode = 'q'.toNat ∨ keycode = 'Q'.toNat then
      snakeInputActionQuit
    else if keycode = 'r'.toNat ∨ keycode = 'R'.toNat then
      snakeInputActionRestart
    else if keycode = 'p'.toNat ∨ keycode = 'P'.toNat then
      snakeInputActionPauseToggle
    else if keycode = '\n'.toNat ∨ keycode = '\r'.toNat then
      snakeInputActionConfirm
    else
      0

def eventAction (event : Nat) : BitVec 8 :=
  if kbdEventIsPressed event then keyAction (kbdEventKeycode event) else 0

-- The event is a press of a key for one of the actions.
def isPress (actionMask : BitVec 8) (event : Nat) : Bool :=
  eventAction event &&& actionMask != 0

def isSpace (event : Nat) : Bool :=
  kbdEventKeycode event = ' '.toNat

-- The queued turns, the next one first. Each one is perpendicular to the direction in which the snake
-- is going to move by then.
structure Turns (input : SnakeInput) (l : List SnakeDir) : Prop where
  queue : input.turnQueue.Queue input.queueHead l
  size  : input.queueSize = l.length
  valid : input.committedDir.Valid
  chain : (input.committedDir :: l).IsChain Perpendicular

def isPending (input : SnakeInput) (actionMask : BitVec 8) : Bool :=
  input.pendingActions &&& actionMask != 0

variable {input input' : SnakeInput} {l : List SnakeDir} {dir : SnakeDir} {event : Nat}

theorem Turns.init (input : SnakeInput) (h : dir.Valid) : (input.init dir).Turns [] where
  queue := .nil (by simp [SnakeInput.init])
  size := rfl
  valid := h
  chain := .singleton _

theorem Turns.setTurnQueueEnabled (h : input.Turns l) (enabled : Bool) :
    ∃ l', (input.setTurnQueueEnabled enabled).Turns l' := by
  cases enabled
  case true  => exact ⟨l, { h with }⟩
  case false =>
    exact ⟨[], {
      queue := .nil (by simp [SnakeInput.setTurnQueueEnabled])
      size := rfl
      valid := h.valid
      chain := .singleton _ }⟩

theorem Turns.clearTurnQueue (h : input.Turns l) : input.clearTurnQueue.Turns [] where
  queue := .nil (by simp [SnakeInput.clearTurnQueue])
  size := rfl
  valid := h.valid
  chain := .singleton _

theorem Turns.takeAction (h : input.Turns l) (mask : BitVec 8) : (input.takeAction mask).2.Turns l :=
  { h with }

-- The next turn is perpendicular to the direction in which the snake moves.
theorem Turns.popTurn (h : input.Turns l) : ∃ turn input', input.popTurn = some (turn, input') ∧
    (∃ l', input'.Turns l') ∧ input'.committedDir = turn.getD input.committedDir ∧
    (∀ d, turn = some d → input.committedDir.Perpendicular d) ∧
    input'.pendingActions = input.pendingActions ∧ input'.heldKeys = input.heldKeys := by
  cases l
  case nil =>
    exact ⟨none, input, by simp [SnakeInput.popTurn, h.size], ⟨[], h⟩, rfl, by simp, rfl, rfl⟩
  case cons d l =>
    have ⟨hd, hl⟩ := List.isChain_cons_cons.mp h.chain
    have hn : ¬input.queueSize = 0 := by simp [h.size]
    refine ⟨some d, { input with
      queueHead := (input.queueHead + 1) % snakeInputTurnQueueCapacity
      queueSize := input.queueSize - 1
      committedDir := d }, by
      simp only [SnakeInput.popTurn, hn, if_false, h.queue.read_front, Option.bind_eq_bind,
        Option.bind_some]
      rfl, ⟨l, ?_⟩, rfl, by simpa using hd, rfl, rfl⟩
    exact {
      queue := h.queue.pop
      size := by simp [h.size]
      valid := hd.valid
      chain := hl }

-- The direction with which a new turn is compared.
theorem Turns.last_valid (h : input.Turns l) : ((input.committedDir :: l).getLast (by simp)).Valid := by
  cases l using List.reverseRecOn
  case nil => exact h.valid
  case append_singleton l d _ =>
    have hc := h.chain
    rw [← List.cons_append, List.isChain_append] at hc
    have hp := hc.right.right _ (List.getLast?_eq_some_getLast (by simp)) d (by simp)
    simpa using hp.valid

-- The direction with which a new turn is compared is the last one.
theorem Turns.enqueueTurn_eq (h : input.Turns l) (dir : SnakeDir) : input.enqueueTurn dir =
    let last := (input.committedDir :: l).getLast (by simp)
    if !input.turnQueueEnabled ∨ dir = last ∨ isOpposite dir last ∨
        l.length ≥ snakeInputTurnQueueCapacity then
      some input
    else
      (input.turnQueue.write ((input.queueHead + l.length) % snakeInputTurnQueueCapacity : Nat) dir).map
        fun turnQueue => { input with turnQueue, queueSize := l.length + 1 } := by
  have hr (hl : l ≠ []) : input.turnQueue.read
      ((input.queueHead + l.length - 1) % snakeInputTurnQueueCapacity : Nat) =
      some ((input.committedDir :: l).getLast (by simp)) := by
    rw [h.queue.read_back hl, List.getLast_cons hl, List.getLast?_eq_some_getLast hl]
  by_cases he : input.turnQueueEnabled
  case neg => simp [enqueueTurn, he]
  case pos =>
    by_cases hl : l = []
    case pos =>
      subst hl
      simp [enqueueTurn, he, h.size]
      split
      case isTrue  => rfl
      case isFalse => cases input.turnQueue.write _ dir <;> rfl
    case neg =>
      have hp := List.length_pos_iff.mpr hl
      simp only [enqueueTurn, he, h.size, hp, hr hl, Bool.not_true, if_true, Option.bind_eq_bind,
        Option.bind_some, Bool.false_eq_true, if_false, false_or, ← or_assoc]
      split
      case isTrue hc => rw [if_pos (.inl hc)]; rfl
      case isFalse hc =>
        simp only [hc, false_or]
        split
        case isTrue  => rfl
        case isFalse => cases input.turnQueue.write _ dir <;> rfl

theorem Turns.enqueueTurn (h : input.Turns l) (hd : dir.Valid) :
    ∃ turnQueue queueSize l', input.enqueueTurn dir = some { input with turnQueue, queueSize } ∧
      Turns { input with turnQueue, queueSize } l' := by
  rw [h.enqueueTurn_eq dir]
  simp only
  split
  case isTrue => exact ⟨_, _, l, rfl, h⟩
  case isFalse hn =>
    simp only [not_or, Bool.not_eq_true, not_le] at hn
    have ⟨_, hn₁, hn₂, hlt⟩ := hn
    have hi := h.queue.index_lt l.length
    have ⟨turnQueue, hw, _⟩ := Arr.exists_write (a := input.turnQueue) (v := dir)
      (i := ((input.queueHead + l.length) % snakeInputTurnQueueCapacity : Nat))
      (by omega) (by exact_mod_cast hi)
    refine ⟨turnQueue, l.length + 1, l ++ [dir], by simp only [hw, Option.map_some], ?_⟩
    exact {
      queue := h.queue.push hlt hw
      size := by simp
      valid := h.valid
      chain := by
        rw [← List.cons_append]
        refine List.isChain_append.mpr ⟨h.chain, .singleton _, fun a ha b hb => ?_⟩
        rw [List.getLast?_eq_some_getLast (by simp)] at ha
        simp at ha hb
        exact ha ▸ hb ▸ .of_accepted hd h.last_valid hn₁ hn₂ }

-- What the delivered events do.
structure Received (input input' : SnakeInput) (events : List Nat) : Prop where
  turns        : ∃ l, input'.Turns l
  committedDir : input'.committedDir = input.committedDir
  speed        : input'.isHeld snakeInputKeySpeed = events.foldl
    (fun held event => if isSpace event then kbdEventIsPressed event else held)
    (input.isHeld snakeInputKeySpeed)
  actions      : input'.pendingActions =
    events.foldl (fun pending event => pending ||| eventAction event) input.pendingActions

namespace Received

theorem nil (h : input.Turns l) : Received input input [] where
  turns := ⟨l, h⟩
  committedDir := rfl
  speed := rfl
  actions := rfl

theorem append {input'' : SnakeInput} {events events' : List Nat} (h : Received input input' events)
    (h' : Received input' input'' events') : Received input input'' (events ++ events') where
  turns := h'.turns
  committedDir := h'.committedDir.trans h.committedDir
  speed := by rw [h'.speed, h.speed, List.foldl_append]
  actions := by rw [h'.actions, h.actions, List.foldl_append]

-- An action is pending when it has been before, or when one of its keys has been pressed.
theorem isPending_eq {events : List Nat} (h : Received input input' events) (mask : BitVec 8) :
    input'.isPending mask = (input.isPending mask || events.any (isPress mask)) := by
  rw [isPending, isPending, h.actions]
  generalize input.pendingActions = pending
  clear h
  induction events generalizing pending
  case nil => simp
  case cons event events hi =>
    rw [List.foldl_cons, hi, List.any_cons, ← Bool.or_assoc]
    congr 1
    rw [Bool.eq_iff_iff, BitVec.and_or_distrib_right]
    simp [isPress, BitVec.or_eq_zero_iff]
    tauto

end Received

section

variable (held : BitVec 8)

-- The bits of the direction keys and the one of the space key are different.
theorem press_dir_speed (hd : dir.Valid) :
    (held ||| .ofNat 8 (1 <<< dir.toNat)) &&& snakeInputKeySpeed = held &&& snakeInputKeySpeed := by
  revert held
  cases dir <;> simp only [SnakeDir.Valid] at hd <;> decide

theorem release_dir_speed (hd : dir.Valid) :
    (held &&& ~~~.ofNat 8 (1 <<< dir.toNat)) &&& snakeInputKeySpeed = held &&& snakeInputKeySpeed := by
  revert held
  cases dir <;> simp only [SnakeDir.Valid] at hd <;> decide

theorem press_speed : ((held ||| snakeInputKeySpeed) &&& snakeInputKeySpeed != 0) = true := by
  revert held
  decide

theorem release_speed : (held &&& ~~~snakeInputKeySpeed) &&& snakeInputKeySpeed = 0 := by
  revert held
  decide

end

theorem keyToDir_eq_some {keycode : Nat} (h : keyToDir keycode = some dir) :
    dir.Valid ∧ keycode ≠ ' '.toNat := by
  simp only [keyToDir] at h
  split at h
  case isTrue hk => cases h; cases hk <;> simp_all [SnakeDir.Valid]
  case isFalse =>
    split at h
    case isTrue hk => cases h; cases hk <;> simp_all [SnakeDir.Valid]
    case isFalse =>
      split at h
      case isTrue hk => cases h; cases hk <;> simp_all [SnakeDir.Valid]
      case isFalse =>
        split at h
        case isTrue hk => cases h; cases hk <;> simp_all [SnakeDir.Valid]
        case isFalse   => cases h

theorem pressDir_eq (input : SnakeInput) (keycode : Nat) (h : keyToDir keycode = some dir) :
    (if dir = .left then
      { input with pendingActions := input.pendingActions ||| snakeInputActionMenuApplesDec }
    else if dir = .right then
      { input with pendingActions := input.pendingActions ||| snakeInputActionMenuApplesInc }
    else
      input) = { input with pendingActions := input.pendingActions ||| keyAction keycode } := by
  cases dir <;> simp [keyAction, h]

theorem Turns.handleEvent (h : input.Turns l) (event : Nat) :
    ∃ input', input.handleEvent event = some input' ∧ Received input input' [event] := by
  cases hk : keyToDir (kbdEventKeycode event)
  case some dir =>
    have ⟨hd, hs⟩ := keyToDir_eq_some hk
    have hs : isSpace event = false := by simp only [isSpace, hs, decide_false]
    cases hp : kbdEventIsPressed event
    case false =>
      refine ⟨_, by simp only [SnakeInput.handleEvent, hk, hp]; rfl, ?_⟩
      exact {
        turns := ⟨l, { h with }⟩
        committedDir := rfl
        speed := by simp [isHeld, hs, release_dir_speed _ hd]
        actions := by simp [eventAction, hp] }
    case true =>
      have hm := pressDir_eq { input with
        heldKeys := input.heldKeys ||| .ofNat 8 (1 <<< dir.toNat) } (kbdEventKeycode event) hk
      have h₁ : Turns { input with
        heldKeys := input.heldKeys ||| .ofNat 8 (1 <<< dir.toNat)
        pendingActions := input.pendingActions ||| keyAction (kbdEventKeycode event) } l := { h with }
      have ⟨turnQueue, queueSize, l', he, h₂⟩ := h₁.enqueueTurn hd
      refine ⟨{ input with
        heldKeys := input.heldKeys ||| .ofNat 8 (1 <<< dir.toNat)
        pendingActions := input.pendingActions ||| keyAction (kbdEventKeycode event)
        turnQueue
        queueSize }, by simp only [SnakeInput.handleEvent, hk, hp, hm, he, if_true], ?_⟩
      exact {
        turns := ⟨l', h₂⟩
        committedDir := rfl
        speed := by simp [isHeld, hs, press_dir_speed _ hd]
        actions := by simp [eventAction, hp] }
  case none =>
    by_cases hs : kbdEventKeycode event = ' '.toNat
    case pos =>
      rw [hs] at hk
      have ha : eventAction event = 0 := by
        simp only [eventAction, keyAction, hs, hk, if_true, ite_self]
      cases hp : kbdEventIsPressed event
      case false =>
        refine ⟨_, by simp only [SnakeInput.handleEvent, hk, hs, hp, if_true]; rfl, ?_⟩
        exact {
          turns := ⟨l, { h with }⟩
          committedDir := rfl
          speed := by simp [isHeld, isSpace, hs, hp, release_speed]
          actions := by simp [ha] }
      case true =>
        refine ⟨_, by simp only [SnakeInput.handleEvent, hk, hs, hp, if_true]; rfl, ?_⟩
        exact {
          turns := ⟨l, { h with }⟩
          committedDir := rfl
          speed := by simp only [isHeld, isSpace, hs, hp, press_speed, decide_true, if_true,
            List.foldl_cons, List.foldl_nil]
          actions := by simp [ha] }
    case neg =>
      have he : input.handleEvent event =
          some { input with pendingActions := input.pendingActions ||| eventAction event } := by
        cases hp : kbdEventIsPressed event
        case false => simp only [SnakeInput.handleEvent, hk, hs, hp, eventAction]; simp
        case true  =>
          simp only [SnakeInput.handleEvent, hk, hs, hp, eventAction, keyAction, if_false, if_true,
            Bool.not_true, Bool.false_eq_true]
          split <;> try rfl
          split <;> try rfl
          split <;> try rfl
          split <;> simp
      have hs : isSpace event = false := by simp only [isSpace, hs, decide_false]
      exact ⟨_, he, {
        turns := ⟨l, { h with }⟩
        committedDir := rfl
        speed := by simp [isHeld, hs]
        actions := by simp }⟩

theorem Turns.poll (h : input.Turns l) (batch : Batch) :
    ∃ input', input.poll batch = some (if batch.failed then -1 else (batch.events.length : Int), input') ∧
      Received input input' batch.events := by
  have ⟨input', hf, hr⟩ := List.foldlM_inv (s := input) (f := SnakeInput.handleEvent)
    (P := fun pre input' => Received input input' pre) batch.events (.nil h)
    fun pre event input₁ _ h₁ => by
      have ⟨l, hl⟩ := h₁.turns
      have ⟨input₂, he, h₂⟩ := hl.handleEvent event
      exact ⟨input₂, he, h₁.append h₂⟩
  exact ⟨input', by simp [SnakeInput.poll, hf], hr⟩

end SnakeInput
