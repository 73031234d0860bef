import Yabloko.Snake.Ticks

open SnakeCell

namespace SnakeInput

-- What taking actions and switching the turn queue leave as it is.
structure Kept (input input' : SnakeInput) : Prop where
  turns        : (∃ l, input.Turns l) → ∃ l, input'.Turns l
  committedDir : input'.committedDir = input.committedDir
  speed        : input'.isHeld snakeInputKeySpeed = input.isHeld snakeInputKeySpeed
  pending      : ∀ mask, input'.isPending mask → input.isPending mask

namespace Kept

variable {input input' input'' : SnakeInput}

theorem refl (input : SnakeInput) : Kept input input where
  turns := id
  committedDir := rfl
  speed := rfl
  pending _ := id

theorem trans (h : Kept input input') (h' : Kept input' input'') : Kept input input'' where
  turns := h'.turns ∘ h.turns
  committedDir := h'.committedDir.trans h.committedDir
  speed := h'.speed.trans h.speed
  pending mask := h.pending mask ∘ h'.pending mask

theorem and_mask_ne_zero {pending mask mask' : BitVec 8}
    (h : (pending &&& ~~~mask) &&& mask' ≠ 0) : pending &&& mask' ≠ 0 := by
  intro hz
  apply h
  rw [BitVec.and_assoc, BitVec.and_comm (~~~mask), ← BitVec.and_assoc, hz]
  exact BitVec.zero_and

theorem takeAction (input : SnakeInput) (mask : BitVec 8) :
    Kept input (input.takeAction mask).2 where
  turns := fun ⟨l, h⟩ => ⟨l, h.takeAction mask⟩
  committedDir := rfl
  speed := rfl
  pending _ h := by
    simp only [isPending, SnakeInput.takeAction, bne_iff_ne] at h ⊢
    exact and_mask_ne_zero h

theorem setTurnQueueEnabled (input : SnakeInput) (enabled : Bool) :
    Kept input (input.setTurnQueueEnabled enabled) where
  turns := fun ⟨_, h⟩ => h.setTurnQueueEnabled enabled
  committedDir := by cases enabled <;> rfl
  speed := by cases enabled <;> rfl
  pending _ := by cases enabled <;> exact id

theorem clearTurnQueue (input : SnakeInput) : Kept input input.clearTurnQueue where
  turns := fun ⟨_, h⟩ => ⟨[], h.clearTurnQueue⟩
  committedDir := rfl
  speed := rfl
  pending _ := id

end Kept

theorem takeAction_fst (input : SnakeInput) (mask : BitVec 8) :
    (input.takeAction mask).1 = input.isPending mask :=
  rfl

theorem isPending_takeAction_self (input : SnakeInput) (mask : BitVec 8) :
    (input.takeAction mask).2.isPending mask = false := by
  simp [isPending, takeAction, BitVec.and_assoc]

end SnakeInput

open SnakeInput

-- The outer loop of `main` continues, or ends.
def Pc.Outer (pc : Pc) : Prop :=
  pc = .frame ∨ ∃ code, pc = .exited code

theorem Pc.Outer.ne_ticks {pc : Pc} (h : pc.Outer) (tickMs : UInt64) : pc ≠ .ticks tickMs := by
  cases h
  case inl h => simp [h]
  case inr h => have ⟨code, he⟩ := h; simp [he]

namespace SnakeMain

-- The key events which are delivered in a frame.
def keys (sys : Syscalls) : List SnakeEvent :=
  sys.batch.events.map .key

-- A frame of a menu, or the last frame.
structure Waits (sys : Syscalls) (main main' : SnakeMain) : Prop where
  frame       : main.pc = .frame
  input       : ∃ input, Received main.state.input input sys.batch.events ∧
                  Kept input main'.state.input
  model       : main'.state.model = main.state.model
  phase       : main'.state.phase = main.state.phase
  paused      : main'.state.paused = main.state.paused
  framebuffer : main.state.phase ≠ .menu → main'.state.framebuffer = main.state.framebuffer
  log         : main'.log = main.log ++ keys sys
  pc          : (∃ code, main'.pc = .exited code) ∨ (main'.pc = .frame ∧ main.state.phase ≠ .game ∧
                  main'.state.input.isPending snakeInputActionRestart = false ∧
                  main'.state.input.isPending snakeInputActionConfirm = false)

-- A frame which starts a new game.
structure Starts (sys : Syscalls) (main main' : SnakeMain) : Prop where
  frame  : main.pc = .frame
  input  : ∃ input, Received main.state.input input sys.batch.events ∧
             (input.isPending snakeInputActionRestart ∨
               (main.state.phase ≠ .game ∧ input.isPending snakeInputActionConfirm))
  fresh  : ∃ input : SnakeInput, main'.state.input = input.init .right
  phase  : main'.state.phase = .game
  paused : main'.state.paused = false
  board  : ∃ b, main'.state.model.Playing b ∧ b.dir = .right ∧ main'.state.framebuffer.Pictures b
  log    : main'.log = main.log ++ keys sys ++ [.start]
  pc     : main'.pc.Outer

-- A frame of a running game, up to its ticks.
structure Enters (sys : Syscalls) (main main' : SnakeMain) : Prop where
  frame   : main.pc = .frame
  game    : main.state.phase = .game
  input   : ∃ input, Received main.state.input input sys.batch.events ∧
              Kept input main'.state.input
  restart : main'.state.input.isPending snakeInputActionRestart = false
  model   : main'.state.model = main.state.model
  phase   : main'.state.phase = .game
  draw    : main'.state.paused = false →
              (main.state.paused = false ∧ main'.state.framebuffer = main.state.framebuffer) ∨
              main'.state.framebuffer.Displays main.state.model
  log     : main'.log = main.log ++ keys sys
  pc      : ∃ tickMs, main'.pc = .ticks tickMs

-- The end of a frame of a running game.
structure Ends (main main' : SnakeMain) : Prop where
  ticks       : ∃ tickMs, main.pc = .ticks tickMs
  input       : main'.state.input = main.state.input
  model       : main'.state.model = main.state.model
  phase       : main'.state.phase = main.state.phase
  paused      : main'.state.paused = main.state.paused
  framebuffer : main'.state.framebuffer = main.state.framebuffer
  log         : main'.log = main.log
  pc          : main'.pc.Outer

-- A tick in which the snake moves in direction `dir`.
structure Moves (dir : SnakeDir) (main main' : SnakeMain) : Prop where
  ticks    : ∃ tickMs, main.pc = .ticks tickMs ∧ main'.pc = .ticks tickMs
  unpaused : main.state.paused = false
  turn     : ∃ turn, main.state.input.popTurn = some (turn, main'.state.input) ∧
               dir = turn.getD main.state.model.dir
  board    : ∃ b b', main.state.model.Playing b ∧ b.step dir = some b' ∧
               main'.state.model.Playing (b'.meal main.state.targetAppleCount)
  draw     : main.state.framebuffer.snakeRenderStep main'.state.model main.state.model.head
               main.state.model.tail = some main'.state.framebuffer
  phase    : main'.state.phase = main.state.phase
  paused   : main'.state.paused = main.state.paused
  log      : main'.log = main.log ++ [.move dir main.state.model main.state.targetAppleCount]

-- A tick in which the snake dies.
structure Dies (dir : SnakeDir) (main main' : SnakeMain) : Prop where
  ticks : ∃ tickMs, main.pc = .ticks tickMs
  turn  : ∃ turn, main.state.input.popTurn = some (turn, main'.state.input) ∧
            dir = turn.getD main.state.model.dir
  model : main'.state.model = main.state.model
  phase : main'.state.phase = .gameOver
  log   : main'.log = main.log ++ 
            [.move dir main.state.model main.state.targetAppleCount, .gameOver]
  pc    : main'.pc.Outer

inductive Step (sys : Syscalls) (main main' : SnakeMain) : Prop
  | exited (code : Int) (h : main.pc = .exited code) (he : main' = main)
  | waits (h : Waits sys main main')
  | starts (h : Starts sys main main')
  | enters (h : Enters sys main main')
  | ends (h : Ends main main')
  | moves (dir : SnakeDir) (h : Moves dir main main')
  | dies (dir : SnakeDir) (h : Dies dir main main')

-- What holds in every state of a run.
structure Inv (main : SnakeMain) : Prop where
  turns     : ∃ l, main.state.input.Turns l
  board     : main.state.phase ≠ .menu → ∃ b, main.state.model.Playing b
  committed : main.state.phase = .game → main.state.input.committedDir = main.state.model.dir
  ticks     : ∀ tickMs, main.pc = .ticks tickMs → main.state.phase = .game

variable {sys : Syscalls} {main main' : SnakeMain}

theorem present_cases (main : SnakeMain) (sys : Syscalls) (next : SnakeMain → SnakeMain) :
    ∃ bound, main.present sys next =
        next { main with state := { main.state with framebufferBound := bound } } ∨
      main.present sys next =
        { main with state := { main.state with framebufferBound := bound }, pc := .exited 1 } := by
  by_cases h₁ : main.state.framebufferBound = 1
  case pos => exact ⟨1, .inl <| by simp [present, SnakeGameState.present, h₁]; simp [← h₁]⟩
  case neg =>
    by_cases h₀ : main.state.framebufferBound = 0
    case pos => exact ⟨0, .inr <| by simp [present, SnakeGameState.present, h₀, exit]; simp [← h₀]⟩
    case neg =>
      cases he : sys.enter13h
      case false => exact ⟨0, .inr <| by simp [present, SnakeGameState.present, h₁, h₀, he, exit]⟩
      case true  => exact ⟨1, .inl <| by simp [present, SnakeGameState.present, h₁, h₀, he]⟩

theorem present_outer (main : SnakeMain) (sys : Syscalls) (next : SnakeMain → SnakeMain)
    (hn : ∀ main, ∃ bound pc, next main =
      { main with state := { main.state with framebufferBound := bound }, pc } ∧ pc.Outer) :
    ∃ bound pc, main.present sys next =
      { main with state := { main.state with framebufferBound := bound }, pc } ∧ pc.Outer := by
  have ⟨bound, h⟩ := main.present_cases sys next
  cases h
  case inr h => exact ⟨bound, .exited 1, h, .inr ⟨1, rfl⟩⟩
  case inl h =>
    have ⟨bound', pc, he, ho⟩ :=
      hn { main with state := { main.state with framebufferBound := bound } }
    exact ⟨bound', pc, h.trans he, ho⟩

theorem sleep_eq (main : SnakeMain) (sys : Syscalls) :
    ∃ pc, main.sleep sys = { main with pc } ∧ pc.Outer := by
  cases hs : sys.sleep
  case false => exact ⟨.exited 1, by simp [sleep, hs, exit], .inr ⟨1, rfl⟩⟩
  case true  => exact ⟨.frame, by simp [sleep, hs], .inl rfl⟩

theorem endFrame_eq (main : SnakeMain) (sys : Syscalls) : ∃ bound pc, main.endFrame sys =
    { main with state := { main.state with framebufferBound := bound }, pc } ∧ pc.Outer :=
  main.present_outer sys _ fun main =>
    have ⟨pc, he, ho⟩ := main.sleep_eq sys
    ⟨main.state.framebufferBound, pc, he, ho⟩

variable {input : SnakeInput}

-- The start of a game in a frame, after the events of the frame have been received.
theorem start_eq {main₁ : SnakeMain} (hf : main.pc = .frame)
    (hr : Received main.state.input input sys.batch.events)
    (hc : input.isPending snakeInputActionRestart ∨
      (main.state.phase ≠ .game ∧ input.isPending snakeInputActionConfirm))
    (hl : main₁.log = main.log ++ keys sys) :
    ∃ main', main₁.start sys = some main' ∧ Starts sys main main' := by
  have ⟨model, framebuffer, hs, hp, hd⟩ := main₁.state.startGame_eq sys.startMs
  have hdir := (Board.game_snake_eq (sys.startMs.toNat % 2 ^ 32) main₁.state.targetAppleCount).left
  refine ⟨_, by simp only [start, hs, Option.bind_eq_bind, Option.bind_some]; rfl, ?_⟩
  have ⟨bound, pc, he, ho⟩ := present_outer
    { main₁ with state := { main₁.state with
        input := main₁.state.input.init .right
        model
        phase := .game
        alive := true
        paused := false
        accumulatorMs := 0
        lastTimeMs := sys.startMs
        framebuffer }, log := main₁.log ++ [.start] }
    sys _ (fun main => ⟨main.state.framebufferBound, .frame, rfl, .inl rfl⟩)
  simp only [he]
  exact {
    frame := hf
    input := ⟨input, hr, hc⟩
    fresh := ⟨_, rfl⟩
    phase := rfl
    paused := rfl
    board := ⟨_, hp, hdir, hd⟩
    log := by simp [hl]
    pc := ho }

theorem togglePause_eq {s : SnakeGameState} {b : Board} (hm : s.model.Playing b) (nowMs : UInt64) :
    ∃ input framebuffer, s.togglePause nowMs = some { s with
        paused := !s.paused
        accumulatorMs := 0
        lastTimeMs := nowMs
        input
        framebuffer } ∧
      Kept s.input input ∧ (s.paused = true → framebuffer.Displays s.model) := by
  have ⟨full, hf, hp⟩ := Framebuffer.renderFull_pictures hm.shows hm.settled.toValid s.framebuffer
  have hk := Kept.setTurnQueueEnabled s.input
  cases hs : s.paused
  case false =>
    have ⟨paused, hr⟩ : ∃ fb, s.framebuffer.snakeRenderPause s.model = some fb := by
      simp [Framebuffer.snakeRenderPause, hf]
    refine ⟨(s.input.setTurnQueueEnabled false).clearTurnQueue, paused, ?_, (hk false).trans <|
      .clearTurnQueue _, by simp⟩
    simp only [SnakeGameState.togglePause, hs, hr, Option.bind_eq_bind, Option.bind_some,
      Option.pure_def, Bool.not_false, Bool.not_true, if_true]
  case true =>
    refine ⟨s.input.setTurnQueueEnabled true, full, ?_, hk true, fun _ =>
      (Framebuffer.displays_iff hm.shows hm.settled.toValid).mpr hp⟩
    simp only [SnakeGameState.togglePause, hs, hf, Option.bind_eq_bind, Option.bind_some,
      Option.pure_def, Bool.not_false, Bool.not_true, Bool.false_eq_true, if_false]

-- A frame which has not ended yet: only actions have been taken since the events were received.
structure Polled (sys : Syscalls) (main main₁ : SnakeMain) (input : SnakeInput) : Prop where
  frame       : main.pc = .frame
  received    : Received main.state.input input sys.batch.events
  kept        : Kept input main₁.state.input
  model       : main₁.state.model = main.state.model
  phase       : main₁.state.phase = main.state.phase
  paused      : main₁.state.paused = main.state.paused
  framebuffer : main.state.phase ≠ .menu → main₁.state.framebuffer = main.state.framebuffer
  log         : main₁.log = main.log ++ keys sys

namespace Polled

variable {main₁ : SnakeMain}

theorem takeAction (h : Polled sys main main₁ input) (mask : BitVec 8) :
    Polled sys main { main₁ with state := (main₁.state.takeAction mask).2 } input :=
  { h with kept := h.kept.trans <| .takeAction _ mask }

theorem exit (h : Polled sys main main₁ input) (code : Int) : Waits sys main (main₁.exit code) where
  frame := h.frame
  input := ⟨input, h.received, h.kept⟩
  model := h.model
  phase := h.phase
  paused := h.paused
  framebuffer := h.framebuffer
  log := h.log
  pc := .inl ⟨code, rfl⟩

theorem start (h : Polled sys main main₁ input)
    (hc : input.isPending snakeInputActionRestart ∨
      (main.state.phase ≠ .game ∧ input.isPending snakeInputActionConfirm)) :
    ∃ main', main₁.start sys = some main' ∧ Step sys main main' :=
  have ⟨main', hs, h'⟩ := start_eq h.frame h.received hc h.log
  ⟨main', hs, .starts h'⟩

theorem startOrSleep (h : Polled sys main main₁ input) (hp : main.state.phase ≠ .game) :
    ∃ main', main₁.startOrSleep sys = some main' ∧ Step sys main main' := by
  have h₂ := h.takeAction snakeInputActionRestart
  have h₃ := h₂.takeAction snakeInputActionConfirm
  simp only [SnakeMain.startOrSleep]
  split
  case isTrue hr  => exact h₂.start <| .inl <| h.kept.pending _ hr
  case isFalse hr =>
    split
    case isTrue hc  => exact h₃.start <| .inr ⟨hp, h₂.kept.pending _ hc⟩
    case isFalse hc =>
      have ⟨pc, he, ho⟩ := sleep_eq { main₁ with
        state := ((main₁.state.takeAction snakeInputActionRestart).2.takeAction
          snakeInputActionConfirm).2 } sys
      refine ⟨_, rfl, .waits ?_⟩
      rw [he]
      exact { h₃ with
        input := ⟨input, h₃.received, h₃.kept⟩
        pc := by
          cases ho
          case inr ho => exact .inl ho
          case inl ho =>
            refine .inr ⟨ho, hp, ?_, isPending_takeAction_self _ _⟩
            have hk := Kept.takeAction (main₁.state.takeAction snakeInputActionRestart).2.input
              snakeInputActionConfirm
            have hn := isPending_takeAction_self main₁.state.input snakeInputActionRestart
            exact Bool.eq_false_iff.mpr fun hr => Bool.eq_false_iff.mp hn <| hk.pending _ hr }

-- In the menu, the target and the screen may change.
theorem menu (h : Polled sys main main₁ input) (hp : main.state.phase = .menu)
    (target : Nat) (framebuffer : Framebuffer) (framebufferBound : Int) :
    Polled sys main { main₁ with state := { main₁.state with
      targetAppleCount := target, framebuffer, framebufferBound } } input :=
  { h with framebuffer := fun hn => absurd hp hn }

theorem decApples (h : Polled sys main main₁ input) (hp : main.state.phase = .menu) :
    Polled sys main { main₁ with state := main₁.state.decApples.2 } input := by
  have h' := h.takeAction snakeInputActionMenuApplesDec
  simp only [SnakeGameState.decApples]
  split
  case isTrue  => exact h'.menu hp _ _ _
  case isFalse => exact h'

theorem incApples (h : Polled sys main main₁ input) (hp : main.state.phase = .menu) :
    Polled sys main { main₁ with state := main₁.state.incApples.2 } input := by
  have h' := h.takeAction snakeInputActionMenuApplesInc
  simp only [SnakeGameState.incApples]
  split
  case isTrue  => exact h'.menu hp _ _ _
  case isFalse => exact h'

theorem menuFrame (h : Polled sys main main₁ input) (hp : main.state.phase = .menu) :
    ∃ main', main₁.menuFrame sys = some main' ∧ Step sys main main' := by
  have h' := (h.decApples hp).incApples hp
  have hg : main.state.phase ≠ .game := by simp [hp]
  simp only [SnakeMain.menuFrame]
  split
  case isFalse => exact h'.startOrSleep hg
  case isTrue  =>
    simp only [SnakeGameState.present]
    split
    case isTrue  => exact (h'.menu hp _ _ _).startOrSleep hg
    case isFalse =>
      split
      case isTrue  => exact ⟨_, rfl, .waits <| (h'.menu hp _ _ _).exit 1⟩
      case isFalse =>
        split
        case isTrue  => exact (h'.menu hp _ _ _).startOrSleep hg
        case isFalse => exact ⟨_, rfl, .waits <| (h'.menu hp _ _ _).exit 1⟩

theorem gameFrame (h : Polled sys main main₁ input) (hp : main.state.phase = .game)
    {b : Board} (hm : main.state.model.Playing b) :
    ∃ main', main₁.gameFrame sys = some main' ∧ Step sys main main' := by
  have h₂ := h.takeAction snakeInputActionRestart
  have h₃ := h₂.takeAction snakeInputActionPauseToggle
  have hr := isPending_takeAction_self main₁.state.input snakeInputActionRestart
  have hr' : (main₁.state.takeAction snakeInputActionRestart).2.takeAction
      snakeInputActionPauseToggle |>.2.input.isPending snakeInputActionRestart = false :=
    Bool.eq_false_iff.mpr fun hc => Bool.eq_false_iff.mp hr <| (Kept.takeAction _ _).pending _ hc
  simp only [SnakeMain.gameFrame]
  split
  case isTrue hc => exact h₂.start <| .inl <| h.kept.pending _ hc
  case isFalse   =>
    split
    case isFalse =>
      refine ⟨_, rfl, .enters ?_⟩
      exact {
        frame := h.frame
        game := hp
        input := ⟨input, h.received, h₃.kept⟩
        restart := hr'
        model := h₃.model
        phase := h₃.phase.trans hp
        draw := fun hn => .inl ⟨h₃.paused ▸ hn, h₃.framebuffer <| by simp [hp]⟩
        log := h.log
        pc := ⟨_, rfl⟩ }
    case isTrue  =>
      have ⟨input', framebuffer, ht, hk, hd⟩ := togglePause_eq
        (s := ((main₁.state.takeAction snakeInputActionRestart).2.takeAction
          snakeInputActionPauseToggle).2) (h₃.model ▸ hm) sys.pauseMs
      refine ⟨_, by simp only [ht, Option.bind_eq_bind, Option.bind_some]; rfl, .enters ?_⟩
      exact {
        frame := h.frame
        game := hp
        input := ⟨input, h.received, h₃.kept.trans hk⟩
        restart := Bool.eq_false_iff.mpr fun hc => Bool.eq_false_iff.mp hr' <| hk.pending _ hc
        model := h₃.model
        phase := h₃.phase.trans hp
        draw := fun hn => .inr <| h₃.model ▸ hd (by simpa using hn)
        log := h.log
        pc := ⟨_, rfl⟩ }

end Polled

theorem Inv.frame (h : Inv main) (hf : main.pc = .frame) (sys : Syscalls) :
    ∃ main', main.frame sys = some main' ∧ Step sys main main' := by
  have ⟨l, hl⟩ := h.turns
  have ⟨input, hp, hr⟩ := hl.poll sys.batch
  have h₁ : Polled sys main { main with
      state := { main.state with input }
      log := main.log ++ keys sys } input := {
    frame := hf
    received := hr
    kept := .refl input
    model := rfl
    phase := rfl
    paused := rfl
    framebuffer := fun _ => rfl
    log := rfl }
  have h₂ := h₁.takeAction snakeInputActionQuit
  cases hb : sys.batch.failed
  case true  =>
    refine ⟨_, by simp only [SnakeMain.frame, hp, hb, Option.bind_eq_bind, Option.bind_some]; rfl, ?_⟩
    exact .waits <| h₁.exit 1
  case false =>
    have hn : ¬(sys.batch.events.length : Int) < 0 := by omega
    simp only [SnakeMain.frame, hp, hb, hn, Option.bind_eq_bind, Option.bind_some,
      Bool.false_eq_true, if_false]
    split
    case isTrue  => exact ⟨_, rfl, .waits <| h₂.exit 0⟩
    case isFalse =>
      split
      case h_1 hm => exact h₂.menuFrame hm
      case h_2 hm =>
        exact h₂.startOrSleep fun hg => by cases hm.symm.trans <| h₂.phase.trans hg
      case h_3 hm =>
        have ⟨b, hb⟩ := h.board fun hg => by cases hm.symm.trans <| h₂.phase.trans hg
        exact h₂.gameFrame hm hb

theorem Inv.tick (h : Inv main) {tickMs : UInt64} (ht : main.pc = .ticks tickMs) (sys : Syscalls) :
    ∃ main', main.tick tickMs sys = some main' ∧ Step sys main main' := by
  have hg := h.ticks tickMs ht
  simp only [SnakeMain.tick]
  split
  case isFalse =>
    have ⟨bound, pc, he, ho⟩ := main.endFrame_eq sys
    refine ⟨_, rfl, .ends ?_⟩
    rw [he]
    exact {
      ticks := ⟨tickMs, ht⟩
      input := rfl
      model := rfl
      phase := rfl
      paused := rfl
      framebuffer := rfl
      log := rfl
      pc := ho }
  case isTrue hc =>
    have hn : main.state.paused = false := by simpa using hc.left
    have ⟨l, hl⟩ := h.turns
    have ⟨turn, input, hp, _⟩ := hl.popTurn
    have ⟨b, hb⟩ := h.board <| by simp [hg]
    simp only [hp, Option.bind_eq_bind, Option.bind_some]
    cases hs : b.step (turn.getD main.state.model.dir)
    case some b' =>
      have ⟨model, framebuffer, hm, hb', hr⟩ := SnakeGameState.moveSnake_eq_of_some
        (s := { main.state with input }) hb hs
      refine ⟨_, by
        simp only [hm, Option.bind_some, Bool.not_true, Bool.false_eq_true, if_false]; rfl,
        .moves (turn.getD main.state.model.dir) ?_⟩
      exact {
        ticks := ⟨tickMs, ht, ht⟩
        unpaused := hn
        turn := ⟨turn, hp, rfl⟩
        board := ⟨b, b', hb, hs, hb'⟩
        draw := hr
        phase := rfl
        paused := rfl
        log := by simp }
    case none =>
      have hm := SnakeGameState.moveSnake_eq_of_none (s := { main.state with input }) hb hs
      have ⟨full, hf, _⟩ := Framebuffer.renderFull_pictures hb.shows hb.settled.toValid
        main.state.framebuffer
      have ⟨framebuffer, hr⟩ : ∃ fb,
          main.state.framebuffer.snakeRenderGameOver main.state.model = some fb := by
        simp [Framebuffer.snakeRenderGameOver, hf]
      have ⟨bound, pc, he, ho⟩ := present_outer
        { main with
          state := { main.state with
            input
            alive := false
            phase := .gameOver
            framebuffer }
          log := main.log ++ [.move (turn.getD main.state.model.dir) main.state.model
            main.state.targetAppleCount] ++ [.gameOver] }
        sys (endFrame · sys) (fun main => main.endFrame_eq sys)
      refine ⟨_, by
        simp only [hm, SnakeGameState.showGameOver, hr, Option.bind_eq_bind, Option.bind_some,
          Option.pure_def, Bool.not_false, if_true]
        rfl, .dies (turn.getD main.state.model.dir) ?_⟩
      rw [he]
      exact {
        ticks := ⟨tickMs, ht⟩
        turn := ⟨turn, hp, rfl⟩
        model := rfl
        phase := rfl
        log := by simp
        pc := ho }

theorem Inv.step (h : Inv main) (sys : Syscalls) :
    ∃ main', main.step sys = some main' ∧ Step sys main main' := by
  simp only [SnakeMain.step]
  split
  case h_1 hf      => exact h.frame hf sys
  case h_2 ht      => exact h.tick ht sys
  case h_3 code he => exact ⟨main, rfl, .exited code he rfl⟩

-- The turn of a tick agrees with the direction of the snake, or is perpendicular to it.
theorem Inv.turn_cases (h : Inv main) {turn : Option SnakeDir} {input : SnakeInput}
    (ht : ∃ tickMs, main.pc = .ticks tickMs) (hp : main.state.input.popTurn = some (turn, input)) :
    (∃ l, input.Turns l) ∧ input.committedDir = turn.getD main.state.model.dir ∧
    (turn.getD main.state.model.dir = main.state.model.dir ∨
      main.state.model.dir.Perpendicular (turn.getD main.state.model.dir)) := by
  have ⟨l, hl⟩ := h.turns
  have ⟨turn', input', hp', hl', hc, hd, _⟩ := hl.popTurn
  cases hp.symm.trans hp'
  have ⟨tickMs, ht⟩ := ht
  rw [h.committed <| h.ticks tickMs ht] at hc hd
  refine ⟨hl', hc, ?_⟩
  cases turn
  case none   => exact .inl rfl
  case some d => exact .inr <| hd d rfl

theorem Step.inv (h : Inv main) (hs : Step sys main main') : Inv main' := by
  cases hs
  case exited code hp he => exact he ▸ h
  case waits hw =>
    have ⟨input, hr, hk⟩ := hw.input
    exact {
      turns := hk.turns hr.turns
      board := by
        rw [hw.phase, hw.model]
        exact h.board
      committed := by
        rw [hw.phase, hw.model, hk.committedDir, hr.committedDir]
        exact h.committed
      ticks := fun tickMs ht => by
        have ho : main'.pc.Outer := hw.pc.elim .inr fun hp => .inl hp.left
        exact absurd ht <| ho.ne_ticks tickMs }
  case starts hw =>
    have ⟨input, hi⟩ := hw.fresh
    have ⟨b, hb, hd, _⟩ := hw.board
    exact {
      turns := ⟨[], hi ▸ .init input (by decide)⟩
      board := fun _ => ⟨b, hb⟩
      committed := fun _ => by
        rw [hi, hb.shows.dir, hd]
        rfl
      ticks := fun tickMs ht => absurd ht <| hw.pc.ne_ticks tickMs }
  case enters hw =>
    have ⟨input, hr, hk⟩ := hw.input
    exact {
      turns := hk.turns hr.turns
      board := fun _ => by
        rw [hw.model]
        exact h.board <| by simp [hw.game]
      committed := fun _ => by
        rw [hw.model, hk.committedDir, hr.committedDir]
        exact h.committed hw.game
      ticks := fun _ _ => hw.phase }
  case ends hw =>
    exact {
      turns := hw.input ▸ h.turns
      board := by
        rw [hw.phase, hw.model]
        exact h.board
      committed := by
        rw [hw.phase, hw.model, hw.input]
        exact h.committed
      ticks := fun tickMs ht => absurd ht <| hw.pc.ne_ticks tickMs }
  case moves dir hw =>
    have ⟨turn, hp, hd⟩ := hw.turn
    have ⟨tickMs, ht, _⟩ := hw.ticks
    have ⟨b, b', _, hb, hb'⟩ := hw.board
    have ⟨hl, hc, _⟩ := h.turn_cases ⟨tickMs, ht⟩ hp
    have ⟨_, hdir, _⟩ := b'.meal_snake_eq main.state.targetAppleCount
    have ⟨_, _, _, _, _, _, he⟩ := Board.step_eq_some_iff.mp hb
    exact {
      turns := hl
      board := fun _ => ⟨_, hb'⟩
      committed := fun _ => by rw [hc, ← hd, hb'.shows.dir, hdir, he]
      ticks := fun _ _ => hw.phase.trans <| h.ticks tickMs ht }
  case dies dir hw =>
    have ⟨turn, hp, _⟩ := hw.turn
    have ⟨tickMs, ht⟩ := hw.ticks
    have ⟨hl, _⟩ := h.turn_cases ⟨tickMs, ht⟩ hp
    exact {
      turns := hl
      board := fun _ => by
        rw [hw.model]
        exact h.board <| by simp [h.ticks tickMs ht]
      committed := by simp [hw.phase]
      ticks := fun tickMs ht => absurd ht <| hw.pc.ne_ticks tickMs }

theorem init_inv (state : SnakeGameState) (enter13h : Bool) : Inv (init state enter13h) := by
  have hi : (init state enter13h).state.input = state.input.init .right ∧
      (init state enter13h).state.phase = .menu ∧ (init state enter13h).pc.Outer := by
    cases enter13h
    · exact ⟨rfl, rfl, .inr ⟨1, rfl⟩⟩
    · exact ⟨rfl, rfl, .inl rfl⟩
  have ⟨hi, hp, ho⟩ := hi
  exact {
    turns := ⟨[], hi ▸ .init _ (by decide)⟩
    board := fun hn => absurd hp hn
    committed := by simp [hp]
    ticks := fun tickMs ht => absurd ht <| ho.ne_ticks tickMs }

theorem run_cons (hs : main.step sys = some main') (calls : List Syscalls) :
    main.run (sys :: calls) = main'.run calls := by
  simp [run, hs]

theorem run_append {calls : List Syscalls} (hr : main.run calls = some main')
    (calls' : List Syscalls) : main.run (calls ++ calls') = main'.run calls' := by
  rw [run, List.foldlM_append, ← run, hr]
  rfl

-- Every run gets through all its calls, and what its steps preserve holds at its end.
theorem run_induction {P : SnakeMain → Prop} (h₀ : Inv main) (hp : P main)
    (hs : ∀ sys main main', Inv main → P main → Step sys main main' → P main')
    (calls : List Syscalls) : ∃ main', main.run calls = some main' ∧ Inv main' ∧ P main' := by
  induction calls generalizing main
  case nil              => exact ⟨main, rfl, h₀, hp⟩
  case cons sys calls hi =>
    have ⟨main₁, he, h₁⟩ := h₀.step sys
    have ⟨main', hr, h'⟩ := hi (h₁.inv h₀) (hs sys main main₁ h₀ hp h₁)
    exact ⟨main', by simpa [run, he] using hr, h'⟩

end SnakeMain
