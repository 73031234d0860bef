import Yabloko.Snake.Loop

open SnakeInput

-- The calls of a frame in which the screen is presented and the sleep succeeds.
def Syscalls.quiet (events : List Nat) (ms : UInt64) : Syscalls where
  batch    := ⟨events, false⟩
  startMs  := ms
  pauseMs  := ms
  frameMs  := ms
  enter13h := true
  sleep    := true

namespace SnakeMain

variable {main : SnakeMain} {sys : Syscalls}

theorem present_of_bound (h : main.state.framebufferBound = 1) (next : SnakeMain → SnakeMain) :
    main.present sys next = next main := by
  simp [present, SnakeGameState.present, h]

theorem endFrame_of_bound (h : main.state.framebufferBound = 1) (hs : sys.sleep = true) :
    main.endFrame sys = { main with pc := .frame } := by
  simp [endFrame, present_of_bound h, sleep, hs]

-- A game which is running, between two frames or in front of a tick. No turn is queued, and only the
-- action of the confirmation key may be pending.
structure Running (main : SnakeMain) (b : Board) (accumulatorMs nowMs : UInt64) : Prop where
  board   : main.state.model.Playing b
  turns   : main.state.input.Turns []
  speed   : main.state.input.isHeld snakeInputKeySpeed = false
  quit    : main.state.input.isPending snakeInputActionQuit = false
  restart : main.state.input.isPending snakeInputActionRestart = false
  pause   : main.state.input.isPending snakeInputActionPauseToggle = false
  phase   : main.state.phase = .game
  alive   : main.state.alive = true
  paused  : main.state.paused = false
  acc     : main.state.accumulatorMs = accumulatorMs
  last    : main.state.lastTimeMs = nowMs
  bound   : main.state.framebufferBound = 1

variable {b : Board} {accumulatorMs nowMs : UInt64}

theorem takeAction_of_not_pending {input : SnakeInput} {mask : BitVec 8}
    (h : input.isPending mask = false) : input.takeAction mask = (false, input) := by
  have hz : input.pendingActions &&& mask = 0 := by simpa [isPending] using h
  have he : input.pendingActions &&& ~~~mask = input.pendingActions := by
    have hs : input.pendingActions &&& (mask ||| ~~~mask) = input.pendingActions := by
      rw [BitVec.or_not_self, BitVec.and_allOnes]
    rw [BitVec.and_or_distrib_left, hz] at hs
    exact BitVec.zero_or.symm.trans hs
  simp [takeAction, hz, he]

-- The key events of a frame: the confirmation key is pressed, or nothing happens.
def confirmEvents (confirm : Bool) : List Nat :=
  if confirm then [0x1000a] else []

theorem poll_confirmEvents (input : SnakeInput) (confirm : Bool) :
    input.poll ⟨confirmEvents confirm, false⟩ = some (((confirmEvents confirm).length : Int),
      { input with pendingActions := input.pendingActions |||
        if confirm then snakeInputActionConfirm else 0 }) := by
  cases confirm
  case false => simp [confirmEvents, poll]
  case true  =>
    simp [confirmEvents, poll, handleEvent, keyToDir, kbdEventKeycode, kbdEventIsPressed]

-- The part of a frame in front of its ticks.
theorem Running.frame (h : main.Running b accumulatorMs nowMs) (hf : main.pc = .frame)
    (confirm : Bool) (d : UInt64) (hd : ¬d > 50) :
    ∃ main', main.step (.quiet (confirmEvents confirm) (nowMs + d)) = some main' ∧
      main'.Running b (accumulatorMs + d) (nowMs + d) ∧ main'.pc = .ticks 120 ∧
      main'.log = main.log ++ (confirmEvents confirm).map .key ∧
      main'.state.framebuffer = main.state.framebuffer ∧
      main'.state.targetAppleCount = main.state.targetAppleCount ∧
      main'.state.input.isPending snakeInputActionConfirm =
        (main.state.input.isPending snakeInputActionConfirm || confirm) := by
  have ⟨input, hi, hpoll⟩ : ∃ input, input = { main.state.input with
        pendingActions := main.state.input.pendingActions |||
          if confirm then snakeInputActionConfirm else 0 } ∧
      main.state.input.poll ⟨confirmEvents confirm, false⟩ =
        some (((confirmEvents confirm).length : Int), input) :=
    ⟨_, rfl, poll_confirmEvents _ confirm⟩
  have hp {mask : BitVec 8} (hm : main.state.input.isPending mask = false)
      (hc : snakeInputActionConfirm &&& mask = 0) : input.isPending mask = false := by
    simp only [isPending, hi, BitVec.and_or_distrib_right] at hm ⊢
    cases confirm <;> simp_all
  have hq := takeAction_of_not_pending <| hp h.quit (by decide)
  have hr := takeAction_of_not_pending <| hp h.restart (by decide)
  have ht := takeAction_of_not_pending <| hp h.pause (by decide)
  have hs : input.isHeld snakeInputKeySpeed = false := hi ▸ h.speed
  have he : nowMs + d - nowMs = d := by grind
  have hn : ¬(((confirmEvents confirm).length : Int) < 0) := by omega
  refine ⟨{ main with
    state := { main.state with
      input
      accumulatorMs := accumulatorMs + d
      lastTimeMs := nowMs + d }
    pc := .ticks 120
    log := main.log ++ (confirmEvents confirm).map .key }, ?_, ?_, rfl, rfl, rfl, rfl, ?_⟩
  · simp only [step, hf, SnakeMain.frame, gameFrame, Syscalls.quiet, hpoll, Option.bind_eq_bind,
      Option.bind_some, hn, hq, hr, ht, hs, he, hd, h.phase, h.acc, h.last, h.paused,
      SnakeGameState.takeAction, Option.pure_def, Bool.not_false, if_true, if_false, Bool.false_eq_true]
  · exact { h with
      turns := hi ▸ { h.turns with }
      speed := hs
      quit := hp h.quit (by decide)
      restart := hp h.restart (by decide)
      pause := hp h.pause (by decide)
      acc := rfl
      last := rfl }
  · simp only [isPending, hi, BitVec.and_or_distrib_right]
    cases confirm <;> simp [snakeInputActionConfirm]

-- A frame goes on without a tick when not enough time has passed.
theorem Running.ends (h : main.Running b accumulatorMs nowMs) {tickMs : UInt64}
    (hp : main.pc = .ticks tickMs) (ht : ¬accumulatorMs ≥ tickMs) (hs : sys.sleep = true) :
    main.step sys = some { main with pc := .frame } := by
  simp only [step, hp, tick, h.acc, ht, and_false, if_false, Option.pure_def,
    endFrame_of_bound h.bound hs]

-- A frame without a tick.
theorem Running.passes (h : main.Running b accumulatorMs nowMs) (hf : main.pc = .frame)
    (confirm : Bool) (d : UInt64) (hd : ¬d > 50) (ha : ¬accumulatorMs + d ≥ 120) :
    ∃ main', main.run [.quiet (confirmEvents confirm) (nowMs + d), .quiet [] 0] = some main' ∧
      main'.Running b (accumulatorMs + d) (nowMs + d) ∧ main'.pc = .frame ∧
      main'.log = main.log ++ (confirmEvents confirm).map .key ∧
      main'.state.framebuffer = main.state.framebuffer ∧
      main'.state.targetAppleCount = main.state.targetAppleCount ∧
      main'.state.input.isPending snakeInputActionConfirm =
        (main.state.input.isPending snakeInputActionConfirm || confirm) := by
  have ⟨main₁, hs, h₁, hp, hl, hfb, ht, hc⟩ := h.frame hf confirm d hd
  have he : main₁.step (.quiet [] 0) = _ := h₁.ends hp ha rfl
  refine ⟨{ main₁ with pc := .frame }, ?_, { h₁ with }, rfl, hl, hfb, ht, hc⟩
  simp [run, hs, he]

theorem Running.popTurn_eq (h : main.Running b accumulatorMs nowMs) :
    main.state.input.popTurn = some (none, main.state.input) := by
  simp [SnakeInput.popTurn, h.turns.size]

theorem Running.due (h : main.Running b accumulatorMs nowMs) {tickMs : UInt64}
    (ht : accumulatorMs ≥ tickMs) : (!main.state.paused) = true ∧ main.state.alive = true ∧
      main.state.accumulatorMs ≥ tickMs := by
  rw [h.paused, h.alive, h.acc]
  exact ⟨rfl, rfl, ht⟩

theorem Running.moves (h : main.Running b accumulatorMs nowMs) (sys : Syscalls) {tickMs : UInt64}
    (hp : main.pc = .ticks tickMs) (ht : accumulatorMs ≥ tickMs) {b' : Board}
    (hb : b.step b.dir = some b') : ∃ model framebuffer, main.step sys = some { main with
        state := { main.state with
          model
          framebuffer
          accumulatorMs := main.state.accumulatorMs - tickMs }
        log := main.log ++ [.move b.dir main.state.model main.state.targetAppleCount] } ∧
      model.Playing (b'.meal main.state.targetAppleCount) ∧
      main.state.framebuffer.snakeRenderStep model main.state.model.head main.state.model.tail =
        some framebuffer := by
  have hd := h.board.shows.dir
  have ⟨model, framebuffer, hm, hb', hr⟩ :=
    SnakeGameState.moveSnake_eq_of_some (s := main.state) h.board hb
  refine ⟨model, framebuffer, ?_, hb', hr⟩
  simp only [step, hp, tick]
  rw [if_pos <| h.due ht]
  simp only [h.popTurn_eq, hd, Option.getD_none, hm, Bool.not_true, Bool.false_eq_true, if_false,
    Option.bind_eq_bind, Option.bind_some, Option.pure_def]

theorem Running.dies (h : main.Running b accumulatorMs nowMs) (sys : Syscalls) {tickMs : UInt64}
    (hp : main.pc = .ticks tickMs) (ht : accumulatorMs ≥ tickMs) (hb : b.step b.dir = none)
    (hs : sys.sleep = true) : ∃ framebuffer, main.step sys = some { main with
      state := { main.state with
        alive := false
        phase := .gameOver
        framebuffer }
      pc := .frame
      log := main.log ++ [.move b.dir main.state.model main.state.targetAppleCount] ++ [.gameOver] } := by
  have hd := h.board.shows.dir
  have hm := SnakeGameState.moveSnake_eq_of_none (s := main.state) h.board hb
  have ⟨full, hf, _⟩ := Framebuffer.renderFull_pictures h.board.shows h.board.settled.toValid
    main.state.framebuffer
  have ⟨framebuffer, hr⟩ : ∃ fb,
      main.state.framebuffer.snakeRenderGameOver main.state.model = some fb := by
    simp [Framebuffer.snakeRenderGameOver, hf]
  refine ⟨framebuffer, ?_⟩
  simp only [step, hp, tick]
  rw [if_pos <| h.due ht]
  simp only [h.popTurn_eq, hd, Option.getD_none, hm, hr, SnakeGameState.showGameOver, Bool.not_false,
    if_true, Option.bind_eq_bind, Option.bind_some, Option.pure_def]
  rw [present_of_bound (by exact h.bound), endFrame_of_bound (by exact h.bound) hs]

-- The confirmation key starts a game in the menu.
theorem init_starts (state : SnakeGameState) (events : List Nat) (ms : UInt64)
    (hq : events.any (isPress snakeInputActionQuit) = false)
    (hd : events.any (isPress snakeInputActionMenuApplesDec) = false)
    (hi : events.any (isPress snakeInputActionMenuApplesInc) = false)
    (hr : events.any (isPress snakeInputActionRestart) = false)
    (hc : events.any (isPress snakeInputActionConfirm) = true) :
    ∃ main, (init state true).step (.quiet events ms) = some main ∧
      main.Running (.game (ms.toNat % 2 ^ 32) snakeDefaultAppleCount) 0 ms ∧ main.pc = .frame ∧
      main.log = events.map .key ++ [.start] ∧
      main.state.framebuffer.Pictures (.game (ms.toNat % 2 ^ 32) snakeDefaultAppleCount) ∧
      main.state.targetAppleCount = snakeDefaultAppleCount ∧
      main.state.input.isPending snakeInputActionConfirm = false := by
  have hT : (init state true).state.input.Turns [] := .init _ (by decide)
  obtain ⟨input, hp, hR⟩ := hT.poll ⟨events, false⟩
  have h₀ (mask : BitVec 8) : (init state true).state.input.isPending mask = false := by
    simp [isPending, init, SnakeGameState.present, SnakeGameState.showMenu,
      SnakeGameState.renderMenu, SnakeInput.init]
  have hn {mask : BitVec 8} (hm : events.any (isPress mask) = false) :
      input.takeAction mask = (false, input) :=
    takeAction_of_not_pending <| (hR.isPending_eq mask).trans <| by simp [h₀, hm]
  have hcp : input.isPending snakeInputActionConfirm = true := by
    rw [hR.isPending_eq]
    simp [h₀, hc]
  obtain ⟨input', hc⟩ : ∃ input', input.takeAction snakeInputActionConfirm = (true, input') :=
    ⟨_, Prod.ext hcp rfl⟩
  generalize hs : init state true = main at *
  have hpc : main.pc = .frame := hs ▸ rfl
  have hph : main.state.phase = .menu := hs ▸ rfl
  have hb : main.state.framebufferBound = 1 := hs ▸ rfl
  have ht : main.state.targetAppleCount = snakeDefaultAppleCount := hs ▸ rfl
  have hl : main.log = [] := hs ▸ rfl
  have hlt : ¬((events.length : Int) < 0) := by omega
  obtain ⟨model, framebuffer, hst, hpl, hpi⟩ := SnakeGameState.startGame_eq { main.state with
    input := input'
    phase := .menu } ms
  simp only at hst
  refine ⟨{ main with
    state := { main.state with
      input := input'.init .right
      model
      phase := .game
      alive := true
      paused := false
      accumulatorMs := 0
      lastTimeMs := ms
      framebuffer }
    log := events.map .key ++ [.start] }, ?_, ?_, hpc, rfl, ht ▸ hpi, ht, ?_⟩
  · simp only [step, hpc, SnakeMain.frame, menuFrame, startOrSleep, start, Syscalls.quiet, hp, hlt,
      hph, hn hq, hn hd, hn hi, hn hr, hc, hst, hl, SnakeGameState.takeAction,
      SnakeGameState.decApples, SnakeGameState.incApples, Option.bind_eq_bind, Option.bind_some,
      Option.pure_def, Bool.false_eq_true, false_and, if_false, if_true, Bool.or_self, List.nil_append]
    rw [present_of_bound (by exact hb)]
  · exact {
      board := ht ▸ hpl
      turns := .init _ (by decide)
      speed := by simp [isHeld, SnakeInput.init]
      quit := by simp [isPending, SnakeInput.init]
      restart := by simp [isPending, SnakeInput.init]
      pause := by simp [isPending, SnakeInput.init]
      phase := rfl
      alive := rfl
      paused := rfl
      acc := rfl
      last := rfl
      bound := hb }
  · simp [isPending, SnakeInput.init]

-- A confirmation which is still pending when the game is over starts the next game.
theorem restarts (main : SnakeMain) (hf : main.pc = .frame) (hp : main.state.phase = .gameOver)
    (hb : main.state.framebufferBound = 1)
    (hq : main.state.input.isPending snakeInputActionQuit = false)
    (hr : main.state.input.isPending snakeInputActionRestart = false)
    (hc : main.state.input.isPending snakeInputActionConfirm = true) (ms : UInt64) :
    ∃ main', main.step (.quiet [] ms) = some main' ∧ main'.log = main.log ++ [.start] := by
  have hpoll : main.state.input.poll ⟨[], false⟩ = some (0, main.state.input) := by simp [poll]
  obtain ⟨input', hc⟩ :
      ∃ input', main.state.input.takeAction snakeInputActionConfirm = (true, input') :=
    ⟨_, Prod.ext hc rfl⟩
  obtain ⟨model, framebuffer, hst, _⟩ := SnakeGameState.startGame_eq { main.state with
    input := input'
    phase := .gameOver } ms
  simp only at hst
  refine ⟨{ main with
    state := { main.state with
      input := input'.init .right
      model
      phase := .game
      alive := true
      paused := false
      accumulatorMs := 0
      lastTimeMs := ms
      framebuffer }
    pc := .frame
    log := main.log ++ [.start] }, ?_, rfl⟩
  simp only [step, hf, SnakeMain.frame, startOrSleep, start, Syscalls.quiet, hpoll, hp, hc, hst,
    takeAction_of_not_pending hq, takeAction_of_not_pending hr, SnakeGameState.takeAction,
    Option.bind_eq_bind, Option.bind_some, Option.pure_def, Int.lt_irrefl, Bool.false_eq_true,
    if_false, if_true, List.map_nil, List.append_nil]
  rw [present_of_bound (by exact hb)]

end SnakeMain
