import Yabloko.Snake.Log
import Yabloko.Snake.Loop

namespace SnakeEvent

def isMove : SnakeEvent → Bool
  | move .. => true
  | _       => false

end SnakeEvent

open SnakeEvent

-- The time of a game since it was started or resumed: the last reading of the clock, the times which the
-- frames have added, the lengths of the ticks in these frames, and the lengths of the executed ticks.
structure GameTime where
  clock  : UInt64
  frames : List Nat
  speeds : List Nat
  ticks  : List Nat

namespace GameTime

def start (clock : UInt64) : GameTime where
  clock
  frames := []
  speeds := []
  ticks  := []

def addFrame (time : GameTime) (clock tickMs : UInt64) : GameTime where
  clock
  frames := time.frames ++ [min (clock - time.clock).toNat 50]
  speeds := time.speeds ++ [tickMs.toNat]
  ticks  := time.ticks

-- A tick has the length which its frame has set.
def addTick (time : GameTime) : GameTime :=
  { time with ticks := time.ticks ++ time.speeds.getLast?.toList }

-- The length of a tick, which the speed key determines.
def tickMs (state : SnakeGameState) : UInt64 :=
  if state.input.isHeld snakeInputKeySpeed then 60 else 120

-- What a step of `main` adds. The time is reset when a start is logged and when the game is paused or
-- resumed. Every other frame counts in which the game is alive and not paused, and every move.
def observe (time : GameTime) (main : SnakeMain) (sys : Syscalls) (main' : SnakeMain) : GameTime :=
  let logged := main'.log.drop main.log.length
  match main.pc with
  | .frame    =>
    if logged.any isStart then
      start sys.startMs
    else
      let time := if main'.state.paused = main.state.paused then time else start sys.pauseMs
      if main'.state.phase = .game ∧ main'.state.alive ∧ !main'.state.paused then
        time.addFrame sys.frameMs (tickMs main'.state)
      else
        time
  | .ticks _  => if logged.any isMove then time.addTick else time
  | .exited _ => time

def after (time : GameTime) (main : SnakeMain) : List Syscalls → GameTime
  | []           => time
  | sys :: calls =>
    match main.step sys with
    | some main' => after (time.observe main sys main') main' calls
    | none       => time

end GameTime

-- The time which a frame adds.
def capMs (elapsedMs : UInt64) : UInt64 :=
  if elapsedMs > snakeFrameTimeCapMs then snakeFrameTimeCapMs else elapsedMs

theorem capMs_toNat (elapsedMs : UInt64) : (capMs elapsedMs).toNat = min elapsedMs.toNat 50 := by
  have hc : (50 : UInt64).toNat = 50 := rfl
  simp only [capMs, snakeFrameTimeCapMs, gt_iff_lt, UInt64.lt_iff_toNat_lt, hc]
  split
  case isTrue  => omega
  case isFalse => omega

namespace SnakeMain

-- The game is running, alive and not paused.
structure Plays (main : SnakeMain) : Prop where
  phase  : main.state.phase = .game
  alive  : main.state.alive = true
  paused : main.state.paused = false
  runs   : ∀ code, main.pc ≠ .exited code

-- A frame which does not get to the inner loop: the game is not running afterwards, or it has just been
-- started.
structure Rests (sys : Syscalls) (log : List SnakeEvent) (main' : SnakeMain) : Prop where
  pc    : main'.pc.Outer
  fresh : main'.pc = .frame → main'.state.phase = .game →
            main'.state.accumulatorMs = 0 ∧ main'.state.lastTimeMs = sys.startMs ∧
            ∃ l, main'.log = log ++ l ∧ l.any isStart

-- The time of a frame is added to the accumulator, which the pause key has reset before.
structure Advances (tickMs : UInt64) (sys : Syscalls) (main main' : SnakeMain) : Prop where
  pc     : main'.pc = .ticks tickMs
  speed  : tickMs = GameTime.tickMs main'.state
  log    : ∃ l, main'.log = main.log ++ l ∧ l.any isStart = false
  phase  : main'.state.phase = main.state.phase
  alive  : main'.state.alive = main.state.alive
  last   : main'.state.lastTimeMs = sys.frameMs
  kept   : main'.state.paused = false → main.state.paused = false →
             main'.state.accumulatorMs =
               main.state.accumulatorMs + capMs (sys.frameMs - main.state.lastTimeMs)
  resume : main'.state.paused = false → main.state.paused = true →
             main'.state.accumulatorMs = capMs (sys.frameMs - sys.pauseMs)

-- The parts of the state which are concerned with the time, in the inner loop.
structure SameClock (main main' : SnakeMain) : Prop where
  phase  : main'.state.phase = main.state.phase
  alive  : main'.state.alive = main.state.alive
  paused : main'.state.paused = main.state.paused
  last   : main'.state.lastTimeMs = main.state.lastTimeMs

-- What a step does with the time of the game.
inductive Timed (sys : Syscalls) (main main' : SnakeMain) : Prop
  | exited (code : Int) (h : main.pc = .exited code) (he : main' = main)
  | rests (hf : main.pc = .frame) (h : Rests sys main.log main')
  | advances (tickMs : UInt64) (hf : main.pc = .frame) (h : Advances tickMs sys main main')
  | moves (tickMs : UInt64) (ht : main.pc = .ticks tickMs) (h : SameClock main main')
      (hp : main'.pc = .ticks tickMs) (hn : main.state.paused = false ∧ main.state.alive = true)
      (hd : main.state.accumulatorMs ≥ tickMs)
      (ha : main'.state.accumulatorMs = main.state.accumulatorMs - tickMs)
      (hl : ∃ l, main'.log = main.log ++ l ∧ l.any isMove)
  | ends (tickMs : UInt64) (ht : main.pc = .ticks tickMs) (h : SameClock main main')
      (hp : main'.pc.Outer) (ha : main'.state.accumulatorMs = main.state.accumulatorMs)
      (hn : main.Plays → ¬main.state.accumulatorMs ≥ tickMs) (hl : main'.log = main.log)
  | dies (tickMs : UInt64) (ht : main.pc = .ticks tickMs) (hp : main'.pc.Outer)
      (hg : main'.state.phase = .gameOver)

variable {sys : Syscalls} {main main' : SnakeMain} {log : List SnakeEvent}

theorem Rests.append {l : List SnakeEvent} (h : Rests sys (log ++ l) main') : Rests sys log main' where
  pc := h.pc
  fresh hf hp :=
    have ⟨ha, hl, l', he, hs⟩ := h.fresh hf hp
    ⟨ha, hl, l ++ l', by rw [he, List.append_assoc], by rw [List.any_append, hs, Bool.or_true]⟩

theorem start_rests (hs : main.start sys = some main') : Rests sys main.log main' := by
  obtain ⟨model, framebuffer, he, _⟩ := main.state.startGame_eq sys.startMs
  simp only [start, he, Option.bind_eq_bind, Option.bind_some, Option.pure_def,
    Option.some.injEq] at hs
  obtain ⟨bound, pc, he, ho⟩ := present_outer
    { main with
      state := { main.state with
        input := main.state.input.init .right
        model
        phase := .game
        alive := true
        paused := false
        accumulatorMs := 0
        lastTimeMs := sys.startMs
        framebuffer }
      log := main.log ++ [.start] }
    sys _ (fun main => ⟨main.state.framebufferBound, .frame, rfl, .inl rfl⟩)
  rw [← hs, he]
  exact ⟨ho, fun _ _ => ⟨rfl, rfl, [.start], rfl, rfl⟩⟩

theorem exit_rests (main : SnakeMain) (sys : Syscalls) (log : List SnakeEvent) (code : Int) :
    Rests sys log (main.exit code) where
  pc := .inr ⟨code, rfl⟩
  fresh := nofun

theorem startOrSleep_rests (hp : main.state.phase ≠ .game) (hs : main.startOrSleep sys = some main') :
    Rests sys main.log main' := by
  simp only [startOrSleep] at hs
  split at hs
  case isTrue  => exact start_rests hs
  case isFalse =>
    split at hs
    case isTrue  => exact start_rests hs
    case isFalse =>
      obtain ⟨pc, he, ho⟩ := sleep_eq { main with
        state := ((main.state.takeAction snakeInputActionRestart).2.takeAction
          snakeInputActionConfirm).2 } sys
      rw [Option.some.injEq, he] at hs
      rw [← hs]
      exact ⟨ho, fun _ hg => absurd hg hp⟩

theorem decApples_phase (state : SnakeGameState) : state.decApples.2.phase = state.phase := by
  simp only [SnakeGameState.decApples]
  split <;> rfl

theorem incApples_phase (state : SnakeGameState) : state.incApples.2.phase = state.phase := by
  simp only [SnakeGameState.incApples]
  split <;> rfl

theorem present_phase (state : SnakeGameState) (enter13h : Bool) :
    (state.present enter13h).2.phase = state.phase := by
  simp only [SnakeGameState.present]
  split_ifs <;> rfl

theorem menuFrame_rests (hp : main.state.phase = .menu) (hs : main.menuFrame sys = some main') :
    Rests sys main.log main' := by
  have hphase : main.state.decApples.2.incApples.2.phase ≠ .game := by
    rw [incApples_phase, decApples_phase, hp]
    nofun
  simp only [menuFrame] at hs
  split at hs
  case isFalse =>
    have h := startOrSleep_rests hphase hs
    exact h
  case isTrue  =>
    split at hs
    case isTrue  =>
      have h := startOrSleep_rests (by rw [present_phase]; exact hphase) hs
      exact h
    case isFalse =>
      rw [Option.some.injEq] at hs
      rw [← hs]
      exact exit_rests _ sys _ 1

theorem togglePause_clock {s s' : SnakeGameState} {nowMs : UInt64} (h : s.togglePause nowMs = some s') :
    s'.phase = s.phase ∧ s'.alive = s.alive ∧ s'.paused = !s.paused ∧ s'.accumulatorMs = 0 ∧
      s'.lastTimeMs = nowMs := by
  simp only [SnakeGameState.togglePause, Option.bind_eq_bind] at h
  split at h
  case isTrue  =>
    obtain ⟨framebuffer, _, he⟩ := Option.bind_eq_some_iff.mp h
    rw [← Option.some.inj he]
    exact ⟨rfl, rfl, rfl, rfl, rfl⟩
  case isFalse =>
    obtain ⟨framebuffer, _, he⟩ := Option.bind_eq_some_iff.mp h
    rw [← Option.some.inj he]
    exact ⟨rfl, rfl, rfl, rfl, rfl⟩

theorem gameFrame_cases (hs : main.gameFrame sys = some main') :
    Rests sys main.log main' ∨ ∃ tickMs, Advances tickMs sys main main' := by
  simp only [gameFrame, Option.bind_eq_bind] at hs
  split at hs
  case isTrue  => exact .inl (start_rests hs)
  case isFalse =>
    split at hs
    case isFalse =>
      simp only [Option.pure_def, Option.bind_some, Option.some.injEq] at hs
      rw [← hs]
      refine .inr ⟨_, rfl, rfl, ⟨[], by simp, rfl⟩, rfl, rfl, rfl, fun hp _ => ?_, fun hp hq => ?_⟩
      · exact if_pos (by simpa using hp)
      · exact absurd (hp.symm.trans hq) Bool.false_ne_true
    case isTrue  =>
      obtain ⟨s, ht, hs⟩ := Option.bind_eq_some_iff.mp hs
      obtain ⟨hphase, halive, hpaused, hacc, hlast⟩ := togglePause_clock ht
      rw [Option.pure_def, Option.some.injEq] at hs
      rw [← hs]
      refine .inr ⟨_, rfl, rfl, ⟨[], by simp, rfl⟩, hphase, halive, rfl, fun hp hq => ?_, fun hp _ => ?_⟩
      · have hp : s.paused = false := hp
        have hq : main.state.paused = false := hq
        exact absurd (hp.symm.trans (hpaused.trans (congrArg (!·) hq))) Bool.false_ne_true
      · have hp : s.paused = false := hp
        simp only [hp, hacc, hlast, Bool.not_false, if_true]
        exact UInt64.zero_add _

theorem any_isStart_keys (sys : Syscalls) : (keys sys).any isStart = false := by
  simp [keys, isStart]

theorem frame_timed (hf : main.pc = .frame) (hs : main.frame sys = some main') : Timed sys main main' := by
  simp only [frame, Option.bind_eq_bind] at hs
  obtain ⟨⟨processed, input⟩, _, hs⟩ := Option.bind_eq_some_iff.mp hs
  simp only at hs
  split at hs
  case isTrue  => exact .rests hf (Option.some.inj hs ▸ exit_rests _ sys _ 1)
  case isFalse =>
    split at hs
    case isTrue  => exact .rests hf (Option.some.inj hs ▸ exit_rests _ sys _ 0)
    case isFalse =>
      split at hs
      case h_1 hm =>
        refine .rests hf (menuFrame_rests ?_ hs).append
        exact hm
      case h_2 hm =>
        refine .rests hf (startOrSleep_rests ?_ hs).append
        exact fun hg => absurd (hm.symm.trans hg) (by decide)
      case h_3 hm =>
        cases gameFrame_cases hs
        case inl h => exact .rests hf h.append
        case inr h =>
          obtain ⟨tickMs, h⟩ := h
          obtain ⟨l, he, hl⟩ := h.log
          refine .advances tickMs hf ⟨h.pc, h.speed, ⟨keys sys ++ l, ?_, ?_⟩, h.phase, h.alive, h.last,
            h.kept, h.resume⟩
          · rw [he]
            exact List.append_assoc _ _ _
          · rw [List.any_append, hl, Bool.or_false]
            exact any_isStart_keys sys

-- The move of the snake changes the model and the screen.
theorem moveSnake_clock {s s' : SnakeGameState} {d : SnakeDir} {moved : Bool}
    (h : s.moveSnake d = some (moved, s')) :
    ∃ model framebuffer, s' = { s with model, framebuffer } := by
  simp only [SnakeGameState.moveSnake, Option.bind_eq_bind] at h
  obtain ⟨⟨moved', model⟩, _, h⟩ := Option.bind_eq_some_iff.mp h
  simp only at h
  split at h
  case isTrue  =>
    rw [Option.pure_def, Option.some.injEq, Prod.mk.injEq] at h
    exact ⟨model, s.framebuffer, h.right.symm⟩
  case isFalse =>
    obtain ⟨⟨eaten, model'⟩, _, h⟩ := Option.bind_eq_some_iff.mp h
    simp only at h
    split at h
    case isTrue  =>
      obtain ⟨model'', _, h⟩ := Option.bind_eq_some_iff.mp h
      obtain ⟨framebuffer, _, h⟩ := Option.bind_eq_some_iff.mp h
      rw [Option.pure_def, Option.some.injEq, Prod.mk.injEq] at h
      exact ⟨model'', framebuffer, h.right.symm⟩
    case isFalse =>
      obtain ⟨model'', _, h⟩ := Option.bind_eq_some_iff.mp h
      obtain ⟨framebuffer, _, h⟩ := Option.bind_eq_some_iff.mp h
      rw [Option.pure_def, Option.some.injEq, Prod.mk.injEq] at h
      exact ⟨model'', framebuffer, h.right.symm⟩

theorem present_endFrame (main : SnakeMain) (sys : Syscalls) :
    (main.present sys (endFrame · sys)).pc.Outer ∧
      (main.present sys (endFrame · sys)).state.phase = main.state.phase := by
  have ⟨bound, pc, he, ho⟩ := main.present_outer sys (endFrame · sys) fun main => main.endFrame_eq sys
  rw [he]
  exact ⟨ho, rfl⟩

theorem tick_timed {tickMs : UInt64} (ht : main.pc = .ticks tickMs) (hs : main.tick tickMs sys = some main') :
    Timed sys main main' := by
  simp only [tick, Option.bind_eq_bind] at hs
  split at hs
  case isFalse hn =>
    obtain ⟨bound, pc, he, ho⟩ := main.endFrame_eq sys
    rw [Option.pure_def, Option.some.injEq, he] at hs
    rw [← hs]
    refine .ends tickMs ht ⟨rfl, rfl, rfl, rfl⟩ ho rfl (fun hp hd => hn ⟨?_, hp.alive, hd⟩) rfl
    rw [hp.paused]
    rfl
  case isTrue hd  =>
    obtain ⟨⟨turn, input⟩, _, hs⟩ := Option.bind_eq_some_iff.mp hs
    obtain ⟨⟨moved, s'⟩, hm, hs⟩ := Option.bind_eq_some_iff.mp hs
    obtain ⟨model, framebuffer, he⟩ := moveSnake_clock hm
    subst he
    cases moved
    case true  =>
      simp only [Bool.not_true, Bool.false_eq_true, if_false, Option.pure_def, Option.some.injEq] at hs
      rw [← hs]
      exact .moves tickMs ht ⟨rfl, rfl, rfl, rfl⟩ ht ⟨by simpa using hd.left, hd.right.left⟩
        hd.right.right rfl ⟨[_], rfl, rfl⟩
    case false =>
      obtain ⟨s', hg, hs⟩ := Option.bind_eq_some_iff.mp hs
      simp only [SnakeGameState.showGameOver, Option.bind_eq_bind] at hg
      obtain ⟨framebuffer', _, hg⟩ := Option.bind_eq_some_iff.mp hg
      rw [Option.pure_def, Option.some.injEq] at hg hs
      rw [← hs, ← hg]
      exact .dies tickMs ht (present_endFrame _ sys).left (present_endFrame _ sys).right

theorem step_timed (hs : main.step sys = some main') : Timed sys main main' := by
  simp only [step] at hs
  split at hs
  case h_1 hf      => exact frame_timed hf hs
  case h_2 ht      => exact tick_timed ht hs
  case h_3 code he => exact .exited code he (Option.some.inj hs).symm

-- The accounting of the time of a running game.
structure Balanced (main : SnakeMain) (time : GameTime) : Prop where
  clock : time.clock = main.state.lastTimeMs
  sum   : time.ticks.sum + main.state.accumulatorMs.toNat = time.frames.sum
  range : ∀ t ∈ time.speeds, t = 60 ∨ t = 120
  ticks : ∀ t ∈ time.ticks, t ∈ time.speeds
  inner : ∀ tickMs, main.pc = .ticks tickMs →
            main.state.accumulatorMs.toNat < 170 ∧ time.speeds.getLast? = some tickMs.toNat
  outer : main.pc = .frame → time.speeds.getLast?.elim (main.state.accumulatorMs = 0)
            (main.state.accumulatorMs.toNat < ·)

variable {time : GameTime}

theorem SameClock.plays (h : SameClock main main') (ht : ∀ code, main.pc ≠ .exited code)
    (hp : main'.Plays) : main.Plays where
  phase := h.phase ▸ hp.phase
  alive := h.alive ▸ hp.alive
  paused := h.paused ▸ hp.paused
  runs := ht

theorem Plays.frame_of_outer (h : main.Plays) (ho : main.pc.Outer) : main.pc = .frame := by
  cases ho
  case inl h  => exact h
  case inr he =>
    have ⟨code, he⟩ := he
    exact absurd he (h.runs code)

theorem Balanced.acc_lt (h : main.Balanced time) (hf : main.pc = .frame) :
    main.state.accumulatorMs.toNat < 120 := by
  have ho := h.outer hf
  cases hl : time.speeds.getLast?
  case none =>
    rw [hl, Option.elim_none] at ho
    rw [ho]
    decide
  case some t =>
    rw [hl, Option.elim_some] at ho
    have := h.range t (List.mem_of_getLast? hl)
    omega

-- The frame of a game which has not been paused.
theorem Balanced.addFrame (h : main.Balanced time) (hf : main.pc = .frame) {tickMs : UInt64}
    (ha : Advances tickMs sys main main') (hacc : main'.state.accumulatorMs =
      main.state.accumulatorMs + capMs (sys.frameMs - main.state.lastTimeMs)) :
    main'.Balanced (time.addFrame sys.frameMs tickMs) := by
  have hlt := h.acc_lt hf
  have hc := capMs_toNat (sys.frameMs - main.state.lastTimeMs)
  have hadd : main'.state.accumulatorMs.toNat = main.state.accumulatorMs.toNat +
      min (sys.frameMs - main.state.lastTimeMs).toNat 50 := by
    rw [hacc, UInt64.toNat_add, hc]
    omega
  have hspeed : tickMs.toNat = 60 ∨ tickMs.toNat = 120 := by
    rw [ha.speed, GameTime.tickMs]
    split
    case isTrue  => exact .inl rfl
    case isFalse => exact .inr rfl
  exact {
    clock := ha.last.symm
    sum := by
      have hs := h.sum
      simp only [GameTime.addFrame, List.sum_append, List.sum_singleton, h.clock]
      omega
    range := fun t ht => by
      simp only [GameTime.addFrame, List.mem_append, List.mem_singleton] at ht
      rcases ht with ht | rfl
      case inl => exact h.range t ht
      case inr => exact hspeed
    ticks := fun t ht => List.mem_append_left _ (h.ticks t ht)
    inner := fun t ht => by
      rw [ha.pc, Pc.ticks.injEq] at ht
      rw [← ht, GameTime.addFrame, List.getLast?_concat]
      exact ⟨by omega, rfl⟩
    outer := fun hf => nomatch ha.pc.symm.trans hf }

-- A game whose time has just been reset.
theorem balanced_start (hf : main.pc = .frame) (ha : main.state.accumulatorMs = 0) :
    main.Balanced (.start main.state.lastTimeMs) where
  clock := rfl
  sum := by
    rw [ha]
    rfl
  range := nofun
  ticks := nofun
  inner := fun _ ht => nomatch hf.symm.trans ht
  outer _ := ha

theorem Timed.balanced (h : main.Plays → main.Balanced time) (hs : Timed sys main main')
    (hp : main'.Plays) : main'.Balanced (time.observe main sys main') := by
  cases hs
  case exited code he hm =>
    subst hm
    exact absurd he (hp.runs code)
  case rests hf hr =>
    have hf' := hp.frame_of_outer hr.pc
    have ⟨ha, hl, l, he, hs⟩ := hr.fresh hf' hp.phase
    simp only [GameTime.observe, hf, he, List.drop_left, hs, if_true, ← hl]
    exact balanced_start hf' ha
  case advances tickMs hf ha =>
    have ⟨l, he, hn⟩ := ha.log
    have hc : main'.state.phase = .game ∧ main'.state.alive = true ∧ (!main'.state.paused) = true := by
      rw [hp.paused]
      exact ⟨hp.phase, hp.alive, rfl⟩
    simp only [GameTime.observe, hf, he, List.drop_left, hn, Bool.false_eq_true, if_false]
    rw [if_pos hc, ← ha.speed, hp.paused]
    cases hq : main.state.paused
    case false =>
      have hm : main.Plays := ⟨ha.phase ▸ hp.phase, ha.alive ▸ hp.alive, hq, fun _ he => nomatch hf.symm.trans he⟩
      rw [if_pos rfl]
      exact (h hm).addFrame hf ha (ha.kept hp.paused hq)
    case true  =>
      -- The accumulator and the clock have been reset by the pause key.
      have h₀ : Balanced { main with state := { main.state with
          accumulatorMs := 0
          lastTimeMs := sys.pauseMs } } (.start sys.pauseMs) := balanced_start hf rfl
      rw [if_neg nofun]
      refine h₀.addFrame hf ?_ ?_
      · exact { ha with
          kept := fun _ _ => (ha.resume hp.paused hq).trans (UInt64.zero_add _).symm
          resume := ha.resume }
      · exact (ha.resume hp.paused hq).trans (UInt64.zero_add _).symm
  case moves tickMs ht hc ht' _ hd ha he =>
    have ⟨l, he, hm⟩ := he
    have hb := h <| hc.plays (fun _ he => nomatch ht.symm.trans he) hp
    have ⟨hlt, hl⟩ := hb.inner tickMs ht
    have hsub : main'.state.accumulatorMs.toNat = main.state.accumulatorMs.toNat - tickMs.toNat := by
      rw [ha, UInt64.toNat_sub_of_le _ _ hd]
    have hle := UInt64.le_iff_toNat_le.mp hd
    simp only [GameTime.observe, ht, he, List.drop_left, hm, if_true, GameTime.addTick, hl,
      Option.toList_some]
    exact {
      clock := hb.clock.trans hc.last.symm
      sum := by
        have hs := hb.sum
        simp only [List.sum_append, List.sum_singleton]
        omega
      range := hb.range
      ticks := fun t hm => by
        simp only [List.mem_append, List.mem_singleton] at hm
        rcases hm with hm | rfl
        case inl => exact hb.ticks t hm
        case inr => exact List.mem_of_getLast? hl
      inner := fun t hp => by
        rw [ht', Pc.ticks.injEq] at hp
        rw [← hp]
        exact ⟨by omega, hl⟩
      outer := fun hf => nomatch ht'.symm.trans hf }
  case ends tickMs ht hc ho ha hn he =>
    have hm := hc.plays (fun _ he => nomatch ht.symm.trans he) hp
    have hb := h hm
    have hf := hp.frame_of_outer ho
    have ⟨_, hl⟩ := hb.inner tickMs ht
    have hlt := hn hm
    rw [ge_iff_le, UInt64.le_iff_toNat_le] at hlt
    simp only [GameTime.observe, ht, he, List.drop_length, List.any_nil, Bool.false_eq_true, if_false]
    exact {
      clock := hb.clock.trans hc.last.symm
      sum := ha ▸ hb.sum
      range := hb.range
      ticks := hb.ticks
      inner := fun _ ht => nomatch hf.symm.trans ht
      outer := fun _ => by
        rw [hl, ha]
        exact Nat.lt_of_not_le hlt }
  case dies tickMs _ _ hg => exact nomatch hg.symm.trans hp.phase

-- The inner loop stops, after a number of rounds which the accumulator determines.
theorem rounds_stop {n : Nat} {tickMs : UInt64} (hi : Inv main)
    (h : main.Plays → main.state.accumulatorMs.toNat < tickMs.toNat * n) (ht : main.pc = .ticks tickMs)
    (hn : 0 < n) {calls : List Syscalls} (hl : n ≤ calls.length) :
    ∃ k ≤ n, ∃ main', main.run (calls.take k) = some main' ∧ main'.pc.Outer := by
  induction n generalizing main calls
  case zero       => exact absurd hn (Nat.lt_irrefl 0)
  case succ n hin =>
    match calls with
    | []           => simp at hl
    | sys :: calls =>
      have ⟨main₁, hs, hstep⟩ := hi.step sys
      have hone (ho : main₁.pc.Outer) :
          ∃ k ≤ n + 1, ∃ main', main.run ((sys :: calls).take k) = some main' ∧ main'.pc.Outer :=
        ⟨1, Nat.le_add_left 1 n, main₁, by rw [List.take_succ_cons, run_cons hs]; rfl, ho⟩
      cases step_timed hs
      case exited he _          => exact nomatch ht.symm.trans he
      case rests hf _           => exact nomatch ht.symm.trans hf
      case advances hf _        => exact nomatch ht.symm.trans hf
      case ends hp _ _ _        => exact hone hp
      case dies hp _            => exact hone hp
      case moves t ht₀ hc ht₁ hq hd ha _ =>
        cases ht.symm.trans ht₀
        have hm : main.Plays :=
          ⟨hi.ticks tickMs ht, hq.right, hq.left, fun _ he => nomatch ht.symm.trans he⟩
        have hlt := h hm
        have hle := UInt64.le_iff_toNat_le.mp hd
        have hsub : main₁.state.accumulatorMs.toNat = main.state.accumulatorMs.toNat - tickMs.toNat := by
          rw [ha, UInt64.toNat_sub_of_le _ _ hd]
        rw [Nat.mul_succ] at hlt
        have hn : 0 < n := by
          by_contra hc
          simp only [Nat.eq_zero_of_not_pos hc, Nat.mul_zero, Nat.zero_add] at hlt
          omega
        have ⟨k, hk, main', hr, ho⟩ := hin (hstep.inv hi) (fun _ => by omega) ht₁ hn
          (show n ≤ calls.length by simpa using hl)
        exact ⟨k + 1, by omega, main', by rw [List.take_succ_cons, run_cons hs, hr], ho⟩

-- The time of the game is conserved.
structure TimeConserved (main : SnakeMain) (time : GameTime) : Prop where
  sum   : main.Plays → time.ticks.sum + main.state.accumulatorMs.toNat = time.frames.sum
  range : main.Plays → ∀ t ∈ time.ticks ++ time.speeds, t = 60 ∨ t = 120
  -- After a frame, the accumulator is below the length of its ticks.
  rest  : main.Plays → main.pc = .frame → time.speeds.getLast?.elim (main.state.accumulatorMs = 0)
            (main.state.accumulatorMs.toNat < ·)
  -- At a constant speed, the number of ticks depends only on the total time.
  count : main.Plays → main.pc = .frame → ∀ tickMs, (∀ t ∈ time.speeds, t = tickMs) →
            time.ticks.length = time.frames.sum / tickMs
  -- The subtraction in the inner loop does not wrap, and the loop stops.
  exact : ∀ tickMs, main.pc = .ticks tickMs → ∀ sys main', main.step sys = some main' →
            main'.pc = .ticks tickMs →
            main'.state.accumulatorMs.toNat + tickMs.toNat = main.state.accumulatorMs.toNat
  stops : ∀ tickMs, main.pc = .ticks tickMs → ∀ calls : List Syscalls, 3 ≤ calls.length →
            ∃ k ≤ 3, ∃ main', main.run (calls.take k) = some main' ∧ main'.pc.Outer

theorem Balanced.count (h : main.Balanced time) (hf : main.pc = .frame) {tickMs : Nat}
    (hc : ∀ t ∈ time.speeds, t = tickMs) : time.ticks.length = time.frames.sum / tickMs := by
  have hs := h.sum
  have ho := h.outer hf
  have hsum : time.ticks.sum = time.ticks.length * tickMs :=
    List.sum_eq_card_nsmul _ _ fun t ht => hc t (h.ticks t ht)
  cases hl : time.speeds.getLast?
  case none =>
    -- No frame has been counted yet.
    have ht : time.ticks = [] := List.eq_nil_iff_forall_not_mem.mpr fun t ht => by
      have := h.ticks t ht
      rw [List.getLast?_eq_none_iff.mp hl] at this
      exact nomatch this
    rw [hl, Option.elim_none] at ho
    rw [ht, ho] at hs
    rw [ht, ← hs]
    exact (Nat.zero_div tickMs).symm
  case some t =>
    rw [hl, Option.elim_some, hc t (List.mem_of_getLast? hl)] at ho
    rw [← hs, hsum, Nat.mul_comm, Nat.mul_add_div (Nat.zero_lt_of_lt ho), Nat.div_eq_of_lt ho,
      Nat.add_zero]

theorem Inv.timeConserved (hi : Inv main) (h : main.Plays → main.Balanced time) :
    main.TimeConserved time where
  sum hp := (h hp).sum
  range hp t ht := by
    rcases List.mem_append.mp ht with ht | ht
    case inl => exact (h hp).range t ((h hp).ticks t ht)
    case inr => exact (h hp).range t ht
  rest hp := (h hp).outer
  count hp hf _ := (h hp).count hf
  exact tickMs ht sys main' hs ht' := by
    cases step_timed hs
    case exited he _   => exact nomatch ht.symm.trans he
    case rests hf _    => exact nomatch ht.symm.trans hf
    case advances hf _ => exact nomatch ht.symm.trans hf
    case ends hp _ _ _ => exact absurd ht' (hp.ne_ticks tickMs)
    case dies hp _     => exact absurd ht' (hp.ne_ticks tickMs)
    case moves t ht₀ _ _ _ hd ha _ =>
      cases ht.symm.trans ht₀
      have hle := UInt64.le_iff_toNat_le.mp hd
      rw [ha, UInt64.toNat_sub_of_le _ _ hd]
      omega
  stops tickMs ht calls hl := by
    refine rounds_stop hi (fun hp => ?_) ht (by omega) hl
    have ⟨hlt, hm⟩ := (h hp).inner tickMs ht
    have := (h hp).range _ (List.mem_of_getLast? hm)
    omega

theorem run_balanced (hi : Inv main) (h : main.Plays → main.Balanced time) (calls : List Syscalls) :
    ∃ main', main.run calls = some main' ∧ Inv main' ∧
      (main'.Plays → main'.Balanced (time.after main calls)) := by
  induction calls generalizing main time
  case nil                => exact ⟨main, rfl, hi, h⟩
  case cons sys calls hic =>
    have ⟨main₁, hs, hstep⟩ := hi.step sys
    have ⟨main', hr, hi', h'⟩ := hic (hstep.inv hi) fun hp => (step_timed hs).balanced h hp
    refine ⟨main', by rw [run_cons hs, hr], hi', ?_⟩
    rwa [GameTime.after, hs]

-- In every run, with any readings of the clock and any changes of the speed.
theorem run_time_conserved (state : SnakeGameState) (enter13h : Bool) (clock : UInt64)
    (calls : List Syscalls) : ∃ main, (init state enter13h).run calls = some main ∧
      main.TimeConserved (GameTime.after (.start clock) (init state enter13h) calls) := by
  have hn : ¬(init state enter13h).Plays := by
    intro hp
    have hm : (init state enter13h).state.phase = .menu := by cases enter13h <;> rfl
    exact nomatch hm.symm.trans hp.phase
  have h₀ : (init state enter13h).Plays → (init state enter13h).Balanced (.start clock) :=
    fun hp => absurd hp hn
  have ⟨main, hr, hi, hb⟩ := run_balanced (init_inv state enter13h) h₀ calls
  exact ⟨main, hr, hi.timeConserved hb⟩

end SnakeMain
