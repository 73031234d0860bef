import Yabloko.Snake.Frames
import Yabloko.Snake.Log

open SnakeInput SnakeEvent

namespace SnakeMain

-- An event which is a press of a key for one of the actions has been delivered in the current phase.
def Pressed (actionMask : BitVec 8) (log : List SnakeEvent) : Prop :=
  ∃ event, .key event ∈ since isTransition log ∧ isPress actionMask event

-- Each game which is started when the last one is over follows a press of R or enter, which has been
-- delivered since the last game has ended.
def Fresh (log : List SnakeEvent) : Prop :=
  ∀ pre, pre ++ [.start] <+: log → loggedPhase pre = .gameOver →
    Pressed snakeInputActionRestart pre ∨ Pressed snakeInputActionConfirm pre

-- No press of enter has been delivered in a game before its end.
def ConfirmFree (log : List SnakeEvent) : Prop :=
  ∀ pre, pre ++ [.gameOver] <+: log → ¬Pressed snakeInputActionConfirm pre

variable {main main' : SnakeMain} {sys : Syscalls} {log log' : List SnakeEvent} {e : SnakeEvent}
  {mask : BitVec 8}

theorem prefix_concat_of_append (hn : e ∉ log') {pre : List SnakeEvent}
    (h : pre ++ [e] <+: log ++ log') : pre ++ [e] <+: log := by
  induction log' using List.reverseRecOn
  case nil => simpa using h
  case append_singleton l e' hi =>
    simp at hn
    rw [← List.append_assoc] at h
    cases List.prefix_concat_iff.mp h
    case inl he => exact absurd (List.append_inj_right' he rfl) <| by simpa using hn.right
    case inr h  => exact hi hn.left h

theorem Fresh.append (h : Fresh log) (hn : .start ∉ log') : Fresh (log ++ log') :=
  fun pre hp => h pre <| prefix_concat_of_append hn hp

theorem Fresh.concat (h : Fresh log) (hs : loggedPhase log = .gameOver →
    Pressed snakeInputActionRestart log ∨ Pressed snakeInputActionConfirm log) :
    Fresh (log ++ [.start]) := by
  intro pre hp ho
  cases List.prefix_concat_iff.mp hp
  case inr hp => exact h pre hp ho
  case inl he =>
    have he := List.append_inj_left' he rfl
    exact he ▸ hs (he ▸ ho)

theorem ConfirmFree.of_append (h : ConfirmFree (log ++ log')) : ConfirmFree log :=
  fun pre hp => h pre <| hp.trans <| List.prefix_append _ _

theorem Pressed.append (h : Pressed mask log) (hn : ∀ e ∈ log', e.isTransition = false) :
    Pressed mask (log ++ log') := by
  have ⟨event, hm, hp⟩ := h
  exact ⟨event, since_append hn ▸ List.mem_append_left _ hm, hp⟩

theorem not_pressed_gameOver (log : List SnakeEvent) : ¬Pressed mask (log ++ [.gameOver]) := by
  rw [Pressed, since_concat rfl]
  simp

theorem keys_not_isTransition (sys : Syscalls) : ∀ e ∈ keys sys, e.isTransition = false := by
  simp [keys, isTransition]

-- An action which is pending after the events of a frame was pending before, or is the one of an event.
theorem Pressed.of_pending {input : SnakeInput} (hr : Received main.state.input input sys.batch.events)
    (h : input.isPending mask) :
    main.state.input.isPending mask ∨ Pressed mask (main.log ++ keys sys) := by
  rw [hr.isPending_eq, Bool.or_eq_true] at h
  cases h
  case inl h => exact .inl h
  case inr h =>
    have ⟨event, hm, hp⟩ := List.any_eq_true.mp h
    refine .inr ⟨event, ?_, hp⟩
    rw [since_append <| keys_not_isTransition sys]
    exact List.mem_append_right _ <| List.mem_map_of_mem hm

-- Where the pending actions of a state come from.
structure Tracked (main : SnakeMain) : Prop where
  phase   : loggedPhase main.log = main.state.phase
  restart : (∀ code, main.pc ≠ .exited code) → main.state.phase ≠ .menu →
              main.state.input.isPending snakeInputActionRestart = false
  confirm : main.state.phase = .game → main.state.input.isPending snakeInputActionConfirm →
              Pressed snakeInputActionConfirm main.log
  ended   : main.state.phase = .gameOver → main.pc = .frame →
              main.state.input.isPending snakeInputActionConfirm →
              ∃ pre, main.log = pre ++ [.gameOver] ∧ Pressed snakeInputActionConfirm pre
  fresh   : ConfirmFree main.log → Fresh main.log

theorem Tracked.append (h : main.Tracked) (hf : ConfirmFree main'.log)
    (hl : main'.log = main.log ++ log') (hn : .start ∉ log') : Fresh main'.log := by
  rw [hl] at hf ⊢
  exact (h.fresh hf.of_append).append hn

theorem Starts.tracked (h : main.Tracked) (hs : Starts sys main main') : main'.Tracked := by
  obtain ⟨input, hi⟩ := hs.fresh
  have hn (mask : BitVec 8) : main'.state.input.isPending mask = false := by
    simp [hi, isPending, SnakeInput.init]
  exact {
    phase := by rw [hs.log, loggedPhase_concat, hs.phase, phaseAfter]
    restart := fun _ _ => hn _
    confirm := fun _ hc => by simp [hn] at hc
    ended := by simp [hs.phase]
    fresh := fun hf => by
      rw [hs.log] at hf ⊢
      have hf : ConfirmFree main.log := hf.of_append.of_append
      have hk : .start ∉ keys sys := by simp [keys]
      apply ((h.fresh hf).append hk).concat
      intro ho
      rw [loggedPhase_append <| keys_not_isTransition sys, h.phase] at ho
      obtain ⟨input, hr, hc⟩ := hs.input
      cases hc
      case inl hc =>
        have hn := h.restart (by simp [hs.frame]) (by simp [ho])
        cases Pressed.of_pending hr hc
        case inl hc => simp [hn] at hc
        case inr hc => exact .inl hc
      case inr hc =>
        cases Pressed.of_pending hr hc.right
        case inr hc => exact .inr hc
        case inl hc =>
          -- The press would have been delivered before the end of the game.
          obtain ⟨pre, hl, hp⟩ := h.ended ho hs.frame hc
          exact absurd hp <| hf pre <| hl ▸ List.prefix_refl _ }

-- The turns of the inner loop do not touch the pending actions.
theorem Inv.isPending_popTurn (h : Inv main) {turn : Option SnakeDir} {input : SnakeInput}
    (hp : main.state.input.popTurn = some (turn, input)) (mask : BitVec 8) :
    input.isPending mask = main.state.input.isPending mask := by
  have ⟨l, hl⟩ := h.turns
  have ⟨_, _, hp', _, _, _, he, _⟩ := hl.popTurn
  cases hp.symm.trans hp'
  simp [isPending, he]

theorem Step.tracked (hi : Inv main) (h : main.Tracked) (hs : Step sys main main') :
    main'.Tracked := by
  have hk : .start ∉ keys sys := by simp [keys]
  cases hs
  case exited code _ he => exact he ▸ h
  case starts hw        => exact hw.tracked h
  case waits hw         =>
    have ⟨input, hr, hkept⟩ := hw.input
    exact {
      phase := by rw [hw.log, loggedPhase_append <| keys_not_isTransition sys, h.phase, hw.phase]
      restart := fun hn _ => by
        cases hw.pc
        case inl hp => have ⟨code, hp⟩ := hp; exact absurd hp <| hn code
        case inr hp => exact hp.right.right.left
      confirm := fun hg hc => by
        rw [hw.log]
        cases Pressed.of_pending hr <| hkept.pending _ hc
        case inl hc => exact (h.confirm (hw.phase ▸ hg) hc).append <| keys_not_isTransition sys
        case inr hc => exact hc
      ended := fun _ hf hc => by
        cases hw.pc
        case inl hp => have ⟨code, hp⟩ := hp; simp [hp] at hf
        case inr hp => simp [hp.right.right.right] at hc
      fresh := fun hf => h.append hf hw.log hk }
  case enters hw        =>
    have ⟨input, hr, hkept⟩ := hw.input
    exact {
      phase := by
        rw [hw.log, loggedPhase_append <| keys_not_isTransition sys, h.phase, hw.phase, hw.game]
      restart := fun _ _ => hw.restart
      confirm := fun _ hc => by
        rw [hw.log]
        cases Pressed.of_pending hr <| hkept.pending _ hc
        case inl hc => exact (h.confirm hw.game hc).append <| keys_not_isTransition sys
        case inr hc => exact hc
      ended := by simp [hw.phase]
      fresh := fun hf => h.append hf hw.log hk }
  case ends hw          =>
    have ⟨tickMs, ht⟩ := hw.ticks
    have hg := hi.ticks tickMs ht
    exact {
      phase := by rw [hw.log, h.phase, hw.phase]
      restart := fun _ _ => hw.input ▸ h.restart (by simp [ht]) (by simp [hg])
      confirm := fun _ hc => hw.log ▸ h.confirm hg (hw.input ▸ hc)
      ended := by simp [hw.phase, hg]
      fresh := hw.log ▸ h.fresh }
  case moves dir hw     =>
    have ⟨turn, hp, _⟩ := hw.turn
    have ⟨tickMs, ht, _⟩ := hw.ticks
    have hg := hi.ticks tickMs ht
    have hn : ∀ e ∈ ([.move dir main.state.model main.state.targetAppleCount] : List SnakeEvent),
        e.isTransition = false := by simp [isTransition]
    have he := hi.isPending_popTurn hp
    exact {
      phase := by rw [hw.log, loggedPhase_append hn, h.phase, hw.phase]
      restart := fun _ _ => he _ ▸ h.restart (by simp [ht]) (by simp [hg])
      confirm := fun _ hc => hw.log ▸ (h.confirm hg (he _ ▸ hc)).append hn
      ended := by simp [hw.phase, hg]
      fresh := fun hf => h.append hf hw.log <| by simp }
  case dies dir hw      =>
    have ⟨turn, hp, _⟩ := hw.turn
    have ⟨tickMs, ht⟩ := hw.ticks
    have hg := hi.ticks tickMs ht
    have hl : main'.log = main.log ++ [.move dir main.state.model main.state.targetAppleCount] ++
        [.gameOver] := by
      simp [hw.log]
    have hn : ∀ e ∈ ([.move dir main.state.model main.state.targetAppleCount] : List SnakeEvent),
        e.isTransition = false := by simp [isTransition]
    have he := hi.isPending_popTurn hp
    exact {
      phase := by rw [hl, loggedPhase_concat, hw.phase, phaseAfter]
      restart := fun _ _ => he _ ▸ h.restart (by simp [ht]) (by simp [hg])
      confirm := by simp [hw.phase]
      ended := fun _ _ hc => ⟨_, hl, (h.confirm hg (he _ ▸ hc)).append hn⟩
      fresh := fun hf => h.append hf hw.log <| by simp }

theorem init_tracked (state : SnakeGameState) (enter13h : Bool) : (init state enter13h).Tracked := by
  have hl : (init state enter13h).log = [] ∧ (init state enter13h).state.phase = .menu := by
    cases enter13h <;> exact ⟨rfl, rfl⟩
  have ⟨hl, hp⟩ := hl
  exact {
    phase := by rw [hl, hp]; rfl
    restart := fun _ hn => absurd hp hn
    confirm := by simp [hp]
    ended := by simp [hp]
    fresh := fun _ pre h => by simp [hl] at h }

-- In a run in which enter is not pressed during a game which ends, only a new press of R or enter
-- starts the next game.
theorem run_fresh (state : SnakeGameState) (enter13h : Bool) (calls : List Syscalls) :
    ∃ main, (init state enter13h).run calls = some main ∧ loggedPhase main.log = main.state.phase ∧
      (ConfirmFree main.log → Fresh main.log) := by
  have ⟨main, hr, _, h⟩ := run_induction (init_inv state enter13h) (init_tracked state enter13h)
    (fun _ _ _ hi h hs => hs.tracked hi h) calls
  exact ⟨main, hr, h.phase, h.fresh⟩

-- With this seed, there is an obstacle in front of the snake.
theorem step_game_fourteen : (Board.game 14 5).step (Board.game 14 5).dir = none := by
  decide +kernel

-- Enter starts the game, and is pressed again before the snake runs into the obstacle. The next game
-- starts by itself.
theorem confirm_outlives_game : ∃ main dir m target,
    (init default true).run [.quiet [0x1000a] 14, .quiet [0x1000a] 64, .quiet [] 0, .quiet [] 114,
      .quiet [] 0, .quiet [] 164, .quiet [] 0, .quiet [] 0] = some main ∧
    main.log = [.key 0x1000a, .start, .key 0x1000a, .move dir m target, .gameOver, .start] ∧
    ¬Fresh main.log := by
  have ⟨main₀, hs₀, h₀, hf₀, hl₀, _⟩ := init_starts default [0x1000a] 14
    (by decide) (by decide) (by decide) (by decide) (by decide)
  have ⟨main₁, hs₁, h₁, hf₁, hl₁, _, _, hc₁⟩ := h₀.passes hf₀ true 50 (by decide) (by decide)
  have ⟨main₂, hs₂, h₂, hf₂, hl₂, _, _, hc₂⟩ := h₁.passes hf₁ false 50 (by decide) (by decide)
  have ⟨main₃, hs₃, h₃, hp₃, hl₃, _, _, hc₃⟩ := h₂.frame hf₂ false 50 (by decide)
  have ⟨framebuffer, hs₄⟩ := h₃.dies (.quiet [] 0) hp₃ (by decide) step_game_fourteen rfl
  have hc : main₃.state.input.isPending snakeInputActionConfirm = true := by simp [hc₃, hc₂, hc₁]
  have ⟨main₅, hs₅, hl₅⟩ := restarts ({ main₃ with
    state := { main₃.state with
      alive := false
      phase := .gameOver
      framebuffer }
    pc := .frame
    log := main₃.log ++ [.move (Board.game 14 5).dir main₃.state.model
      main₃.state.targetAppleCount] ++ [.gameOver] })
    rfl rfl h₃.bound h₃.quit h₃.restart hc 0
  have hl : main₅.log = [.key 0x1000a, .start, .key 0x1000a,
      .move (Board.game 14 5).dir main₃.state.model main₃.state.targetAppleCount, .gameOver, .start] := by
    simp [hl₅, hl₃, hl₂, hl₁, hl₀, confirmEvents]
  refine ⟨main₅, _, _, _, ?_, hl, ?_⟩
  case refine_1 =>
    rw [run_cons hs₀]
    apply (run_append hs₁ _).trans
    apply (run_append hs₂ _).trans
    apply (run_cons hs₃ _).trans
    apply (run_cons hs₄ _).trans
    exact run_cons hs₅ _
  case refine_2 =>
    intro hf
    rw [hl] at hf
    have hs := hf ([.key 0x1000a, .start, .key 0x1000a, .move (Board.game 14 5).dir
      main₃.state.model main₃.state.targetAppleCount] ++ [.gameOver]) (List.prefix_refl _) rfl
    exact hs.elim (not_pressed_gameOver _) (not_pressed_gameOver _)

end SnakeMain
