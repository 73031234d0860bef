import Yabloko.Snake.Loop

open SnakeCell SnakeDir

-- The turns which wait in the queue, from `queueHead` on.
def SnakeInput.queuedTurns (input : SnakeInput) : List SnakeDir :=
  input.turnQueue.ring input.queueHead input.queueSize

theorem SnakeInput.Turns.queuedTurns_eq {input : SnakeInput} {l : List SnakeDir}
    (h : input.Turns l) : input.queuedTurns = l := by
  rw [queuedTurns, h.size, h.queue.ring_eq]

-- The cell in front of the head, as `snake_model_step` computes it.
def SnakeModel.target (m : SnakeModel) (δ : Int × Int) : SnakeCell :=
  .ofInts (wrapCoord (m.head.x + δ.1) snakeFieldWidth) (wrapCoord (m.head.y + δ.2) snakeFieldHeight)

theorem SnakeModel.target_eq (m : SnakeModel) (δ : Int × Int) : m.target δ = m.head.move δ := by
  rw [target, wrapCoord_eq _ (by simp), wrapCoord_eq _ (by simp)]
  simp [SnakeCell.ofInts, toUInt8, SnakeCell.move]
  omega

-- The call `snake_model_step` with direction `dir` does not turn the snake by 180 degrees.
structure Forward (dir : SnakeDir) (m : SnakeModel) : Prop where
  not_opposite : SnakeInput.isOpposite dir m.dir = false
  target_ne    : ∃ δ neck, dir.delta = some δ ∧ m.body.read 1 = some neck ∧ m.target δ ≠ neck

namespace SnakeMain

variable {main main' : SnakeMain} {dir : SnakeDir} {sys : Syscalls}

theorem isOpposite_eq_false {d₁ d₂ : SnakeDir} (h : d₁ = d₂ ∨ d₂.Perpendicular d₁) :
    SnakeInput.isOpposite d₁ d₂ = false := by
  cases h
  case inl h => simp [h, SnakeInput.isOpposite]
  case inr h => cases d₁ <;> cases d₂ <;> simp_all [Perpendicular, SnakeInput.isOpposite, SnakeDir.toNat]

-- The turns of the inner loop are made in a direction which fits the one of the snake.
theorem Inv.forward (h : Inv main) {turn : Option SnakeDir} {input : SnakeInput}
    (ht : ∃ tickMs, main.pc = .ticks tickMs) (hp : main.state.input.popTurn = some (turn, input)) :
    Forward (turn.getD main.state.model.dir) main.state.model := by
  have ⟨_, _, hd⟩ := h.turn_cases ht hp
  have ⟨tickMs, ht⟩ := ht
  have ⟨b, hb⟩ := h.board <| by simp [h.ticks tickMs ht]
  have ⟨c₀, c₁, rest, δ₀, hbody, hdelta, _⟩ := hb.facing
  have ⟨δ, hδ⟩ : ∃ δ, (turn.getD main.state.model.dir).delta = some δ := by
    cases hd
    case inl hd => exact ⟨δ₀, by rw [hd, hb.shows.dir, hdelta]⟩
    case inr hd =>
      have hv := hd.valid
      revert hv
      cases turn.getD main.state.model.dir <;> simp [SnakeDir.Valid, SnakeDir.delta]
  have hr : main.state.model.body.read 1 = some c₁ := by
    have := hb.shows.body.read_eq 1 (by simp [hbody])
    simpa [hbody] using this
  have hne := hb.facing.move_ne hb.settled.body_field (hb.shows.dir ▸ hd) hδ hb.shows.head
  exact {
    not_opposite := isOpposite_eq_false hd
    target_ne := ⟨δ, c₁, hδ, hr, fun he => hne <| by simp [hbody, ← he, SnakeModel.target_eq]⟩ }

-- All moves so far have been made forward.
def MovedForward (main : SnakeMain) : Prop :=
  ∀ dir m target, .move dir m target ∈ main.log → Forward dir m

theorem Step.movedForward (h : Inv main) (hm : main.MovedForward) (hs : Step sys main main') :
    main'.MovedForward := by
  have hk : ∀ dir m target, SnakeEvent.move dir m target ∉ keys sys := by simp [keys]
  cases hs
  case exited code hp he => exact he ▸ hm
  case waits hw          => simpa [MovedForward, hw.log, hk] using hm
  case starts hw         => simpa [MovedForward, hw.log, hk] using hm
  case enters hw         => simpa [MovedForward, hw.log, hk] using hm
  case ends hw           => simpa [MovedForward, hw.log] using hm
  case moves dir hw =>
    have ⟨turn, hp, hd⟩ := hw.turn
    have ⟨tickMs, ht, _⟩ := hw.ticks
    have hf := h.forward ⟨tickMs, ht⟩ hp
    intro dir' m target hmem
    simp [hw.log] at hmem
    cases hmem
    case inl hmem => exact hm dir' m target hmem
    case inr hmem => exact hmem.left ▸ hmem.right.left ▸ hd ▸ hf
  case dies dir hw =>
    have ⟨turn, hp, hd⟩ := hw.turn
    have hf := h.forward hw.ticks hp
    intro dir' m target hmem
    simp [hw.log] at hmem
    cases hmem
    case inl hmem => exact hm dir' m target hmem
    case inr hmem => exact hmem.left ▸ hmem.right.left ▸ hd ▸ hf

-- While a game is running, the input and the model agree about the direction of the snake, and each
-- queued turn is perpendicular to the direction before it. The snake never turns back.
theorem run_forward (state : SnakeGameState) (enter13h : Bool) (calls : List Syscalls) :
    ∃ main, (init state enter13h).run calls = some main ∧
      (main.state.phase = .game →
        main.state.input.committedDir = main.state.model.dir ∧
        (main.state.input.committedDir :: main.state.input.queuedTurns).IsChain Perpendicular) ∧
      main.MovedForward := by
  obtain ⟨main, hr, hi, hm⟩ := run_induction (init_inv state enter13h) (P := MovedForward)
    (by cases enter13h <;> simp [MovedForward, init, SnakeGameState.present])
    (fun _ _ _ h hm hs => hs.movedForward h hm) calls
  obtain ⟨l, hl⟩ := hi.turns
  exact ⟨main, hr, fun hg => ⟨hi.committed hg, hl.queuedTurns_eq ▸ hl.chain⟩, hm⟩

end SnakeMain
