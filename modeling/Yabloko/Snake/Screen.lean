import Yabloko.Snake.Frames

namespace SnakeModel

-- The snake eats when it moves in a direction, and one of the apples which are spawned in return lands
-- on the cell which its tail has left.
def SpawnsOnTail (m : SnakeModel) (dir : SnakeDir) (targetAppleCount : Nat) : Prop :=
  ∃ m₁ m₂ m₃ i, m.step dir = some (true, m₁) ∧ m₁.tryConsumeApple = some (true, m₂) ∧
    m₂.fillApples targetAppleCount = some m₃ ∧ m₃.findAppleAt m.tail.x m.tail.y = some i ∧ 0 ≤ i

variable {m m' : SnakeModel} {b b' : Board} {d : SnakeDir}

theorem Shows.findAppleAt_nonneg_iff (h : m.Shows b) (c : SnakeCell) :
    (∃ i, m.findAppleAt c.x c.y = some i ∧ 0 ≤ i) ↔ c ∈ b.apples := by
  rw [h.findAppleAt_eq]
  by_cases hc : c ∈ b.apples <;> simp [hc]

theorem Playing.spawnsOnTail_iff (h : m.Playing b) (hb : b.step d = some b') (target : Nat) :
    m.SpawnsOnTail d target ↔ m.tail ∈ (b'.meal target).apples := by
  have hv := h.settled.step_valid hb
  have ⟨m₁, hm₁, h₁⟩ := h.shows.step_eq_of_some h.settled.toValid hb
  have ⟨m₂, m₃, hm₂, hm₃, h₃⟩ := h₁.meal_eq hv target
  rw [← h₃.findAppleAt_nonneg_iff]
  constructor
  case mp  =>
    intro ⟨m₁', m₂', m₃', i, hs, hc, hf, hi⟩
    cases hm₁.symm.trans hs
    have he := hm₂.symm.trans hc
    simp only [Option.some.injEq, Prod.mk.injEq] at he
    rw [he.left, if_pos rfl, he.right, hf] at hm₃
    cases hm₃
    exact ⟨i, hi⟩
  case mpr =>
    intro ⟨i, hi⟩
    cases he : b'.consume.1
    case true  =>
      rw [he] at hm₂ hm₃
      exact ⟨m₁, m₂, m₃, i, hm₁, hm₂, hm₃, hi⟩
    case false =>
      -- Without a meal, all apples are old ones, which are not on the body.
      have ha := (h₃.findAppleAt_nonneg_iff m.tail).mp ⟨i, hi⟩
      have ⟨_, head, _, _, _, _, hb'⟩ := Board.step_eq_some_iff.mp hb
      have hc : b'.consume.2 = b' := by
        cases Board.consume_cases (b := b') (by rw [hb']; rfl)
        case inl hc => simp [hc.right]
        case inr hc => simp [hc.right] at he
      simp only [Board.meal, he, hc, Bool.false_eq_true, if_false] at ha
      rw [hb'] at ha
      exact absurd (List.mem_of_getLast? h.shows.tail) <| h.settled.apple_notMem_body ha

-- The screen stays up to date in a move of the snake, unless an apple is spawned on the old tail.
theorem Playing.displays_iff {framebuffer framebuffer' : Framebuffer} {target : Nat}
    (h : m.Playing b) (hb : b.step d = some b') (h' : m'.Playing (b'.meal target))
    (hf : framebuffer.Displays m)
    (hr : framebuffer.snakeRenderStep m' m.head m.tail = some framebuffer') :
    framebuffer'.Displays m' ↔ ¬m.SpawnsOnTail d target := by
  have hp := (Framebuffer.displays_iff h.shows h.settled.toValid).mp hf
  have h₂ : 2 ≤ b.body.length := by
    have ⟨_, _, _, _, hb, _⟩ := h.facing
    simp [hb]
  have ⟨fb', hr', hi⟩ := Framebuffer.renderStep_pictures_iff hp (Board.moved_meal hb target) h.settled
    h'.settled h₂ h'.shows h.shows.head h.shows.tail
  cases hr.symm.trans hr'
  rw [Framebuffer.displays_iff h'.shows h'.settled.toValid, hi, h.spawnsOnTail_iff hb]

theorem Playing.withRng (h : m.Playing b) (rngState : Nat) :
    Playing { m with rngState } { b with rngState } where
  shows := h.shows.withRng rngState
  settled := { h.settled with }
  growing := { h.growing with }
  facing := h.facing

end SnakeModel

namespace SnakeGameState

variable {s : SnakeGameState} {b : Board}

theorem moveSnake_displays_iff (h : s.model.Playing b) (dir : SnakeDir) :
    ∃ (moved : Bool) (s' : SnakeGameState), s.moveSnake dir = some (moved, s') ∧
      (moved → s.framebuffer.Displays s.model →
        (s'.framebuffer.Displays s'.model ↔ ¬s.model.SpawnsOnTail dir s.targetAppleCount)) := by
  cases hb : b.step dir
  case none    => exact ⟨false, s, moveSnake_eq_of_none h hb, by simp⟩
  case some b' =>
    have ⟨model, framebuffer, hm, hb', hr⟩ := moveSnake_eq_of_some h hb
    exact ⟨true, _, hm, fun _ hf => h.displays_iff hb hb' hf hr⟩

end SnakeGameState

namespace SnakeMain

variable {main main' : SnakeMain} {sys : Syscalls}

-- In no move so far, an apple has been spawned on the old tail.
def TailsClear (log : List SnakeEvent) : Prop :=
  ∀ dir m target, .move dir m target ∈ log → ¬m.SpawnsOnTail dir target

theorem TailsClear.of_append {log log' : List SnakeEvent} (h : TailsClear (log ++ log')) :
    TailsClear log :=
  fun dir m target hm => h dir m target <| List.mem_append_left _ hm

-- The screen is up to date while the game is running.
def Current (main : SnakeMain) : Prop :=
  TailsClear main.log → main.state.phase = .game → main.state.paused = false →
    main.state.framebuffer.Displays main.state.model

theorem Step.current (h : main.Current) (hs : Step sys main main') :
    main'.Current := by
  cases hs
  case exited code _ he => exact he ▸ h
  case waits hw         =>
    intro hc hg hp
    rw [hw.model, hw.framebuffer <| by simp [← hw.phase, hg]]
    rw [hw.log] at hc
    exact h hc.of_append (hw.phase ▸ hg) (hw.paused ▸ hp)
  case starts hw        =>
    intro _ _ _
    have ⟨b, hb, _, hf⟩ := hw.board
    exact (Framebuffer.displays_iff hb.shows hb.settled.toValid).mpr hf
  case enters hw        =>
    intro hc _ hp
    rw [hw.log] at hc
    rw [hw.model]
    cases hw.draw hp
    case inl hd => exact hd.right ▸ h hc.of_append hw.game hd.left
    case inr hd => exact hd
  case ends hw          =>
    intro hc hg hp
    rw [hw.model, hw.framebuffer]
    exact h (hw.log ▸ hc) (hw.phase ▸ hg) (hw.paused ▸ hp)
  case moves dir hw     =>
    intro hc hg hp
    rw [hw.log] at hc
    have ⟨b, b', hb, hs, hb'⟩ := hw.board
    have hf := h hc.of_append (hw.phase ▸ hg) hw.unpaused
    exact (hb.displays_iff hs hb' hf hw.draw).mpr <| hc dir _ _ <| by simp
  case dies dir hw      =>
    intro _ hg
    simp [hw.phase] at hg

-- A move of the snake keeps the screen up to date exactly when no apple is spawned on the old tail. In
-- a run without such a move, the screen is always up to date while the game is running.
theorem run_displays_iff (state : SnakeGameState) (enter13h : Bool) (calls : List Syscalls) :
    ∃ main, (init state enter13h).run calls = some main ∧
      (main.state.phase = .game → ∀ dir targetAppleCount rngState s,
        s = { main.state with
          targetAppleCount
          model := { main.state.model with rngState } } →
        ∃ (moved : Bool) (s' : SnakeGameState), s.moveSnake dir = some (moved, s') ∧
          (moved → s.framebuffer.Displays s.model →
            (s'.framebuffer.Displays s'.model ↔ ¬s.model.SpawnsOnTail dir targetAppleCount))) ∧
      main.Current := by
  have h₀ : (init state enter13h).Current := by
    have hp : (init state enter13h).state.phase = .menu := by cases enter13h <;> rfl
    exact fun _ hg => by cases hp.symm.trans hg
  have ⟨main, hr, hi, hc⟩ := run_induction (init_inv state enter13h) h₀
    (fun _ _ _ _ h hs => hs.current h) calls
  refine ⟨main, hr, ?_, hc⟩
  intro hg dir target rngState s hs
  have ⟨b, hb⟩ := hi.board <| by simp [hg]
  have h := SnakeGameState.moveSnake_displays_iff (s := s) (b := { b with rngState })
    (hs ▸ hb.withRng rngState) dir
  rwa [show s.targetAppleCount = target by rw [hs]] at h

-- With this seed, there is an apple in front of the snake, and the next one is spawned on its old tail.
theorem meal_game_spawnsOnTail : ((Board.game 101213 5).step (Board.game 101213 5).dir).any fun b' =>
    (Board.game 101213 5).body.getLast?.any fun tail => tail ∈ (b'.meal 5).apples := by
  decide +kernel

-- Enter starts the game. The first move of the snake hides an apple.
theorem first_move_hides_apple : ∃ main main' m,
    (init default true).run [.quiet [0x1000a] 101213, .quiet [] 101263, .quiet [] 0,
      .quiet [] 101313, .quiet [] 0, .quiet [] 101363] = some main ∧
    main.step (.quiet [] 0) = some main' ∧
    main'.log = main.log ++ [.move .right m 5] ∧
    main.state.phase = .game ∧ main.state.framebuffer.Displays main.state.model ∧
    main'.state.phase = .game ∧ ¬main'.state.framebuffer.Displays main'.state.model := by
  have ⟨main₀, hs₀, h₀, hf₀, hl₀, hfb₀, ht₀, _⟩ := init_starts default [0x1000a] 101213
    (by decide) (by decide) (by decide) (by decide) (by decide)
  have ⟨main₁, hs₁, h₁, hf₁, _, hfb₁, ht₁, _⟩ := h₀.passes hf₀ false 50 (by decide) (by decide)
  have ⟨main₂, hs₂, h₂, hf₂, _, hfb₂, ht₂, _⟩ := h₁.passes hf₁ false 50 (by decide) (by decide)
  have ⟨main₃, hs₃, h₃, hp₃, _, hfb₃, ht₃, _⟩ := h₂.frame hf₂ false 50 (by decide)
  have ht : main₃.state.targetAppleCount = 5 := by rw [ht₃, ht₂, ht₁, ht₀]
  have hd : main₃.state.framebuffer.Displays main₃.state.model := by
    rw [hfb₃, hfb₂, hfb₁]
    exact (Framebuffer.displays_iff h₃.board.shows h₃.board.settled.toValid).mpr hfb₀
  have ⟨b', hb, hany⟩ := (Option.any_eq_true _ _).mp meal_game_spawnsOnTail
  have ⟨tail, htail, ha⟩ := (Option.any_eq_true _ _).mp hany
  have ⟨model, framebuffer, hs₄, hb', hr⟩ := h₃.moves (.quiet [] 0) hp₃ (by decide) hb
  refine ⟨main₃, _, main₃.state.model, ?_, hs₄, ?_, h₃.phase, hd, h₃.phase, ?_⟩
  case refine_1 =>
    apply (run_cons hs₀ _).trans
    apply (run_append hs₁ _).trans
    apply (run_append hs₂ _).trans
    exact run_cons hs₃ _
  case refine_2 => rw [ht, (Board.game_snake_eq _ _).left]
  case refine_3 =>
    rw [h₃.board.displays_iff hb hb' hd hr, not_not, h₃.board.spawnsOnTail_iff hb, ht]
    cases h₃.board.shows.tail.symm.trans htail
    simpa using ha

end SnakeMain
