import Yabloko.Snake.Main
import Yabloko.Snake.Redraw
import Yabloko.Snake.Turns

open SnakeCell

namespace Board

def effectiveAppleTarget (b : Board) (requested : Nat) : Nat :=
  min requested (min snakeMaxApples (snakeMaxLength - b.body.length - b.obstacles.length))

-- Spawns apples in up to `n` rounds, until there are `target` of them or no cell is free.
def fillApples (target : Nat) : Nat → Board → Board
  | 0, b => b
  | n + 1, b =>
    if b.apples.length < target then
      match b.spawnApple with
      | (true, b)  => fillApples target n b
      | (false, b) => b
    else
      b

-- The meal of the snake in the game, and the apples which are spawned in return.
def meal (b : Board) (target : Nat) : Board :=
  if b.consume.1 then
    let target := b.consume.2.effectiveAppleTarget target
    fillApples target target b.consume.2
  else
    b.consume.2

-- The board at the start of a game.
def game (seed target : Nat) : Board :=
  let rngState := if seed = 0 then 0xA341316C else seed
  let b := start .right snakeInitialLength rngState snakeTargetObstacleCount
  fillApples (b.effectiveAppleTarget target) (b.effectiveAppleTarget target) b

variable {b b' : Board} {d : SnakeDir} {c : SnakeCell}

theorem fillApples_eq_spawns (target n : Nat) (b : Board) :
    ∃ k, fillApples target n b = b.spawns (.replicate k .apple) := by
  induction n generalizing b
  case zero      => exact ⟨0, rfl⟩
  case succ n hi =>
    rw [fillApples]
    split
    case isFalse => exact ⟨0, rfl⟩
    case isTrue  =>
      cases hs : b.spawnApple with | mk r b₁
      cases r
      case false => exact ⟨1, by simp [spawns, spawn, hs]⟩
      case true  =>
        obtain ⟨k, he⟩ := hi b₁
        exact ⟨k + 1, by simp [he, spawns, spawn, hs, List.replicate_succ]⟩

theorem meal_eq_digest (b : Board) (d : SnakeDir) (target : Nat) :
    ∃ k, b.meal target = b.digest ⟨d, [], .replicate k .apple⟩ := by
  simp only [meal]
  split
  case isFalse => exact ⟨0, rfl⟩
  case isTrue  =>
    have ⟨k, he⟩ := fillApples_eq_spawns (b.consume.2.effectiveAppleTarget target)
      (b.consume.2.effectiveAppleTarget target) b.consume.2
    exact ⟨k, he⟩

theorem spawns_apple_eq (b : Board) (k : Nat) : ∃ s as, b.spawns (.replicate k .apple) =
    { b with rngState := s, apples := b.apples ++ as } := by
  induction k generalizing b
  case zero      => exact ⟨b.rngState, [], by simp [spawns]⟩
  case succ k hi =>
    obtain ⟨s, as, he⟩ := hi b.spawnApple.2
    have hs : b.spawns (.replicate (k + 1) .apple) = b.spawnApple.2.spawns (.replicate k .apple) := rfl
    rw [hs, he]
    cases b.spawnApple_cases
    case inl hc => obtain ⟨s', he'⟩ := hc; exact ⟨s, as, by rw [he']⟩
    case inr hc => obtain ⟨s', c, _, _, he'⟩ := hc; exact ⟨s, c :: as, by simp [he']⟩

theorem consume_snake_eq (b : Board) : b.consume.2.body = b.body ∧ b.consume.2.dir = b.dir ∧
    b.consume.2.obstacles = b.obstacles ∧
    ∀ c ∈ b.apples, c ∈ b.consume.2.apples ∨ b.body.head? = some c := by
  cases hh : b.body.head?
  case none => simp [consume, hh]
  case some head =>
    cases consume_cases hh
    case inl hc =>
      rw [hc.right]
      exact ⟨rfl, rfl, rfl, fun c hc => .inl hc⟩
    case inr hc =>
      rw [hc.right, enqueueGrowth]
      split <;> refine ⟨rfl, rfl, rfl, fun c hm => ?_⟩ <;>
        by_cases he : c = head <;> simp [he, hm, List.mem_erase_of_ne]

-- A meal leaves the snake and the obstacles as they are.
theorem meal_snake_eq (b : Board) (target : Nat) : (b.meal target).body = b.body ∧
    (b.meal target).dir = b.dir ∧ (b.meal target).obstacles = b.obstacles ∧
    ∀ c ∈ b.apples, c ∈ (b.meal target).apples ∨ b.body.head? = some c := by
  have ⟨k, he⟩ := b.meal_eq_digest default target
  have ⟨s, as, hs⟩ := b.consume.2.spawns_apple_eq k
  have ⟨hb, hd, ho, ha⟩ := b.consume_snake_eq
  rw [he]
  simp only [digest, spawns, List.foldl_nil] at hs ⊢
  rw [hs]
  exact ⟨hb, hd, ho, fun c hc => (ha c hc).imp_left <| List.mem_append_left as⟩

-- The snake looks away from its second cell.
def Facing (b : Board) : Prop :=
  ∃ c₀ c₁ rest δ, b.body = c₀ :: c₁ :: rest ∧ b.dir.delta = some δ ∧ c₀ = c₁.move δ

theorem Facing.meal (h : b.Facing) (target : Nat) : (b.meal target).Facing := by
  have ⟨hb, hd, _⟩ := b.meal_snake_eq target
  simpa [Facing, hb, hd] using h

-- The snake does not turn back when it keeps its direction, or makes a perpendicular turn.
theorem Facing.move_ne (h : b.Facing) (hf : ∀ c ∈ b.body, c.InField) {δ}
    (ht : d = b.dir ∨ b.dir.Perpendicular d) (hd : d.delta = some δ) (hh : b.body.head? = some c) :
    b.body[1]? ≠ some (c.move δ) := by
  have ⟨c₀, c₁, rest, δ', hb, hd', he⟩ := h
  have ⟨hx, hy⟩ := hf c₁ <| by simp [hb]
  simp [hb] at hh ⊢
  subst hh he
  intro hc
  have h₁ := congrArg SnakeCell.x hc
  have h₂ := congrArg SnakeCell.y hc
  cases hdir : b.dir <;> cases d <;>
    simp [hdir, SnakeDir.Perpendicular] at ht <;>
    simp [hdir, SnakeDir.delta] at hd hd' <;> subst hd hd' <;>
    simp [SnakeCell.move] at h₁ h₂ hx hy <;> omega

theorem game_eq (seed target : Nat) : ∃ rngState k, game seed target =
    (start .right snakeInitialLength rngState snakeTargetObstacleCount).spawns (.replicate k .apple) :=
  have ⟨k, he⟩ := fillApples_eq_spawns _ _ _
  ⟨_, k, he⟩

theorem game_settled (seed target : Nat) : (game seed target).Settled := by
  have ⟨rngState, k, he⟩ := game_eq seed target
  exact he ▸ (start_settled _ _ _ (by decide) (by decide)).spawns _

theorem game_growing (seed target : Nat) : (game seed target).Growing snakeInitialLength := by
  have ⟨rngState, k, he⟩ := game_eq seed target
  exact he ▸ (start_growing _ _ _ (by decide)).spawns _

theorem game_snake_eq (seed target : Nat) : (game seed target).dir = .right ∧
    (game seed target).body = [⟨16, 10⟩, ⟨15, 10⟩, ⟨14, 10⟩, ⟨13, 10⟩, ⟨12, 10⟩] := by
  have ⟨rngState, k, he⟩ := game_eq seed target
  have ⟨s, as, hs⟩ :=
    spawns_apple_eq (start .right snakeInitialLength rngState snakeTargetObstacleCount) k
  have ⟨s', l, hf⟩ := fillObstacles_eq (min snakeTargetObstacleCount snakeMaxObstacles)
    { center .right snakeInitialLength rngState with obstacles := [] }
  rw [he, hs, start, initRandomObstacles, hf]
  exact ⟨rfl, rfl⟩

theorem game_facing (seed target : Nat) : (game seed target).Facing := by
  have ⟨hd, hb⟩ := game_snake_eq seed target
  exact ⟨_, _, _, (1, 0), hb, by rw [hd]; rfl, rfl⟩

theorem Growing.remains_eq_cons {n : Nat} (h : b.Growing n) (hh : b.body.head? = some c) :
    ∃ rest, b.remains = c :: rest := by
  have h₂ := h.length_ge
  match hl : b.body with
  | [] | [_]         => simp [hl] at h₂
  | c₁ :: c₂ :: rest =>
    simp [hl] at hh
    simp only [remains, hl, hh]
    split
    · exact ⟨_, rfl⟩
    · exact ⟨_, List.dropLast_cons_cons⟩

theorem Growing.step_facing {n : Nat} (h : b.Growing n) (hs : b.step d = some b') : b'.Facing := by
  have ⟨δ, head, hd, hh, _, _, he⟩ := step_eq_some_iff.mp hs
  have ⟨rest, hr⟩ := h.remains_eq_cons hh
  exact ⟨head.move δ, head, rest, δ, by simp [he, hr], by simp [he, hd], rfl⟩

theorem moved_meal (hs : b.step d = some b') (target : Nat) :
    Framebuffer.Moved b (b'.meal target) := by
  have ⟨δ, head, _, _, _, _, he⟩ := step_eq_some_iff.mp hs
  have ⟨hb, _, ho, ha⟩ := b'.meal_snake_eq target
  exact {
    body := ⟨head.move δ, by rw [hb, he]⟩
    obstacles := by rw [ho, he]
    apples := fun c hc => by
      rw [hb]
      exact ha c <| by simpa [he] using hc }

end Board

namespace SnakeModel

variable {m : SnakeModel} {b : Board}

theorem Shows.effectiveAppleTarget_eq (h : m.Shows b) (hb : b.Valid) (requested : Nat) :
    m.effectiveAppleTarget requested = b.effectiveAppleTarget requested := by
  have hl := hb.body_length
  have ho := hb.obstacle_length
  simp [effectiveAppleTarget, Board.effectiveAppleTarget, h.length, h.obstacleCount, toUInt8] at hl ho ⊢
  split <;> split <;> split <;> omega

theorem fillApples_go_shows (h : m.Shows b) {target n : Nat} (hn : target ≤ b.apples.length + n) :
    ∃ m', fillApples.go target (n + 1) m = some m' ∧ m'.Shows (b.fillApples target n) := by
  induction n generalizing m b
  case zero =>
    have hl : ¬m.appleCount < target := by simp [h.appleCount]; omega
    exact ⟨m, by simp [fillApples.go, hl], h⟩
  case succ n hi =>
    by_cases hl : b.apples.length < target
    case neg =>
      have hl' : ¬m.appleCount < target := by rwa [h.appleCount]
      exact ⟨m, by simp [fillApples.go, hl'], by simpa [Board.fillApples, hl] using h⟩
    case pos =>
      have hl' : m.appleCount < target := by rwa [h.appleCount]
      have ⟨m₁, hs, hs'⟩ := h.spawnApple_eq
      cases b.spawnApple_cases
      case inl hc =>
        have ⟨s, he⟩ := hc
        rw [he] at hs hs'
        exact ⟨m₁, by simp [fillApples.go, hl', hs], by simpa [Board.fillApples, hl, he] using hs'⟩
      case inr hc =>
        have ⟨s, c, _, _, he⟩ := hc
        rw [he] at hs hs'
        have ⟨m₂, hg, hg'⟩ := hi hs' (by simp; omega)
        refine ⟨m₂, ?_, by simpa [Board.fillApples, hl, he] using hg'⟩
        rw [fillApples.go]
        simp [hl', hs, hg]

-- The board after the apples have been filled up.
theorem Shows.fillApples_eq (h : m.Shows b) (hb : b.Valid) (requested : Nat) :
    ∃ m', m.fillApples requested = some m' ∧ m'.Shows
      (b.fillApples (b.effectiveAppleTarget requested) (b.effectiveAppleTarget requested)) := by
  rw [fillApples, h.effectiveAppleTarget_eq hb]
  exact fillApples_go_shows h (by omega)

theorem Shows.meal_eq (h : m.Shows b) (hb : b.Valid) (requested : Nat) :
    ∃ m₁ m₂, m.tryConsumeApple = some (b.consume.1, m₁) ∧
      (if b.consume.1 then m₁.fillApples requested else some m₁) = some m₂ ∧
      m₂.Shows (b.meal requested) := by
  have ⟨m₁, hc, h₁⟩ := h.tryConsumeApple_eq
  cases he : b.consume.1
  case false => exact ⟨m₁, m₁, he ▸ hc, rfl, by simpa [Board.meal, he] using h₁⟩
  case true  =>
    have ⟨m₂, hf, h₂⟩ := h₁.fillApples_eq hb.consume.toValid requested
    exact ⟨m₁, m₂, he ▸ hc, hf, by simpa [Board.meal, he] using h₂⟩

end SnakeModel

-- The model of a running game shows the board.
structure SnakeModel.Playing (m : SnakeModel) (b : Board) : Prop where
  shows   : m.Shows b
  settled : b.Settled
  growing : b.Growing snakeInitialLength
  facing  : b.Facing

namespace SnakeGameState

variable {s : SnakeGameState} {b b' : Board} {d : SnakeDir}

theorem moveSnake_shows_of_none (h : s.model.Shows b) (hs : b.Settled) (hb : b.step d = none) :
    s.moveSnake d = some (false, s) := by
  simp [moveSnake, h.step_eq_of_none hs.toValid hb]

theorem moveSnake_eq_of_none (h : s.model.Playing b) (hb : b.step d = none) :
    s.moveSnake d = some (false, s) :=
  moveSnake_shows_of_none h.shows h.settled hb

-- The board after a tick, as a tick of the model with the apples which have been spawned.
theorem meal_eq_tick (hb : b.step d = some b') (target : Nat) :
    ∃ k, b'.meal target = b.tick ⟨d, [], .replicate k .apple⟩ := by
  have ⟨k, hk⟩ := b'.meal_eq_digest d target
  refine ⟨k, ?_⟩
  rw [hk, Board.tick]
  simp [hb]

-- The move of the snake, in terms of its board.
theorem moveSnake_shows_of_some (h : s.model.Shows b) (hs : b.Settled) (hb : b.step d = some b') :
    ∃ model framebuffer, s.moveSnake d = some (true, { s with model, framebuffer }) ∧
      model.Shows (b'.meal s.targetAppleCount) ∧ (b'.meal s.targetAppleCount).Settled ∧
      s.framebuffer.snakeRenderStep model s.model.head s.model.tail = some framebuffer := by
  have hv := hs.step_valid hb
  have ⟨m₁, hm₁, h₁⟩ := h.step_eq_of_some hs.toValid hb
  have ⟨m₂, m₃, hm₂, hm₃, h₃⟩ := h₁.meal_eq hv s.targetAppleCount
  have ⟨k, ht⟩ := meal_eq_tick hb s.targetAppleCount
  have hs' : (b'.meal s.targetAppleCount).Settled := ht ▸ hs.tick _
  have htf := hs.body_field _ <| List.mem_of_getLast? h.tail
  have hr := s.framebuffer.renderStep_eq s.model.head h₃ htf
  refine ⟨m₃, _, ?_, h₃, hs', hr⟩
  simp only [moveSnake, hm₁, hm₂, Option.bind_eq_bind, Option.bind_some, Bool.not_true,
    Bool.false_eq_true, if_false]
  split at hm₃
  case isTrue he =>
    simp only [he, if_true, hm₃, hr, Option.bind_some]
    rfl
  case isFalse he =>
    cases hm₃
    simp only [he, hr, Option.bind_some, Option.pure_def, Bool.false_eq_true, if_false]

theorem moveSnake_eq_of_some (h : s.model.Playing b) (hb : b.step d = some b') :
    ∃ model framebuffer, s.moveSnake d = some (true, { s with model, framebuffer }) ∧
      model.Playing (b'.meal s.targetAppleCount) ∧
      s.framebuffer.snakeRenderStep model s.model.head s.model.tail = some framebuffer := by
  have ⟨m₃, fb, hm, h₃, hs', hr⟩ := moveSnake_shows_of_some h.shows h.settled hb
  have ⟨k, ht⟩ := meal_eq_tick hb s.targetAppleCount
  exact ⟨m₃, fb, hm, {
    shows := h₃
    settled := hs'
    growing := ht ▸ h.growing.tick h.settled _
    facing := (h.growing.step_facing hb).meal _ }, hr⟩

theorem startGame_eq (s : SnakeGameState) (nowMs : UInt64) :
    ∃ model framebuffer, s.startGame .right nowMs = some { s with
        input := s.input.init .right
        model
        phase := .game
        alive := true
        paused := false
        accumulatorMs := 0
        lastTimeMs := nowMs
        framebuffer } ∧
      model.Playing (.game (nowMs.toNat % 2 ^ 32) s.targetAppleCount) ∧
      framebuffer.Pictures (.game (nowMs.toNat % 2 ^ 32) s.targetAppleCount) := by
  have ⟨m₁, hc, h₁⟩ := s.model.initCenter_shows .right (n := snakeInitialLength) (by decide) (by decide)
  have ⟨m₂, ho, h₂⟩ := SnakeModel.initRandomObstacles_shows
    (SnakeModel.seedRandom_shows h₁ (nowMs.toNat % 2 ^ 32)) snakeTargetObstacleCount
  have hv := Board.start_settled .right (m₁.seedRandom (nowMs.toNat % 2 ^ 32)).rngState
    snakeTargetObstacleCount (show 1 ≤ snakeInitialLength by decide) (by decide)
  have ⟨m₃, hf, h₃⟩ := h₂.fillApples_eq hv.toValid s.targetAppleCount
  have hs := Board.game_settled (nowMs.toNat % 2 ^ 32) s.targetAppleCount
  have ⟨fb, hr, hp⟩ := Framebuffer.renderFull_pictures h₃ hs.toValid s.framebuffer
  refine ⟨m₃, fb, ?_, ⟨h₃, hs, Board.game_growing _ _, Board.game_facing _ _⟩, hp⟩
  simp only [startGame, resetGame, hc, ho, hf, hr, Option.bind_eq_bind, Option.bind_some,
    Option.pure_def]

end SnakeGameState
