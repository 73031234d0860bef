import Yabloko.Snake.Frames
import Yabloko.Snake.Log

open SnakeInput SnakeEvent

namespace SnakeEvent

def heldAfter (held : Bool) : SnakeEvent → Bool
  | .key event => if isSpace event then kbdEventIsPressed event else held
  | _          => held

def IsSpace (e : SnakeEvent) : Prop :=
  ∃ event, e = .key event ∧ isSpace event

theorem heldAfter_of_isSpace {e : SnakeEvent} (h : e.IsSpace) (held held' : Bool) :
    e.heldAfter held = e.heldAfter held' := by
  have ⟨event, he, hs⟩ := h
  simp [he, heldAfter, hs]

theorem heldAfter_of_not_isSpace {e : SnakeEvent} (h : ¬e.IsSpace) (held : Bool) :
    e.heldAfter held = held := by
  cases e
  case key event =>
    simp only [heldAfter, ite_eq_right_iff]
    exact fun hs => absurd ⟨event, rfl, hs⟩ h
  all_goals rfl

end SnakeEvent

namespace SnakeMain

-- Whether the last delivered event for the space key is a press.
def lastSpace (log : List SnakeEvent) : Bool :=
  log.foldl SnakeEvent.heldAfter false

variable {main main' : SnakeMain} {sys : Syscalls} {log log' : List SnakeEvent}

theorem lastSpace_append_of_not (log : List SnakeEvent) (h : ∀ e ∈ log', ¬e.IsSpace) :
    lastSpace (log ++ log') = lastSpace log := by
  induction log' using List.reverseRecOn
  case nil => simp
  case append_singleton l e hi =>
    have hi := hi fun e he => h e <| List.mem_append_left _ he
    rw [← List.append_assoc, lastSpace, List.foldl_append, ← lastSpace, hi]
    exact SnakeEvent.heldAfter_of_not_isSpace (h e <| by simp) _

theorem lastSpace_append_of_mem (log : List SnakeEvent) (h : ∃ e ∈ log', e.IsSpace) :
    lastSpace (log ++ log') = lastSpace log' := by
  induction log' using List.reverseRecOn
  case nil => simp at h
  case append_singleton l e hi =>
    by_cases he : e.IsSpace
    case pos =>
      simp only [lastSpace, ← List.append_assoc, List.foldl_append, List.foldl_cons, List.foldl_nil]
      exact SnakeEvent.heldAfter_of_isSpace he _ _
    case neg =>
      have ⟨e', hm, hs⟩ := h
      have hm : e' ∈ l := by
        cases List.mem_append.mp hm
        case inl hm => exact hm
        case inr hm => exact absurd (List.mem_singleton.mp hm ▸ hs) he
      have hn : ∀ e' ∈ [e], ¬e'.IsSpace := by simpa using he
      rw [← List.append_assoc, lastSpace_append_of_not _ hn, lastSpace_append_of_not _ hn,
        hi ⟨e', hm, hs⟩]

-- The game takes the space key as held when it has been pressed since the last start of a game.
def FollowsSpace (main : SnakeMain) : Prop :=
  main.state.input.isHeld snakeInputKeySpeed = lastSpace (since isStart main.log)

theorem FollowsSpace.keys {input : SnakeInput} (h : main.FollowsSpace)
    (hr : Received main.state.input input sys.batch.events) :
    input.isHeld snakeInputKeySpeed = lastSpace (since isStart (main.log ++ keys sys)) := by
  have hk : ∀ e ∈ SnakeMain.keys sys, e.isStart = false := by simp [SnakeMain.keys, isStart]
  rw [since_append hk, hr.speed, h, lastSpace, lastSpace, List.foldl_append, SnakeMain.keys,
    List.foldl_map]
  rfl

theorem FollowsSpace.append (h : main.FollowsSpace)
    (hi : main'.state.input.isHeld snakeInputKeySpeed = main.state.input.isHeld snakeInputKeySpeed)
    (hl : main'.log = main.log ++ log') (hs : ∀ e ∈ log', ¬e.IsSpace ∧ e.isStart = false) :
    main'.FollowsSpace := by
  rw [FollowsSpace, hi, h, hl, since_append fun e he => (hs e he).right,
    lastSpace_append_of_not _ fun e he => (hs e he).left]

theorem Step.followsSpace (h : Inv main) (hf : main.FollowsSpace) (hs : Step sys main main') :
    main'.FollowsSpace := by
  have hp {turn : Option SnakeDir} {input : SnakeInput}
      (hp : main.state.input.popTurn = some (turn, input)) :
      input.isHeld snakeInputKeySpeed = main.state.input.isHeld snakeInputKeySpeed := by
    obtain ⟨l, hl⟩ := h.turns
    obtain ⟨_, _, hp', _, _, _, _, hh⟩ := hl.popTurn
    cases hp.symm.trans hp'
    simp [isHeld, hh]
  cases hs
  case exited code _ he => exact he ▸ hf
  case waits hw         =>
    obtain ⟨input, hr, hk⟩ := hw.input
    rw [FollowsSpace, hk.speed, hf.keys hr, hw.log]
  case enters hw        =>
    obtain ⟨input, hr, hk⟩ := hw.input
    rw [FollowsSpace, hk.speed, hf.keys hr, hw.log]
  case starts hw        =>
    obtain ⟨input, hi⟩ := hw.fresh
    rw [FollowsSpace, hi, hw.log, since_concat rfl]
    simp [isHeld, SnakeInput.init, lastSpace]
  case ends hw          => rwa [FollowsSpace, hw.input, hw.log]
  case moves dir hw     =>
    obtain ⟨turn, ht, _⟩ := hw.turn
    exact hf.append (hp ht) hw.log <| by simp [IsSpace, isStart]
  case dies dir hw      =>
    obtain ⟨turn, ht, _⟩ := hw.turn
    exact hf.append (hp ht) hw.log <| by simp [IsSpace, isStart]

-- No game has been started between a press of the space key and the next event of this key.
def SpaceKept (log : List SnakeEvent) : Prop :=
  lastSpace log → ∃ e ∈ since isStart log, e.IsSpace

theorem FollowsSpace.held_iff (h : main.FollowsSpace) :
    main.state.input.isHeld snakeInputKeySpeed = lastSpace main.log ↔ SpaceKept main.log := by
  have ⟨pre, hl⟩ := since_suffix isStart main.log
  rw [h, SpaceKept]
  by_cases hs : ∃ e ∈ since isStart main.log, e.IsSpace
  case pos =>
    have he := lastSpace_append_of_mem pre hs
    rw [hl] at he
    exact ⟨fun _ _ => hs, fun _ => he.symm⟩
  case neg =>
    have hn : ∀ e ∈ since isStart main.log, ¬e.IsSpace := fun e hm hc => hs ⟨e, hm, hc⟩
    have he : lastSpace (since isStart main.log) = false := lastSpace_append_of_not [] hn
    rw [he]
    constructor
    case mp  => exact fun hf ht => by simp [← hf] at ht
    case mpr => exact fun hf => Bool.eq_false_iff.mpr (fun ht => hs <| hf ht) |>.symm

-- The space key counts as held exactly when the last event for it was a press, unless the start of a
-- game has come between.
theorem run_space_held_iff (state : SnakeGameState) (enter13h : Bool) (calls : List Syscalls) :
    ∃ main, (init state enter13h).run calls = some main ∧
      (main.state.input.isHeld snakeInputKeySpeed = lastSpace main.log ↔ SpaceKept main.log) := by
  have h₀ : (init state enter13h).FollowsSpace := by
    cases enter13h <;> simp [FollowsSpace, init, SnakeGameState.present, SnakeGameState.showMenu,
      SnakeGameState.renderMenu, isHeld, SnakeInput.init, lastSpace, since]
  obtain ⟨main, hr, _, hf⟩ := run_induction (init_inv state enter13h) h₀
    (fun _ _ _ h hf hs => hs.followsSpace h hf) calls
  exact ⟨main, hr, hf.held_iff⟩

-- The space key is pressed in front of the enter key which starts the first game: the key is down, but
-- does not count as held.
theorem start_forgets_space : ∃ main,
    (init default true).run [.quiet [0x10020, 0x1000a] 0] = some main ∧
      main.log = [.key 0x10020, .key 0x1000a, .start] ∧ main.state.phase = .game ∧
      ¬(main.state.input.isHeld snakeInputKeySpeed = lastSpace main.log) := by
  have ⟨main, hs, hr, _, hl, _⟩ := init_starts default [0x10020, 0x1000a] 0
    (by decide) (by decide) (by decide) (by decide) (by decide)
  have hl' : main.log = [.key 0x10020, .key 0x1000a, .start] := hl
  refine ⟨main, by simp [run, hs], hl', hr.phase, ?_⟩
  rw [hr.speed, hl']
  decide

end SnakeMain
