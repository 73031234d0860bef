import Yabloko.Snake.Main

namespace SnakeEvent

def isStart : SnakeEvent → Bool
  | start => true
  | _     => false

-- The phase of the main loop changes.
def isTransition : SnakeEvent → Bool
  | start | gameOver => true
  | _                => false

def phaseAfter (phase : SnakePhase) : SnakeEvent → SnakePhase
  | start    => .game
  | gameOver => .gameOver
  | _        => phase

end SnakeEvent

open SnakeEvent

namespace SnakeMain

-- What has happened after the last event of a kind.
def since (isLast : SnakeEvent → Bool) (log : List SnakeEvent) : List SnakeEvent :=
  log.rtakeWhile (!isLast ·)

-- The phase in which the main loop is after the events of a log.
def loggedPhase (log : List SnakeEvent) : SnakePhase :=
  log.foldl phaseAfter .menu

variable {isLast : SnakeEvent → Bool} {log log' : List SnakeEvent} {e : SnakeEvent}

theorem since_append (h : ∀ e ∈ log', isLast e = false) :
    since isLast (log ++ log') = since isLast log ++ log' := by
  have h : ∀ e ∈ log'.reverse, (!isLast e) = true := by simpa using h
  simp [since, List.rtakeWhile, List.takeWhile_append_of_pos h]

theorem since_concat (h : isLast e = true) : since isLast (log ++ [e]) = [] := by
  simp [since, h]

theorem since_suffix (isLast : SnakeEvent → Bool) (log : List SnakeEvent) :
    since isLast log <:+ log :=
  List.rtakeWhile_suffix _ log

theorem loggedPhase_append (h : ∀ e ∈ log', e.isTransition = false) :
    loggedPhase (log ++ log') = loggedPhase log := by
  induction log' using List.reverseRecOn
  case nil => simp
  case append_singleton l e hi =>
    rw [← List.append_assoc, loggedPhase, List.foldl_append, ← loggedPhase,
      hi fun e he => h e <| List.mem_append_left _ he]
    have he := h e <| by simp
    cases e <;> simp_all [phaseAfter, isTransition]

theorem loggedPhase_concat (log : List SnakeEvent) (e : SnakeEvent) :
    loggedPhase (log ++ [e]) = phaseAfter (loggedPhase log) e := by
  simp [loggedPhase]

end SnakeMain
