import Yabloko.Snake.Runs

open SnakeCell

namespace Board

theorem length_le_of_inField {l : List SnakeCell} (hd : l.Nodup) (hf : ∀ c ∈ l, c.InField) :
    l.length ≤ snakeMaxLength := by
  have hs : l ⊆ rowMajor.map fun c => ⟨c.1, c.2⟩ := fun c hc =>
    List.mem_map.mpr ⟨(c.x, c.y), mem_rowMajor.mpr (hf c hc), rfl⟩
  have := (List.subperm_of_subset hd hs).length_le
  simpa [rowMajor] using this

-- What holds of the growth queue of a game which started with a snake of `n` cells, regardless of the
-- positions of the growth points.
structure Conserved (n : Nat) (b : Board) : Prop where
  length_ge : 2 ≤ b.body.length
  total     : b.body.length + b.growth.length = n + b.score
  bound     : b.growth.length < snakeMaxLength

-- At the boundary of a tick, the growth points are marks on the body, in front of its last cell.
structure Growing (n : Nat) (b : Board) : Prop extends Conserved n b where
  marks : b.body.length < snakeMaxLength → b.growth.reverse.Sublist b.body.dropLast

-- Between a move and its meal, the head is not marked yet. When the snake fills the field there are
-- no apples left to mark it.
structure Hungry (n : Nat) (b : Board) : Prop extends Conserved n b where
  marks : (b.body.length = snakeMaxLength ∧ b.apples = []) ∨
    b.growth.reverse.Sublist b.body.dropLast.tail

variable {n : Nat} {b b' : Board} {d : SnakeDir}

theorem Settled.apples_eq_nil (h : b.Settled) (hl : b.body.length = snakeMaxLength) :
    b.apples = [] := by
  by_contra hc
  have ⟨c, hm⟩ := List.exists_mem_of_ne_nil _ hc
  have hd : (c :: b.body).Nodup := List.nodup_cons.mpr ⟨h.apple_notMem_body hm, h.body_nodup⟩
  have := length_le_of_inField hd <| by
    intro c' hc'
    cases hc'
    case head    => exact h.apple_field c hm
    case tail hc => exact h.body_field c' hc
  simp [hl] at this

-- Only the first growth point can be at the cell which the tail reaches with a normal step.
theorem Valid.grows_iff (h : b.Valid) (h₂ : 2 ≤ b.body.length) (hl : b.body.length < snakeMaxLength)
    (hm : b.growth.reverse.Sublist b.body.dropLast) :
    b.Grows ↔ ∃ c ∈ b.growth, b.body.dropLast.getLast? = some c := by
  have hd : b.body.dropLast.Nodup := h.body_nodup.sublist (List.dropLast_sublist _)
  constructor
  case mp =>
    intro ⟨_, _, hne, he⟩
    have ⟨g, rest, hq⟩ := List.exists_cons_of_ne_nil hne
    exact ⟨g, by simp [hq], by simpa [hq] using he.symm⟩
  case mpr =>
    intro ⟨c, hc, he⟩
    have hh := hm.getLast_mem_iff hd he |>.mp hc
    have hne : b.growth ≠ [] := List.ne_nil_of_mem hc
    exact ⟨by omega, hl, hne, hh.trans he.symm⟩

theorem Growing.step (h : b.Growing n) (hs : b.Settled) (hb : b.step d = some b') : b'.Hungry n := by
  have ⟨δ, head, hd, hh, ho, hr, he⟩ := step_eq_some_iff.mp hb
  have ⟨h₂, ht, hlt⟩ := h.toConserved
  subst he
  by_cases hg : b.Grows
  case pos =>
    have ⟨g, rest, hq⟩ := List.exists_cons_of_ne_nil hg.right.right.left
    have hm := h.marks hg.right.left
    simp only [hg.remains_eq, hg, if_true]
    exact {
      length_ge := by simp; omega
      total := by simp [hq] at ht ⊢; omega
      bound := by simp [hq] at hlt ⊢; omega
      marks := .inr <| by
        have hne : b.body ≠ [] := hs.body_ne
        rw [List.dropLast_cons_of_ne_nil hne]
        exact hm.reverse_tail }
  case neg =>
    have hne : b.body.dropLast ≠ [] := by
      intro hc
      have := congrArg List.length hc
      simp at this
      omega
    simp only [remains_eq_of_not_grows hg, hg, if_false]
    refine { length_ge := by simp; omega, total := by simp; omega, bound := hlt, marks := ?_ }
    by_cases hl : b.body.length < snakeMaxLength
    case neg =>
      have := hs.body_length
      have hl : b.body.length = snakeMaxLength := by omega
      exact .inl ⟨by simp at hl ⊢; omega, hs.apples_eq_nil hl⟩
    case pos =>
      refine .inr ?_
      rw [List.dropLast_cons_of_ne_nil hne, List.tail_cons]
      refine (h.marks hl).reverse_dropLast ?_
      by_cases hq : b.growth = []
      case pos => exact .inr hq
      case neg => exact .inl fun hc => hg ⟨by omega, hl, hq, hc.symm⟩

-- Nothing can be spawned on a field which is filled by the snake.
theorem spawns_apples_of_full (hl : b.body.length = snakeMaxLength) (l : List Spawn) :
    (b.spawns l).apples = b.apples := by
  have hp {b : Board} (hl : b.body.length = snakeMaxLength) : b.pick = (none, b) := by
    rw [pick, if_pos (by omega)]
  induction l generalizing b
  case nil         => rfl
  case cons s l hi =>
    have he : (b.spawn s).2 = b := by
      cases s <;> simp only [spawn, spawnApple, spawnObstacle, hp hl] <;> split <;> rfl
    rw [← hi hl, spawns, List.foldl_cons, he]
    rfl

theorem Hungry.spawns (h : b.Hungry n) (l : List Spawn) : (b.spawns l).Hungry n := by
  have hf := b.spawns_apples_of_full (l := l)
  have ⟨s, as, os, he⟩ := b.spawns_eq l
  rw [he] at hf ⊢
  exact { h with marks := h.marks.imp_left fun ⟨hl, ha⟩ => ⟨hl, (hf hl).trans ha⟩ }

theorem Growing.spawns (h : b.Growing n) (l : List Spawn) : (b.spawns l).Growing n := by
  have ⟨s, as, os, he⟩ := b.spawns_eq l
  exact he ▸ { h with }

-- A meal is recorded in the growth queue and in the score, neither of which overflows.
theorem Hungry.consume_eq (h : b.Hungry n) (hs : b.Valid) (hc : b.consume.1 = true) :
    ∃ head, b.body.head? = some head ∧ b.growth.reverse.Sublist b.body.dropLast.tail ∧
      b.consume.2 = { b with
        apples := b.apples.erase head
        score := b.score + 1
        growth := b.growth ++ [head] } := by
  have ⟨head, rest, hb⟩ := List.exists_cons_of_ne_nil hs.body_ne
  have hh : b.body.head? = some head := by simp [hb]
  refine ⟨head, hh, ?_⟩
  cases consume_cases hh
  case inl he => simp [he] at hc
  case inr he =>
    have ⟨ha, he⟩ := he
    have hm := h.marks.resolve_left fun ⟨_, hn⟩ => by simp [hn] at ha
    have hle : b.body.length ≤ 640 := hs.body_length
    have hlt : b.growth.length < 640 := h.bound
    have ht := h.total
    have hsc : (b.score + 1) % 2 ^ 16 = b.score + 1 := by omega
    refine ⟨hm, ?_⟩
    rw [he, hsc, enqueueGrowth, if_neg (by simp; omega)]

theorem Hungry.consume (h : b.Hungry n) (hs : b.Valid) : b.consume.2.Growing n := by
  have ⟨head, rest, hb⟩ := List.exists_cons_of_ne_nil hs.body_ne
  have h₂ := h.length_ge
  cases hc : b.consume.1
  case true =>
    have ⟨head', hh, hm, he⟩ := h.consume_eq hs hc
    have ht := h.total
    have hle : b.body.length ≤ 640 := hs.body_length
    have hl := hm.length_le
    simp at hl
    rw [he]
    exact {
      length_ge := h₂
      total := by simp at ht ⊢; omega
      bound := by simp; omega
      marks := fun _ => by
        have hr : rest ≠ [] := fun hr => by simp [hb, hr] at h₂
        simp only [hb, List.head?_cons, Option.some.injEq] at hh hm ⊢
        subst hh
        rw [List.dropLast_cons_of_ne_nil hr] at hm ⊢
        simpa using hm }
  case false =>
    have he : b.consume.2 = b := by
      cases consume_cases (show b.body.head? = some head by simp [hb])
      case inl he => rw [he.right]
      case inr he => simp [he] at hc
    rw [he]
    exact { h with
      marks := fun hl => by
        have hm := h.marks.resolve_left fun ⟨hf, _⟩ => by omega
        exact hm.trans <| List.tail_sublist _ }

theorem Growing.tick (h : b.Growing n) (hs : b.Settled) (t : Tick) : (b.tick t).Growing n := by
  rw [Board.tick]
  split
  case h_1       => exact h
  case h_2 b₁ hb =>
    have hv := (hs.step_valid hb).spawns t.before
    exact ((h.step hs hb).spawns t.before).consume hv |>.spawns t.after

theorem Growing.play (h : b.Growing n) (hs : b.Settled) (ts : List Tick) :
    (ts.foldl Board.tick b).Growing n := by
  induction ts generalizing b
  case nil          => exact h
  case cons t ts hi => exact hi (h.tick hs t) (hs.tick t)

theorem start_growing (dir : SnakeDir) (rngState obstacles : Nat) (h : 2 ≤ n) :
    (start dir n rngState obstacles).Growing n := by
  have ⟨s, l, he⟩ := fillObstacles_eq (min obstacles snakeMaxObstacles)
    { center dir n rngState with obstacles := [] }
  rw [start, initRandomObstacles, he]
  exact {
    length_ge := by simpa [center] using h
    total := by simp [center]
    bound := by simp [center]
    marks := by simp [center] }

end Board

namespace SnakeModel

-- The accounting of the growth points, at the boundary of a tick.
structure GrowthConserved (n : Nat) (m : SnakeModel) : Prop where
  total  : m.length < snakeMaxLength → m.length + m.growthCount = n + m.score
  count  : m.pendingGrowth.length = m.growthCount
  nodup  : m.length < snakeMaxLength → m.pendingGrowth.Nodup
  -- Read from the last one to the first one, the pending growth points are cells of the body in the
  -- order from the head to the tail, and the last cell of the body is not one of them.
  marks  : m.length < snakeMaxLength → m.pendingGrowth.reverse.Sublist m.bodyCells.dropLast
  grows  : ∀ d m', m.length < snakeMaxLength → m.step d = some (true, m') →
    if ∃ c ∈ m.pendingGrowth, m.body.read ((m.length : Int) - 2) = some c then
      m'.length = m.length + 1 ∧ m'.pendingGrowth = m.pendingGrowth.tail
    else
      m'.length = m.length ∧ m'.pendingGrowth = m.pendingGrowth
  meal   : ∀ d l m₁ m₂ m₃, m.step d = some (true, m₁) → m₁.spawns l = some m₂ →
    m₂.tryConsumeApple = some (true, m₃) →
      m₃.score = m₂.score + 1 ∧ m₃.pendingGrowth = m₂.pendingGrowth ++ [m₂.head]

variable {m : SnakeModel} {b : Board}

theorem Shows.exists_step (h : m.Shows b) (hs : b.Valid) {d} {m'} (hm : m.step d = some (true, m')) :
    ∃ b', b.step d = some b' ∧ m'.Shows b' := by
  cases hb : b.step d
  case none => simp [h.step_eq_of_none hs hb] at hm
  case some b' =>
    have ⟨m'', hm', h'⟩ := h.step_eq_of_some hs hb
    simp [hm'] at hm
    exact ⟨b', rfl, hm ▸ h'⟩

theorem Shows.growthConserved {n : Nat} (h : m.Shows b) (hs : b.Settled) (hg : b.Growing n) :
    m.GrowthConserved n where
  total _ := by
    rw [h.length, h.growthCount, h.score]
    exact hg.total
  count := by rw [h.pendingGrowth_eq, h.growthCount]
  nodup hl := by
    rw [h.pendingGrowth_eq]
    have hd : b.body.dropLast.Nodup := hs.body_nodup.sublist (List.dropLast_sublist _)
    exact List.nodup_reverse.mp <| hd.sublist <| hg.marks (h.length ▸ hl)
  marks hl := by
    rw [h.pendingGrowth_eq, h.bodyCells_eq]
    exact hg.marks (h.length ▸ hl)
  grows d m' hl hm := by
    obtain ⟨b', hb, h'⟩ := h.exists_step hs.toValid hm
    obtain ⟨δ, head, _, _, _, _, he⟩ := Board.step_eq_some_iff.mp hb
    have h₂ := hg.length_ge
    have hr : m.body.read ((b.body.length : Int) - 2) = b.body.dropLast.getLast? := by
      have hi : (b.body.length : Int) - 2 = (b.body.length - 2 : Nat) := by omega
      rw [hi, h.body.read_eq _ (by omega), List.getLast?_eq_getElem?, List.getElem?_dropLast]
      simp
      grind
    have hgi := hs.toValid.grows_iff h₂ (h.length ▸ hl) (hg.marks (h.length ▸ hl))
    simp only [h.pendingGrowth_eq, h'.pendingGrowth_eq, h.length, h'.length, hr, ← hgi, he]
    by_cases hc : b.Grows
    case pos => simp [hc, Board.remains]
    case neg =>
      simp [hc, Board.remains]
      omega
  meal d l m₁ m₂ m₃ hm hl hc := by
    obtain ⟨b₁, hb, h₁⟩ := h.exists_step hs.toValid hm
    obtain ⟨m₂', hl', h₂⟩ := h₁.spawns_eq l
    cases hl.symm.trans hl'
    obtain ⟨m₃', hc', h₃⟩ := h₂.tryConsumeApple_eq
    have hv := (hs.step_valid hb).spawns l
    simp [hc'] at hc
    obtain ⟨head, hh, _, he⟩ := ((hg.step hs hb).spawns l).consume_eq hv hc.left
    cases h₂.head.symm.trans hh
    rw [← hc.right, h₃.score, h₃.pendingGrowth_eq, h₂.score, h₂.pendingGrowth_eq, he]
    exact ⟨rfl, rfl⟩

-- In a game which starts with at least two cells, each meal leads to the growth of one cell, at the
-- time when the tail reaches the cell of the meal.
theorem play_growthConserved (m : SnakeModel) (dir : SnakeDir) (length seed obstacles : Nat)
    (l : List Spawn) (ts : List Tick) (h₁ : 2 ≤ length) (h₂ : length ≤ 20) :
    ∃ m₀ m₁ m', m.start dir length seed obstacles = some m₀ ∧ m₀.spawns l = some m₁ ∧
      m₁.play ts = some m' ∧ m'.GrowthConserved length := by
  have h₁' : 1 ≤ length := by omega
  have ⟨m₀, s, hm₀, h₀⟩ := m.start_eq dir seed obstacles h₁' h₂
  have ⟨m₁, hm₁, h₁⟩ := h₀.spawns_eq l
  have hs := (Board.start_settled dir s obstacles h₁' h₂).spawns l
  have hg := (Board.start_growing dir s obstacles ‹2 ≤ length›).spawns l
  have ⟨m', hm', h', hs'⟩ := h₁.play_eq hs ts
  exact ⟨m₀, m₁, m', hm₀, hm₁, hm', h'.growthConserved hs' <| hg.play hs ts⟩

theorem play_growthConserved_length_five :
    ∃ m₀ m₁ m', start default .right 5 42 10 = some m₀ ∧
      m₀.spawns [.apple, .apple] = some m₁ ∧
      m₁.play [⟨.up, [.obstacle], [.apple]⟩, ⟨.left, [], []⟩] = some m' ∧ m'.GrowthConserved 5 :=
  play_growthConserved default .right 5 42 10 _ _ (by decide) (by decide)

end SnakeModel
