import Yabloko.Lib.Trail
import Yabloko.Snake.Model

namespace SnakeCell

def InField (c : SnakeCell) : Prop :=
  c.x < snakeFieldWidth ∧ c.y < snakeFieldHeight

instance (c : SnakeCell) : Decidable c.InField :=
  inferInstanceAs <| Decidable (_ ∧ _)

-- The cell at a given offset, on the torus.
def move (c : SnakeCell) (δ : Int × Int) : SnakeCell where
  x := ((c.x + δ.1) % snakeFieldWidth).toNat
  y := ((c.y + δ.2) % snakeFieldHeight).toNat

theorem move_inField (c : SnakeCell) (δ : Int × Int) : (c.move δ).InField := by
  simp [InField, move]
  omega

-- One of two cells is reached from the other in one of the four directions.
def Neighbours (c₁ c₂ : SnakeCell) : Prop :=
  ∃ d δ, SnakeDir.delta d = some δ ∧ c₁ = c₂.move δ

theorem Neighbours.of_delta {d : SnakeDir} {δ} {c : SnakeCell} (h : d.delta = some δ) :
    Neighbours (c.move δ) c :=
  ⟨d, δ, h, rfl⟩

theorem Neighbours.symm {c₁ c₂ : SnakeCell} (hc : c₂.InField) (h : Neighbours c₁ c₂) :
    Neighbours c₂ c₁ := by
  have ⟨d, δ, hd, he⟩ := h
  obtain ⟨hx, hy⟩ := hc
  cases c₂ with | mk x y
  cases d <;> simp [SnakeDir.delta] at hd <;> subst hd he <;> simp at hx hy
  case up    => exact ⟨.down, _, rfl, by simp [move]; omega⟩
  case right => exact ⟨.left, _, rfl, by simp [move]; omega⟩
  case down  => exact ⟨.up, _, rfl, by simp [move]; omega⟩
  case left  => exact ⟨.right, _, rfl, by simp [move]; omega⟩

end SnakeCell

open SnakeCell

-- What the model of the game stands for: the body from the head to the tail, the things on the
-- field in the order of their arrival, and the growth points in the order of their consumption.
structure Board where
  dir       : SnakeDir
  body      : List SnakeCell
  apples    : List SnakeCell
  obstacles : List SnakeCell
  growth    : List SnakeCell
  score     : Nat
  rngState  : Nat

namespace Board

def Free (b : Board) (c : SnakeCell) : Prop :=
  c ∉ b.body ∧ c ∉ b.obstacles ∧ c ∉ b.apples

instance (b : Board) : DecidablePred b.Free :=
  fun _ => inferInstanceAs <| Decidable (_ ∧ _)

def freeCells (b : Board) : List SnakeCell :=
  (rowMajor.map fun (x, y) => { x, y }).filter (b.Free ·)

theorem mem_freeCells {b : Board} {c : SnakeCell} : c ∈ b.freeCells ↔ c.InField ∧ b.Free c := by
  cases c
  simp [freeCells, rowMajor, InField, and_comm]

def pick (b : Board) : Option SnakeCell × Board :=
  let free := (snakeMaxLength : Int) - b.body.length - b.apples.length - b.obstacles.length
  if free ≤ 0 then
    (none, b)
  else
    let r := xorshift32 b.rngState
    (b.freeCells[r % free.toNat]?, { b with rngState := r })

def spawnObstacle (b : Board) : Bool × Board :=
  if b.obstacles.length ≥ snakeMaxObstacles then
    (false, b)
  else
    match b.pick with
    | (none, b)   => (false, b)
    | (some c, b) => (true, { b with obstacles := b.obstacles ++ [c] })

def spawnApple (b : Board) : Bool × Board :=
  if b.apples.length ≥ snakeMaxApples then
    (false, b)
  else
    match b.pick with
    | (none, b)   => (false, b)
    | (some c, b) => (true, { b with apples := b.apples ++ [c] })

-- The growth queue drops a point only when it is full.
def enqueueGrowth (b : Board) (c : SnakeCell) : Board :=
  if b.growth.length ≥ snakeMaxLength then b else { b with growth := b.growth ++ [c] }

def consume (b : Board) : Bool × Board :=
  match b.body.head? with
  | none => (false, b)
  | some c =>
    if c ∈ b.apples then
      let b := { b with apples := b.apples.erase c, score := (b.score + 1) % 2 ^ 16 }
      (true, b.enqueueGrowth c)
    else
      (false, b)

-- The snake grows when its tail would reach the first growth point with a normal step.
def Grows (b : Board) : Prop :=
  1 < b.body.length ∧ b.body.length < snakeMaxLength ∧
    b.growth ≠ [] ∧ b.growth.head? = b.body.dropLast.getLast?

instance (b : Board) : Decidable b.Grows :=
  inferInstanceAs <| Decidable (_ ∧ _)

-- The part of the body which stays in place in the next step.
def remains (b : Board) : List SnakeCell :=
  if b.Grows then b.body else b.body.dropLast

def step (b : Board) (d : SnakeDir) : Option Board := do
  let δ ← d.delta
  let head ← b.body.head?
  let next := head.move δ
  if next ∈ b.obstacles ∨ next ∈ b.remains then
    none
  else
    return { b with
      dir := d
      body := next :: b.remains
      growth := if b.Grows then b.growth.tail else b.growth }

-- Between the step of the snake and the meal, there can be an apple under its head.
structure Valid (b : Board) : Prop where
  body_ne         : b.body ≠ []
  body_length     : b.body.length ≤ snakeMaxLength
  body_field      : ∀ c ∈ b.body, c.InField
  body_nodup      : b.body.Nodup
  body_chain      : b.body.IsChain Neighbours
  obstacle_field  : ∀ c ∈ b.obstacles, c.InField
  obstacle_nodup  : b.obstacles.Nodup
  obstacle_length : b.obstacles.length ≤ snakeMaxObstacles
  obstacle_body   : ∀ c ∈ b.obstacles, c ∉ b.body
  apple_field     : ∀ c ∈ b.apples, c.InField
  apple_nodup     : b.apples.Nodup
  apple_length    : b.apples.length ≤ snakeMaxApples
  apple_obstacle  : ∀ c ∈ b.apples, c ∉ b.obstacles
  apple_body      : ∀ c ∈ b.apples, c ∉ b.body.tail
  growth_length   : b.growth.length ≤ snakeMaxLength

-- At the boundary of a tick, there is no apple under the head either.
structure Settled (b : Board) : Prop extends b.Valid where
  apple_head : ∀ c ∈ b.apples, b.body.head? ≠ some c

theorem Settled.apple_notMem_body {b : Board} {c : SnakeCell} (h : b.Settled) (hc : c ∈ b.apples) :
    c ∉ b.body := by
  have ht := h.apple_body c hc
  have hh := h.apple_head c hc
  cases hb : b.body <;> simp_all
  exact fun he => hh he.symm

variable {b b' : Board} {d : SnakeDir} {c : SnakeCell}

theorem step_eq_some_iff :
    b.step d = some b' ↔ ∃ δ head, d.delta = some δ ∧ b.body.head? = some head ∧
      head.move δ ∉ b.obstacles ∧ head.move δ ∉ b.remains ∧
      b' = { b with
        dir := d
        body := head.move δ :: b.remains
        growth := if b.Grows then b.growth.tail else b.growth } := by
  cases hd : d.delta <;> cases hb : b.body.head? <;> simp [step, hd, hb, and_assoc, eq_comm]

theorem remains_sublist (b : Board) : b.remains.Sublist b.body := by
  simp only [remains]
  split
  · exact .refl _
  · exact List.dropLast_sublist _

theorem Grows.remains_eq (h : b.Grows) : b.remains = b.body := by
  simp [remains, h]

theorem remains_eq_of_not_grows (h : ¬b.Grows) : b.remains = b.body.dropLast := by
  simp [remains, h]

theorem mem_remains_iff (h : b.Valid) {tail : SnakeCell} (ht : b.body.getLast? = some tail) :
    c ∈ b.remains ↔ c ∈ b.body ∧ (c ≠ tail ∨ b.Grows) := by
  by_cases hg : b.Grows
  case pos => simp [hg, remains]
  case neg => simp [hg, remains, h.body_nodup.mem_dropLast_iff ht]

theorem remains_length (h : b.Valid) : b.remains.length < snakeMaxLength := by
  have hp := List.length_pos_iff.mpr h.body_ne
  have hl := h.body_length
  simp only [remains]
  split
  case isTrue hg => exact hg.right.left
  case isFalse   => simp at hl ⊢; omega

theorem Valid.remains_chain {δ} {head} (h : b.Valid) (hd : d.delta = some δ)
    (hh : b.body.head? = some head) : (head.move δ :: b.remains).IsChain Neighbours := by
  have ⟨l, hb⟩ := List.head?_eq_some_iff.mp hh
  have hc := h.body_chain
  have hn : Neighbours (head.move δ) head := .of_delta hd
  simp only [remains, hb] at hc ⊢
  split
  · exact .cons_cons hn hc
  · exact hc.cons_dropLast hn

theorem Settled.step_valid (h : b.Settled) (hs : b.step d = some b') : b'.Valid := by
  have ⟨δ, head, hd, hh, ho, hr, he⟩ := step_eq_some_iff.mp hs
  have hsub := b.remains_sublist
  subst he
  exact {
    body_ne := by simp
    body_length := remains_length h.toValid
    body_field := by
      intro c hc
      cases hc
      case head    => exact move_inField _ _
      case tail hc => exact h.body_field c <| hsub.mem hc
    body_nodup := List.nodup_cons.mpr ⟨hr, h.body_nodup.sublist hsub⟩
    body_chain := h.remains_chain hd hh
    obstacle_field := h.obstacle_field
    obstacle_nodup := h.obstacle_nodup
    obstacle_length := h.obstacle_length
    obstacle_body := by
      intro c hc hm
      cases hm
      case head    => exact ho hc
      case tail hm => exact h.obstacle_body c hc <| hsub.mem hm
    apple_field := h.apple_field
    apple_nodup := h.apple_nodup
    apple_length := h.apple_length
    apple_obstacle := h.apple_obstacle
    apple_body := fun c hc hm => h.apple_notMem_body hc <| hsub.mem hm
    growth_length := by
      have hl : b.growth.length ≤ 640 := h.growth_length
      simp only
      split <;> simp <;> omega }

theorem pick_eq (b : Board) : b.pick.2 = { b with rngState := b.pick.2.rngState } := by
  simp only [pick]
  split <;> rfl

theorem pick_mem (h : b.pick = (some c, b')) : c ∈ b.freeCells := by
  simp only [pick] at h
  split at h
  · simp at h
  · injection h with h
    exact List.mem_of_getElem? h

theorem pick_cases (b : Board) : (∃ s, b.pick = (none, { b with rngState := s })) ∨
    ∃ s c, c ∈ b.freeCells ∧ b.pick = (some c, { b with rngState := s }) := by
  cases hp : b.pick with | mk r b₁
  have he := b.pick_eq
  rw [hp] at he
  cases r
  case none   => exact .inl ⟨b₁.rngState, congrArg (Prod.mk none) he⟩
  case some c => exact .inr ⟨b₁.rngState, c, pick_mem hp, congrArg (Prod.mk (some c)) he⟩

theorem Valid.rng (h : b.Valid) {s : Nat} : Valid { b with rngState := s } :=
  { h with }

-- What a spawned thing can be.
theorem spawnObstacle_cases (b : Board) :
    (∃ s, b.spawnObstacle = (false, { b with rngState := s })) ∨
    (∃ s c, c ∈ b.freeCells ∧ b.obstacles.length < snakeMaxObstacles ∧
      b.spawnObstacle = (true, { b with rngState := s, obstacles := b.obstacles ++ [c] })) := by
  by_cases hl : b.obstacles.length ≥ snakeMaxObstacles
  case pos => exact .inl ⟨b.rngState, by simp [spawnObstacle, hl]⟩
  case neg =>
    cases b.pick_cases
    case inl hp =>
      have ⟨s, hp⟩ := hp
      exact .inl ⟨s, by simp only [spawnObstacle, hl, hp, if_false]⟩
    case inr hp =>
      have ⟨s, c, hc, hp⟩ := hp
      exact .inr ⟨s, c, hc, by omega, by simp only [spawnObstacle, hl, hp, if_false]⟩

theorem spawnApple_cases (b : Board) :
    (∃ s, b.spawnApple = (false, { b with rngState := s })) ∨
    (∃ s c, c ∈ b.freeCells ∧ b.apples.length < snakeMaxApples ∧
      b.spawnApple = (true, { b with rngState := s, apples := b.apples ++ [c] })) := by
  by_cases hl : b.apples.length ≥ snakeMaxApples
  case pos => exact .inl ⟨b.rngState, by simp [spawnApple, hl]⟩
  case neg =>
    cases b.pick_cases
    case inl hp =>
      have ⟨s, hp⟩ := hp
      exact .inl ⟨s, by simp only [spawnApple, hl, hp, if_false]⟩
    case inr hp =>
      have ⟨s, c, hc, hp⟩ := hp
      exact .inr ⟨s, c, hc, by omega, by simp only [spawnApple, hl, hp, if_false]⟩

theorem Valid.spawnObstacle (h : b.Valid) : b.spawnObstacle.2.Valid := by
  cases b.spawnObstacle_cases
  case inl hs =>
    have ⟨s, he⟩ := hs
    exact he ▸ h.rng
  case inr hs =>
    have ⟨s, c, hc, hl, he⟩ := hs
    have ⟨hf, hb, ho, ha⟩ := mem_freeCells.mp hc
    rw [he]
    exact { h with
      obstacle_field := by
        intro c' hc'
        cases List.mem_append.mp hc'
        case inl hm => exact h.obstacle_field c' hm
        case inr hm => exact List.mem_singleton.mp hm ▸ hf
      obstacle_nodup := by
        simp [List.nodup_append, h.obstacle_nodup]
        exact fun c' hm he => ho (he ▸ hm)
      obstacle_length := by simp; omega
      obstacle_body := by
        intro c' hc'
        cases List.mem_append.mp hc'
        case inl hm => exact h.obstacle_body c' hm
        case inr hm => exact List.mem_singleton.mp hm ▸ hb
      apple_obstacle := by
        intro c' hc' hm
        cases List.mem_append.mp hm
        case inl hm => exact h.apple_obstacle c' hc' hm
        case inr hm => exact ha (List.mem_singleton.mp hm ▸ hc') }

theorem Valid.spawnApple (h : b.Valid) : b.spawnApple.2.Valid := by
  cases b.spawnApple_cases
  case inl hs =>
    have ⟨s, he⟩ := hs
    exact he ▸ h.rng
  case inr hs =>
    have ⟨s, c, hc, hl, he⟩ := hs
    have ⟨hf, hb, ho, ha⟩ := mem_freeCells.mp hc
    rw [he]
    exact { h with
      apple_field := by
        intro c' hc'
        cases List.mem_append.mp hc'
        case inl hm => exact h.apple_field c' hm
        case inr hm => exact List.mem_singleton.mp hm ▸ hf
      apple_nodup := by
        simp [List.nodup_append, h.apple_nodup]
        exact fun c' hm he => ha (he ▸ hm)
      apple_length := by simp; omega
      apple_obstacle := by
        intro c' hc'
        cases List.mem_append.mp hc'
        case inl hm => exact h.apple_obstacle c' hm
        case inr hm => exact List.mem_singleton.mp hm ▸ ho
      apple_body := by
        intro c' hc'
        cases List.mem_append.mp hc'
        case inl hm => exact h.apple_body c' hm
        case inr hm => exact fun ht => hb <| List.mem_of_mem_tail <| List.mem_singleton.mp hm ▸ ht }

theorem Settled.spawnObstacle (h : b.Settled) : b.spawnObstacle.2.Settled where
  toValid := h.toValid.spawnObstacle
  apple_head := by
    cases b.spawnObstacle_cases
    case inl hs => have ⟨s, he⟩ := hs; exact he ▸ h.apple_head
    case inr hs => have ⟨s, c, _, _, he⟩ := hs; exact he ▸ h.apple_head

theorem Settled.spawnApple (h : b.Settled) : b.spawnApple.2.Settled where
  toValid := h.toValid.spawnApple
  apple_head := by
    cases b.spawnApple_cases
    case inl hs => have ⟨s, he⟩ := hs; exact he ▸ h.apple_head
    case inr hs =>
      have ⟨s, c, hc, _, he⟩ := hs
      rw [he]
      intro c' hc' hh
      cases List.mem_append.mp hc'
      case inl hm => exact h.apple_head c' hm hh
      case inr hm =>
        have ⟨_, hb, _⟩ := mem_freeCells.mp hc
        exact hb <| List.mem_singleton.mp hm ▸ List.mem_of_mem_head? hh

-- A meal, in terms of the cell under the head.
theorem consume_cases {head : SnakeCell} (hh : b.body.head? = some head) :
    (head ∉ b.apples ∧ b.consume = (false, b)) ∨
    (head ∈ b.apples ∧ b.consume = (true, enqueueGrowth
      { b with apples := b.apples.erase head, score := (b.score + 1) % 2 ^ 16 } head)) := by
  by_cases ha : head ∈ b.apples
  case pos => exact .inr ⟨ha, by simp [consume, hh, ha]⟩
  case neg => exact .inl ⟨ha, by simp [consume, hh, ha]⟩

theorem Valid.enqueueGrowth (h : b.Valid) : (b.enqueueGrowth c).Valid := by
  simp only [Board.enqueueGrowth]
  split
  case isTrue  => exact h
  case isFalse hl => exact { h with growth_length := by simp at hl ⊢; omega }

theorem Valid.consume (h : b.Valid) : b.consume.2.Settled := by
  have ⟨head, hh⟩ : ∃ head, b.body.head? = some head := by
    cases hb : b.body
    case nil  => exact absurd hb h.body_ne
    case cons => simp
  have key (ha : head ∉ b.apples) : b.Settled :=
    { h with apple_head := fun c hc he => ha <| by cases hh.symm.trans he; exact hc }
  cases consume_cases hh
  case inl hc => exact hc.right ▸ key hc.left
  case inr hc =>
    rw [hc.right]
    have hsub := List.erase_sublist (a := head) (l := b.apples)
    have hs : Settled { b with
        apples := b.apples.erase head
        score := (b.score + 1) % 2 ^ 16 } := { h with
      apple_field := fun c hm => h.apple_field c <| hsub.mem hm
      apple_nodup := h.apple_nodup.sublist hsub
      apple_length := hsub.length_le.trans h.apple_length
      apple_obstacle := fun c hm => h.apple_obstacle c <| hsub.mem hm
      apple_body := fun c hm => h.apple_body c <| hsub.mem hm
      apple_head := fun c hm he => by
        cases hh.symm.trans he
        exact h.apple_nodup.mem_erase_iff.mp hm |>.left rfl }
    simp only [Board.enqueueGrowth]
    split
    case isTrue  => exact hs
    case isFalse hl => exact { hs with growth_length := by simp at hl ⊢; omega }

end Board
