import Yabloko.Snake.Growth
import Yabloko.Snake.Picture

open SnakeCell

-- The tile for a cell of the field.
def Board.tileAt (b : Board) (c : SnakeCell) : Tile :=
  if b.body.head? = some c then
    .head b.dir
  else if b.body.getLast? = some c then
    .tail
  else if c ∈ b.body then
    .body
  else if c ∈ b.apples then
    .apple
  else if c ∈ b.obstacles then
    .obstacle
  else
    []

namespace Framebuffer

-- The screen is a picture of the board.
structure Pictures (fb : Framebuffer) (b : Board) : Prop where
  tiles : fb.ShowsTiles b.tileAt
  score : ∀ i ∈ scoreBox, fb i = fb.snakeRenderScore b.score i

-- Drawing the model with `snake_render_full` would not change the screen.
def Displays (fb : Framebuffer) (m : SnakeModel) : Prop :=
  ∃ full, fb.snakeRenderFull m = some full ∧ ∀ i < videoMode13FramebufferSize, fb i = full i

variable {fb fb' : Framebuffer} {m : SnakeModel} {b : Board} {tiles : SnakeCell → Tile}

theorem Pictures.screen_eq (h : fb.Pictures b) (h' : fb'.Pictures b) :
    ∀ i < videoMode13FramebufferSize, fb i = fb' i := by
  intro i hi
  by_cases hs : i ∈ scoreBox
  case pos =>
    rw [h.score i hs, h'.score i hs]
    exact (renderScore_covers b.score).inside fb fb' i hs
  case neg => rw [h.tiles i hi hs, h'.tiles i hi hs]

theorem Pictures.of_screen_eq (h : fb.Pictures b)
    (he : ∀ i < videoMode13FramebufferSize, fb i = fb' i) : fb'.Pictures b where
  tiles i hi hs := (he i hi).symm.trans <| h.tiles i hi hs
  score i hs := by
    rw [← he i hs.left, h.score i hs]
    exact (renderScore_covers b.score).inside fb fb' i hs

theorem ShowsTiles.pictures (h : fb.ShowsTiles tiles) (ht : ∀ c, c.InField → b.tileAt c = tiles c) :
    (fb.snakeRenderScore b.score).Pictures b where
  tiles := h.renderScore b.score |>.congr ht
  score i hs := (renderScore_covers b.score).inside fb _ i hs

theorem renderFull_pictures (hm : m.Shows b) (hb : b.Valid) (fb : Framebuffer) :
    ∃ fb', fb.snakeRenderFull m = some fb' ∧ fb'.Pictures b := by
  have h₁ := (ShowsTiles.clear fb).foldl_drawTile hb.obstacle_field Tile.obstacle_inside
  have h₂ := h₁.foldl_drawTile hb.apple_field Tile.apple_inside
  have ⟨fb₃, hbd, h₃⟩ := h₂.drawBody hm
  have hhf := hb.body_field _ <| List.mem_of_mem_head? hm.head
  have htf := hb.body_field _ <| List.mem_of_getLast? hm.tail
  have h₄ := (h₃.withTile htf Tile.tail_inside).withTile hhf (Tile.head_inside b.dir)
  refine ⟨_, ?_, h₄.pictures fun c _ => ?_⟩
  · simp only [snakeRenderFull, drawObstacles_eq hm, drawApples_eq hm, hbd, hm.dir, hm.score, drawTailCell_eq, drawHeadCell_eq,
      Option.bind_eq_bind, Option.bind_some, Option.pure_def]
  · simp only [Board.tileAt, hm.head, hm.tail, Option.some.injEq, eq_comm (b := c)]

theorem displays_iff (hm : m.Shows b) (hb : b.Valid) : fb.Displays m ↔ fb.Pictures b := by
  have ⟨full, hf, hp⟩ := renderFull_pictures hm hb fb
  constructor
  case mp =>
    intro ⟨full', hf', he⟩
    cases hf.symm.trans hf'
    exact hp.of_screen_eq fun i hi => (he i hi).symm
  case mpr => exact fun h => ⟨full, hf, h.screen_eq hp⟩

-- What the screen shows after `snake_render_step`, when it has shown `tiles` before.
def stepTiles (tiles : SnakeCell → Tile) (b : Board) (prevHead prevTail : SnakeCell) (c : SnakeCell) :
    Tile :=
  if b.body.head? = some c then
    .head b.dir
  else if b.body.getLast? = some c then
    .tail
  else if c = prevHead then
    .body
  else if c = prevTail then
    if prevTail ∈ b.obstacles then .obstacle else []
  else if c ∈ b.apples then
    .apple
  else
    tiles c

theorem drawBackground_eq {c : SnakeCell} :
    fb.drawCell c.x c.y snakeColorBackground = fb.drawTile c [] :=
  rfl

section

variable {prevHead prevTail : SnakeCell}

theorem renderStep_eq (fb : Framebuffer) (prevHead : SnakeCell) (hm : m.Shows b) (ht : prevTail.InField) :
    fb.snakeRenderStep m prevHead prevTail = some (snakeRenderScore
      ((((b.apples.foldl (fun fb c => drawTile fb c .apple) fb).drawTile prevTail
          (if prevTail ∈ b.obstacles then .obstacle else [])).drawTile prevHead .body).drawTile
            m.tail .tail |>.drawTile m.head (.head b.dir)) b.score) := by
  simp only [snakeRenderStep, drawApples_eq hm, hm.hasObstacle_eq ht, hm.dir, hm.score,
    drawTailCell_eq, drawHeadCell_eq, drawBodyCell_eq, drawObstacleCell_eq, drawBackground_eq,
    decide_eq_true_eq, Option.bind_eq_bind, Option.bind_some, Option.pure_def]
  split <;> rfl

theorem renderStep_showsTiles (h : fb.ShowsTiles tiles) (hm : m.Shows b) (hb : b.Valid)
    (hh : prevHead.InField) (ht : prevTail.InField) :
    ∃ fb' : Framebuffer, fb.snakeRenderStep m prevHead prevTail = some (fb'.snakeRenderScore b.score) ∧
      fb'.ShowsTiles (stepTiles tiles b prevHead prevTail) := by
  have h₁ := h.foldl_drawTile hb.apple_field Tile.apple_inside
  have hhf := hb.body_field _ <| List.mem_of_mem_head? hm.head
  have htf := hb.body_field _ <| List.mem_of_getLast? hm.tail
  have h₂ := h₁.withTile ht <| show (if prevTail ∈ b.obstacles then Tile.obstacle else []).Inside by
    split
    · exact Tile.obstacle_inside
    · simp [Tile.Inside]
  have h₃ := (h₂.withTile hh Tile.body_inside).withTile htf Tile.tail_inside
  refine ⟨_, renderStep_eq fb _ hm ht, ?_⟩
  refine (h₃.withTile hhf (Tile.head_inside b.dir)).congr fun c _ => ?_
  simp only [stepTiles, hm.head, hm.tail, Option.some.injEq, eq_comm (b := c)]

end

-- The board `b'` is the board `b` after a move of the snake, with its meal and the apples which are
-- spawned in return.
structure Moved (b b' : Board) : Prop where
  body      : ∃ next, b'.body = next :: b.remains
  obstacles : b'.obstacles = b.obstacles
  apples    : ∀ c ∈ b.apples, c ∈ b'.apples ∨ b'.body.head? = some c

section Moved

variable {b b' : Board} {prevHead prevTail c : SnakeCell}

theorem Moved.prevHead_mem (h : Moved b b') (h₂ : 2 ≤ b.body.length)
    (hh : b.body.head? = some prevHead) : prevHead ∈ b'.body := by
  have ⟨next, hb⟩ := h.body
  rw [hb]
  refine List.mem_cons_of_mem _ ?_
  match hl : b.body with
  | [] | [_]     => simp [hl] at h₂
  | c₁ :: c₂ :: l =>
    simp [hl] at hh
    simp only [Board.remains, hl]
    split <;> simp [hh]

theorem Moved.mem_body_iff (h : Moved b b') (hs : b.Valid) (ht : b.body.getLast? = some prevTail)
    (hh : b'.body.head? ≠ some c) (hc : c ≠ prevTail) : c ∈ b'.body ↔ c ∈ b.body := by
  have ⟨next, hb⟩ := h.body
  have hn : c ≠ next := fun he => hh <| by simp [hb, he]
  simp [hb, hn, hc, b.mem_remains_iff hs ht]

theorem Moved.prevTail_notMem (h : Moved b b') (hs : b.Valid) (ht : b.body.getLast? = some prevTail)
    (hh : b'.body.head? ≠ some prevTail) (hl : b'.body.getLast? ≠ some prevTail) :
    prevTail ∉ b'.body := by
  have ⟨next, hb⟩ := h.body
  have hn : prevTail ≠ next := fun he => hh <| by simp [hb, he]
  have hg : ¬b.Grows := fun hg => hl <| by simp [hb, hg.remains_eq, List.getLast?_cons, ht]
  simp [hb, hn, hg, b.mem_remains_iff hs ht]

theorem Moved.prevTail_notMem_obstacles (h : Moved b b') (hs : b.Valid)
    (ht : b.body.getLast? = some prevTail) : prevTail ∉ b'.obstacles :=
  fun ho => hs.obstacle_body _ (h.obstacles ▸ ho) <| List.mem_of_getLast? ht

-- Where no apple is put on the cell which the tail has left, the step repaints all that has changed.
theorem Moved.stepTiles_eq (h : Moved b b') (hs : b.Settled) (hs' : b'.Settled)
    (h₂ : 2 ≤ b.body.length) (hh : b.body.head? = some prevHead)
    (ht : b.body.getLast? = some prevTail) (hc : c = prevTail → c ∉ b'.apples) :
    stepTiles b.tileAt b' prevHead prevTail c = b'.tileAt c := by
  have hph := h.prevHead_mem h₂ hh
  simp only [stepTiles, Board.tileAt]
  split
  case isTrue      => rfl
  case isFalse hn₁ =>
    split
    case isTrue      => rfl
    case isFalse hn₂ =>
      by_cases he₁ : c = prevHead
      case pos => simp [he₁, hph]
      case neg =>
        by_cases he₂ : c = prevTail
        case pos =>
          subst he₂
          have hb := h.prevTail_notMem hs.toValid ht hn₁ hn₂
          have ho := h.prevTail_notMem_obstacles hs.toValid ht
          simp [he₁, hb, ho, hc rfl]
        case neg =>
          have hb := h.mem_body_iff hs.toValid ht hn₁ he₂
          by_cases ha : c ∈ b'.apples
          case pos => simp [he₁, he₂, ha, hs'.apple_notMem_body ha]
          case neg =>
            have ha' : c ∉ b.apples := fun hm => (h.apples c hm).elim ha hn₁
            simp [he₁, he₂, ha, ha', hb, h.obstacles, hh, ht, eq_comm (b := c)]

-- An apple on this cell is not on the screen after the step.
theorem Moved.stepTiles_of_apple (h : Moved b b') (hs : b.Settled) (hs' : b'.Settled)
    (h₂ : 2 ≤ b.body.length) (hh : b.body.head? = some prevHead)
    (ht : b.body.getLast? = some prevTail) (ha : prevTail ∈ b'.apples) :
    stepTiles b.tileAt b' prevHead prevTail prevTail = [] ∧ b'.tileAt prevTail = .apple := by
  have hb := hs'.apple_notMem_body ha
  have hn₁ : b'.body.head? ≠ some prevTail := fun he => hb <| List.mem_of_mem_head? he
  have hn₂ : b'.body.getLast? ≠ some prevTail := fun he => hb <| List.mem_of_getLast? he
  have hn₃ : prevTail ≠ prevHead := fun he => hb <| he ▸ h.prevHead_mem h₂ hh
  have ho := h.prevTail_notMem_obstacles hs.toValid ht
  exact ⟨by simp [stepTiles, hn₁, hn₂, hn₃, ho], by simp [Board.tileAt, hn₁, hn₂, hb, ha]⟩

-- Each cell has a pixel in front of which no score is drawn, and where an apple differs from the
-- background.
theorem exists_apple_pixel (hc : c.InField) : ∃ i < videoMode13FramebufferSize, i ∉ scoreBox ∧
    cellOf i = c ∧ Tile.color .apple (column i) (row i) ≠ Tile.color [] (column i) (row i) := by
  have ⟨hx, hy⟩ := hc
  simp at hx hy
  have hp (v : Nat) (hv : v < 10) (hs : 1 ≤ c.y → v = 7) (hs' : c.y = 0 → v = 1)
      (ht : Tile.color .apple 4 v ≠ Tile.color [] 4 v) : ∃ i < videoMode13FramebufferSize,
      i ∉ scoreBox ∧ cellOf i = c ∧
      Tile.color .apple (column i) (row i) ≠ Tile.color [] (column i) (row i) := by
    have hcol : column ((c.y * 10 + v) * 320 + (c.x * 10 + 4)) = 4 := by simp [column]
    have hrow : row ((c.y * 10 + v) * 320 + (c.x * 10 + 4)) = v := by simp [row]; omega
    refine ⟨(c.y * 10 + v) * 320 + (c.x * 10 + 4), by simp; omega, ?_, ?_, ?_⟩
    · simp [scoreBox, mem_rect]
      omega
    · simp [cellOf_eq_iff]
      omega
    · rwa [hcol, hrow]
  cases hz : c.y
  case zero   => exact hp 1 (by omega) (by omega) (by omega) (by decide)
  case succ k => exact hp 7 (by omega) (by omega) (by omega) (by decide)

-- The step keeps the picture up to date, except for an apple at the cell which the tail has left.
theorem renderStep_pictures_iff (hp : fb.Pictures b) (h : Moved b b') (hs : b.Settled)
    (hs' : b'.Settled) (h₂ : 2 ≤ b.body.length) (hm : m.Shows b') (hh : b.body.head? = some prevHead)
    (ht : b.body.getLast? = some prevTail) :
    ∃ fb', fb.snakeRenderStep m prevHead prevTail = some fb' ∧
      (fb'.Pictures b' ↔ prevTail ∉ b'.apples) := by
  have hhf := hs.body_field _ <| List.mem_of_mem_head? hh
  have htf := hs.body_field _ <| List.mem_of_getLast? ht
  have ⟨fb', hr, hf⟩ := renderStep_showsTiles hp.tiles hm hs'.toValid hhf htf
  refine ⟨_, hr, ?_, ?_⟩
  · intro hp' ha
    have ⟨hst, hat⟩ := h.stepTiles_of_apple hs hs' h₂ hh ht ha
    have ⟨i, hi, hn, hc, hne⟩ := exists_apple_pixel htf
    have h₁ := (hf.renderScore b'.score) i hi hn
    have h₂ := hp'.tiles i hi hn
    rw [hc, hst] at h₁
    rw [hc, hat] at h₂
    exact hne <| h₂.symm.trans h₁
  · intro ha
    refine hf.pictures fun c _ => ?_
    exact (h.stepTiles_eq hs hs' h₂ hh ht fun he => he ▸ ha).symm

end Moved
end Framebuffer
