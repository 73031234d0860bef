import Yabloko.Snake.Refinement.Basic
import Yabloko.Snake.Render

open SnakeCell

namespace Framebuffer

-- The pixels of the screen in a rectangle.
def rect (x y width height : Int) : Set Nat :=
  { i | i < videoMode13FramebufferSize ∧
    x ≤ (i % gfxWidth : Nat) ∧ ((i % gfxWidth : Nat) : Int) < x + width ∧
    y ≤ (i / gfxWidth : Nat) ∧ ((i / gfxWidth : Nat) : Int) < y + height }

variable {fb : Framebuffer} {x y width height : Int} {color i : Nat}

theorem mem_rect : i ∈ rect x y width height ↔ i < videoMode13FramebufferSize ∧
    x ≤ (i % gfxWidth : Nat) ∧ ((i % gfxWidth : Nat) : Int) < x + width ∧
    y ≤ (i / gfxWidth : Nat) ∧ ((i / gfxWidth : Nat) : Int) < y + height :=
  Iff.rfl

theorem set_fills (i color : Nat) : Fills {i} color (fun fb : Framebuffer => fb.set i color) :=
  fun _ _ => ⟨fun h => if_pos h, fun h => if_neg h⟩

-- A loop over the rows of a rectangle, and over the pixels of each row.
theorem loops_fill {rows columns : Nat} (pixel : Nat → Nat → Nat) (color : Nat) :
    Fills { i | ∃ dy < rows, ∃ dx < columns, i = pixel dy dx } color (fun fb : Framebuffer =>
      (List.range rows).foldl (fun fb dy =>
        (List.range columns).foldl (fun fb dx => set fb (pixel dy dx) color) fb) fb) := by
  have hr (dy : Nat) : Fills { i | ∃ dx ∈ List.range columns, i ∈ ({pixel dy dx} : Set Nat) } color
      (fun fb : Framebuffer =>
        (List.range columns).foldl (fun fb dx => set fb (pixel dy dx) color) fb) :=
    .foldl _ fun dx _ => set_fills _ _
  exact (Fills.foldl _ fun dy _ => hr dy).congr <| by simp

theorem fillRect_fills (x y width height : Int) (color : Nat) :
    Fills (rect x y width height) color (fun fb : Framebuffer => fb.fillRect x y width height color) := by
  by_cases hw : width ≤ 0 ∨ height ≤ 0
  case pos =>
    simp only [fillRect, hw, if_true]
    refine Fills.empty.congr fun i => ?_
    simp [mem_rect]
    omega
  case neg =>
    by_cases ho : x + width ≤ 0 ∨ y + height ≤ 0 ∨ x ≥ gfxWidth ∨ y ≥ gfxHeight
    case pos =>
      simp only [fillRect, hw, ho, if_true, if_false]
      refine Fills.empty.congr fun i => ?_
      simp [mem_rect] at ho ⊢
      omega
    case neg =>
      have hl : (if x < 0 then 0 else x) = max x 0 := by split <;> omega
      have ht : (if y < 0 then 0 else y) = max y 0 := by split <;> omega
      have hr : (if x + width > gfxWidth then (gfxWidth : Int) else x + width) =
          min (x + width) 320 := by simp; split <;> omega
      have hb : (if y + height > gfxHeight then (gfxHeight : Int) else y + height) =
          min (y + height) 200 := by simp; split <;> omega
      simp only [fillRect, hw, ho, hl, ht, hr, hb, if_false]
      refine (loops_fill _ _).congr fun i => ?_
      simp [mem_rect] at hw ho ⊢
      constructor
      case mp =>
        intro ⟨hi, h₁, h₂, h₃, h₄⟩
        exact ⟨i / 320 - y.toNat, by omega, i % 320 - x.toNat, by omega, by omega⟩
      case mpr =>
        intro ⟨dy, hy, dx, hx, he⟩
        have hdy : (max y 0 + dy).toNat < 200 := by omega
        have hdx : (max x 0 + dx).toNat < 320 := by omega
        rw [Nat.mod_eq_of_lt (by omega)] at he
        omega

theorem fillRect_clips (fb : Framebuffer) (x y width height : Int) (color : Nat) :
    (∀ px < gfxWidth, ∀ py < gfxHeight,
      fb.fillRect x y width height color (py * gfxWidth + px) =
        if x ≤ px ∧ px < x + width ∧ y ≤ py ∧ py < y + height then
          color
        else
          fb (py * gfxWidth + px)) ∧
    ∀ i ≥ videoMode13FramebufferSize, fb.fillRect x y width height color i = fb i := by
  have hf := fillRect_fills x y width height color
  constructor
  case left =>
    intro px hx py hy
    -- The index does not alias another row.
    have hm : py * gfxWidth + px ∈ rect x y width height ↔
        x ≤ px ∧ px < x + width ∧ y ≤ py ∧ py < y + height := by
      have hc : (py * gfxWidth + px) % gfxWidth = px := by
        rw [Nat.mul_comm, Nat.mul_add_mod, Nat.mod_eq_of_lt hx]
      have hr : (py * gfxWidth + px) / gfxWidth = py := by
        rw [Nat.mul_comm, Nat.mul_add_div (by decide), Nat.div_eq_of_lt hx, Nat.add_zero]
      have hi : py * gfxWidth + px < videoMode13FramebufferSize := by
        simp only [gfxWidth, gfxHeight, videoMode13FramebufferSize] at hx hy ⊢
        omega
      rw [mem_rect, hc, hr]
      exact and_iff_right hi
    split
    case isTrue h  => exact hf fb _ |>.left <| hm.mpr h
    case isFalse h => exact hf fb _ |>.right <| mt hm.mp h
  case right =>
    intro i hi
    exact hf fb i |>.right fun h => absurd h.left <| Nat.not_lt.mpr hi

theorem clear_fills (color : Nat) :
    Fills { i | i < videoMode13FramebufferSize } color (fun fb : Framebuffer => fb.clear color) :=
  (Fills.foldl _ fun i _ => set_fills i color).congr <| by simp

-- The place of a pixel of the screen: its cell, and its column and row in this cell.
def cellOf (i : Nat) : SnakeCell where
  x := i % gfxWidth / gfxCellSize
  y := i / gfxWidth / gfxCellSize

def column (i : Nat) : Nat :=
  i % gfxWidth % gfxCellSize

def row (i : Nat) : Nat :=
  i / gfxWidth % gfxCellSize

theorem cellOf_inField (hi : i < videoMode13FramebufferSize) : (cellOf i).InField := by
  simp [cellOf, InField] at hi ⊢
  omega

theorem cellOf_eq_iff {c : SnakeCell} : cellOf i = c ↔
    i % gfxWidth / gfxCellSize = c.x ∧ i / gfxWidth / gfxCellSize = c.y := by
  cases c
  simp [cellOf]

def cellPixels (c : SnakeCell) : Set Nat :=
  { i | i < videoMode13FramebufferSize ∧ cellOf i = c }

instance {c : SnakeCell} : Decidable (i ∈ cellPixels c) :=
  inferInstanceAs <| Decidable (_ ∧ _)

theorem mem_cellPixels {c : SnakeCell} :
    i ∈ cellPixels c ↔ i < videoMode13FramebufferSize ∧ cellOf i = c :=
  Iff.rfl

theorem drawCell_fills {c : SnakeCell} (hc : c.InField) (color : Nat) :
    Fills (cellPixels c) color (fun fb : Framebuffer => fb.drawCell c.x c.y color) := by
  have ⟨hx, hy⟩ := hc
  have hn : ¬((c.x : Int) < 0 ∨ (c.y : Int) < 0 ∨ (c.x : Int) ≥ gfxGridWidth ∨
      (c.y : Int) ≥ gfxGridHeight) := by
    simp at hx hy ⊢
    omega
  simp only [drawCell, hn, if_false]
  refine (loops_fill _ _).congr fun i => ?_
  simp [mem_cellPixels, cellOf_eq_iff] at hx hy ⊢
  constructor
  case mp =>
    intro ⟨hi, h₁, h₂⟩
    exact ⟨i / 320 % 10, by omega, i % 320 % 10, by omega, by omega⟩
  case mpr =>
    intro ⟨dy, hdy, dx, hdx, he⟩
    rw [Nat.mod_eq_of_lt (by omega)] at he
    omega

end Framebuffer

-- A rectangle of one color, at a position in a cell.
structure Patch where
  x      : Nat
  y      : Nat
  width  : Nat
  height : Nat
  color  : Nat

-- What is drawn over the background of a cell, the lowest patch first.
abbrev Tile := List Patch

namespace Patch

def Inside (p : Patch) : Prop :=
  p.x + p.width ≤ gfxCellSize ∧ p.y + p.height ≤ gfxCellSize

def Contains (p : Patch) (column row : Nat) : Prop :=
  p.x ≤ column ∧ column < p.x + p.width ∧ p.y ≤ row ∧ row < p.y + p.height

instance : DecidablePred Inside :=
  fun _ => inferInstanceAs <| Decidable (_ ∧ _)

instance {p : Patch} {column row : Nat} : Decidable (p.Contains column row) :=
  inferInstanceAs <| Decidable (_ ∧ _)

end Patch

namespace Tile

-- The color of a pixel of the tile.
def color (tile : Tile) (column row : Nat) : Nat :=
  tile.foldl (fun color p => if p.Contains column row then p.color else color) snakeColorBackground

def body : Tile := [⟨1, 1, 8, 8, snakeColorBody⟩, ⟨2, 2, 6, 6, snakeColorBodyAccent⟩,
  ⟨3, 3, 4, 4, snakeColorBody⟩]

def tail : Tile := [⟨2, 2, 6, 6, snakeColorTail⟩, ⟨3, 3, 4, 4, snakeColorBody⟩]

def head (dir : SnakeDir) : Tile :=
  [⟨1, 1, 8, 8, snakeColorHead⟩, ⟨2, 2, 6, 6, snakeColorBodyAccent⟩] ++
  match dir with
  | .up =>
    [⟨3, 1, 4, 2, snakeColorAppleAccent⟩, ⟨3, 3, 1, 1, snakeColorEye⟩, ⟨6, 3, 1, 1, snakeColorEye⟩]
  | .right =>
    [⟨7, 3, 2, 4, snakeColorAppleAccent⟩, ⟨6, 3, 1, 1, snakeColorEye⟩, ⟨6, 6, 1, 1, snakeColorEye⟩]
  | .down =>
    [⟨3, 7, 4, 2, snakeColorAppleAccent⟩, ⟨3, 6, 1, 1, snakeColorEye⟩, ⟨6, 6, 1, 1, snakeColorEye⟩]
  | .left =>
    [⟨1, 3, 2, 4, snakeColorAppleAccent⟩, ⟨3, 3, 1, 1, snakeColorEye⟩, ⟨3, 6, 1, 1, snakeColorEye⟩]
  | .other _ => [⟨3, 3, 1, 1, snakeColorEye⟩, ⟨6, 6, 1, 1, snakeColorEye⟩]

def apple : Tile := [⟨4, 1, 1, 2, snakeColorStem⟩, ⟨5, 1, 2, 1, snakeColorLeaf⟩,
  ⟨3, 2, 4, 1, snakeColorAppleAccent⟩, ⟨2, 3, 6, 1, snakeColorApple⟩, ⟨1, 4, 8, 3, snakeColorApple⟩,
  ⟨2, 7, 6, 1, snakeColorApple⟩, ⟨3, 8, 4, 1, snakeColorAppleAccent⟩,
  ⟨3, 4, 2, 2, snakeColorAppleAccent⟩]

def obstacle : Tile := [⟨1, 1, 8, 8, snakeColorObstacle⟩, ⟨2, 2, 6, 6, snakeColorObstacleDark⟩,
  ⟨2, 2, 5, 1, snakeColorObstacleAccent⟩, ⟨2, 5, 6, 1, snakeColorObstacleAccent⟩,
  ⟨3, 8, 5, 1, snakeColorObstacleAccent⟩, ⟨4, 3, 1, 1, snakeColorObstacleAccent⟩,
  ⟨6, 6, 1, 1, snakeColorObstacleAccent⟩]

def Inside (tile : Tile) : Prop :=
  ∀ p ∈ tile, p.Inside

theorem body_inside : body.Inside := by
  simp [Inside, body, Patch.Inside]

theorem tail_inside : tail.Inside := by
  simp [Inside, tail, Patch.Inside]

theorem head_inside (dir : SnakeDir) : (head dir).Inside := by
  cases dir <;> simp [Inside, head, Patch.Inside]

theorem apple_inside : apple.Inside := by
  simp [Inside, apple, Patch.Inside]

theorem obstacle_inside : obstacle.Inside := by
  simp [Inside, obstacle, Patch.Inside]

end Tile

namespace Framebuffer

variable {fb : Framebuffer} {c : SnakeCell} {tile : Tile} {i : Nat}

def drawPatch (fb : Framebuffer) (c : SnakeCell) (p : Patch) : Framebuffer :=
  fb.fillRect (c.x * gfxCellSize + p.x) (c.y * gfxCellSize + p.y) p.width p.height p.color

def drawTile (fb : Framebuffer) (c : SnakeCell) (tile : Tile) : Framebuffer :=
  tile.foldl (fun fb p => drawPatch fb c p) (fb.drawCell c.x c.y snakeColorBackground)

theorem drawBodyCell_eq : fb.snakeDrawBodyCell c.x c.y = fb.drawTile c .body := by
  simp [snakeDrawBodyCell, drawTile, drawPatch, Tile.body]

theorem drawTailCell_eq : fb.snakeDrawTailCell c.x c.y = fb.drawTile c .tail := by
  simp [snakeDrawTailCell, drawTile, drawPatch, Tile.tail]

theorem drawHeadCell_eq {dir : SnakeDir} :
    fb.snakeDrawHeadCell dir c.x c.y = fb.drawTile c (.head dir) := by
  cases dir <;> simp [snakeDrawHeadCell, drawTile, drawPatch, Tile.head]

theorem drawAppleCell_eq : fb.snakeDrawAppleCell c.x c.y = fb.drawTile c .apple := by
  simp [snakeDrawAppleCell, drawTile, drawPatch, Tile.apple]

theorem drawObstacleCell_eq : fb.snakeDrawObstacleCell c.x c.y = fb.drawTile c .obstacle := by
  simp [snakeDrawObstacleCell, drawTile, drawPatch, Tile.obstacle]

theorem drawPatch_apply (hc : c.InField) {p : Patch} (hp : p.Inside) (fb : Framebuffer) (i : Nat) :
    fb.drawPatch c p i =
      if i ∈ cellPixels c ∧ p.Contains (column i) (row i) then p.color else fb i := by
  have ⟨hx, hy⟩ := hc
  have ⟨hw, hh⟩ := hp
  have hm : i ∈ rect (c.x * gfxCellSize + p.x) (c.y * gfxCellSize + p.y) p.width p.height ↔
      i ∈ cellPixels c ∧ p.Contains (column i) (row i) := by
    simp [mem_rect, mem_cellPixels, cellOf_eq_iff, Patch.Contains, column, row] at hx hy hw hh ⊢
    omega
  have hf := fillRect_fills (c.x * gfxCellSize + p.x) (c.y * gfxCellSize + p.y) p.width p.height p.color
  split
  case isTrue h  => exact hf.of_mem (hm.mpr h) fb
  case isFalse h => exact hf.of_notMem (mt hm.mp h) fb

-- A tile covers its cell.
theorem drawTile_apply (hc : c.InField) (ht : tile.Inside) (fb : Framebuffer) (i : Nat) :
    fb.drawTile c tile i =
      if i ∈ cellPixels c then tile.color (column i) (row i) else fb i := by
  have hd := drawCell_fills hc snakeColorBackground
  simp only [drawTile, Tile.color]
  induction tile using List.reverseRecOn
  case nil =>
    split
    case isTrue h  => exact hd.of_mem h fb
    case isFalse h => exact hd.of_notMem h fb
  case append_singleton tile p hi =>
    have hp := drawPatch_apply hc (ht p <| by simp)
    simp only [List.foldl_append, List.foldl_cons, List.foldl_nil, hp,
      hi fun p hm => ht p <| List.mem_append_left _ hm]
    split <;> simp_all

end Framebuffer
