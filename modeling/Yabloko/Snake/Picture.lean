import Yabloko.Snake.Tiles

open SnakeCell

namespace Framebuffer

-- The pixels of the score.
def scoreBox : Set Nat :=
  rect snakeScoreX snakeScoreY snakeScoreW snakeScoreH

theorem rect_subset {x y width height x' y' width' height' : Int} (hx : x' ≤ x) (hy : y' ≤ y)
    (hw : x + width ≤ x' + width') (hh : y + height ≤ y' + height') :
    rect x y width height ⊆ rect x' y' width' height' := by
  intro i hi
  simp only [mem_rect] at hi ⊢
  omega

theorem drawGlyph_overlay (x y : Int) (color : Nat) (ch : Char) :
    Overlay (rect x y 6 7) (fun fb : Framebuffer => fb.drawGlyph x y color ch 1) := by
  have hd {row col : Nat} (hr : row < 7) (hc : col < 5) (bit : Nat) :
      Overlay (rect x y 6 7) (fun fb : Framebuffer =>
        if bit = 0 then fb else fb.fillRect (x + col * 1) (y + row * 1) 1 1 color) := by
    by_cases hb : bit = 0
    case pos =>
      simp only [hb, if_true]
      exact .id
    case neg =>
      simp only [hb, if_false]
      exact (fillRect_fills _ _ _ _ _).overlay.mono <|
        rect_subset (by omega) (by omega) (by omega) (by omega)
  by_cases hi : fontIndex ch < 0
  case pos =>
    simp only [drawGlyph, hi, true_or, if_true]
    exact .id
  case neg =>
    simp only [drawGlyph, hi, false_or, Int.one_pos.not_ge, if_false]
    refine .foldl _ fun row hr => .foldl _ fun col hc => ?_
    exact hd (List.mem_range.mp hr) (List.mem_range.mp hc) _

theorem drawText_overlay (x y : Int) (color : Nat) (text : List Char) :
    Overlay (rect x y (6 * text.length) 7) (fun fb : Framebuffer => fb.drawText x y color text 1) := by
  simp only [drawText, Int.one_pos.not_ge, if_false]
  induction text generalizing x
  case nil               => exact .id
  case cons ch text hi =>
    have hl : (((ch :: text).length : Nat) : Int) = text.length + 1 := by simp
    have hr := (hi (x + 6 * 1)).mono (T := rect x y (6 * (ch :: text).length) 7) <|
      rect_subset (by omega) (by omega) (by omega) (by omega)
    by_cases hc : ch = ' '
    case pos =>
      simp only [drawText.go, hc, if_true]
      exact hc ▸ hr
    case neg =>
      simp only [drawText.go, hc, if_false]
      refine hr.comp <| (drawGlyph_overlay _ _ _ _).mono ?_
      exact rect_subset (by omega) (by omega) (by omega) (by omega)

theorem reverseDigits_length_le (n value : Nat) : (reverseDigits n value).length ≤ n := by
  induction n generalizing value
  case zero      => simp [reverseDigits]
  case succ n hi =>
    rw [reverseDigits]
    split
    · simpa using hi (value / 10)
    · simp

theorem snakeU16ToString_length (value : Nat) :
    0 < (snakeU16ToString value 6).length ∧ (snakeU16ToString value 6).length ≤ 5 := by
  have hle := reverseDigits_length_le 5 value
  by_cases hv : value = 0
  case pos => simp [snakeU16ToString, hv]
  case neg =>
    have hn : ¬(reverseDigits 5 value).length + 1 > 6 := by omega
    have hp : value > 0 := by omega
    have hpos : 0 < (reverseDigits 5 value).length := by simp [reverseDigits, hp]
    have he : snakeU16ToString value 6 = (reverseDigits 5 value).reverse := by
      simp [snakeU16ToString, hv, hn]
    rw [he, List.length_reverse]
    exact ⟨hpos, hle⟩

-- The score covers its box, regardless of what has been there.
theorem renderScore_covers (score : Nat) :
    Covers scoreBox (fun fb : Framebuffer => fb.snakeRenderScore score) := by
  have ⟨hp, hle⟩ := snakeU16ToString_length score
  have hn : ¬(snakeU16ToString score 6).length = 0 := by omega
  simp only [snakeRenderScore, hn, if_false]
  have hf := (fillRect_fills snakeScoreX snakeScoreY snakeScoreW snakeScoreH snakeColorPanel).covers
  have hi := (fillRect_fills (snakeScoreX + 1) (snakeScoreY + 1) (snakeScoreW - 2) (snakeScoreH - 2)
    snakeColorBackground).overlay.mono (T := scoreBox) <|
      rect_subset (by simp) (by simp) (by simp) (by simp)
  have ht := (drawText_overlay (snakeScoreX + 4) (snakeScoreY + 3) snakeColorText
    ("SCORE ".toList ++ snakeU16ToString score 6)).mono (T := scoreBox) <|
      rect_subset (by simp) (by simp) (by simp; omega) (by simp)
  exact (ht.comp hi).comp_covers hf

-- Outside of the score, the screen shows a tile for each cell.
def ShowsTiles (fb : Framebuffer) (tiles : SnakeCell → Tile) : Prop :=
  ∀ i < videoMode13FramebufferSize, i ∉ scoreBox →
    fb i = (tiles <| cellOf i).color (column i) (row i)

namespace ShowsTiles

variable {fb : Framebuffer} {tiles tiles' : SnakeCell → Tile} {c : SnakeCell} {tile : Tile}

theorem clear (fb : Framebuffer) : (fb.clear snakeColorBackground).ShowsTiles fun _ => [] :=
  fun _ hi _ => clear_fills snakeColorBackground |>.of_mem hi fb

theorem withTile (h : fb.ShowsTiles tiles) (hc : c.InField) (ht : tile.Inside) :
    (fb.drawTile c tile).ShowsTiles fun c' => if c' = c then tile else tiles c' := by
  intro i hi hs
  simp only [drawTile_apply hc ht]
  by_cases he : cellOf i = c
  case pos => rw [if_pos ⟨hi, he⟩, if_pos he]
  case neg => rw [if_neg (he ·.right), if_neg he, h i hi hs]

theorem congr (h : fb.ShowsTiles tiles) (ht : ∀ c, c.InField → tiles' c = tiles c) :
    fb.ShowsTiles tiles' := by
  intro i hi hs
  rw [ht _ <| cellOf_inField hi]
  exact h i hi hs

theorem renderScore (h : fb.ShowsTiles tiles) (score : Nat) :
    (fb.snakeRenderScore score).ShowsTiles tiles := by
  intro i hi hs
  rw [(renderScore_covers score).outside fb i hs]
  exact h i hi hs

end ShowsTiles
section Loops

variable {fb : Framebuffer} {tiles : SnakeCell → Tile} {m : SnakeModel} {b : Board}

theorem ShowsTiles.foldl_drawTile (h : fb.ShowsTiles tiles) {l : List SnakeCell}
    (hf : ∀ c ∈ l, c.InField) {tile : Tile} (ht : tile.Inside) :
    (l.foldl (fun fb c => drawTile fb c tile) fb).ShowsTiles
      fun c => if c ∈ l then tile else tiles c := by
  induction l using List.reverseRecOn
  case nil => simpa using h
  case append_singleton l c hi =>
    have hi := hi fun c hc => hf c <| List.mem_append_left _ hc
    rw [List.foldl_append]
    refine (hi.withTile (hf c <| by simp) ht).congr fun c' _ => ?_
    by_cases hc : c' = c <;> simp [hc]

theorem drawObstacles_eq (hm : m.Shows b) : fb.drawObstacles m =
    some (b.obstacles.foldl (fun fb c => drawTile fb c .obstacle) fb) := by
  simp only [drawObstacles, hm.obstacleCount, drawObstacleCell_eq]
  exact hm.obstacles.foldlM_read _ _

theorem drawApples_eq (hm : m.Shows b) : fb.drawApples m =
    some (b.apples.foldl (fun fb c => drawTile fb c .apple) fb) := by
  simp only [drawApples, hm.appleCount, drawAppleCell_eq]
  exact hm.apples.foldlM_read _ _

theorem ShowsTiles.drawBody (h : fb.ShowsTiles tiles) (hm : m.Shows b) :
    ∃ fb', fb.drawBody m = some fb' ∧
      fb'.ShowsTiles fun c => if c ∈ b.body then .body else tiles c := by
  obtain ⟨fb', hf, hp⟩ := List.foldlM_inv (s := fb) (f := fun fb p => do
      if ← m.isOccupied p.1 p.2 then
        return snakeDrawBodyCell fb p.1 p.2
      else
        return fb)
    (P := fun pre fb => fb.ShowsTiles fun c =>
      if (c.x, c.y) ∈ pre ∧ c ∈ b.body then .body else tiles c)
    rowMajor (by simpa using h) fun pre p fb hp hi => by
      obtain ⟨x, y⟩ := p
      have hc : SnakeCell.InField ⟨x, y⟩ := mem_rowMajor.mp <| hp.mem (by simp)
      have ho : m.isOccupied x y = _ := hm.isOccupied_eq hc
      have he {c : SnakeCell} : c = ⟨x, y⟩ ↔ (c.x, c.y) = (x, y) := by
        cases c
        simp
      by_cases hb : ⟨x, y⟩ ∈ b.body
      case pos =>
        refine ⟨fb.drawTile ⟨x, y⟩ .body, by simp [ho, hb, ← drawBodyCell_eq], ?_⟩
        refine (hi.withTile hc Tile.body_inside).congr fun c _ => ?_
        by_cases hn : c = ⟨x, y⟩
        case pos => simp [hn, hb]
        case neg => simp [hn, mt he.mpr hn]
      case neg =>
        refine ⟨fb, by simp [ho, hb], hi.congr fun c _ => ?_⟩
        by_cases hn : c = ⟨x, y⟩
        case pos => simp [hn, hb]
        case neg => simp [mt he.mpr hn]
  refine ⟨fb', hf, hp.congr fun c hc => ?_⟩
  simp [mem_rowMajor.mpr hc]

end Loops
end Framebuffer
