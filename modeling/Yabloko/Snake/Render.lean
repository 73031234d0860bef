import Yabloko.Snake.Gfx
import Yabloko.Snake.Model

abbrev snakeColorPanel : Nat := 7
abbrev snakeColorBackground : Nat := 8
abbrev snakeColorBody : Nat := 2
abbrev snakeColorBodyAccent : Nat := 10
abbrev snakeColorApple : Nat := 4
abbrev snakeColorAppleAccent : Nat := 12
abbrev snakeColorStem : Nat := 6
abbrev snakeColorLeaf : Nat := 2
abbrev snakeColorObstacle : Nat := 7
abbrev snakeColorObstacleAccent : Nat := 15
abbrev snakeColorObstacleDark : Nat := 8
abbrev snakeColorTail : Nat := 10
abbrev snakeColorHead : Nat := 12
abbrev snakeColorText : Nat := 15
abbrev snakeColorEye : Nat := 0
abbrev snakeScoreX : Nat := 4
abbrev snakeScoreY : Nat := 4
abbrev snakeScoreW : Nat := 80
abbrev snakeScoreH : Nat := 13

namespace Framebuffer

def snakeDrawBodyCell (fb : Framebuffer) (x y : Int) : Framebuffer :=
  let px := x * gfxCellSize
  let py := y * gfxCellSize
  let fb := fb.drawCell x y snakeColorBackground
  let fb := fb.fillRect (px + 1) (py + 1) 8 8 snakeColorBody
  let fb := fb.fillRect (px + 2) (py + 2) 6 6 snakeColorBodyAccent
  fb.fillRect (px + 3) (py + 3) 4 4 snakeColorBody

def snakeDrawTailCell (fb : Framebuffer) (x y : Int) : Framebuffer :=
  let px := x * gfxCellSize
  let py := y * gfxCellSize
  let fb := fb.drawCell x y snakeColorBackground
  let fb := fb.fillRect (px + 2) (py + 2) 6 6 snakeColorTail
  fb.fillRect (px + 3) (py + 3) 4 4 snakeColorBody

def snakeDrawHeadCell (fb : Framebuffer) (dir : SnakeDir) (x y : Int) : Framebuffer :=
  let px := x * gfxCellSize
  let py := y * gfxCellSize
  let fb := fb.drawCell x y snakeColorBackground
  let fb := fb.fillRect (px + 1) (py + 1) 8 8 snakeColorHead
  let fb := fb.fillRect (px + 2) (py + 2) 6 6 snakeColorBodyAccent
  match dir with
  | .up =>
    let fb := fb.fillRect (px + 3) (py + 1) 4 2 snakeColorAppleAccent
    let fb := fb.fillRect (px + 3) (py + 3) 1 1 snakeColorEye
    fb.fillRect (px + 6) (py + 3) 1 1 snakeColorEye
  | .right =>
    let fb := fb.fillRect (px + 7) (py + 3) 2 4 snakeColorAppleAccent
    let fb := fb.fillRect (px + 6) (py + 3) 1 1 snakeColorEye
    fb.fillRect (px + 6) (py + 6) 1 1 snakeColorEye
  | .down =>
    let fb := fb.fillRect (px + 3) (py + 7) 4 2 snakeColorAppleAccent
    let fb := fb.fillRect (px + 3) (py + 6) 1 1 snakeColorEye
    fb.fillRect (px + 6) (py + 6) 1 1 snakeColorEye
  | .left =>
    let fb := fb.fillRect (px + 1) (py + 3) 2 4 snakeColorAppleAccent
    let fb := fb.fillRect (px + 3) (py + 3) 1 1 snakeColorEye
    fb.fillRect (px + 3) (py + 6) 1 1 snakeColorEye
  | .other _ =>
    let fb := fb.fillRect (px + 3) (py + 3) 1 1 snakeColorEye
    fb.fillRect (px + 6) (py + 6) 1 1 snakeColorEye

def snakeDrawAppleCell (fb : Framebuffer) (x y : Int) : Framebuffer :=
  let px := x * gfxCellSize
  let py := y * gfxCellSize
  let fb := fb.drawCell x y snakeColorBackground
  let fb := fb.fillRect (px + 4) (py + 1) 1 2 snakeColorStem
  let fb := fb.fillRect (px + 5) (py + 1) 2 1 snakeColorLeaf
  let fb := fb.fillRect (px + 3) (py + 2) 4 1 snakeColorAppleAccent
  let fb := fb.fillRect (px + 2) (py + 3) 6 1 snakeColorApple
  let fb := fb.fillRect (px + 1) (py + 4) 8 3 snakeColorApple
  let fb := fb.fillRect (px + 2) (py + 7) 6 1 snakeColorApple
  let fb := fb.fillRect (px + 3) (py + 8) 4 1 snakeColorAppleAccent
  fb.fillRect (px + 3) (py + 4) 2 2 snakeColorAppleAccent

def snakeDrawObstacleCell (fb : Framebuffer) (x y : Int) : Framebuffer :=
  let px := x * gfxCellSize
  let py := y * gfxCellSize
  let fb := fb.drawCell x y snakeColorBackground
  let fb := fb.fillRect (px + 1) (py + 1) 8 8 snakeColorObstacle
  let fb := fb.fillRect (px + 2) (py + 2) 6 6 snakeColorObstacleDark
  let fb := fb.fillRect (px + 2) (py + 2) 5 1 snakeColorObstacleAccent
  let fb := fb.fillRect (px + 2) (py + 5) 6 1 snakeColorObstacleAccent
  let fb := fb.fillRect (px + 3) (py + 8) 5 1 snakeColorObstacleAccent
  let fb := fb.fillRect (px + 4) (py + 3) 1 1 snakeColorObstacleAccent
  fb.fillRect (px + 6) (py + 6) 1 1 snakeColorObstacleAccent

def snakeRenderPanel (fb : Framebuffer) (x y width height : Int) : Framebuffer :=
  let fb := fb.fillRect x y width height snakeColorPanel
  fb.fillRect (x + 4) (y + 4) (width - 8) (height - 8) snakeColorBackground

-- The digits of `value` from the last one to the first one, at most `n` of them.
def reverseDigits : Nat → Nat → List Char
  | 0, _ => []
  | n + 1, value =>
    if value > 0 then Char.ofNat ('0'.toNat + value % 10) :: reverseDigits n (value / 10) else []

-- The result is empty when the function returns zero.
def snakeU16ToString (value : Nat) (outSize : Nat) : List Char :=
  if outSize ≤ 1 then
    []
  else if value = 0 then
    ['0']
  else
    let reverse := reverseDigits 5 value
    if reverse.length + 1 > outSize then [] else reverse.reverse

def snakeRenderScore (fb : Framebuffer) (score : Nat) : Framebuffer :=
  let digits := snakeU16ToString score 6
  if digits.length = 0 then
    fb
  else
    let scoreText := "SCORE ".toList ++ digits
    let fb := fb.fillRect snakeScoreX snakeScoreY snakeScoreW snakeScoreH snakeColorPanel
    let fb := fb.fillRect (snakeScoreX + 1) (snakeScoreY + 1) (snakeScoreW - 2) (snakeScoreH - 2)
      snakeColorBackground
    fb.drawText (snakeScoreX + 4) (snakeScoreY + 3) snakeColorText scoreText 1

def snakeRenderMenu (fb : Framebuffer) (appleCount : Nat) : Framebuffer :=
  let appleText := "APPLES ".toList ++ snakeU16ToString appleCount 4
  let fb := fb.clear snakeColorBackground
  let fb := fb.fillRect 0 0 320 8 snakeColorPanel
  let fb := fb.fillRect 0 192 320 8 snakeColorPanel
  let fb := fb.fillRect 0 0 8 200 snakeColorPanel
  let fb := fb.fillRect 312 0 8 200 snakeColorPanel
  let fb := fb.snakeRenderPanel 34 24 252 152
  let fb := fb.drawTextCentered 34 snakeColorText "YABLOKO SNAKE".toList 3
  let fb := fb.drawTextCentered 72 snakeColorText "ENTER OR R TO START".toList 2
  let fb := fb.drawTextCentered 98 snakeColorText "A D APPLES".toList 1
  let fb := fb.drawTextCentered 110 snakeColorText appleText 1
  let fb := fb.drawTextCentered 126 snakeColorText "WASD MOVE".toList 2
  let fb := fb.drawTextCentered 146 snakeColorText "SPACE SPEED".toList 1
  let fb := fb.drawTextCentered 156 snakeColorText "P PAUSE OR RESUME".toList 1
  fb.drawTextCentered 166 snakeColorText "Q EXIT TO CONSOLE".toList 1

-- Results are absent when an access to an array of the model is outside of the bounds.

def drawObstacles (fb : Framebuffer) (m : SnakeModel) : Option Framebuffer :=
  (List.range m.obstacleCount).foldlM (fun fb (i : Nat) => do
    let c ← m.obstacles.read i
    return snakeDrawObstacleCell fb c.x c.y) fb

def drawApples (fb : Framebuffer) (m : SnakeModel) : Option Framebuffer :=
  (List.range m.appleCount).foldlM (fun fb (i : Nat) => do
    let c ← m.apples.read i
    return snakeDrawAppleCell fb c.x c.y) fb

def drawBody (fb : Framebuffer) (m : SnakeModel) : Option Framebuffer :=
  rowMajor.foldlM (fun fb (x, y) => do
    if ← m.isOccupied x y then
      return snakeDrawBodyCell fb x y
    else
      return fb) fb

def snakeRenderFull (fb : Framebuffer) (m : SnakeModel) : Option Framebuffer := do
  let fb := fb.clear snakeColorBackground
  let fb ← fb.drawObstacles m
  let fb ← fb.drawApples m
  let fb ← fb.drawBody m
  let fb := fb.snakeDrawTailCell m.tail.x m.tail.y
  let fb := fb.snakeDrawHeadCell m.dir m.head.x m.head.y
  return fb.snakeRenderScore m.score

def snakeRenderPause (fb : Framebuffer) (m : SnakeModel) : Option Framebuffer := do
  let fb ← fb.snakeRenderFull m
  let fb := fb.snakeRenderPanel 32 34 256 132
  let fb := fb.drawTextCentered 48 snakeColorText "PAUSED".toList 4
  let fb := fb.drawTextCentered 88 snakeColorText "P RESUME".toList 2
  let fb := fb.drawTextCentered 110 snakeColorText "R RESTART".toList 2
  return fb.drawTextCentered 132 snakeColorText "Q EXIT TO CONSOLE".toList 2

def snakeRenderGameOver (fb : Framebuffer) (m : SnakeModel) : Option Framebuffer := do
  let fb ← fb.snakeRenderFull m
  let fb := fb.snakeRenderPanel 40 52 240 96
  let fb := fb.drawTextCentered 64 snakeColorText "GAME OVER".toList 4
  let fb := fb.drawTextCentered 102 snakeColorText "R RESTART".toList 2
  return fb.drawTextCentered 126 snakeColorText "Q EXIT TO CONSOLE".toList 2

def snakeRenderStep (fb : Framebuffer) (m : SnakeModel) (prevHead prevTail : SnakeCell) :
    Option Framebuffer := do
  let fb ← fb.drawApples m
  let fb ←
    if ← m.hasObstacle prevTail.x prevTail.y then
      pure <| fb.snakeDrawObstacleCell prevTail.x prevTail.y
    else
      pure <| fb.drawCell prevTail.x prevTail.y snakeColorBackground
  let fb := fb.snakeDrawBodyCell prevHead.x prevHead.y
  let fb := fb.snakeDrawTailCell m.tail.x m.tail.y
  let fb := fb.snakeDrawHeadCell m.dir m.head.x m.head.y
  return fb.snakeRenderScore m.score

end Framebuffer
