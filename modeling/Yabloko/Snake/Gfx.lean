import Yabloko.Lib.Overlay

@[simp] abbrev gfxWidth : Nat := 320
@[simp] abbrev gfxHeight : Nat := 200
@[simp] abbrev gfxCellSize : Nat := 10
@[simp] abbrev gfxGridWidth : Nat := gfxWidth / gfxCellSize
@[simp] abbrev gfxGridHeight : Nat := gfxHeight / gfxCellSize
@[simp] abbrev videoMode13FramebufferSize : Nat := gfxWidth * gfxHeight

-- The bytes from the start of the array `framebuffer` on. The array has
-- `videoMode13FramebufferSize` entries, and the bytes behind them belong to other objects.
abbrev Framebuffer := Nat → Nat

namespace Framebuffer

def set (fb : Framebuffer) (i color : Nat) : Framebuffer :=
  fun j => if j = i then color else fb j

def clear (fb : Framebuffer) (color : Nat) : Framebuffer :=
  (List.range videoMode13FramebufferSize).foldl (fun fb (i : Nat) => fb.set i color) fb

-- The coordinates are mathematical integers. The calls keep `x + width` and `y + height` in the range
-- of `int`.
def fillRect (fb : Framebuffer) (x y width height : Int) (color : Nat) : Framebuffer :=
  if width ≤ 0 ∨ height ≤ 0 then
    fb
  else
    let left := x
    let top := y
    let right := x + width
    let bottom := y + height
    if right ≤ 0 ∨ bottom ≤ 0 ∨ left ≥ gfxWidth ∨ top ≥ gfxHeight then
      fb
    else
      let left := if left < 0 then 0 else left
      let top := if top < 0 then 0 else top
      let right := if right > gfxWidth then (gfxWidth : Int) else right
      let bottom := if bottom > gfxHeight then (gfxHeight : Int) else bottom
      (List.range (bottom - top).toNat).foldl (fun fb (dy : Nat) =>
        let py := (top + dy).toNat
        let row := py * gfxWidth % 2 ^ 32
        (List.range (right - left).toNat).foldl (fun fb (dx : Nat) =>
          let px := (left + dx).toNat
          fb.set ((row + px) % 2 ^ 32) color) fb) fb

def drawCell (fb : Framebuffer) (x y : Int) (color : Nat) : Framebuffer :=
  if x < 0 ∨ y < 0 ∨ x ≥ gfxGridWidth ∨ y ≥ gfxGridHeight then
    fb
  else
    let pixelX := x.toNat * gfxCellSize
    let pixelY := y.toNat * gfxCellSize
    (List.range gfxCellSize).foldl (fun fb (dy : Nat) =>
      let row := ((pixelY + dy) * gfxWidth + pixelX) % 2 ^ 32
      (List.range gfxCellSize).foldl (fun fb (dx : Nat) => fb.set ((row + dx) % 2 ^ 32) color) fb) fb

def font5x7 : List (List Nat) := [
  [0x0e, 0x11, 0x11, 0x1f, 0x11, 0x11, 0x11],
  [0x1e, 0x11, 0x11, 0x1e, 0x11, 0x11, 0x1e],
  [0x0e, 0x11, 0x10, 0x10, 0x10, 0x11, 0x0e],
  [0x1e, 0x11, 0x11, 0x11, 0x11, 0x11, 0x1e],
  [0x1f, 0x10, 0x10, 0x1e, 0x10, 0x10, 0x1f],
  [0x1f, 0x10, 0x10, 0x1e, 0x10, 0x10, 0x10],
  [0x0e, 0x11, 0x10, 0x17, 0x11, 0x11, 0x0e],
  [0x11, 0x11, 0x11, 0x1f, 0x11, 0x11, 0x11],
  [0x0e, 0x04, 0x04, 0x04, 0x04, 0x04, 0x0e],
  [0x01, 0x01, 0x01, 0x01, 0x11, 0x11, 0x0e],
  [0x11, 0x12, 0x14, 0x18, 0x14, 0x12, 0x11],
  [0x10, 0x10, 0x10, 0x10, 0x10, 0x10, 0x1f],
  [0x11, 0x1b, 0x15, 0x11, 0x11, 0x11, 0x11],
  [0x11, 0x19, 0x15, 0x13, 0x11, 0x11, 0x11],
  [0x0e, 0x11, 0x11, 0x11, 0x11, 0x11, 0x0e],
  [0x1e, 0x11, 0x11, 0x1e, 0x10, 0x10, 0x10],
  [0x0e, 0x11, 0x11, 0x11, 0x15, 0x12, 0x0d],
  [0x1e, 0x11, 0x11, 0x1e, 0x14, 0x12, 0x11],
  [0x0f, 0x10, 0x10, 0x0e, 0x01, 0x01, 0x1e],
  [0x1f, 0x04, 0x04, 0x04, 0x04, 0x04, 0x04],
  [0x11, 0x11, 0x11, 0x11, 0x11, 0x11, 0x0e],
  [0x11, 0x11, 0x11, 0x11, 0x11, 0x0a, 0x04],
  [0x11, 0x11, 0x11, 0x15, 0x15, 0x1b, 0x11],
  [0x11, 0x11, 0x0a, 0x04, 0x0a, 0x11, 0x11],
  [0x11, 0x11, 0x0a, 0x04, 0x04, 0x04, 0x04],
  [0x1f, 0x01, 0x02, 0x04, 0x08, 0x10, 0x1f]]

def font5x7Digits : List (List Nat) := [
  [0x0e, 0x11, 0x13, 0x15, 0x19, 0x11, 0x0e],
  [0x04, 0x0c, 0x04, 0x04, 0x04, 0x04, 0x0e],
  [0x0e, 0x11, 0x01, 0x02, 0x04, 0x08, 0x1f],
  [0x1e, 0x01, 0x01, 0x0e, 0x01, 0x01, 0x1e],
  [0x02, 0x06, 0x0a, 0x12, 0x1f, 0x02, 0x02],
  [0x1f, 0x10, 0x10, 0x1e, 0x01, 0x01, 0x1e],
  [0x0e, 0x10, 0x10, 0x1e, 0x11, 0x11, 0x0e],
  [0x1f, 0x01, 0x02, 0x04, 0x08, 0x08, 0x08],
  [0x0e, 0x11, 0x11, 0x0e, 0x11, 0x11, 0x0e],
  [0x0e, 0x11, 0x11, 0x0f, 0x01, 0x01, 0x0e]]

def fontIndex (ch : Char) : Int :=
  let ch := if ch ≥ 'a' ∧ ch ≤ 'z' then Char.ofNat (ch.toNat - 'a'.toNat + 'A'.toNat) else ch
  if ch ≥ 'A' ∧ ch ≤ 'Z' then
    ch.toNat - 'A'.toNat
  else if ch ≥ '0' ∧ ch ≤ '9' then
    26 + (ch.toNat - '0'.toNat)
  else
    -1

def drawGlyph (fb : Framebuffer) (x y : Int) (color : Nat) (ch : Char) (scale : Int) : Framebuffer :=
  let index := fontIndex ch
  if index < 0 ∨ scale ≤ 0 then
    fb
  else
    let glyph :=
      if index < 26 then
        font5x7.getD index.toNat []
      else
        font5x7Digits.getD (index - 26).toNat []
    (List.range 7).foldl (fun fb (row : Nat) =>
      let bits := glyph.getD row 0
      (List.range 5).foldl (fun fb (col : Nat) =>
        if bits &&& (1 <<< (4 - col)) = 0 then
          fb
        else
          fb.fillRect (x + col * scale) (y + row * scale) scale scale color) fb) fb

-- Texts are given without the terminating zero byte.
def drawText (fb : Framebuffer) (x y : Int) (color : Nat) (text : List Char) (scale : Int) :
    Framebuffer :=
  if scale ≤ 0 then fb else go fb x text
where
  go (fb : Framebuffer) (cursorX : Int) : List Char → Framebuffer
    | [] => fb
    | ch :: text =>
      if ch = ' ' then
        go fb (cursorX + 6 * scale) text
      else
        go (fb.drawGlyph cursorX y color ch scale) (cursorX + 6 * scale) text

def drawTextCentered (fb : Framebuffer) (y : Int) (color : Nat) (text : List Char) (scale : Int) :
    Framebuffer :=
  if text.length = 0 ∨ scale ≤ 0 then
    fb
  else
    let textWidth := text.length * 6 * scale - scale
    let x := (gfxWidth - textWidth).tdiv 2
    let x := if x < 0 then 0 else x
    fb.drawText x y color text scale

end Framebuffer
