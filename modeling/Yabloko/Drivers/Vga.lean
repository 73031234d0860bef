import Yabloko.Kernel.Machine
import Yabloko.Kernel.Memmove

abbrev videoMemory : Nat := kernbase + 0xb8000
abbrev vgaRows : Nat := 25
abbrev vgaCols : Nat := 80
abbrev vgaCtrlRegister : Nat := 0x3d4
abbrev vgaDataRegister : Nat := 0x3d5
abbrev vgaOffsetLow : UInt8 := 0x0f
abbrev vgaOffsetHigh : UInt8 := 0x0e

def black : UInt8 := 0
def lightGray : UInt8 := 7

def getColor (fg bg : UInt8) : UInt8 :=
  (bg <<< 4) + fg

def getOffset (col row : Nat) : Nat :=
  (row * vgaCols + col) % 2 ^ 32

def getRowFromOffset (offset : Nat) : Nat :=
  offset / vgaCols

-- The memory of the kernel, and the registers of the display for the position of the cursor.
structure Vga where
  mem        : Bytes
  index      : UInt8
  offsetHigh : UInt8
  offsetLow  : UInt8

namespace Vga

-- The registers return what was written to them.
def portByteOut (vga : Vga) (port : Nat) (data : UInt8) : Vga :=
  if port = vgaCtrlRegister then
    { vga with index := data }
  else if port = vgaDataRegister ∧ vga.index = vgaOffsetHigh then
    { vga with offsetHigh := data }
  else if port = vgaDataRegister ∧ vga.index = vgaOffsetLow then
    { vga with offsetLow := data }
  else
    vga

def portByteIn (vga : Vga) (port : Nat) : UInt8 :=
  if port = vgaDataRegister ∧ vga.index = vgaOffsetHigh then
    vga.offsetHigh
  else if port = vgaDataRegister ∧ vga.index = vgaOffsetLow then
    vga.offsetLow
  else
    0

def setCursor (vga : Vga) (offset : Nat) : Vga :=
  let vga := vga.portByteOut vgaCtrlRegister vgaOffsetHigh
  let vga := vga.portByteOut vgaDataRegister (.ofNat (offset >>> 8))
  let vga := vga.portByteOut vgaCtrlRegister vgaOffsetLow
  vga.portByteOut vgaDataRegister (.ofNat (offset &&& 0xff))

def getCursor (vga : Vga) : Nat × Vga :=
  let vga := vga.portByteOut vgaCtrlRegister vgaOffsetHigh
  let offset := (vga.portByteIn vgaDataRegister).toNat <<< 8
  let vga := vga.portByteOut vgaCtrlRegister vgaOffsetLow
  let offset := offset + (vga.portByteIn vgaDataRegister).toNat
  (offset, vga)

def setChar (vga : Vga) (offset : Nat) (c fg bg : UInt8) : Vga :=
  let mem := vga.mem.store ((videoMemory + 2 * offset) % 2 ^ 32) c
  let mem := mem.store ((videoMemory + 2 * offset + 1) % 2 ^ 32) (getColor fg bg)
  { vga with mem }

def setCharDefaultColor (vga : Vga) (offset : Nat) (c : UInt8) : Vga :=
  vga.setChar offset c lightGray black

def putCharAt (vga : Vga) (col row : Nat) (c fg bg : UInt8) : Vga :=
  if col ≥ vgaCols ∨ row ≥ vgaRows then
    vga
  else
    vga.setChar (getOffset col row) c fg bg

def clearScreen (vga : Vga) : Vga :=
  let vga := (List.range (vgaRows * vgaCols)).foldl (fun vga i => vga.setCharDefaultColor i 32) vga
  vga.setCursor 0

def backspace (vga : Vga) : Vga :=
  let (offset, vga) := vga.getCursor
  if offset = 0 then
    vga
  else
    let offset := offset - 1
    let vga := vga.setCursor offset
    vga.setCharDefaultColor offset 32

def scroll (vga : Vga) : Nat × Vga :=
  let mem := kmemmove vga.mem videoMemory (videoMemory + 2 * vgaCols) (2 * vgaCols * (vgaRows - 1))
  let vga := (List.range vgaCols).foldl
    (fun vga col => vga.setCharDefaultColor (getOffset col (vgaRows - 1)) 32) { vga with mem }
  (getOffset 0 (vgaRows - 1), vga)

-- The round of the loop in `vga_print_string` for one character.
def printChar : Nat × Vga → UInt8 → Nat × Vga
  | (offset, vga), c =>
    let (offset, vga) :=
      if c = 10 then
        (getOffset 0 (getRowFromOffset offset + 1), vga)
      else
        ((offset + 1) % 2 ^ 32, vga.setCharDefaultColor offset c)
    if offset ≥ vgaCols * vgaRows then vga.scroll else (offset, vga)

-- The string is given by its characters in front of the terminating zero.
def printString (vga : Vga) (s : List UInt8) : Vga :=
  let (offset, vga) := s.foldl printChar vga.getCursor
  vga.setCursor offset

end Vga

structure Cell where
  char  : UInt8
  color : UInt8
  deriving DecidableEq

def Cell.blank : Cell where
  char  := 32
  color := getColor lightGray black

-- A terminal whose rows are never lost. The cells behind the cursor are blank.
structure Terminal where
  cells : Nat → Nat → Cell
  row   : Nat
  col   : Nat

namespace Terminal

def newline (t : Terminal) : Terminal :=
  { t with row := t.row + 1, col := 0 }

def put (t : Terminal) (c : UInt8) : Terminal :=
  let cell := { Cell.blank with char := c }
  let t := { t with cells := fun r k => if r = t.row ∧ k = t.col then cell else t.cells r k }
  if t.col = 79 then t.newline else { t with col := t.col + 1 }

def write (t : Terminal) (c : UInt8) : Terminal :=
  if c = 10 then t.newline else t.put c

def print (t : Terminal) (s : List UInt8) : Terminal :=
  s.foldl write t

-- The first one of the last 25 rows.
def top (t : Terminal) : Nat :=
  t.row - 24

end Terminal

namespace Vga

-- The position of the cursor which the registers hold.
def cursor (vga : Vga) : Nat :=
  2 ^ 8 * vga.offsetHigh.toNat + vga.offsetLow.toNat

def cell (vga : Vga) (offset : Nat) : Cell where
  char  := vga.mem (videoMemory + 2 * offset)
  color := vga.mem (videoMemory + 2 * offset + 1)

-- The terminal with the rows of the screen.
def terminal (vga : Vga) : Terminal where
  cells r k := if r < 25 then vga.cell (80 * r + k) else .blank
  row       := vga.cursor / 80
  col       := vga.cursor % 80

-- The cursor is on the screen, and the cells from it on are blank.
structure Ready (vga : Vga) : Prop where
  cursor_lt : vga.cursor < 2000
  blank     : ∀ i, vga.cursor ≤ i → i < 2000 → vga.cell i = .blank

end Vga
