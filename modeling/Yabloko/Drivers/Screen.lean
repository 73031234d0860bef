import Yabloko.Drivers.Graphics

def vgaSetChar (offset : Nat) (c fg bg : UInt8) : Driver Unit := do
  let _ ← Prog.perform (.store ((videoMemory + 2 * offset) % 2 ^ 32) c)
  let _ ← Prog.perform (.store ((videoMemory + 2 * offset + 1) % 2 ^ 32) (getColor fg bg))

def vgaSetCharDefaultColor (offset : Nat) (c : UInt8) : Driver Unit :=
  vgaSetChar offset c lightGray black

def vgaPutCharAt (col row : Nat) (c fg bg : UInt8) : Driver Unit :=
  if col ≥ vgaCols ∨ row ≥ vgaRows then
    return
  else
    vgaSetChar (getOffset col row) c fg bg

def vgaClearScreen : Driver Unit := do
  forM (List.range (vgaRows * vgaCols)) fun i => vgaSetCharDefaultColor i 32
  vgaSetCursor 0

def vgaBackspace : Driver Unit := do
  let offset ← vgaGetCursor
  if offset = 0 then
    return
  else
    let offset := offset - 1
    vgaSetCursor offset
    vgaSetCharDefaultColor offset 32

-- The lines of the screen are moved up by the loop of `kmemmove` which copies the first byte first.
def vgaScroll : Driver Nat := do
  forM (List.range (2 * vgaCols * (vgaRows - 1))) fun i => do
    let c ← Prog.perform (.load ((videoMemory + 2 * vgaCols + i) % 2 ^ 32))
    let _ ← Prog.perform (.store ((videoMemory + i) % 2 ^ 32) (.ofNat c))
  forM (List.range vgaCols) fun col => vgaSetCharDefaultColor (getOffset col (vgaRows - 1)) 32
  return getOffset 0 (vgaRows - 1)

def vgaPrintChar (offset : Nat) (c : UInt8) : Driver Nat := do
  let offset ← if c = 10 then
    pure <| getOffset 0 (getRowFromOffset offset + 1)
  else do
    vgaSetCharDefaultColor offset c
    pure <| (offset + 1) % 2 ^ 32
  if offset ≥ vgaCols * vgaRows then vgaScroll else return offset

def vgaPrintString (s : List UInt8) : Driver Unit := do
  let offset ← vgaGetCursor
  let offset ← s.foldlM vgaPrintChar offset
  vgaSetCursor offset

-- The calls which change the screen.
inductive ScreenCall
  | setCursor (offset : Nat)
  | setChar (offset : Nat) (c fg bg : UInt8)
  | putCharAt (col row : Nat) (c fg bg : UInt8)
  | printString (s : List UInt8)
  | backspace
  | clearScreen

namespace ScreenCall

def driver : ScreenCall → Driver Unit
  | setCursor offset          => vgaSetCursor offset
  | setChar offset c fg bg    => vgaSetChar offset c fg bg
  | putCharAt col row c fg bg => vgaPutCharAt col row c fg bg
  | printString s             => vgaPrintString s
  | backspace                 => vgaBackspace
  | clearScreen               => vgaClearScreen

def effect : ScreenCall → Vga → Vga
  | setCursor offset, vga          => vga.setCursor offset
  | setChar offset c fg bg, vga    => vga.setChar offset c fg bg
  | putCharAt col row c fg bg, vga => vga.putCharAt col row c fg bg
  | printString s, vga             => vga.printString s
  | backspace, vga                 => vga.backspace
  | clearScreen, vga               => vga.clearScreen

end ScreenCall

namespace Vga

-- The memory of the kernel and the cursor, when nothing else accesses them.
def device : Device PortOp Nat Vga
  | .byteIn port, vga       => ((vga.portByteIn port).toNat, vga)
  | .byteOut port data, vga => (0, vga.portByteOut port data)
  | .load addr, vga         => ((vga.mem addr).toNat, vga)
  | .store addr data, vga   => (0, { vga with mem := vga.mem.store addr data })
  | _, vga                  => (0, vga)

theorem run_vgaSetCursor (offset : Nat) (vga : Vga) :
    (vgaSetCursor offset).run device vga = ((), vga.setCursor offset) :=
  rfl

theorem setCursor_cell (vga : Vga) (offset i : Nat) : (vga.setCursor offset).cell i = vga.cell i := by
  simp only [setCursor_eq]
  rfl

theorem run_vgaGetCursor (vga : Vga) : vgaGetCursor.run device vga = vga.getCursor := by
  simp only [vgaGetCursor, Prog.run_bind, Prog.run_portByteOut, Prog.run_portByteIn, device, UInt8.ofNat_toNat]
  rfl

theorem run_vgaSetChar (offset : Nat) (c fg bg : UInt8) (vga : Vga) :
    (vgaSetChar offset c fg bg).run device vga = ((), vga.setChar offset c fg bg) :=
  rfl

theorem run_vgaPutCharAt (col row : Nat) (c fg bg : UInt8) (vga : Vga) :
    (vgaPutCharAt col row c fg bg).run device vga = ((), vga.putCharAt col row c fg bg) := by
  rw [vgaPutCharAt, putCharAt]
  split
  case isTrue  => rfl
  case isFalse => exact run_vgaSetChar ..

theorem run_fill (l : List Nat) (f : Nat → Nat) (vga : Vga) :
    (forM l fun i => vgaSetCharDefaultColor (f i) 32).run device vga =
      (⟨⟩, l.foldl (fun vga i => vga.setCharDefaultColor (f i) 32) vga) :=
  Prog.run_forM ..

theorem run_vgaClearScreen (vga : Vga) : vgaClearScreen.run device vga = ((), vga.clearScreen) := by
  have hf := run_fill (List.range (vgaRows * vgaCols)) id vga
  simp only [id] at hf
  rw [vgaClearScreen, Prog.run_bind, hf, run_vgaSetCursor, clearScreen]

theorem run_vgaBackspace (vga : Vga) : vgaBackspace.run device vga = ((), vga.backspace) := by
  rw [vgaBackspace, Prog.run_bind, run_vgaGetCursor, backspace]
  dsimp only
  split
  case isTrue  => rfl
  case isFalse => rfl

theorem run_copy (dst src size : Nat) (vga : Vga) : (forM (List.range size) fun i => do
      let c ← Prog.perform (.load ((src + i) % 2 ^ 32))
      let _ ← Prog.perform (.store ((dst + i) % 2 ^ 32) (.ofNat c)) : Driver Unit).run device vga =
    ((), { vga with mem := kmemmoveLeftToRight vga.mem dst src size }) := by
  rw [Prog.run_forM, kmemmoveLeftToRight]
  generalize List.range size = l
  induction l generalizing vga
  case nil         => rfl
  case cons i l hi =>
    rw [List.foldl_cons, List.foldl_cons, hi]
    simp only [Prog.run_bind, Prog.run_perform, device, UInt8.ofNat_toNat]
    rfl

theorem run_vgaScroll (vga : Vga) : vgaScroll.run device vga = vga.scroll := by
  rw [vgaScroll, Prog.run_bind, run_copy, Prog.run_bind, run_fill]
  rfl

theorem run_vgaPrintChar (offset : Nat) (c : UInt8) (vga : Vga) :
    (vgaPrintChar offset c).run device vga = printChar (offset, vga) c := by
  have hs (offset : Nat) (vga : Vga) :
      (if offset ≥ vgaCols * vgaRows then vgaScroll else return offset : Driver Nat).run device vga =
        if offset ≥ vgaCols * vgaRows then vga.scroll else (offset, vga) := by
    split
    case isTrue  => exact run_vgaScroll vga
    case isFalse => rfl
  rw [vgaPrintChar, printChar]
  by_cases hc : c = 10
  case pos =>
    rw [if_pos hc, if_pos hc]
    exact hs _ _
  case neg =>
    rw [if_neg hc, if_neg hc]
    exact hs _ _

theorem run_vgaPrintString (s : List UInt8) (vga : Vga) :
    (vgaPrintString s).run device vga = ((), vga.printString s) := by
  have hs (offset : Nat) (vga : Vga) : (s.foldlM vgaPrintChar offset).run device vga =
      s.foldl printChar (offset, vga) := by
    induction s generalizing offset vga
    case nil         => rfl
    case cons c s hi => rw [List.foldlM_cons, Prog.run_bind, run_vgaPrintChar, hi, List.foldl_cons]
  rw [vgaPrintString, Prog.run_bind, run_vgaGetCursor, Prog.run_bind, hs, run_vgaSetCursor]
  rfl

theorem run_driver (call : ScreenCall) (vga : Vga) : call.driver.run device vga = ((), call.effect vga) := by
  cases call
  case setCursor offset => exact run_vgaSetCursor offset vga
  case setChar          => exact run_vgaSetChar ..
  case putCharAt        => exact run_vgaPutCharAt ..
  case printString s    => exact run_vgaPrintString s vga
  case backspace        => exact run_vgaBackspace vga
  case clearScreen      => exact run_vgaClearScreen vga

end Vga
