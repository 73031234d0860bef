import Yabloko.Drivers.KeyboardEvent
import Yabloko.Drivers.Print
import Yabloko.Kernel.Fs
import Yabloko.Lib.Arr

open Bytes

abbrev shellCmdCapacity : Nat := 128

-- The static variables of the shell, and the console.
structure Shell where
  cmd     : Arr UInt8 shellCmdCapacity
  cmdSize : Nat
  vga     : Vga

-- What the shell executes for a line.
inductive ShellCommand
  | halt
  | work
  | run (cmd : CString)
  | graphtest
  | unknown

namespace Shell

-- The messages are also sent to the serial line.
def printk (shell : Shell) (msg : List UInt8) : Shell :=
  { shell with vga := shell.vga.printString msg }

def reset (shell : Shell) : Shell :=
  { shell with cmdSize := 0 }

-- The buffer of the line, as a string.
def line (shell : Shell) : CString :=
  fun i => (shell.cmd.read i).getD 0

def literal (s : String) : CString :=
  fun i => s.toUTF8.toList.getD i 0

-- The first part of `shell_execute_line`, which chooses the command.
def executeLine (shell : Shell) : Option (ShellCommand × Shell) := do
  let cmd ← shell.cmd.write shell.cmdSize 0
  let shell := { shell with cmd }.printk [10]
  if shell.cmdSize = 4 ∧ strncmp (literal "halt") shell.line 4 = 0 then
    return (.halt, shell)
  else if shell.cmdSize = 4 ∧ strncmp (literal "work") shell.line 4 = 0 then
    return (.work, shell)
  else if shell.cmdSize ≥ 4 ∧ strncmp (literal "run ") shell.line 4 = 0 then
    return (.run fun i => shell.line (4 + i), shell)
  else if shell.cmdSize = 9 ∧ strncmp (literal "graphtest") shell.line 9 = 0 then
    return (.graphtest, shell)
  else
    return (.unknown, shell)

-- The last part of `shell_execute_line`.
def prompt (shell : Shell) : Shell :=
  shell.reset.printk [10, 62, 32]

def handleKeyEvent (shell : Shell) (event : Nat) : Option (Option ShellCommand × Shell) := do
  if !kbdEventIsPressed event then
    return (none, shell)
  let keycode : UInt8 := .ofNat (kbdEventKeycode event)
  if keycode = 0 then
    return (none, shell)
  if keycode = 8 then
    if shell.cmdSize > 0 then
      return (none, { shell with cmdSize := shell.cmdSize - 1, vga := shell.vga.backspace })
    return (none, shell)
  if keycode = 10 then
    let (command, shell) ← shell.executeLine
    return (some command, shell)
  if (shell.cmdSize + 1) % 2 ^ 32 ≥ shellCmdCapacity then
    return (none, shell)
  let cmd ← shell.cmd.write shell.cmdSize keycode
  let shell := { shell with cmd, cmdSize := (shell.cmdSize + 1) % 2 ^ 32 }
  return (none, shell.printk [keycode])

-- The events which are handled in a row.
def handleKeyEvents (shell : Shell) (events : List Nat) : Option Shell :=
  events.foldlM (fun shell event => (shell.handleKeyEvent event).map Prod.snd) shell

-- The line is empty, and the cursor is behind the prompt.
structure AtPrompt (shell : Shell) : Prop where
  cmdSize : shell.cmdSize = 0
  ready   : shell.vga.Ready
  cursor  : 2 ≤ shell.vga.cursor
  prompt  : (shell.vga.cell (shell.vga.cursor - 2)).char = 62 ∧
              (shell.vga.cell (shell.vga.cursor - 1)).char = 32

end Shell

-- The effect of a key on the text of the line.
def editLine (text : List UInt8) (event : Nat) : List UInt8 :=
  if kbdEventIsPressed event = false ∨ kbdEventKeycode event = 0 then
    text
  else if kbdEventKeycode event = 8 then
    text.dropLast
  else if text.length < 127 then
    text ++ [.ofNat (kbdEventKeycode event)]
  else
    text

namespace Terminal

variable {t : Terminal}

-- The cursor is in one of the columns, and the cells from it on are blank.
structure Open (t : Terminal) : Prop where
  col_lt : t.col < 80
  blank  : ∀ i, t.pos ≤ i → t.cellAt i = .blank

theorem Open.newline (h : t.Open) : t.newline.Open where
  col_lt := by simp [Terminal.newline]
  blank i hi := by
    have hc := h.col_lt
    rw [newline_pos] at hi
    rw [newline_cellAt]
    refine h.blank i ?_
    rw [pos]
    omega

theorem Open.put (h : t.Open) (c : UInt8) : (t.put c).Open where
  col_lt := (put_pos h.col_lt c).right
  blank i hi := by
    have hp := (put_pos h.col_lt c).left
    rw [put_cellAt h.col_lt, if_neg (by omega)]
    exact h.blank i (by omega)

-- The line is written behind the cursor.
theorem Open.print (h : t.Open) (text : List UInt8) (hn : 10 ∉ text) : (t.print text).Open ∧
    (t.print text).pos = t.pos + text.length ∧
    ∀ i, (t.print text).cellAt i =
      if t.pos ≤ i then (text[i - t.pos]?).elim .blank ({ Cell.blank with char := · }) else t.cellAt i := by
  induction text using List.reverseRecOn
  case nil =>
    refine ⟨h, rfl, fun i => ?_⟩
    split
    case isTrue hi => exact h.blank i hi
    case isFalse   => rfl
  case append_singleton text c hi =>
    have ⟨h', hp, hc⟩ := hi fun hm => hn <| List.mem_append_left _ hm
    have hne : c ≠ 10 := fun he => hn <| by simp [he]
    have he : t.print (text ++ [c]) = (t.print text).put c := by
      rw [Terminal.print, List.foldl_append, List.foldl_cons, List.foldl_nil, write, if_neg hne]
      rfl
    have hp' := (put_pos h'.col_lt c).left
    rw [he, List.length_append, List.length_singleton]
    refine ⟨h'.put c, by omega, fun i => ?_⟩
    rw [put_cellAt h'.col_lt, hc]
    by_cases hl : i = (t.print text).pos
    case pos =>
      rw [if_pos hl, if_pos (by omega), List.getElem?_append_right (by omega),
        show i - t.pos - text.length = 0 by omega]
      rfl
    case neg =>
      rw [if_neg hl]
      split
      case isFalse   => rfl
      case isTrue hi =>
        by_cases hlt : i - t.pos < text.length
        case pos => rw [List.getElem?_append_left hlt]
        case neg =>
          rw [List.getElem?_eq_none (by omega), List.getElem?_eq_none (by simp; omega)]

end Terminal

namespace Vga

variable {vga : Vga} {t : Terminal} {top : Nat} {c : UInt8}

theorem backspace_eq (vga : Vga) (h : vga.cursor ≠ 0) :
    vga.backspace = (vga.setCharDefaultColor (vga.cursor - 1) 32).setCursor (vga.cursor - 1) := by
  rw [backspace, getCursor_eq]
  simp only [h, if_false, setCursor_eq]
  rfl

-- A backspace undoes the last character, except for the rows which are scrolled away.
theorem Shows.backspace (h : vga.Shows top (t.put c)) (ht : t.Open) (hp : 80 * top ≤ t.pos) :
    vga.backspace.Shows top t ∧ AgreeOutside videoMemory 4000 vga.mem vga.backspace.mem := by
  have ho := h.cursor_lt
  have hd := h.displays.pos
  have hp' := (Terminal.put_pos ht.col_lt c).left
  have hlt : vga.cursor - 1 < 2000 := by omega
  have hm : vga.backspace.mem = (vga.setCharDefaultColor (vga.cursor - 1) 32).mem := by
    rw [vga.backspace_eq (by omega), setCursor_eq]
  have hc : vga.backspace.cursor = vga.cursor - 1 := by
    rw [vga.backspace_eq (by omega), setCursor_cursor (by omega)]
  refine ⟨⟨by omega, .of_mem ?_ hm⟩, hm ▸ setChar_agree hlt _ _ _ _⟩
  refine ⟨by omega, by omega, ht.col_lt, fun i hi => ?_, ht.blank⟩
  rw [setCharDefaultColor, setChar_cell hlt, h.displays.cell i hi, Terminal.put_cellAt ht.col_lt]
  split
  case isTrue he => exact (ht.blank _ (by omega)).symm
  case isFalse he => rw [if_neg (by omega)]

end Vga

namespace Shell

variable {shell shell' : Shell} {t : Terminal} {top event : Nat} {text : List UInt8}

-- The line which has been typed behind the cursor of the terminal `t`.
structure Edits (shell : Shell) (top : Nat) (t : Terminal) (text : List UInt8) : Prop where
  cmd      : shell.cmd.Holds text
  cmdSize  : shell.cmdSize = text.length
  length   : text.length ≤ 127
  newline  : 10 ∉ text
  scrolled : 80 * top + 2 ≤ t.pos
  shows    : shell.vga.Shows top (t.print text)

theorem keycode_eq_iff (event k : Nat) (hk : k < 256) :
    UInt8.ofNat (kbdEventKeycode event) = .ofNat k ↔ kbdEventKeycode event = k := by
  have hl : kbdEventKeycode event < 256 := by
    rw [kbdEventKeycode, Nat.and_two_pow_sub_one_eq_mod _ 8]
    omega
  rw [← UInt8.toNat_inj, UInt8.toNat_ofNat', UInt8.toNat_ofNat']
  omega

theorem Edits.type (h : shell.Edits top t text) (ht : t.Open) {c : UInt8} (hc : c ≠ 10)
    (hl : text.length < 127) : ∃ cmd top', shell.cmd.write shell.cmdSize c = some cmd ∧
      Edits { shell with
        cmd
        cmdSize := (shell.cmdSize + 1) % 2 ^ 32
        vga := shell.vga.printString [c] } top' t (text ++ [c]) ∧
      AgreeOutside videoMemory 4000 shell.vga.mem (shell.vga.printString [c]).mem := by
  have hcap : shellCmdCapacity = 128 := rfl
  have ⟨cmd, hw, _⟩ := Arr.exists_write (a := shell.cmd) (v := c) (i := text.length) (by omega) (by omega)
  have ⟨hs, ha⟩ := h.shows.printString [c]
  have hp := h.scrolled
  have hnl : 10 ∉ text ++ [c] := by simpa using ⟨h.newline, hc.symm⟩
  have ⟨_, hpos, _⟩ := ht.print _ hnl
  have he : (t.print text).print [c] = t.print (text ++ [c]) := by
    rw [Terminal.print, Terminal.print, ← List.foldl_append]
    rfl
  rw [he] at hs
  rw [h.cmdSize]
  refine ⟨cmd, _, hw, ⟨h.cmd.append hw, ?_, by simp; omega, hnl, ?_, hs⟩, ha⟩
  · rw [List.length_append, List.length_singleton]
    simp only
    omega
  · rw [Terminal.pos, List.length_append] at hpos
    rw [Terminal.top]
    simp at hpos
    omega

theorem Edits.erase {c : UInt8} (h : shell.Edits top t (text ++ [c])) (ht : t.Open) :
    Edits { shell with cmdSize := shell.cmdSize - 1, vga := shell.vga.backspace } top t text ∧
      AgreeOutside videoMemory 4000 shell.vga.mem shell.vga.backspace.mem := by
  have hl := h.length
  have hs := h.cmdSize
  have hp := h.scrolled
  have hnl : 10 ∉ text ∧ c ≠ 10 := by
    have hn := h.newline
    simp only [List.mem_append, List.mem_singleton, not_or] at hn
    exact ⟨hn.left, Ne.symm hn.right⟩
  obtain ⟨ht', hpos, _⟩ := ht.print _ hnl.left
  have he : t.print (text ++ [c]) = (t.print text).put c := by
    rw [Terminal.print, List.foldl_append, List.foldl_cons, List.foldl_nil, Terminal.write,
      if_neg hnl.right]
    rfl
  obtain ⟨hb, ha⟩ := (he ▸ h.shows).backspace ht' (by omega)
  rw [List.length_append, List.length_singleton] at hl hs
  exact ⟨⟨h.cmd.of_prefix, by simp only [hs]; rfl, by omega, hnl.left, hp, hb⟩, ha⟩

theorem Edits.handleKeyEvent (h : shell.Edits top t text) (ht : t.Open)
    (hn : kbdEventIsPressed event → kbdEventKeycode event ≠ 10) :
    ∃ shell' top', shell.handleKeyEvent event = some (none, shell') ∧
      shell'.Edits top' t (editLine text event) ∧
      AgreeOutside videoMemory 4000 shell.vga.mem shell'.vga.mem := by
  have h₀ : UInt8.ofNat (kbdEventKeycode event) = 0 ↔ _ := keycode_eq_iff event 0 (by decide)
  have h₈ : UInt8.ofNat (kbdEventKeycode event) = 8 ↔ _ := keycode_eq_iff event 8 (by decide)
  have h₁₀ : UInt8.ofNat (kbdEventKeycode event) = 10 ↔ _ := keycode_eq_iff event 10 (by decide)
  simp only [Shell.handleKeyEvent, editLine, h₀, h₈, h₁₀]
  cases hp : kbdEventIsPressed event
  case false => exact ⟨shell, top, rfl, by simpa using h, .refl _ _ _⟩
  case true  =>
    have hn := hn hp
    by_cases hz : kbdEventKeycode event = 0
    case pos => exact ⟨shell, top, by simp [hz], by simpa [hz] using h, .refl _ _ _⟩
    case neg =>
      simp only [hz, hn, or_false, Bool.not_true, Bool.false_eq_true, if_false, reduceCtorEq]
      by_cases hb : kbdEventKeycode event = 8
      case pos =>
        simp only [hb, if_true]
        cases text using List.reverseRecOn
        case nil =>
          rw [if_neg (by simp [h.cmdSize])]
          exact ⟨shell, top, rfl, h, .refl _ _ _⟩
        case append_singleton text c _ =>
          have ⟨he, ha⟩ := h.erase ht
          rw [if_pos (by simp [h.cmdSize]), List.dropLast_concat]
          exact ⟨_, top, rfl, he, ha⟩
      case neg =>
        simp only [hb, if_false]
        have hl := h.length
        have hs := h.cmdSize
        have hcap : shellCmdCapacity = 128 := rfl
        by_cases hf : text.length < 127
        case neg =>
          rw [if_pos (by omega), if_neg hf]
          exact ⟨shell, top, rfl, h, .refl _ _ _⟩
        case pos =>
          rw [if_neg (by omega), if_pos hf]
          have ⟨cmd, top', hw, he, ha⟩ := h.type ht (mt h₁₀.mp hn) hf
          exact ⟨_, top', by rw [hw]; rfl, he, ha⟩

theorem Edits.handleKeyEvents (h : shell.Edits top t text) (ht : t.Open) {events : List Nat}
    (hn : ∀ e ∈ events, kbdEventIsPressed e → kbdEventKeycode e ≠ 10) :
    ∃ shell' top', shell.handleKeyEvents events = some shell' ∧
      shell'.Edits top' t (events.foldl editLine text) ∧
      AgreeOutside videoMemory 4000 shell.vga.mem shell'.vga.mem := by
  induction events generalizing shell top text
  case nil                  => exact ⟨shell, top, rfl, h, .refl _ _ _⟩
  case cons event events hi =>
    have ⟨shell₁, top₁, hs, h₁, ha₁⟩ := h.handleKeyEvent ht (hn event <| .head _)
    have ⟨shell', top', hs', h', ha'⟩ := hi h₁ fun e he => hn e <| .tail _ he
    exact ⟨shell', top', by simpa [Shell.handleKeyEvents, hs] using hs', h', ha₁.trans ha'⟩

-- The prompt after a command.
theorem prompt_atPrompt (h : shell.vga.Ready) : shell.prompt.AtPrompt := by
  have ho : shell.vga.terminal.Open := ⟨h.shows.displays.col_lt, h.shows.displays.blank⟩
  have ⟨_, hp, hc⟩ := ho.newline.print [62, 32] (by decide)
  have ⟨hs, _⟩ := h.shows.printString [10, 62, 32]
  have he : shell.vga.terminal.print [10, 62, 32] = shell.vga.terminal.newline.print [62, 32] := rfl
  rw [he] at hs
  have hd := hs.displays.pos
  have hl := hs.displays.col_lt
  have hlt := hs.cursor_lt
  have h₂ : 2 ≤ shell.prompt.vga.cursor := by
    rw [Terminal.newline_pos, Terminal.pos] at hp
    rw [Terminal.top, Terminal.pos] at hd
    simp only [List.length_cons, List.length_nil] at hp
    simp only [prompt, printk, reset]
    omega
  have hcell (i : Nat) (hi : i < 2) : shell.prompt.vga.cell (shell.prompt.vga.cursor - 2 + i) =
      { Cell.blank with char := [62, 32][i] } := by
    simp only [List.length_cons, List.length_nil] at hp
    simp only [prompt, printk, reset] at h₂ ⊢
    rw [hs.displays.cell _ (by omega), hc, if_pos (by omega), List.getElem?_eq_getElem (by simp; omega)]
    simp only [Option.elim_some]
    congr 2
    omega
  have he : shell.prompt.vga.cursor - 2 + 1 = shell.prompt.vga.cursor - 1 := by omega
  have h₀ := hcell 0 (by decide)
  have h₁ := hcell 1 (by decide)
  rw [Nat.add_zero] at h₀
  rw [he] at h₁
  constructor
  case cmdSize => rfl
  case ready   =>
    simp only [prompt, printk, reset]
    exact hs.ready
  case cursor  => exact h₂
  case prompt  =>
    rw [h₀, h₁]
    exact ⟨rfl, rfl⟩

-- The screen shows the text of the line, from the cell `start` on.
structure ShowsLine (shell : Shell) (start : Nat) (text : List UInt8) : Prop where
  cmd     : shell.cmd.take shell.cmdSize = text
  cmdSize : shell.cmdSize = text.length
  cursor  : shell.vga.cursor = start + text.length
  cells   : ∀ i, (hi : i < text.length) →
              shell.vga.cell (start + i) = { Cell.blank with char := text[i] }
  ready   : shell.vga.Ready

-- The line on the screen is the one which will be executed, when keys other than Enter are handled.
-- Then `top` rows have been scrolled away, and nothing in front of the prompt is erased.
theorem AtPrompt.shows_line (h : shell.AtPrompt) (events : List Nat)
    (hn : ∀ e ∈ events, kbdEventIsPressed e → kbdEventKeycode e ≠ 10) :
    ∃ shell' top, shell.handleKeyEvents events = some shell' ∧
      80 * top + 2 ≤ shell.vga.cursor ∧
      shell'.ShowsLine (shell.vga.cursor - 80 * top) (events.foldl editLine []) ∧
      (events.foldl editLine []).length ≤ 127 ∧
      (∀ i, i + 80 * top < shell.vga.cursor → shell'.vga.cell i = shell.vga.cell (i + 80 * top)) ∧
      AgreeOutside videoMemory 4000 shell.vga.mem shell'.vga.mem := by
  have hs := h.ready.shows
  have ho : shell.vga.terminal.Open := ⟨hs.displays.col_lt, hs.displays.blank⟩
  have hp := hs.displays.pos
  have hc := h.cursor
  have he : shell.Edits 0 shell.vga.terminal [] :=
    ⟨.nil, h.cmdSize, by simp, by simp, by omega, hs⟩
  have ⟨shell', top, hr, h', ha⟩ := he.handleKeyEvents ho hn
  have ⟨_, hpos, hcell⟩ := ho.print _ h'.newline
  have htop := h'.scrolled
  have hpos' := h'.shows.displays.pos
  have hlt := h'.shows.cursor_lt
  have hlt₀ := h.ready.cursor_lt
  refine ⟨shell', top, hr, by omega, ⟨?_, h'.cmdSize, by omega, fun i hi => ?_, h'.shows.ready⟩,
    h'.length, fun i hi => ?_, ha⟩
  · rw [h'.cmdSize, h'.cmd.take_eq]
  · rw [h'.shows.displays.cell _ (by omega), hcell, if_pos (by omega),
      show 80 * top + (shell.vga.cursor - 80 * top + i) - shell.vga.terminal.pos = i by omega,
      List.getElem?_eq_getElem hi]
    rfl
  · rw [h'.shows.displays.cell _ (by omega), hcell, if_neg (by omega)]
    have hcell₀ := hs.displays.cell (i + 80 * top) (by omega)
    rw [hcell₀]
    congr 1
    omega

-- Two characters are typed on a blank screen, and one of them is erased.
theorem AtPrompt.shows_line_blank :
    let shell : Shell := Shell.prompt ⟨default, 0, ⟨fun a => if a % 2 = 0 then 32 else 7, 0, 0, 0⟩⟩
    let events := [kbdEventPack 30 97 true, kbdEventPack 30 97 false, kbdEventPack 48 98 true,
      kbdEventPack 14 8 true]
    ∃ shell' top, shell.handleKeyEvents events = some shell' ∧
      80 * top + 2 ≤ shell.vga.cursor ∧
      shell'.ShowsLine (shell.vga.cursor - 80 * top) (events.foldl editLine []) ∧
      (events.foldl editLine []).length ≤ 127 ∧
      (∀ i, i + 80 * top < shell.vga.cursor → shell'.vga.cell i = shell.vga.cell (i + 80 * top)) ∧
      AgreeOutside videoMemory 4000 shell.vga.mem shell'.vga.mem := by
  refine AtPrompt.shows_line (prompt_atPrompt ⟨by decide, fun i _ hi => ?_⟩) _ (by decide)
  have hv := Vga.videoMemory_eq
  simp only [Vga.cell]
  rw [if_pos (by omega), if_neg (by omega)]
  rfl

end Shell
