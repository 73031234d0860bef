import Yabloko.Drivers.Vga

open Bytes

namespace Terminal

-- The cells and the cursor, when the rows are joined together.
def cellAt (t : Terminal) (i : Nat) : Cell :=
  t.cells (i / 80) (i % 80)

def pos (t : Terminal) : Nat :=
  80 * t.row + t.col

variable {t : Terminal}

theorem newline_cellAt (t : Terminal) (i : Nat) : t.newline.cellAt i = t.cellAt i :=
  rfl

theorem newline_pos (t : Terminal) : t.newline.pos = 80 * (t.row + 1) :=
  rfl

theorem put_cellAt (h : t.col < 80) (c : UInt8) (i : Nat) :
    (t.put c).cellAt i = if i = t.pos then { Cell.blank with char := c } else t.cellAt i := by
  have hi : (i / 80 = t.row ∧ i % 80 = t.col) ↔ i = t.pos := by
    rw [pos]
    omega
  simp only [put, cellAt, ← hi]
  split <;> rfl

theorem put_pos (h : t.col < 80) (c : UInt8) : (t.put c).pos = t.pos + 1 ∧ (t.put c).col < 80 := by
  simp only [put, pos]
  split
  case isTrue he =>
    simp only [newline]
    omega
  case isFalse =>
    simp only
    omega

theorem row_le_write (t : Terminal) (c : UInt8) : t.row ≤ (t.write c).row := by
  rw [write]
  split
  case isTrue  => exact Nat.le_succ _
  case isFalse =>
    rw [put]
    dsimp only
    split
    case isTrue  => exact Nat.le_succ _
    case isFalse => exact le_rfl

theorem row_le_print (t : Terminal) (s : List UInt8) : t.row ≤ (t.print s).row := by
  induction s generalizing t
  case nil         => exact le_rfl
  case cons c s hi => exact (t.row_le_write c).trans <| hi _

end Terminal

namespace Vga

variable {vga vga' : Vga} {t t' : Terminal} {offset top n i : Nat} {c fg bg : UInt8}

theorem videoMemory_eq : videoMemory = 0x800b8000 :=
  rfl

theorem setChar_mem (h : offset < 2000) (vga : Vga) (c fg bg : UInt8) : (vga.setChar offset c fg bg).mem =
    (vga.mem.store (videoMemory + 2 * offset) c).store (videoMemory + 2 * offset + 1) (getColor fg bg) := by
  have hv := videoMemory_eq
  rw [setChar, Nat.mod_eq_of_lt (by omega), Nat.mod_eq_of_lt (by omega)]

theorem setChar_agree (h : offset < 2000) (vga : Vga) (c fg bg : UInt8) :
    AgreeOutside videoMemory 4000 vga.mem (vga.setChar offset c fg bg).mem := by
  rw [setChar_mem h]
  have h₁ : AgreeOutside videoMemory 4000 vga.mem _ :=
    (vga.mem.store_agree (videoMemory + 2 * offset) c).mono (by omega) (by omega)
  exact h₁.trans <| (store_agree _ _ _).mono (by omega) (by omega)

theorem setChar_cell (h : offset < 2000) (vga : Vga) (c fg bg : UInt8) (i : Nat) :
    (vga.setChar offset c fg bg).cell i = if i = offset then ⟨c, getColor fg bg⟩ else vga.cell i := by
  simp only [cell, setChar_mem h, store]
  by_cases he : i = offset
  case pos => rw [if_neg (by omega), if_pos (by omega), if_pos (by omega), if_pos he]
  case neg =>
    rw [if_neg (by omega), if_neg (by omega), if_neg (by omega), if_neg (by omega), if_neg he]

-- Blanks on the cells from `offset` on.
theorem fill_blank {f : Nat → Nat} (hf : ∀ i < n, f i = offset + i) (h : offset + n ≤ 2000) (vga : Vga) :
    let vga' := (List.range n).foldl (fun vga i => vga.setCharDefaultColor (f i) 32) vga
    AgreeOutside videoMemory 4000 vga.mem vga'.mem ∧ vga'.cursor = vga.cursor ∧
      ∀ i, vga'.cell i = if offset ≤ i ∧ i < offset + n then .blank else vga.cell i := by
  induction n
  case zero =>
    refine ⟨.refl _ _ _, rfl, fun i => ?_⟩
    rw [if_neg (by omega)]
    rfl
  case succ n hi =>
    have ⟨ha, hc, hi⟩ := hi (fun i hi => hf i (by omega)) (by omega)
    have hfn := hf n (by omega)
    have hlt : f n < 2000 := by omega
    simp only [List.range_succ, List.foldl_append, List.foldl_cons, List.foldl_nil]
    refine ⟨ha.trans <| setChar_agree hlt _ _ _ _, hc, fun i => ?_⟩
    rw [setCharDefaultColor, setChar_cell hlt, hi, hfn]
    by_cases hb : i = offset + n
    case pos => rw [if_pos hb, if_pos (by omega)]; rfl
    case neg =>
      rw [if_neg hb]
      congr 1
      simp only [eq_iff_iff]
      omega

theorem scroll_spec (vga : Vga) : vga.scroll.1 = 1920 ∧ vga.scroll.2.cursor = vga.cursor ∧
    AgreeOutside videoMemory 4000 vga.mem vga.scroll.2.mem ∧
    ∀ i < 2000, vga.scroll.2.cell i = if i < 1920 then vga.cell (i + 80) else .blank := by
  have hv := videoMemory_eq
  have hm := kmemmove_apply (m := vga.mem)
    (show videoMemory + 3840 ≤ 2 ^ 32 by omega) (show videoMemory + 160 + 3840 ≤ 2 ^ 32 by omega)
  have hf : ∀ i < 80, getOffset i 24 = 1920 + i := by
    intro i hi
    simp only [getOffset, vgaCols]
    omega
  have hs : vga.scroll.2 = (List.range 80).foldl
      (fun vga col => vga.setCharDefaultColor (getOffset col 24) 32)
      { vga with mem := kmemmove vga.mem videoMemory (videoMemory + 160) 3840 } := rfl
  rw [hs]
  generalize kmemmove vga.mem videoMemory (videoMemory + 160) 3840 = mem at hm
  have ⟨ha, hc, hi⟩ := fill_blank hf (by omega) { vga with mem }
  refine ⟨rfl, hc, .trans ?_ ha, fun i hlt => (hi i).trans ?_⟩
  · intro a ho
    exact (hm a).trans <| if_neg (by omega)
  · by_cases hl : i < 1920
    case neg => rw [if_pos (by omega), if_neg hl]
    case pos =>
      have hc (j : Nat) (hj : j < 3840) : mem (videoMemory + j) = vga.mem (videoMemory + (160 + j)) := by
        rw [hm, if_pos (by omega), show videoMemory + 160 + (videoMemory + j - videoMemory) =
          videoMemory + (160 + j) by omega]
      have h₁ := hc (2 * i) (by omega)
      have h₂ := hc (2 * i + 1) (by omega)
      have he : 2 * (i + 80) = 160 + 2 * i := by omega
      rw [if_neg (by omega), if_pos hl, cell, cell, he]
      exact Cell.mk.injEq .. ▸ ⟨h₁, h₂⟩

theorem setCursor_eq (vga : Vga) (offset : Nat) : vga.setCursor offset = { vga with
    index := vgaOffsetLow
    offsetHigh := .ofNat (offset / 2 ^ 8)
    offsetLow := .ofNat (offset % 2 ^ 8) } := by
  have hl : offset &&& 0xff = offset % 2 ^ 8 := Nat.and_two_pow_sub_one_eq_mod _ 8
  rw [setCursor, hl, Nat.shiftRight_eq_div_pow]
  rfl

theorem setCursor_cursor (h : offset < 2 ^ 16) (vga : Vga) : (vga.setCursor offset).cursor = offset := by
  rw [setCursor_eq, cursor]
  simp
  omega

theorem getCursor_eq (vga : Vga) : vga.getCursor = (vga.cursor, { vga with index := vgaOffsetLow }) := by
  have hm (n : Nat) : n <<< 8 = 2 ^ 8 * n := by rw [Nat.shiftLeft_eq, Nat.mul_comm]
  rw [getCursor, hm]
  rfl

-- The screen shows the rows of the terminal from `top` on. The cursor can be behind the last cell.
structure Displays (vga : Vga) (offset top : Nat) (t : Terminal) : Prop where
  offset_le : offset ≤ 2000
  pos       : offset + 80 * top = t.pos
  col_lt    : t.col < 80
  cell      : ∀ i < 2000, vga.cell i = t.cellAt (80 * top + i)
  blank     : ∀ i, t.pos ≤ i → t.cellAt i = .blank

-- The registers and the rest of the memory are kept.
structure Kept (vga vga' : Vga) : Prop where
  mem    : AgreeOutside videoMemory 4000 vga.mem vga'.mem
  cursor : vga'.cursor = vga.cursor

theorem Kept.refl (vga : Vga) : vga.Kept vga where
  mem := .refl _ _ _
  cursor := rfl

theorem Kept.trans {vga'' : Vga} (h : vga.Kept vga') (h' : vga'.Kept vga'') : vga.Kept vga'' where
  mem := h.mem.trans h'.mem
  cursor := h'.cursor.trans h.cursor

theorem Displays.scroll (h : vga.Displays 2000 top t) :
    vga.scroll.2.Displays vga.scroll.1 (top + 1) t ∧ vga.Kept vga.scroll.2 := by
  have ⟨ho, hr, ha, hc⟩ := vga.scroll_spec
  have hp := h.pos
  refine ⟨⟨by omega, by omega, h.col_lt, fun i hi => ?_, h.blank⟩, ⟨ha, hr⟩⟩
  rw [hc i hi]
  split
  case isTrue hl =>
    rw [h.cell (i + 80) (by omega)]
    congr 1
    omega
  case isFalse hl => exact (h.blank _ (by omega)).symm

theorem Displays.newline (h : vga.Displays offset top t) (ho : offset < 2000) :
    vga.Displays (getOffset 0 (getRowFromOffset offset + 1)) top t.newline := by
  have hp := h.pos
  have hc := h.col_lt
  have he : getOffset 0 (getRowFromOffset offset + 1) = 80 * (offset / 80 + 1) := by
    simp only [getOffset, getRowFromOffset, vgaCols]
    omega
  rw [Terminal.pos] at hp
  refine ⟨by omega, ?_, by simp [Terminal.newline], h.cell, fun i hi => h.blank i ?_⟩
  · rw [he, Terminal.newline_pos]
    omega
  · rw [Terminal.newline_pos] at hi
    rw [Terminal.pos]
    omega

theorem Displays.put (h : vga.Displays offset top t) (ho : offset < 2000) (c : UInt8) :
    (vga.setCharDefaultColor offset c).Displays ((offset + 1) % 2 ^ 32) top (t.put c) ∧
      vga.Kept (vga.setCharDefaultColor offset c) := by
  have hp := h.pos
  have ⟨hp', hc⟩ := Terminal.put_pos h.col_lt c
  refine ⟨⟨by omega, by omega, hc, fun i hi => ?_, fun i hi => ?_⟩, ⟨setChar_agree ho _ _ _ _, rfl⟩⟩
  · rw [setCharDefaultColor, setChar_cell ho, Terminal.put_cellAt h.col_lt, h.cell i hi]
    by_cases he : i = offset
    case pos => rw [if_pos he, if_pos (by omega)]; rfl
    case neg => rw [if_neg he, if_neg (by omega)]
  · rw [Terminal.put_cellAt h.col_lt, if_neg (by omega)]
    exact h.blank i (by omega)

-- A round of the loop, and the rows which are scrolled away.
theorem Displays.printChar (h : vga.Displays offset top t) (ho : offset < 2000) (c : UInt8) :
    (printChar (offset, vga) c).1 < 2000 ∧
      (printChar (offset, vga) c).2.Displays (printChar (offset, vga) c).1 (max top (t.write c).top)
        (t.write c) ∧
      vga.Kept (printChar (offset, vga) c).2 := by
  -- The cell behind the last one is on a row of its own.
  have hs {offset : Nat} {vga' : Vga} {t : Terminal} (h : vga'.Displays offset top t) (hk : vga.Kept vga') :
      let r := if offset ≥ vgaCols * vgaRows then vga'.scroll else (offset, vga')
      r.1 < 2000 ∧ r.2.Displays r.1 (max top t.top) t ∧ vga.Kept r.2 := by
    have hp := h.pos
    have hl := h.offset_le
    have hc := h.col_lt
    have hv : vgaCols * vgaRows = 2000 := rfl
    rw [Terminal.pos] at hp
    by_cases he : offset ≥ vgaCols * vgaRows
    case pos =>
      have ho : offset = 2000 := by omega
      have ht : max top t.top = top + 1 := by
        rw [Terminal.top]
        omega
      subst ho
      rw [if_pos he, ht]
      exact ⟨vga'.scroll_spec.left ▸ (by decide), h.scroll.left, hk.trans h.scroll.right⟩
    case neg =>
      have ht : max top t.top = top := by
        rw [Terminal.top]
        omega
      rw [if_neg he, ht]
      exact ⟨by omega, h, hk⟩
  by_cases hn : c = 10
  case pos =>
    rw [Vga.printChar, Terminal.write, if_pos hn, if_pos hn]
    exact hs (h.newline ho) (.refl vga)
  case neg =>
    rw [Vga.printChar, Terminal.write, if_neg hn, if_neg hn]
    exact hs (h.put ho c).left (h.put ho c).right

theorem Displays.of_mem (h : vga.Displays offset top t) (hm : vga'.mem = vga.mem) :
    vga'.Displays offset top t where
  offset_le := h.offset_le
  pos := h.pos
  col_lt := h.col_lt
  cell i hi := by
    have he : vga'.cell i = vga.cell i := by rw [Vga.cell, Vga.cell, hm]
    exact he.trans <| h.cell i hi
  blank := h.blank

-- The loop of `vga_print_string`.
theorem Displays.print (h : vga.Displays offset top t) (ho : offset < 2000) (s : List UInt8) :
    let r := s.foldl Vga.printChar (offset, vga)
    r.1 < 2000 ∧ r.2.Displays r.1 (max top (t.print s).top) (t.print s) ∧ vga.Kept r.2 := by
  induction s generalizing vga offset top t
  case nil =>
    have ht : max top t.top = top := by
      have hp := h.pos
      have hc := h.col_lt
      rw [Terminal.pos] at hp
      rw [Terminal.top]
      omega
    simp only [Terminal.print, List.foldl_nil, ht]
    exact ⟨ho, h, .refl vga⟩
  case cons c s hi =>
    have ⟨ho₁, h₁, hk₁⟩ := h.printChar ho c
    have ⟨ho', h', hk'⟩ := hi h₁ ho₁
    have ht : max (max top (t.write c).top) ((t.write c).print s).top =
        max top ((t.write c).print s).top := by
      have hr := (t.write c).row_le_print s
      rw [Terminal.top, Terminal.top]
      omega
    rw [ht] at h'
    exact ⟨ho', h', hk₁.trans hk'⟩

theorem printString_eq (vga : Vga) (s : List UInt8) : vga.printString s =
    (s.foldl Vga.printChar vga.getCursor).2.setCursor (s.foldl Vga.printChar vga.getCursor).1 :=
  rfl

-- The screen and its cursor.
structure Shows (vga : Vga) (top : Nat) (t : Terminal) : Prop where
  cursor_lt : vga.cursor < 2000
  displays  : vga.Displays vga.cursor top t

theorem Shows.printString (h : vga.Shows top t) (s : List UInt8) :
    (vga.printString s).Shows (max top (t.print s).top) (t.print s) ∧
      AgreeOutside videoMemory 4000 vga.mem (vga.printString s).mem := by
  have ⟨ho, hd, hk⟩ := (show Displays { vga with index := vgaOffsetLow } _ _ _ from h.displays.of_mem rfl).print h.cursor_lt s
  rw [printString_eq, getCursor_eq]
  generalize s.foldl Vga.printChar (vga.cursor, { vga with index := vgaOffsetLow }) = r at ho hd hk
  have hc := setCursor_cursor (show r.1 < 2 ^ 16 by omega) r.2
  refine ⟨⟨by rw [hc]; exact ho, ?_⟩, ?_⟩
  · rw [hc]
    refine hd.of_mem ?_
    simp only [setCursor_eq]
  · simp only [setCursor_eq]
    exact hk.mem

theorem Ready.shows (h : vga.Ready) : vga.Shows 0 vga.terminal where
  cursor_lt := h.cursor_lt
  displays := by
    have hc := h.cursor_lt
    have hat (i : Nat) : vga.terminal.cellAt i = if i < 2000 then vga.cell i else .blank := by
      have hd : i / 80 < 25 ↔ i < 2000 := by omega
      simp only [terminal, Terminal.cellAt, hd]
      rw [show 80 * (i / 80) + i % 80 = i by omega]
    have hp : vga.terminal.pos = vga.cursor := by
      simp only [terminal, Terminal.pos]
      omega
    refine ⟨by omega, by omega, Nat.mod_lt _ (by decide), fun i hi => ?_, fun i hi => ?_⟩
    · rw [hat, if_pos (by omega), Nat.mul_zero, Nat.zero_add]
    · rw [hat]
      split
      case isTrue hl => exact h.blank i (by omega) hl
      case isFalse   => rfl

theorem Shows.ready (h : vga.Shows top t) : vga.Ready where
  cursor_lt := h.cursor_lt
  blank i hc hi := by
    have hp := h.displays.pos
    rw [h.displays.cell i hi]
    exact h.displays.blank _ (by omega)

theorem printChar_setCursor (offset n : Nat) (vga : Vga) (c : UInt8) :
    printChar (offset, vga.setCursor n) c =
      ((printChar (offset, vga) c).1, (printChar (offset, vga) c).2.setCursor n) := by
  have hs (offset : Nat) (vga : Vga) (c : UInt8) : (vga.setCursor n).setCharDefaultColor offset c =
      (vga.setCharDefaultColor offset c).setCursor n := by
    rw [setCursor_eq, setCursor_eq]
    rfl
  have hf (vga : Vga) : (vga.setCursor n).scroll = (vga.scroll.1, vga.scroll.2.setCursor n) := by
    have hm : (vga.setCursor n).mem = vga.mem := by simp only [setCursor_eq]
    simp only [scroll, hm]
    generalize kmemmove vga.mem videoMemory (videoMemory + 2 * vgaCols) (2 * vgaCols * (vgaRows - 1)) = mem
    have he : { vga.setCursor n with mem } = { vga with mem }.setCursor n := by
      rw [setCursor_eq, setCursor_eq]
    rw [Prod.mk.injEq]
    refine ⟨rfl, ?_⟩
    exact he ▸ List.foldl_hom (setCursor · n) fun vga col => hs _ vga 32
  rw [printChar, printChar]
  by_cases hn : c = 10
  case pos => 
    rw [if_pos hn, if_pos hn]
    dsimp only
    split
    case isTrue => exact hf vga
    case isFalse => rfl
  case neg =>
    rw [if_neg hn, if_neg hn, hs]
    dsimp only
    split
    case isTrue => exact hf _
    case isFalse => rfl

-- Two strings are printed as their concatenation.
theorem Ready.printString_append (h : vga.Ready) (s s' : List UInt8) :
    (vga.printString s).printString s' = vga.printString (s ++ s') := by
  have ⟨ho, _, _⟩ := (show Displays { vga with index := vgaOffsetLow } _ _ _ from h.shows.displays.of_mem rfl).print
    h.cursor_lt s
  have hc (n m : Nat) (vga : Vga) : (vga.setCursor n).setCursor m = vga.setCursor m := by
    simp only [setCursor_eq]
  rw [← getCursor_eq] at ho
  rw [printString_eq vga, printString_eq vga, printString_eq, List.foldl_append]
  generalize s.foldl Vga.printChar vga.getCursor = r at ho
  -- The second call starts with the offset at which the first one has ended.
  have hg : (r.2.setCursor r.1).getCursor = (r.1, r.2.setCursor r.1) := by
    rw [getCursor_eq, setCursor_cursor (by omega)]
    simp only [setCursor_eq]
  have hf : s'.foldl Vga.printChar (r.1, r.2.setCursor r.1) =
      ((s'.foldl Vga.printChar r).1, (s'.foldl Vga.printChar r).2.setCursor r.1) :=
    List.foldl_hom (fun r' : Nat × Vga => (r'.1, r'.2.setCursor r.1)) fun r' c =>
      printChar_setCursor r'.1 r.1 r'.2 c
  rw [hg, hf]
  exact hc _ _ _

-- The screen shows the last rows of a terminal on which the string has been printed.
theorem Ready.printString_spec (h : vga.Ready) (s : List UInt8) :
    (∀ r < 25, ∀ k < 80, (vga.printString s).cell (80 * r + k) =
      (vga.terminal.print s).cells ((vga.terminal.print s).top + r) k) ∧
    (vga.printString s).cursor =
      80 * ((vga.terminal.print s).row - (vga.terminal.print s).top) + (vga.terminal.print s).col ∧
    (vga.printString s).Ready ∧
    AgreeOutside videoMemory 4000 vga.mem (vga.printString s).mem ∧
    ∀ s', (vga.printString s).printString s' = vga.printString (s ++ s') := by
  have ⟨hs, ha⟩ := h.shows.printString s
  rw [Nat.zero_max] at hs
  have hp := hs.displays.pos
  have hc := hs.displays.col_lt
  refine ⟨fun r hr k hk => ?_, ?_, hs.ready, ha, h.printString_append s⟩
  · rw [hs.displays.cell _ (by omega), Terminal.cellAt]
    congr 1 <;> omega
  · rw [Terminal.pos] at hp
    rw [Terminal.top] at hp ⊢
    omega

-- A cleared screen whose cursor is on the last cell.
theorem printString_spec_last :
    let vga : Vga := ⟨fun a => if a % 2 = 0 then 32 else 7, 0, 7, 207⟩
    (∀ r < 25, ∀ k < 80, (vga.printString [65, 10]).cell (80 * r + k) =
      (vga.terminal.print [65, 10]).cells ((vga.terminal.print [65, 10]).top + r) k) ∧
    (vga.printString [65, 10]).cursor =
      80 * ((vga.terminal.print [65, 10]).row - (vga.terminal.print [65, 10]).top) +
        (vga.terminal.print [65, 10]).col ∧
    (vga.printString [65, 10]).Ready ∧
    AgreeOutside videoMemory 4000 vga.mem (vga.printString [65, 10]).mem ∧
    ∀ s', (vga.printString [65, 10]).printString s' = vga.printString ([65, 10] ++ s') := by
  refine Ready.printString_spec ⟨by decide, fun i _ hi => ?_⟩ [65, 10]
  have hv := videoMemory_eq
  simp only [cell]
  rw [if_pos (by omega), if_neg (by omega)]
  rfl

end Vga
