import Yabloko.Drivers.Print
import Yabloko.Drivers.Port

abbrev vgaBase : Nat := 0x3c0
abbrev vgaMemory : Nat := kernbase + 0xa0000

-- The colors of the palette as 0xRRGGBB, and the rows of the 256 glyphs of the font.
structure VgaTables where
  vga256Color : UInt8 → Nat
  g8x16Font   : Nat → UInt8

def write3C0 (index value : UInt8) : Driver Unit := do
  let _ ← portByteIn (vgaBase + 0x1a)
  portByteOut 0x3c0 index
  portByteOut 0x3c0 value

def write3C2 (value : UInt8) : Driver Unit :=
  portByteOut 0x3c2 value

def write3C4 (index value : UInt8) : Driver Unit := do
  portByteOut 0x3c4 index
  portByteOut 0x3c5 value

def write3CE (index value : UInt8) : Driver Unit := do
  portByteOut 0x3ce index
  portByteOut 0x3cf value

def write3D4 (index value : UInt8) : Driver Unit := do
  portByteOut 0x3d4 index
  portByteOut 0x3d5 value

def vgaSetPalette (index r g b : UInt8) : Driver Unit := do
  portByteOut 0x3c8 index
  portByteOut 0x3c9 r
  portByteOut 0x3c9 g
  portByteOut 0x3c9 b

-- The registers which are written one after the other.
def writes (write : UInt8 → UInt8 → Driver Unit) (registers : List (UInt8 × UInt8)) : Driver Unit :=
  forM registers fun p => write p.1 p.2

-- The values of the registers of a mode, in the order in which they are written.
structure VgaMode where
  misc  : UInt8
  seq   : List (UInt8 × UInt8)
  crtc  : List (UInt8 × UInt8)
  graph : List (UInt8 × UInt8)
  attr  : List (UInt8 × UInt8)

-- The first register of the group 0x3d4 is the one which protects the others.
def VgaMode.mode13 : VgaMode where
  misc  := 0x63
  seq   := [(0x00, 0x03), (0x01, 0x01), (0x02, 0x0f), (0x03, 0x00), (0x04, 0x0e)]
  crtc  := [(0x11, 0x0e), (0x00, 0x5f), (0x01, 0x4f), (0x02, 0x50), (0x03, 0x82), (0x04, 0x54), (0x05, 0x80),
           (0x06, 0xbf), (0x07, 0x1f), (0x08, 0x00), (0x09, 0x41), (0x10, 0x9c), (0x12, 0x8f), (0x13, 0x28),
           (0x14, 0x40), (0x15, 0x96), (0x16, 0xb9), (0x17, 0xa3), (0x18, 0xff)]
  graph := [(0x00, 0x00), (0x01, 0x00), (0x02, 0x00), (0x03, 0x00), (0x04, 0x00), (0x05, 0x40), (0x06, 0x05),
           (0x07, 0x0f), (0x08, 0xff)]
  attr  := [(0x00, 0x00), (0x01, 0x01), (0x02, 0x02), (0x03, 0x03), (0x04, 0x04), (0x05, 0x05), (0x06, 0x06),
           (0x07, 0x07), (0x08, 0x08), (0x09, 0x09), (0x0a, 0x0a), (0x0b, 0x0b), (0x0c, 0x0c), (0x0d, 0x0d),
           (0x0e, 0x0e), (0x0f, 0x0f), (0x10, 0x41), (0x11, 0x00), (0x12, 0x0f), (0x13, 0x00), (0x14, 0x00)]

def VgaMode.mode3 : VgaMode where
  misc  := 0x67
  seq   := [(0x00, 0x03), (0x01, 0x00), (0x02, 0x03), (0x03, 0x00), (0x04, 0x02)]
  crtc  := [(0x11, 0x0e), (0x00, 0x5f), (0x01, 0x4f), (0x02, 0x50), (0x03, 0x82), (0x04, 0x55), (0x05, 0x81),
           (0x06, 0xbf), (0x07, 0x1f), (0x08, 0x00), (0x09, 0x4f), (0x0a, 0x0d), (0x0b, 0x0e), (0x0c, 0x00),
           (0x0d, 0x00), (0x0e, 0x01), (0x0f, 0xe0), (0x10, 0x9c), (0x11, 0x8e), (0x12, 0x8f), (0x13, 0x28),
           (0x14, 0x1f), (0x15, 0x96), (0x16, 0xb9), (0x17, 0xa3), (0x18, 0xff)]
  graph := [(0x00, 0x00), (0x01, 0x00), (0x02, 0x00), (0x03, 0x00), (0x04, 0x00), (0x05, 0x10), (0x06, 0x0e),
           (0x07, 0x00), (0x08, 0xff)]
  attr  := [(0x00, 0x00), (0x01, 0x01), (0x02, 0x02), (0x03, 0x03), (0x04, 0x04), (0x05, 0x05), (0x06, 0x14),
           (0x07, 0x07), (0x08, 0x38), (0x09, 0x39), (0x0a, 0x3a), (0x0b, 0x3b), (0x0c, 0x3c), (0x0d, 0x3d),
           (0x0e, 0x3e), (0x0f, 0x3f), (0x10, 0x0c), (0x11, 0x00), (0x12, 0x0f), (0x13, 0x08), (0x14, 0x00)]

-- Both modes begin with these groups of registers.
def setRegisters (mode : VgaMode) : Driver Unit := do
  write3C2 mode.misc
  writes write3C4 mode.seq
  writes write3D4 mode.crtc
  writes write3CE mode.graph

section

variable (tables : VgaTables)

def setdefaultVGApalette : Driver Unit :=
  forM (List.range 256) fun index =>
    let value := tables.vga256Color (.ofNat index)
    vgaSetPalette (.ofNat index) (.ofNat (value >>> 18 &&& 0x3f)) (.ofNat (value >>> 10 &&& 0x3f))
      (.ofNat (value >>> 2 &&& 0x3f))

def vgaMode13 : Driver Unit := do
  setRegisters .mode13
  writes write3C0 VgaMode.mode13.attr
  let _ ← portByteIn (vgaBase + 0x1a)
  portByteOut 0x3c0 0x20
  setdefaultVGApalette tables

-- The glyphs are stored at distances of 32 bytes.
def loadFont : Driver Unit :=
  forM (List.range 256) fun c =>
    forM (List.range 16) fun j => do
      let _ ← Prog.perform (.store (vgaMemory + 2 * (16 * c) + j) (tables.g8x16Font (16 * c + j)))

-- The font is stored in the plane 2, to which the registers are switched meanwhile.
def fontSeq : List (UInt8 × UInt8) :=
  [(0x00, 0x01), (0x02, 0x04), (0x04, 0x07), (0x00, 0x03)]

def fontGraph : List (UInt8 × UInt8) :=
  [(0x04, 0x02), (0x05, 0x00), (0x06, 0x00)]

def textSeq : List (UInt8 × UInt8) :=
  [(0x00, 0x01), (0x02, 0x03), (0x03, 0x00), (0x04, 0x02), (0x00, 0x03)]

def textGraph : List (UInt8 × UInt8) :=
  [(0x02, 0x00), (0x03, 0x00), (0x04, 0x00), (0x05, 0x10), (0x06, 0x0e)]

def vgaMode3 : Driver Unit := do
  setRegisters .mode3
  let _ ← portByteIn (vgaBase + 0x1a)
  writes write3C0 VgaMode.mode3.attr
  writes write3C4 fontSeq
  writes write3CE fontGraph
  loadFont tables
  writes write3C4 textSeq
  writes write3CE textGraph
  let _ ← portByteIn (vgaBase + 0x1a)
  portByteOut 0x3c0 0x20

end

def vgaSetCursor (offset : Nat) : Driver Unit := do
  portByteOut vgaCtrlRegister vgaOffsetHigh
  portByteOut vgaDataRegister (.ofNat (offset >>> 8))
  portByteOut vgaCtrlRegister vgaOffsetLow
  portByteOut vgaDataRegister (.ofNat (offset &&& 0xff))

def vgaGetCursor : Driver Nat := do
  portByteOut vgaCtrlRegister vgaOffsetHigh
  let high ← portByteIn vgaDataRegister
  let offset := high.toNat <<< 8
  portByteOut vgaCtrlRegister vgaOffsetLow
  let low ← portByteIn vgaDataRegister
  return offset + low.toNat

-- The registers of the display, with the index of the one which is accessed in each group, and its
-- memory, which consists of four planes.
structure VgaCard where
  misc       : UInt8
  seqIndex   : UInt8
  seq        : UInt8 → UInt8
  crtcIndex  : UInt8
  crtc       : UInt8 → UInt8
  graphIndex : UInt8
  graph      : UInt8 → UInt8
  attrIndex  : UInt8
  attr       : UInt8 → UInt8
  -- Whether the next byte for the port 0x3c0 is a value.
  attrValue  : Bool
  dacIndex   : UInt8
  dacBytes   : List UInt8
  dac        : UInt8 → List UInt8
  planes     : Nat → Nat → UInt8

namespace VgaCard

-- The display before anything has been written to it.
def cleared : VgaCard where
  misc       := 0
  seqIndex   := 0
  seq        := fun _ => 0
  crtcIndex  := 0
  crtc       := fun _ => 0
  graphIndex := 0
  graph      := fun _ => 0
  attrIndex  := 0
  attr       := fun _ => 0
  attrValue  := false
  dacIndex   := 0
  dacBytes   := []
  dac        := fun _ => []
  planes     := fun _ _ => 0

-- The registers 0 to 7 are protected by a bit of the register 0x11, except for a bit of the register 7.
def setCrtc (card : VgaCard) (data : UInt8) : VgaCard :=
  if card.crtc 0x11 < 0x80 ∨ 7 < card.crtcIndex then
    { card with crtc := Function.update card.crtc card.crtcIndex data }
  else if card.crtcIndex = 7 then
    { card with crtc := Function.update card.crtc 7 (card.crtc 7 &&& 0xef ||| data &&& 0x10) }
  else
    card

-- The palette can be loaded only while the bit 5 of the index is cleared.
def setAttr (card : VgaCard) (data : UInt8) : VgaCard :=
  if !card.attrValue then
    { card with attrIndex := data, attrValue := true }
  else
    let index := card.attrIndex &&& 0x1f
    if card.attrIndex &&& 0x20 = 0 ∨ 0x0f < index then
      { card with attr := Function.update card.attr index data, attrValue := false }
    else
      { card with attrValue := false }

def setDac (card : VgaCard) (data : UInt8) : VgaCard :=
  let bytes := card.dacBytes ++ [data]
  if bytes.length = 3 then
    { card with
      dac := Function.update card.dac card.dacIndex bytes
      dacIndex := card.dacIndex + 1
      dacBytes := [] }
  else
    { card with dacBytes := bytes }

def byteOut (card : VgaCard) (port : Nat) (data : UInt8) : VgaCard :=
  match port with
  | 0x3c0 => card.setAttr data
  | 0x3c2 => { card with misc := data }
  | 0x3c4 => { card with seqIndex := data }
  | 0x3c5 => { card with seq := Function.update card.seq card.seqIndex data }
  | 0x3c8 => { card with dacIndex := data, dacBytes := [] }
  | 0x3c9 => card.setDac data
  | 0x3ce => { card with graphIndex := data }
  | 0x3cf => { card with graph := Function.update card.graph card.graphIndex data }
  | 0x3d4 => { card with crtcIndex := data }
  | 0x3d5 => card.setCrtc data
  | _     => card

-- The other ports are not read for their values.
def byteIn (card : VgaCard) (port : Nat) : UInt8 × VgaCard :=
  match port with
  | 0x3d5 => (card.crtc card.crtcIndex, card)
  | 0x3da => (0, { card with attrValue := false })
  | _     => (0, card)

-- The addresses behind which the memory is found.
def window (card : VgaCard) : Nat × Nat :=
  match (card.graph 6).toNat / 4 % 4 with
  | 0 => (0xa0000, 0x20000)
  | 1 => (0xa0000, 0x10000)
  | 2 => (0xb0000, 0x8000)
  | _ => (0xb8000, 0x8000)

-- The planes which are written at an offset, and the place in these planes: one after the other in the
-- mode 13, characters and colors in turn in the text mode, and all of them otherwise.
def place (card : VgaCard) (offset : Nat) : (Nat → Bool) × Nat :=
  if (card.seq 4).toNat / 8 % 2 = 1 then
    (fun p => p = offset % 4, offset / 4 * 4)
  else if (card.seq 4).toNat / 4 % 2 = 0 then
    (fun p => p % 2 = offset % 2, offset / 2 * 2)
  else
    (fun _ => true, offset)

-- The byte of a plane which is written by a store in the write mode 0, in which the drivers leave the
-- display.
def hits (card : VgaCard) (addr p i : Nat) : Bool :=
  let (base, size) := card.window
  let (selected, o) := card.place (addr - kernbase - base)
  base ≤ addr - kernbase ∧ addr - kernbase < base + size ∧ (card.seq 2).toNat.testBit p ∧ selected p ∧
    i = o % 2 ^ 16

def store (card : VgaCard) (addr : Nat) (data : UInt8) : VgaCard :=
  { card with planes := fun p i => if card.hits addr p i then data else card.planes p i }

-- The plane from which a byte is read is selected by the address in the modes in which the addresses are
-- spread over the planes, and by a register otherwise.
def load (card : VgaCard) (addr : Nat) : UInt8 :=
  let (base, size) := card.window
  let offset := addr - kernbase - base
  let plane :=
    if (card.seq 4).toNat / 8 % 2 = 1 then
      offset % 4
    else if (card.graph 5).toNat / 16 % 2 = 1 then
      (card.graph 4).toNat / 2 % 2 * 2 + offset % 2
    else
      (card.graph 4).toNat % 4
  if base ≤ addr - kernbase ∧ addr - kernbase < base + size then
    card.planes plane ((card.place offset).2 % 2 ^ 16)
  else
    0xff

def device : Device PortOp Nat VgaCard
  | .byteIn port, card       => ((card.byteIn port).1.toNat, (card.byteIn port).2)
  | .byteOut port data, card => (0, card.byteOut port data)
  | .load addr, card         => ((card.load addr).toNat, card)
  | .store addr data, card   => (0, card.store addr data)
  | _, card                  => (0, card)

-- The registers after some of them have been loaded one after the other.
def loads (l : List (UInt8 × UInt8)) (r : UInt8 → UInt8) : UInt8 → UInt8 :=
  l.foldl (fun r p => Function.update r p.1 p.2) r

def lastIndex (l : List (UInt8 × UInt8)) (index : UInt8) : UInt8 :=
  l.foldl (fun _ p => p.1) index

-- No register is written while it is protected.
def writable : List (UInt8 × UInt8) → Bool → Bool
  | [], _                   => true
  | (i, v) :: l, isProtected => (7 < i || !isProtected) && writable l (if i = 0x11 then 0x80 ≤ v else isProtected)

-- The registers have the last values which are listed for them.
def Holds (l : List (UInt8 × UInt8)) (r : UInt8 → UInt8) : Prop :=
  ∀ i v, l.reverse.lookup i = some v → r i = v

variable {l : List (UInt8 × UInt8)} {card card' : VgaCard} {index value : UInt8}

theorem loads_append (l l' : List (UInt8 × UInt8)) (r : UInt8 → UInt8) : loads l' (loads l r) = loads (l ++ l') r :=
  (List.foldl_append ..).symm

-- The last value counts.
theorem loads_eq (h : l.reverse.lookup index = some value) (r : UInt8 → UInt8) : loads l r index = value := by
  induction l using List.reverseRecOn
  case nil                    => cases h
  case append_singleton l p hi =>
    rw [List.reverse_append, List.reverse_singleton, List.singleton_append] at h
    rw [loads, List.foldl_append, List.foldl_cons, List.foldl_nil, Function.update_apply]
    cases p
    case mk i v =>
      by_cases he : index = i
      case pos => simpa [List.lookup, he] using h
      case neg =>
        have hb : (index == i) = false := by simpa using he
        rw [if_neg he]
        rw [List.lookup, hb] at h
        exact hi h

theorem loads_holds (l : List (UInt8 × UInt8)) (r : UInt8 → UInt8) : Holds l (loads l r) :=
  fun _ _ h => loads_eq h r

theorem loads_other (h : index ∉ l.map Prod.fst) (r : UInt8 → UInt8) : loads l r index = r index := by
  induction l generalizing r
  case nil         => rfl
  case cons p l hi =>
    rw [List.map_cons, List.mem_cons, not_or] at h
    exact (hi h.right _).trans <| Function.update_of_ne h.left ..

theorem loads_holds_all {l' : List (UInt8 × UInt8)} (h : l'.all fun p => l.reverse.lookup p.1 = l'.reverse.lookup p.1)
    (r : UInt8 → UInt8) : Holds l' (loads l r) := by
  intro i v hv
  have hm : ¬∀ p ∈ l'.reverse, i != p.1 := by
    rw [← List.lookup_eq_none_iff, hv]
    exact Option.some_ne_none _
  push Not at hm
  have ⟨p, hp, hi⟩ := hm
  have hi : i = p.1 := by simpa using hi
  refine loads_eq ?_ r
  rw [hi, of_decide_eq_true <| List.all_eq_true.mp h p <| List.mem_reverse.mp hp, ← hi, hv]

-- Registers which are switched, and which are switched back.
theorem Holds.loads {l' : List (UInt8 × UInt8)} {r : UInt8 → UInt8} (hr : Holds l r)
    (h : l'.all fun p => l'.reverse.lookup p.1 = l.reverse.lookup p.1) : Holds l (loads l' r) := by
  intro i v hv
  by_cases hm : i ∈ l'.map Prod.fst
  case pos =>
    have ⟨p, hp, he⟩ := List.mem_map.mp hm
    exact loads_eq ((he ▸ of_decide_eq_true (List.all_eq_true.mp h p hp)).trans hv) r
  case neg => rw [loads_other hm, hr i v hv]

theorem run_writes_3C4 (l : List (UInt8 × UInt8)) (card : VgaCard) : (writes write3C4 l).run device card =
    ((), { card with seqIndex := lastIndex l card.seqIndex, seq := loads l card.seq }) := by
  induction l generalizing card
  case nil         => rfl
  case cons p l hi =>
    rw [writes, List.forM_cons, Prog.run_bind]
    exact hi _

theorem run_writes_3CE (l : List (UInt8 × UInt8)) (card : VgaCard) : (writes write3CE l).run device card =
    ((), { card with graphIndex := lastIndex l card.graphIndex, graph := loads l card.graph }) := by
  induction l generalizing card
  case nil         => rfl
  case cons p l hi =>
    rw [writes, List.forM_cons, Prog.run_bind]
    exact hi _

theorem run_writes_3D4 (l : List (UInt8 × UInt8)) (card : VgaCard) (h : writable l (0x80 ≤ card.crtc 0x11)) :
    (writes write3D4 l).run device card =
      ((), { card with crtcIndex := lastIndex l card.crtcIndex, crtc := loads l card.crtc }) := by
  induction l generalizing card
  case nil         => rfl
  case cons p l hi =>
    cases p
    case mk i v =>
      simp only [writable, Bool.and_eq_true, Bool.or_eq_true, decide_eq_true_eq, Bool.not_eq_true',
        decide_eq_false_iff_not, UInt8.not_le] at h
      have hw : (write3D4 i v).run device card =
          ((), { card with crtcIndex := i, crtc := Function.update card.crtc i v }) := by
        show ((), (VgaCard.setCrtc { card with crtcIndex := i } v)) = _
        rw [setCrtc, if_pos h.left.symm]
      rw [writes, List.forM_cons, Prog.run_bind, hw]
      refine hi { card with crtcIndex := i, crtc := Function.update card.crtc i v } ?_
      rw [← h.right]
      congr 1
      simp only [Function.update_apply]
      split <;> rename_i he
      · simp [he.symm]
      · simp [Ne.symm he]

theorem run_write3C0 (h : index < 0x20) (value : UInt8) (card : VgaCard) :
    (write3C0 index value).run device card =
      ((), { card with
        attrIndex := index
        attrValue := false
        attr := Function.update card.attr index value }) := by
  have h := UInt8.lt_iff_toNat_lt.mp h
  have h₁ : index &&& 0x1f = index := by
    rw [← UInt8.toNat_inj, UInt8.toNat_and]
    exact (Nat.and_two_pow_sub_one_eq_mod _ 5).trans <| Nat.mod_eq_of_lt h
  have h₂ : index &&& 0x20 = 0 := by
    rw [← UInt8.toNat_inj, UInt8.toNat_and]
    exact (Nat.and_two_pow _ 5).trans <| by rw [Nat.testBit_lt_two_pow h]; rfl
  show ((), VgaCard.setAttr { card with attrIndex := index, attrValue := true } value) = _
  rw [setAttr]
  simp [h₁, h₂]

theorem run_writes_3C0 (l : List (UInt8 × UInt8)) (card : VgaCard) (hl : l ≠ []) (h : l.all (·.1 < 0x20)) :
    (writes write3C0 l).run device card =
      ((), { card with
        attrIndex := lastIndex l card.attrIndex
        attrValue := false
        attr := loads l card.attr }) := by
  induction l generalizing card
  case nil         => exact absurd rfl hl
  case cons p l hi =>
    rw [List.all_cons, Bool.and_eq_true, decide_eq_true_eq] at h
    rw [writes, List.forM_cons, Prog.run_bind, run_write3C0 h.left]
    by_cases hn : l = []
    case pos => subst hn; rfl
    case neg => exact hi _ hn h.right

-- The registers of the position of the cursor are not part of the mode.
def modeCrtc (mode : VgaMode) : List (UInt8 × UInt8) :=
  mode.crtc.filter fun p => p.1 ≠ vgaOffsetHigh ∧ p.1 ≠ vgaOffsetLow

-- The registers have the values of the mode, and the screen is on.
structure InMode (mode : VgaMode) (card : VgaCard) : Prop where
  misc   : card.misc = mode.misc
  seq    : Holds mode.seq card.seq
  crtc   : Holds (modeCrtc mode) card.crtc
  graph  : Holds mode.graph card.graph
  attr   : Holds mode.attr card.attr
  screen : card.attrIndex &&& 0x20 ≠ 0

def cursor (card : VgaCard) : Nat :=
  2 ^ 8 * (card.crtc vgaOffsetHigh).toNat + (card.crtc vgaOffsetLow).toNat

structure TextMode (tables : VgaTables) (card : VgaCard) : Prop where
  mode : card.InMode .mode3
  font : ∀ c < 256, ∀ r < 16, card.planes 2 (32 * c + r) = tables.g8x16Font (16 * c + r)

theorem run_write3C2 (value : UInt8) (card : VgaCard) :
    (write3C2 value).run device card = ((), { card with misc := value }) :=
  rfl

-- A store to the plane 2, as long as it is the only one.
theorem store_plane (hm : card.seq 2 = 4) (hs : card.seq 4 = 7) (hg : card.graph 6 = 0) {o : Nat}
    (ho : o < 2 ^ 16) (data : UInt8) : card.store (vgaMemory + o) data =
      { card with planes := fun p i => if p = 2 ∧ i = o then data else card.planes p i } := by
  have hb p : (4 : UInt8).toNat.testBit p = decide (p = 2) := by
    rw [show (4 : UInt8).toNat = 2 ^ 2 from rfl, Nat.testBit_two_pow]
    exact decide_eq_decide.mpr eq_comm
  have hw : card.window = (0xa0000, 0x20000) := by simp [window, hg]
  have hp offset : card.place offset = (fun _ => true, offset) := by simp [place, hs]
  rw [store, VgaCard.mk.injEq]
  refine ⟨rfl, rfl, rfl, rfl, rfl, rfl, rfl, rfl, rfl, rfl, rfl, rfl, rfl, ?_⟩
  funext p i
  have hh : card.hits (vgaMemory + o) p i ↔ p = 2 ∧ i = o := by
    simp only [hits, hw, hp, hm, hb, vgaMemory, decide_eq_true_eq, true_and]
    omega
  simp only [hh]

-- The first `n` rows of the glyphs are in the plane 2.
structure Drawn (tables : VgaTables) (card : VgaCard) (n : Nat) (card' : VgaCard) : Prop where
  registers : card' = { card with planes := card'.planes }
  rows      : ∀ c r, r < 16 → 16 * c + r < n → card'.planes 2 (32 * c + r) = tables.g8x16Font (16 * c + r)

variable {tables : VgaTables}

theorem Drawn.store {n c j : Nat} (hm : card.seq 2 = 4) (hs : card.seq 4 = 7) (hg : card.graph 6 = 0)
    (h : Drawn tables card n card') (hn : 16 * c + j = n) (hj : j < 16) (hl : n < 4096) :
    Drawn tables card (n + 1) (card'.store (vgaMemory + 2 * (16 * c) + j) (tables.g8x16Font (16 * c + j))) := by
  have hr := h.registers
  have hst := store_plane (by rw [hr, hm] : card'.seq 2 = 4) (by rw [hr, hs]) (by rw [hr, hg])
    (by omega : 2 * (16 * c) + j < 2 ^ 16) (tables.g8x16Font (16 * c + j))
  rw [Nat.add_assoc, hst]
  refine ⟨by rw [hr], fun c' r hr hlt => ?_⟩
  simp only [true_and]
  by_cases he : 16 * c' + r = n
  case pos =>
    have hc : c' = c ∧ r = j := by omega
    rw [hc.left, hc.right, if_pos (by omega)]
  case neg =>
    rw [if_neg (by omega)]
    exact h.rows c' r hr (by omega)

theorem run_loadFont (hm : card.seq 2 = 4) (hs : card.seq 4 = 7) (hg : card.graph 6 = 0) :
    Drawn tables card 4096 ((loadFont tables).run device card).2 := by
  refine Prog.forM_range_inv (I := fun c card' => Drawn tables card (16 * c) card') (n := 256)
    ⟨rfl, fun _ _ _ hn => absurd hn (by omega)⟩ fun c card₁ hc h₁ => ?_
  refine Prog.forM_range_inv (I := fun j card' => Drawn tables card (16 * c + j) card') (n := 16) h₁ ?_
  intro j card₂ hj h₂
  exact h₂.store hm hs hg rfl hj (show 16 * c + j < 4096 by omega)

theorem run_setRegisters (mode : VgaMode) (h : ∀ b, writable mode.crtc b) (card : VgaCard) :
    (setRegisters mode).run device card = ((), { card with
      misc       := mode.misc
      seqIndex   := lastIndex mode.seq card.seqIndex
      seq        := loads mode.seq card.seq
      crtcIndex  := lastIndex mode.crtc card.crtcIndex
      crtc       := loads mode.crtc card.crtc
      graphIndex := lastIndex mode.graph card.graphIndex
      graph      := loads mode.graph card.graph }) := by
  simp only [setRegisters, Prog.run_bind, run_write3C2, run_writes_3C4, run_writes_3CE]
  rw [run_writes_3D4 _ _ (h _)]

theorem run_enable (card : VgaCard) (h : card.attrValue = false) :
    (portByteOut 0x3c0 0x20).run device card = ((), { card with attrIndex := 0x20, attrValue := true }) := by
  show ((), card.setAttr 0x20) = _
  rw [setAttr, if_pos (by rw [h]; rfl)]

theorem run_vgaMode3 (tables : VgaTables) (card : VgaCard) : let card' := ((vgaMode3 tables).run device card).2
    TextMode tables card' ∧ card'.cursor = 480 ∧ card'.crtcIndex = 0x18 := by
  simp only [vgaMode3, Prog.run_bind, run_setRegisters .mode3 (by decide), Prog.run_portByteIn, device, byteIn]
  rw [run_writes_3C0 _ _ (by decide) (by decide)]
  simp only [run_writes_3C4, run_writes_3CE]
  generalize hc : VgaCard.mk _ _ _ _ _ _ _ _ _ _ _ _ _ card.planes = card₁
  have hd : Drawn tables card₁ 4096 ((loadFont tables).run device card₁).2 := by
    subst hc
    refine run_loadFont ?_ ?_ ?_
    all_goals exact loads_eq (by decide) _
  generalize ((loadFont tables).run device card₁).2 = card₂ at hd
  rw [hd.registers]
  subst hc
  refine ⟨⟨⟨rfl, ?_, loads_holds_all (by decide) _, ?_, loads_holds _ _, (by decide : (0x20 : UInt8) &&& 0x20 ≠ 0)⟩,
    fun c hc r hr => hd.rows c r hr (by omega)⟩, ?_, rfl⟩
  case refine_1 =>
    show Holds _ (loads textSeq (loads fontSeq _))
    rw [loads_append]
    exact (loads_holds _ _).loads (by decide)
  case refine_2 =>
    show Holds _ (loads textGraph (loads fontGraph _))
    rw [loads_append]
    exact (loads_holds _ _).loads (by decide)
  case refine_3 =>
    show 2 ^ 8 * (loads _ _ vgaOffsetHigh).toNat + (loads _ _ vgaOffsetLow).toNat = _
    rw [loads_eq (by decide : VgaMode.mode3.crtc.reverse.lookup vgaOffsetHigh = some 0x01),
      loads_eq (by decide : VgaMode.mode3.crtc.reverse.lookup vgaOffsetLow = some 0xe0)]
    rfl

-- The palette, as far as the first `n` colors, with the upper 6 bits of each component.
structure Painted (tables : VgaTables) (card : VgaCard) (n : Nat) (card' : VgaCard) : Prop where
  registers : card' = { card with dac := card'.dac, dacIndex := card'.dacIndex, dacBytes := card'.dacBytes }
  colors    : ∀ c : UInt8, c.toNat < n → card'.dac c = [.ofNat (tables.vga256Color c >>> 18 &&& 0x3f),
                .ofNat (tables.vga256Color c >>> 10 &&& 0x3f), .ofNat (tables.vga256Color c >>> 2 &&& 0x3f)]

theorem run_vgaSetPalette (index r g b : UInt8) (card : VgaCard) : (vgaSetPalette index r g b).run device card =
    ((), { card with dac := Function.update card.dac index [r, g, b], dacIndex := index + 1, dacBytes := [] }) :=
  rfl

theorem run_setdefaultVGApalette (tables : VgaTables) (card : VgaCard) :
    Painted tables card 256 ((setdefaultVGApalette tables).run device card).2 := by
  refine Prog.forM_range_inv (I := Painted tables card) (n := 256) ⟨rfl, fun _ hn => absurd hn (Nat.not_lt_zero _)⟩ ?_
  intro n card₁ hn h₁
  rw [run_vgaSetPalette]
  refine ⟨by rw [h₁.registers], fun c hc => ?_⟩
  simp only [Function.update_apply]
  split
  case isTrue he  => rw [he]
  case isFalse he =>
    refine h₁.colors c <| Nat.lt_of_le_of_ne (Nat.le_of_lt_succ hc) fun hn => he ?_
    rw [← hn, UInt8.ofNat_toNat]

-- The graphics mode. The registers of the cursor still have their values.
structure GraphicsMode (tables : VgaTables) (card card' : VgaCard) : Prop where
  mode    : card'.InMode .mode13
  palette : ∀ c, card'.dac c = [.ofNat (tables.vga256Color c >>> 18 &&& 0x3f),
              .ofNat (tables.vga256Color c >>> 10 &&& 0x3f), .ofNat (tables.vga256Color c >>> 2 &&& 0x3f)]
  cursor  : ∀ i, 0x0a ≤ i → i ≤ 0x0f → card'.crtc i = card.crtc i

theorem run_vgaMode13 (tables : VgaTables) (card : VgaCard) :
    GraphicsMode tables card ((vgaMode13 tables).run device card).2 := by
  simp only [vgaMode13, Prog.run_bind, run_setRegisters .mode13 (by decide), Prog.run_portByteIn, device]
  rw [run_writes_3C0 _ _ (by decide) (by decide)]
  simp only [byteIn]
  rw [run_enable _ rfl]
  generalize hc : VgaCard.mk _ _ _ _ _ _ _ _ _ _ _ _ _ card.planes = card₁
  have hp := run_setdefaultVGApalette tables card₁
  generalize ((setdefaultVGApalette tables).run device card₁).2 = card₂ at hp
  refine ⟨?_, fun c => hp.colors c (by have := c.toNat_lt; omega), fun i hl hu => ?_⟩
  case refine_1 =>
    rw [hp.registers]
    subst hc
    exact ⟨rfl, loads_holds _ _, loads_holds_all (by decide) _, loads_holds _ _, loads_holds _ _,
      (by decide : (0x20 : UInt8) &&& 0x20 ≠ 0)⟩
  case refine_2 =>
    rw [hp.registers]
    subst hc
    refine loads_other (fun h => ?_) _
    have hm : (VgaMode.mode13.crtc.map Prod.fst).all (fun j => j < 0x0a || 0x0f < j) := by decide
    have := List.all_eq_true.mp hm i h
    simp only [Bool.or_eq_true, decide_eq_true_eq] at this
    rcases this with h | h
    · exact absurd hl <| UInt8.not_le.mpr h
    · exact absurd hu <| UInt8.not_le.mpr h

end VgaCard
