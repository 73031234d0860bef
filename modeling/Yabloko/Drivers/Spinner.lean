import Yabloko.Drivers.Screen

namespace VgaCard

variable {tables : VgaTables} {card card' card₁ : VgaCard} {vga vga' : Vga} {K : Nat → Nat → Prop} {b : Bool}

-- The same registers, and the same bytes in the given places.
structure Agree (K : Nat → Nat → Prop) (card card' : VgaCard) : Prop where
  registers : card' = { card with planes := card'.planes }
  planes    : ∀ p i, K p i → card'.planes p i = card.planes p i

theorem byteOut_planes (card : VgaCard) (planes : Nat → Nat → UInt8) (port : Nat) (data : UInt8) :
    VgaCard.byteOut { card with planes } port data = { card.byteOut port data with planes } := by
  unfold byteOut
  split
  case h_1  => simp only [setAttr]; split_ifs <;> rfl
  case h_6  => simp only [setDac]; split_ifs <;> rfl
  case h_10 => simp only [setCrtc]; split_ifs <;> rfl
  all_goals rfl

theorem byteIn_planes (card : VgaCard) (planes : Nat → Nat → UInt8) (port : Nat) :
    VgaCard.byteIn { card with planes } port =
      ((card.byteIn port).1, { (card.byteIn port).2 with planes }) := by
  unfold byteIn
  split <;> rfl

theorem byteOut_keeps (card : VgaCard) (port : Nat) (data : UInt8) : (card.byteOut port data).planes = card.planes := by
  unfold byteOut
  split
  case h_1  => simp only [setAttr]; split_ifs <;> rfl
  case h_6  => simp only [setDac]; split_ifs <;> rfl
  case h_10 => simp only [setCrtc]; split_ifs <;> rfl
  all_goals rfl

theorem byteIn_keeps (card : VgaCard) (port : Nat) : (card.byteIn port).2.planes = card.planes := by
  unfold byteIn
  split <;> rfl

-- The accesses which do not read the memory of the display.
def NoLoad : PortOp → Prop
  | .load _ => False
  | _       => True

theorem simulates_agree (K : Nat → Nat → Prop) : device.Simulates device NoLoad (Agree K) := by
  intro o card card' ho h
  have ⟨hr, hf⟩ := h
  cases o
  case byteIn port       =>
    have he := byteIn_planes card card'.planes port
    rw [← hr] at he
    refine ⟨by simp only [device, he], ?_, fun p i hi => ?_⟩
    · simp only [device, he]
    · simp only [device, byteIn_keeps, hf p i hi]
  case byteOut port data =>
    have he := byteOut_planes card card'.planes port data
    rw [← hr] at he
    refine ⟨rfl, ?_, fun p i hi => ?_⟩
    · simp only [device, he]
    · simp only [device, byteOut_keeps, hf p i hi]
  case load              => exact absurd ho id
  case store addr data   =>
    refine ⟨rfl, ?_, fun p i hi => ?_⟩
    · simp only [device, store]
      rw [hr]
    · have hh : card'.hits addr p i = card.hits addr p i := by rw [hr]; rfl
      simp only [device, store, hh, hf p i hi]
  case wordIn => exact ⟨rfl, h⟩
  case longIn => exact ⟨rfl, h⟩

-- Other writers of the memory, which keep the bytes in the given places.
theorem Agree.store {addr : Nat} (h : Agree K card card') (hk : ∀ p i, K p i → card.hits addr p i = false)
    (data : UInt8) : Agree K (card.store addr data) card' where
  registers := by rw [h.registers]; rfl
  planes p i hi := by
    rw [h.planes p i hi, VgaCard.store]
    simp only [hk p i hi, Bool.false_eq_true, if_false]

theorem Agree.refl (K : Nat → Nat → Prop) (card : VgaCard) : Agree K card card :=
  ⟨rfl, fun _ _ _ => rfl⟩

-- The interrupts which draw the spinner in the first row.
inductive Spins (card : VgaCard) : VgaCard → Prop
  | intro (c : UInt8) : Spins card ((vgaPutCharAt 79 0 c 0x0f black).run device card).2

theorem run_spinner (c : UInt8) (card : VgaCard) : ((vgaPutCharAt 79 0 c 0x0f black).run device card).2 =
    (card.store (videoMemory + 158) c).store (videoMemory + 159) 0x0f :=
  rfl

-- The places of the glyphs.
def InFont (p i : Nat) : Prop :=
  p = 2 ∧ i < 0x2000 ∧ i % 32 < 16

theorem window_cases (card : VgaCard) : card.window = (0xa0000, 0x20000) ∨ card.window = (0xa0000, 0x10000) ∨
    card.window = (0xb0000, 0x8000) ∨ card.window = (0xb8000, 0x8000) := by
  unfold window
  split <;> simp

theorem place_cases (card : VgaCard) (offset : Nat) : (card.place offset).2 = offset / 4 * 4 ∨
    (card.place offset).2 = offset / 2 * 2 ∨ (card.place offset).2 = offset := by
  unfold place
  split_ifs <;> simp

-- The bytes of the cell in which the spinner is drawn are not part of the font, even while other places
-- of the memory are found behind their addresses.
theorem spinner_hits {j p i : Nat} (hj : j = 158 ∨ j = 159) (h : InFont p i) (card : VgaCard) :
    card.hits (videoMemory + j) p i = false := by
  obtain ⟨_, hi, hr⟩ := h
  have hv : videoMemory + j - kernbase = 0xb8000 + j := by
    rw [videoMemory]
    omega
  by_contra hc
  have hc : card.hits (videoMemory + j) p i = true := by simpa using hc
  simp only [hits, decide_eq_true_eq, hv] at hc
  obtain ⟨hl, hu, _, _, he⟩ := hc
  have hp := card.place_cases (0xb8000 + j - card.window.1)
  rcases card.window_cases with hw | hw | hw | hw
  all_goals
    rw [hw] at hl hu he hp
    simp only at hl hu he hp
    omega

theorem Spins.agree_font (h : Spins card card₁) (ha : Agree InFont card card') : Agree InFont card₁ card' := by
  cases h
  case intro c =>
    rw [run_spinner]
    have h₁ := ha.store (fun p i hi => spinner_hits (.inl rfl) hi card) c
    exact h₁.store (fun p i hi => spinner_hits (.inr rfl) hi _) 0x0f

theorem Agree.textMode (h : Agree InFont card card') (ht : TextMode tables card') : TextMode tables card where
  mode := by
    have hm := ht.mode
    rw [h.registers] at hm
    exact ⟨hm.misc, hm.seq, hm.crtc, hm.graph, hm.attr, hm.screen⟩
  font c hc r hr := by
    rw [← ht.font c hc r hr]
    exact (h.planes _ _ ⟨rfl, by omega, by omega⟩).symm

theorem Agree.crtc (h : Agree K card card') : card'.crtc = card.crtc := by
  rw [h.registers]

theorem Agree.cursor (h : Agree K card card') : card'.cursor = card.cursor := by
  rw [VgaCard.cursor, VgaCard.cursor, h.crtc]

theorem Agree.crtcIndex (h : Agree K card card') : card'.crtcIndex = card.crtcIndex := by
  rw [h.registers]

theorem within_portByteIn (port : Nat) : (portByteIn port).Within NoLoad :=
  .op trivial fun _ => .pure

theorem within_portByteOut (port : Nat) (data : UInt8) : (portByteOut port data).Within NoLoad :=
  .op trivial fun _ => .pure

theorem within_writes {write : UInt8 → UInt8 → Driver Unit} (h : ∀ i v, (write i v).Within NoLoad)
    (l : List (UInt8 × UInt8)) : (writes write l).Within NoLoad :=
  .forM fun _ _ => h _ _

theorem within_write3C0 (i v : UInt8) : (write3C0 i v).Within NoLoad :=
  (within_portByteIn _).bind fun _ => (within_portByteOut ..).bind fun _ => within_portByteOut ..

theorem within_write3C4 (i v : UInt8) : (write3C4 i v).Within NoLoad :=
  (within_portByteOut ..).bind fun _ => within_portByteOut ..

theorem within_write3CE (i v : UInt8) : (write3CE i v).Within NoLoad :=
  (within_portByteOut ..).bind fun _ => within_portByteOut ..

theorem within_write3D4 (i v : UInt8) : (write3D4 i v).Within NoLoad :=
  (within_portByteOut ..).bind fun _ => within_portByteOut ..

theorem within_setRegisters (mode : VgaMode) : (setRegisters mode).Within NoLoad := by
  refine (within_portByteOut _ _).bind fun _ => ?_
  refine (within_writes within_write3C4 _).bind fun _ => ?_
  exact (within_writes within_write3D4 _).bind fun _ => within_writes within_write3CE _

theorem within_enable : (do let _ ← portByteIn (vgaBase + 0x1a); portByteOut 0x3c0 0x20 : Driver Unit).Within NoLoad :=
  (within_portByteIn _).bind fun _ => within_portByteOut ..

theorem within_loadFont (tables : VgaTables) : (loadFont tables).Within NoLoad :=
  .forM fun _ _ => .forM fun _ _ => .op trivial fun _ => .pure

theorem within_vgaMode3 (tables : VgaTables) : (vgaMode3 tables).Within NoLoad := by
  refine (within_setRegisters _).bind fun _ => (within_portByteIn _).bind fun _ => ?_
  refine (within_writes within_write3C0 _).bind fun _ => (within_writes within_write3C4 _).bind fun _ => ?_
  refine (within_writes within_write3CE _).bind fun _ => (within_loadFont tables).bind fun _ => ?_
  refine (within_writes within_write3C4 _).bind fun _ => (within_writes within_write3CE _).bind fun _ => ?_
  exact within_enable

theorem within_vgaMode13 (tables : VgaTables) : (vgaMode13 tables).Within NoLoad := by
  refine (within_setRegisters _).bind fun _ => (within_writes within_write3C0 _).bind fun _ => ?_
  refine (within_portByteIn _).bind fun _ => (within_portByteOut _ _).bind fun _ => .forM fun _ _ => ?_
  refine (within_portByteOut _ _).bind fun _ => (within_portByteOut _ _).bind fun _ => ?_
  exact (within_portByteOut _ _).bind fun _ => within_portByteOut ..

theorem runs_vgaMode3 (h : Prog.Runs device Spins (vgaMode3 tables) card () card') :
    TextMode tables card' ∧ card'.cursor = 480 ∧ card'.crtcIndex = 0x18 := by
  have ⟨_, ha⟩ := h.simulates (within_vgaMode3 tables) (simulates_agree InFont)
    (fun _ _ _ hs => hs.agree_font) (.refl _ card)
  have ⟨ht, hc, hi⟩ := run_vgaMode3 tables card
  exact ⟨ha.textMode ht, ha.cursor.symm.trans hc, ha.crtcIndex.symm.trans hi⟩

-- The interrupts which copy the picture of a process to the display, which concern its memory only.
inductive Copies (card : VgaCard) : VgaCard → Prop
  | intro (addr : Nat) (data : UInt8) : Copies card (card.store addr data)

theorem runs_vgaMode13 (h : Prog.Runs device Copies (vgaMode13 tables) card () card') :
    GraphicsMode tables card card' := by
  have ⟨_, ha⟩ := h.simulates (within_vgaMode13 tables) (simulates_agree fun _ _ => False)
    (fun _ _ _ hs hr => by cases hs; exact hr.store (fun _ _ => False.elim) _) (.refl _ card)
  have hg := run_vgaMode13 tables card
  generalize ((vgaMode13 tables).run device card).2 = card₁ at ha hg
  have hm := hg.mode
  have hp := hg.palette
  have hc := hg.cursor
  rw [ha.registers] at hm hp hc
  exact ⟨⟨hm.misc, hm.seq, hm.crtc, hm.graph, hm.attr, hm.screen⟩, hp, hc⟩

theorem runs_vgaMode13_cleared : ∃ card', GraphicsMode ⟨fun _ => 0, fun _ => 0⟩ cleared card' :=
  ⟨_, runs_vgaMode13 <| .irq (.intro 0xa0000 7) <| .of_run_unit ..⟩

theorem TextMode.window (h : TextMode tables card) : card.window = (0xb8000, 0x8000) := by
  rw [VgaCard.window, h.mode.graph 6 0x0e (by decide)]
  rfl

theorem TextMode.place (h : TextMode tables card) (offset : Nat) :
    card.place offset = (fun p => decide (p % 2 = offset % 2), offset / 2 * 2) := by
  simp only [VgaCard.place, h.mode.seq 4 2 (by decide)]
  rfl

-- The characters are in the plane 0, and the colors are in the plane 1.
theorem TextMode.hits (h : TextMode tables card) (addr p i : Nat) : card.hits addr p i ↔
    0xb8000 ≤ addr - kernbase ∧ addr - kernbase < 0xc0000 ∧ p = (addr - kernbase) % 2 ∧
      i = (addr - kernbase - 0xb8000) / 2 * 2 := by
  have hb : (3 : UInt8).toNat.testBit p = decide (p < 2) := Nat.testBit_two_pow_sub_one 2 p
  simp only [VgaCard.hits, h.window, h.place, h.mode.seq 2 3 (by decide), hb, decide_eq_true_eq]
  omega

theorem TextMode.load (h : TextMode tables card) {j : Nat} (hj : j < 0x8000) :
    card.load (videoMemory + j) = card.planes (j % 2) (j / 2 * 2) := by
  have hv : videoMemory + j - kernbase - 0xb8000 = j := by
    rw [videoMemory]
    omega
  have hl : 0xb8000 ≤ videoMemory + j - kernbase ∧ videoMemory + j - kernbase < 0xb8000 + 0x8000 := by
    rw [videoMemory]
    omega
  simp only [VgaCard.load, h.window, h.place, h.mode.seq 4 2 (by decide), h.mode.graph 4 0 (by decide),
    h.mode.graph 5 0x10 (by decide), hv]
  rw [if_pos hl, Nat.mod_eq_of_lt (by omega : j / 2 * 2 < 2 ^ 16), if_neg (by decide), if_pos (by decide)]
  simp

-- The display in the text mode, except for the cell of the spinner: the memory of the kernel and the
-- registers of the cursor. Their index is known after the first access.
structure Shown (tables : VgaTables) (b : Bool) (card : VgaCard) (vga : Vga) : Prop where
  text       : TextMode tables card
  index      : card.crtcIndex = vga.index
  indexKnown : b → vga.index = vgaOffsetHigh ∨ vga.index = vgaOffsetLow
  high       : card.crtc vgaOffsetHigh = vga.offsetHigh
  low        : card.crtc vgaOffsetLow = vga.offsetLow
  bytes      : ∀ j < 0x8000, j ≠ 158 → j ≠ 159 → card.planes (j % 2) (j / 2 * 2) = vga.mem (videoMemory + j)

-- The accesses of the drivers of the screen. They do not read the cell of the spinner.
def OnScreen (b : Bool) : PortOp → Prop
  | .byteIn port       => port = vgaDataRegister ∧ b
  | .byteOut port data => port = vgaCtrlRegister ∧ (data = vgaOffsetHigh ∨ data = vgaOffsetLow) ∨ port = vgaDataRegister ∧ b
  | .load addr         => videoMemory + 160 ≤ addr ∧ addr < videoMemory + 4000
  | .store ..          => True
  | _                  => False

theorem TextMode.store (h : TextMode tables card) (addr : Nat) (data : UInt8) : TextMode tables (card.store addr data) where
  mode := ⟨h.mode.misc, h.mode.seq, h.mode.crtc, h.mode.graph, h.mode.attr, h.mode.screen⟩
  font c hc r hr := by
    have hh : card.hits addr 2 (32 * c + r) = false := by
      by_contra hn
      have := (h.hits addr 2 (32 * c + r)).mp (by simpa using hn)
      omega
    rw [← h.font c hc r hr, VgaCard.store]
    simp only [hh, Bool.false_eq_true, if_false]

theorem Shown.store (h : Shown tables b card vga) (addr : Nat) (data : UInt8) :
    Shown tables b (card.store addr data) { vga with mem := vga.mem.store addr data } where
  text := h.text.store addr data
  index := h.index
  indexKnown := h.indexKnown
  high := h.high
  low := h.low
  bytes j hj h₁ h₂ := by
    have hh : card.hits addr (j % 2) (j / 2 * 2) = decide (videoMemory + j = addr) := by
      rw [Bool.eq_iff_iff, h.text.hits, decide_eq_true_eq, videoMemory]
      omega
    simp only [VgaCard.store, Bytes.store, hh, decide_eq_true_eq, h.bytes j hj h₁ h₂]

-- The spinner is drawn in its cell only.
theorem Spins.shown (h : Spins card card₁) (hs : Shown tables b card vga) : Shown tables b card₁ vga := by
  cases h
  case intro c =>
    have h₁ := (hs.store (videoMemory + 158) c).store (videoMemory + 159) 0x0f
    rw [run_spinner]
    refine ⟨h₁.text, h₁.index, h₁.indexKnown, h₁.high, h₁.low, fun j hj hn₁ hn₂ => ?_⟩
    rw [h₁.bytes j hj hn₁ hn₂]
    simp only [Bytes.store]
    rw [if_neg (by omega), if_neg (by omega)]

-- The registers of the cursor are not protected.
theorem setCrtc_cursor (h : card.crtcIndex = vgaOffsetHigh ∨ card.crtcIndex = vgaOffsetLow) (data : UInt8) :
    card.setCrtc data = { card with crtc := Function.update card.crtc card.crtcIndex data } := by
  rw [setCrtc, if_pos]
  rcases h with h | h
  all_goals
    right
    rw [h]
    decide

theorem TextMode.setCrtc (h : TextMode tables card) (hi : card.crtcIndex = vgaOffsetHigh ∨ card.crtcIndex = vgaOffsetLow)
    (data : UInt8) : TextMode tables (card.setCrtc data) := by
  rw [setCrtc_cursor hi]
  refine ⟨⟨h.mode.misc, h.mode.seq, fun i v hv => ?_, h.mode.graph, h.mode.attr, h.mode.screen⟩, h.font⟩
  refine (Function.update_of_ne (fun he => ?_) ..).trans <| h.mode.crtc i v hv
  rw [he] at hv
  rcases hi with hi | hi
  · rw [hi, (by decide : (modeCrtc .mode3).reverse.lookup vgaOffsetHigh = none)] at hv
    cases hv
  · rw [hi, (by decide : (modeCrtc .mode3).reverse.lookup vgaOffsetLow = none)] at hv
    cases hv

theorem Shown.byteOut (h : Shown tables b card vga) {port : Nat} {data : UInt8} (ho : OnScreen b (.byteOut port data)) :
    Shown tables b (card.byteOut port data) (vga.portByteOut port data) := by
  rcases ho with ⟨hp, hd⟩ | ⟨hp, hb⟩
  case inl =>
    subst hp
    refine ⟨⟨?_, h.text.font⟩, rfl, fun _ => hd, h.high, h.low, h.bytes⟩
    exact ⟨h.text.mode.misc, h.text.mode.seq, h.text.mode.crtc, h.text.mode.graph, h.text.mode.attr, h.text.mode.screen⟩
  case inr =>
    subst hp
    have hv := h.indexKnown hb
    have hi : card.crtcIndex = vgaOffsetHigh ∨ card.crtcIndex = vgaOffsetLow := h.index ▸ hv
    have hs : card.byteOut vgaDataRegister data = card.setCrtc data := rfl
    have ht := h.text.setCrtc hi data
    rw [hs, Vga.portByteOut, if_neg (by decide)]
    rw [setCrtc_cursor hi] at ht ⊢
    rcases hv with hv | hv
    · rw [if_pos ⟨rfl, hv⟩]
      refine ⟨ht, h.index, fun _ => .inl hv, ?_, ?_, h.bytes⟩
      · simp [h.index, hv]
      · rw [h.index, hv]
        exact (Function.update_of_ne (by decide : vgaOffsetLow ≠ vgaOffsetHigh) data _).trans h.low
    · rw [if_neg (by rw [hv]; decide), if_pos ⟨rfl, hv⟩]
      refine ⟨ht, h.index, fun _ => .inr hv, ?_, ?_, h.bytes⟩
      · rw [h.index, hv]
        exact (Function.update_of_ne (by decide : vgaOffsetHigh ≠ vgaOffsetLow) data _).trans h.high
      · simp [h.index, hv]

-- In the text mode, the drivers find the same as in the memory of the kernel.
theorem simulates_shown (tables : VgaTables) (b : Bool) : device.Simulates Vga.device (OnScreen b) (Shown tables b) := by
  intro o card vga ho h
  cases o
  case byteIn port       =>
    have ⟨hp, hb⟩ := ho
    subst hp
    refine ⟨?_, h⟩
    show (vga.portByteIn vgaDataRegister).toNat = (card.crtc card.crtcIndex).toNat
    rw [h.index, Vga.portByteIn]
    rcases h.indexKnown hb with hv | hv
    · rw [if_pos ⟨rfl, hv⟩, hv, h.high]
    · rw [if_neg (by rw [hv]; decide), if_pos ⟨rfl, hv⟩, hv, h.low]
  case byteOut port data => exact ⟨rfl, h.byteOut ho⟩
  case load addr         =>
    have ⟨hl, hu⟩ := ho
    obtain ⟨j, rfl⟩ := Nat.exists_eq_add_of_le (show videoMemory ≤ addr by omega)
    refine ⟨?_, h⟩
    show (vga.mem (videoMemory + j)).toNat = (card.load (videoMemory + j)).toNat
    rw [h.text.load (by omega), h.bytes j (by omega) (by omega) (by omega)]
  case store addr data   => exact ⟨rfl, h.store addr data⟩
  case wordIn            => exact absurd ho id
  case longIn            => exact absurd ho id

theorem onScreen_setChar (b : Bool) (offset : Nat) (c fg bg : UInt8) : (vgaSetChar offset c fg bg).Within (OnScreen b) :=
  .op trivial fun _ => .op trivial fun _ => .pure

theorem onScreen_putCharAt (b : Bool) (col row : Nat) (c fg bg : UInt8) :
    (vgaPutCharAt col row c fg bg).Within (OnScreen b) := by
  rw [vgaPutCharAt]
  split
  case isTrue  => exact .pure
  case isFalse => exact onScreen_setChar ..

theorem onScreen_fill (b : Bool) (l : List Nat) (f : Nat → Nat) :
    (forM l fun i => vgaSetCharDefaultColor (f i) 32 : Driver PUnit).Within (OnScreen b) :=
  .forM fun _ _ => onScreen_setChar ..

theorem onScreen_setCursor (offset : Nat) : (vgaSetCursor offset).Within (OnScreen true) :=
  .op (.inl ⟨rfl, .inl rfl⟩) fun _ => .op (.inr ⟨rfl, rfl⟩) fun _ =>
    .op (.inl ⟨rfl, .inr rfl⟩) fun _ => .op (.inr ⟨rfl, rfl⟩) fun _ => .pure

theorem onScreen_getCursor : vgaGetCursor.Within (OnScreen true) :=
  .op (.inl ⟨rfl, .inl rfl⟩) fun _ => .op ⟨rfl, rfl⟩ fun _ =>
    .op (.inl ⟨rfl, .inr rfl⟩) fun _ => .op ⟨rfl, rfl⟩ fun _ => .pure

theorem onScreen_clearScreen : vgaClearScreen.Within (OnScreen true) := by
  rw [vgaClearScreen]
  exact Prog.Within.bind (onScreen_fill true (List.range (vgaRows * vgaCols)) fun i => i) fun _ => onScreen_setCursor 0

theorem onScreen_backspace : vgaBackspace.Within (OnScreen true) := by
  rw [vgaBackspace]
  refine onScreen_getCursor.bind fun offset => ?_
  split
  case isTrue  => exact .pure
  case isFalse => exact (onScreen_setCursor _).bind fun _ => onScreen_setChar ..

theorem onScreen_scroll : vgaScroll.Within (OnScreen true) := by
  rw [vgaScroll]
  refine Prog.Within.bind (.forM fun i hi => .op ?_ fun _ => .op trivial fun _ => .pure) fun _ => ?_
  case refine_1 =>
    have hi := List.mem_range.mp hi
    simp only [vgaCols, vgaRows] at hi
    have hv := Vga.videoMemory_eq
    have hc : vgaCols = 80 := rfl
    rw [OnScreen, Nat.mod_eq_of_lt (by omega)]
    omega
  case refine_2 => exact (onScreen_fill ..).bind fun _ => .pure

theorem onScreen_printChar (offset : Nat) (c : UInt8) : (vgaPrintChar offset c).Within (OnScreen true) := by
  have hs (offset : Nat) : (if offset ≥ vgaCols * vgaRows then vgaScroll else return offset : Driver Nat).Within (OnScreen true) := by
    split
    case isTrue  => exact onScreen_scroll
    case isFalse => exact .pure
  rw [vgaPrintChar]
  split
  case isTrue  => exact hs _
  case isFalse => exact (onScreen_setChar ..).bind fun _ => hs _

theorem onScreen_printString (s : List UInt8) : (vgaPrintString s).Within (OnScreen true) := by
  rw [vgaPrintString]
  refine onScreen_getCursor.bind fun offset => ?_
  refine Prog.Within.bind ?_ fun _ => onScreen_setCursor _
  induction s generalizing offset
  case nil         => exact .pure
  case cons c s hi => exact (onScreen_printChar offset c).bind hi

theorem onScreen_driver (call : ScreenCall) : call.driver.Within (OnScreen true) := by
  cases call
  case setCursor offset => exact onScreen_setCursor offset
  case setChar          => exact onScreen_setChar ..
  case putCharAt        => exact onScreen_putCharAt ..
  case printString s    => exact onScreen_printString s
  case backspace        => exact onScreen_backspace
  case clearScreen      => exact onScreen_clearScreen

-- Interrupts between the accesses of a driver are not noticed on the rest of the screen.
theorem Shown.runs {α : Type} {p : Driver α} {a : α} (hs : Shown tables b card vga) (hp : p.Within (OnScreen b))
    (h : Prog.Runs device Spins p card a card') : a = (p.run Vga.device vga).1 ∧
      Shown tables b card' (p.run Vga.device vga).2 :=
  (h.simulates hp (simulates_shown tables b) (fun _ _ _ hi => hi.shown) hs).imp_left .symm

theorem Shown.irqs (hs : Shown tables b card vga) (h : Relation.ReflTransGen Spins card card') :
    Shown tables b card' vga := by
  induction h
  case refl         => exact hs
  case tail _ hi hr => exact hi.shown hr

-- The access which sets the index of the registers of the cursor.
theorem Shown.runs_setCursor {offset : Nat} (hs : Shown tables false card vga)
    (h : Prog.Runs device Spins (vgaSetCursor offset) card () card') : Shown tables true card' (vga.setCursor offset) := by
  have ⟨card₁, h₁, h₂⟩ := h.of_op
  have hs₁ := (hs.irqs h₁).byteOut (.inl ⟨rfl, .inl rfl⟩ : OnScreen false (.byteOut vgaCtrlRegister vgaOffsetHigh))
  have hs₂ : Shown tables true (card₁.byteOut vgaCtrlRegister vgaOffsetHigh) (vga.portByteOut vgaCtrlRegister vgaOffsetHigh) :=
    ⟨hs₁.text, hs₁.index, fun _ => .inl rfl, hs₁.high, hs₁.low, hs₁.bytes⟩
  refine (hs₂.runs ?_ h₂).right
  exact .op (.inr ⟨rfl, rfl⟩) fun _ => .op (.inl ⟨rfl, .inr rfl⟩) fun _ => .op (.inr ⟨rfl, rfl⟩) fun _ => .pure

-- The memory of the kernel which the display shows.
def view (card : VgaCard) : Vga where
  mem        := fun a => card.planes ((a - videoMemory) % 2) ((a - videoMemory) / 2 * 2)
  index      := card.crtcIndex
  offsetHigh := card.crtc vgaOffsetHigh
  offsetLow  := card.crtc vgaOffsetLow

theorem TextMode.shown (h : TextMode tables card) : Shown tables false card card.view where
  text := h
  index := rfl
  indexKnown hb := absurd hb (by decide)
  high := rfl
  low := rfl
  bytes j _ _ _ := by simp only [view, Nat.add_sub_cancel_left]

theorem runs_calls {calls : List ScreenCall} (hs : Shown tables true card vga)
    (h : Prog.Runs device Spins (forM calls ScreenCall.driver) card ⟨⟩ card') :
    Shown tables true card' (calls.foldl (fun vga call => call.effect vga) vga) := by
  have ⟨_, ha⟩ := hs.runs (.forM fun call _ => onScreen_driver call) h
  simpa only [Prog.run_forM, Vga.run_driver] using ha

theorem runs_calls_spinner : ∃ card vga card', Shown ⟨fun _ => 0, fun _ => 0⟩ true card vga ∧
    Shown ⟨fun _ => 0, fun _ => 0⟩ true card'
      ([ScreenCall.printString [65, 10], .putCharAt 3 7 66 0x0f black, .setCursor 1999, .backspace].foldl
        (fun vga call => call.effect vga) vga) := by
  have hs := (run_vgaMode3 ⟨fun _ => 0, fun _ => 0⟩ cleared).left.shown
  have hs := hs.runs_setCursor (.of_run_unit device Spins (vgaSetCursor 0) _)
  have hr := Prog.Runs.of_run_unit device Spins <|
    forM [.printString [65, 10], .putCharAt 3 7 66 0x0f black, .setCursor 1999, .backspace] ScreenCall.driver
  exact ⟨_, _, _, hs, runs_calls hs <| .irq (.intro 0x18) <| hr _⟩

end VgaCard

-- The part of `proc_restore_text_mode` which concerns the display.
def procRestoreTextMode (tables : VgaTables) : Driver Unit := do
  vgaMode3 tables
  forM (List.range (80 * 25)) fun i => vgaSetChar i 32 0x07 black
  vgaClearScreen

namespace VgaCard

variable {tables : VgaTables} {card card' card₁ : VgaCard}

theorem runs_procRestoreTextMode (h : Prog.Runs device Spins (procRestoreTextMode tables) card () card') :
    ∃ vga, Shown tables true card' vga ∧ vga.cursor = 0 ∧ ∀ i < 2000, vga.cell i = .blank := by
  have ⟨_, card₁, h₁, h⟩ := h.of_bind
  have ⟨_, card₂, h₂, h⟩ := h.of_bind
  have ⟨_, card₃, h₃, h₄⟩ := h.of_bind
  have hs₁ := (runs_vgaMode3 h₁).left.shown
  have hs₂ := (hs₁.runs (.forM fun _ _ => onScreen_setChar ..) h₂).right
  generalize (Prog.run Vga.device _ card₁.view).2 = vga₂ at hs₂
  have hs₃ := (hs₂.runs (onScreen_fill false (List.range (vgaRows * vgaCols)) fun i => i) h₃).right
  rw [Vga.run_fill (List.range (vgaRows * vgaCols)) fun i => i] at hs₃
  dsimp only at hs₃
  have ⟨_, _, hb⟩ := Vga.fill_blank (fun i _ => (Nat.zero_add i).symm : ∀ i < vgaRows * vgaCols, i = 0 + i) (by decide) vga₂
  refine ⟨_, hs₃.runs_setCursor h₄, Vga.setCursor_cursor (by decide) _, fun i hi => ?_⟩
  exact (Vga.setCursor_cell _ 0 i).trans <| (hb i).trans <| if_pos ⟨Nat.zero_le i, hi⟩

theorem runs_procRestoreTextMode_cleared : ∃ card' vga, Shown ⟨fun _ => 0, fun _ => 0⟩ true card' vga ∧
    vga.cursor = 0 ∧ ∀ i < 2000, vga.cell i = .blank :=
  ⟨_, @runs_procRestoreTextMode _ cleared _ <| .irq (.intro 0x18) <| .of_run_unit ..⟩

end VgaCard
