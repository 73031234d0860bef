import Yabloko.Drivers.Spinner

abbrev com1 : Nat := 0x3f8

-- The result is the value of the variable `uart`.
def uartinit : Driver Bool := do
  portByteOut (com1 + 2) 0
  portByteOut (com1 + 3) 0x80
  portByteOut (com1 + 0) (.ofNat (115200 / 9600))
  portByteOut (com1 + 1) 0
  portByteOut (com1 + 3) 0x03
  portByteOut (com1 + 4) 0
  portByteOut (com1 + 1) 0x01
  let status ← portByteIn (com1 + 5)
  if status = 0xff then
    return false
  else
    let _ ← portByteIn (com1 + 2)
    let _ ← portByteIn (com1 + 0)
    return true

def uartputc (uart : Bool) (c : UInt8) : Driver Unit :=
  if !uart then
    return
  else do
    let _ ← Prog.poll (.byteIn (com1 + 5)) (fun status => UInt8.ofNat status &&& 0x20 ≠ 0) 128
    portByteOut (com1 + 0) c

def printk (uart : Bool) (msg : List UInt8) : Driver Unit := do
  vgaPrintString msg
  forM msg (uartputc uart)

-- A serial port, if there is one. The times for which it is busy after a byte are arbitrary, and a byte which
-- is sent meanwhile is lost.
structure Uart where
  present : Bool
  fifo    : UInt8
  line    : UInt8
  modem   : UInt8
  irqs    : UInt8
  divisor : UInt8 × UInt8
  delays  : Nat → Nat
  busy    : Nat
  log     : List UInt8

namespace Uart

-- The bit 7 of the line register selects the divisor.
def unlocked (uart : Uart) : Bool :=
  uart.line ≥ 0x80

def byteOut (uart : Uart) (port : Nat) (data : UInt8) : Uart :=
  match port with
  | 0x3f8 =>
    if uart.unlocked then
      { uart with divisor := (data, uart.divisor.2) }
    else if uart.busy = 0 then
      { uart with log := uart.log ++ [data], busy := uart.delays uart.log.length }
    else
      uart
  | 0x3f9 => if uart.unlocked then { uart with divisor := (uart.divisor.1, data) } else { uart with irqs := data }
  | 0x3fa => { uart with fifo := data }
  | 0x3fb => { uart with line := data }
  | 0x3fc => { uart with modem := data }
  | _     => uart

def byteIn (uart : Uart) (port : Nat) : UInt8 × Uart :=
  if !uart.present then
    (0xff, uart)
  else
    match port with
    | 0x3fd => if uart.busy = 0 then (0x60, uart) else (0x00, { uart with busy := uart.busy - 1 })
    | _     => (0, uart)

def device : Device PortOp Nat Uart
  | .byteIn port, uart       => ((uart.byteIn port).1.toNat, (uart.byteIn port).2)
  | .byteOut port data, uart => (0, if uart.present then uart.byteOut port data else uart)
  | _, uart                  => (0, uart)

-- 9600 baud, 8 data bits, and 1 stop bit.
structure Ready (uart : Uart) : Prop where
  present : uart.present = true
  line    : uart.line = 0x03
  divisor : uart.divisor = (12, 0)
  -- The port becomes ready before the driver gives up.
  delays  : ∀ n, uart.delays n < 128
  busy    : uart.busy < 128

variable {uart : Uart} {c : UInt8}

theorem run_uartinit (hp : uart.present = true) (hd : ∀ n, uart.delays n < 128) (hb : uart.busy < 128) : ∃ uart',
    uartinit.run device uart = (true, uart') ∧ uart'.Ready ∧ uart'.log = uart.log := by
  refine ⟨{ uart with
    fifo := 0, line := 0x03, modem := 0, irqs := 0x01, divisor := (12, 0), busy := uart.busy - 1 }, ?_, ?_, rfl⟩
  case refine_2 => exact ⟨hp, rfl, rfl, hd, by dsimp only; omega⟩
  cases uart
  case mk busy _ =>
    cases hp
    cases busy <;> rfl

theorem run_uartinit_absent (hp : uart.present = false) : uartinit.run device uart = (false, uart) := by
  have ho port data : device (.byteOut port data) uart = (0, uart) := by simp [device, hp]
  have hi port : device (.byteIn port) uart = (0xff, uart) := by simp [device, byteIn, hp]
  simp only [uartinit, Prog.run_bind, Prog.run_portByteOut, Prog.run_portByteIn, ho, hi]
  rfl

theorem run_poll {n rounds : Nat} (hp : uart.present = true) (hb : uart.busy = n) (hn : n < rounds) :
    (Prog.poll (.byteIn (com1 + 5)) (fun status => UInt8.ofNat status &&& 0x20 ≠ 0) rounds).run device uart =
      (true, { uart with busy := 0 }) := by
  induction n generalizing uart rounds
  case zero =>
    obtain ⟨rounds, rfl⟩ := Nat.exists_eq_succ_of_ne_zero hn.ne'
    have hs : device (.byteIn (com1 + 5)) uart = (0x60, uart) := by simp [device, byteIn, hp, hb]
    have ht : decide (UInt8.ofNat 0x60 &&& 0x20 ≠ 0) = true := by decide
    rw [Prog.poll, Prog.run, hs, if_pos ht, ← hb]
    rfl
  case succ n hi =>
    cases rounds
    case zero        => omega
    case succ rounds =>
      have hs : device (.byteIn (com1 + 5)) uart = (0, { uart with busy := n }) := by simp [device, byteIn, hp, hb]
      have ht : ¬decide (UInt8.ofNat 0 &&& 0x20 ≠ 0) = true := by decide
      rw [Prog.poll, Prog.run, hs, if_neg ht]
      exact hi hp rfl (by omega)

-- No byte is lost.
theorem Ready.run_uartputc (h : uart.Ready) (c : UInt8) : ∃ uart',
    (uartputc true c).run device uart = ((), uart') ∧ uart'.Ready ∧ uart'.log = uart.log ++ [c] := by
  refine ⟨{ uart with log := uart.log ++ [c], busy := uart.delays uart.log.length }, ?_, ?_, rfl⟩
  case refine_2 => exact ⟨h.present, h.line, h.divisor, h.delays, h.delays _⟩
  rw [uartputc, if_neg (by decide), Prog.run_bind, run_poll h.present rfl h.busy, Prog.run_portByteOut]
  simp only [device, h.present, if_true, byteOut, unlocked, h.line]
  rfl

theorem Ready.run_uartputs (h : uart.Ready) (msg : List UInt8) : ∃ uart',
    (forM msg (uartputc true)).run device uart = (⟨⟩, uart') ∧ uart'.Ready ∧ uart'.log = uart.log ++ msg := by
  induction msg generalizing uart
  case nil           => exact ⟨uart, rfl, h, by rw [List.append_nil]⟩
  case cons c msg hi =>
    have ⟨uart₁, h₁, hr₁, hl₁⟩ := h.run_uartputc c
    have ⟨uart₂, h₂, hr₂, hl₂⟩ := hi hr₁
    refine ⟨uart₂, ?_, hr₂, ?_⟩
    · rw [List.forM_cons, Prog.run_bind, h₁, h₂]
    · rw [hl₂, hl₁, List.append_assoc, List.singleton_append]

end Uart

namespace Console

-- The display and the serial port are found at different ports.
def device : Device PortOp Nat (Vga × Uart)
  | .byteIn port, s =>
    if com1 ≤ port ∧ port < com1 + 8 then
      ((Uart.device (.byteIn port) s.2).1, s.1, (Uart.device (.byteIn port) s.2).2)
    else
      ((Vga.device (.byteIn port) s.1).1, (Vga.device (.byteIn port) s.1).2, s.2)
  | .byteOut port data, s =>
    if com1 ≤ port ∧ port < com1 + 8 then
      (0, s.1, (Uart.device (.byteOut port data) s.2).2)
    else
      (0, (Vga.device (.byteOut port data) s.1).2, s.2)
  | o, s => ((Vga.device o s.1).1, (Vga.device o s.1).2, s.2)

variable {vga : Vga} {uart : Uart} {top : Nat} {t : Terminal}

theorem device_onScreen {o : PortOp} (ho : VgaCard.OnScreen true o) (vga : Vga) (uart : Uart) :
    device o (vga, uart) = ((Vga.device o vga).1, (Vga.device o vga).2, uart) := by
  cases o
  case byteIn port       =>
    have ⟨hp, _⟩ := ho
    subst hp
    rfl
  case byteOut port data =>
    rcases ho with ⟨hp, _⟩ | ⟨hp, _⟩
    all_goals
      subst hp
      rfl
  all_goals rfl

theorem within_uartputc (uart : Bool) (c : UInt8) :
    (uartputc uart c).Within (PortOp.Concerns [com1 + 5, com1] false) := by
  rw [uartputc]
  split
  case isTrue  => exact .pure
  case isFalse =>
    have hs : PortOp.Concerns [com1 + 5, com1] false (.byteIn (com1 + 5)) := .head _
    exact (Prog.Within.poll hs _).bind fun _ => .portByteOut (.tail _ <| .head _) _

theorem device_uart {o : PortOp} (ho : o.Concerns [com1 + 5, com1] false) (vga : Vga) (uart : Uart) :
    device o (vga, uart) = ((Uart.device o uart).1, vga, (Uart.device o uart).2) := by
  have hm {port : Nat} (hp : port ∈ [com1 + 5, com1]) : com1 ≤ port ∧ port < com1 + 8 := by
    simp only [List.mem_cons, List.not_mem_nil, or_false] at hp
    omega
  cases o
  case byteIn port       => simp only [device, if_pos (hm ho)]
  case byteOut port data => simp only [device, if_pos (hm ho), Uart.device]
  case wordIn            => rfl
  case longIn            => rfl
  case load              => cases ho
  case store             => cases ho

-- A message is shown on the screen, and it is sent over the serial port.
theorem run_printk (h : uart.Ready) (vga : Vga) (msg : List UInt8) : ∃ uart',
    (printk true msg).run device (vga, uart) = (⟨⟩, vga.printString msg, uart') ∧ uart'.Ready ∧
      uart'.log = uart.log ++ msg := by
  have ⟨uart', hu, hr, hl⟩ := h.run_uartputs msg
  refine ⟨uart', ?_, hr, hl⟩
  rw [printk, Prog.run_bind, (VgaCard.onScreen_printString msg).run_fst fun _ _ _ ho => device_onScreen ho _ _,
    Vga.run_vgaPrintString]
  dsimp only
  rw [(Prog.Within.forM fun c _ => within_uartputc true c).run_snd fun _ _ _ ho => device_uart ho _ _, hu]

-- The terminal shows what the serial port has sent.
theorem run_printks (h : uart.Ready) (hs : vga.Shows top t) (msgs : List (List UInt8)) : ∃ vga' uart',
    (forM msgs (printk true)).run device (vga, uart) = (⟨⟩, vga', uart') ∧ uart'.Ready ∧
      uart'.log = uart.log ++ msgs.flatten ∧
      vga'.Shows (max top (t.print msgs.flatten).top) (t.print msgs.flatten) := by
  induction msgs generalizing vga uart top t
  case nil              =>
    have ht : max top t.top = top := by
      have hp := hs.displays.pos
      have hc := hs.displays.col_lt
      have hl := hs.cursor_lt
      rw [Terminal.pos] at hp
      rw [Terminal.top]
      omega
    exact ⟨vga, uart, rfl, h, (List.append_nil _).symm, ht.symm ▸ hs⟩
  case cons msg msgs hi =>
    obtain ⟨uart₁, h₁, hr₁, hl₁⟩ := run_printk h vga msg
    have hp (s s' : List UInt8) : t.print (s ++ s') = (t.print s).print s' := List.foldl_append
    obtain ⟨vga', uart', h', hr', hl', hs'⟩ := hi hr₁ (hs.printString msg).left
    refine ⟨vga', uart', ?_, hr', ?_, ?_⟩
    · rw [List.forM_cons, Prog.run_bind, h₁, h']
    · rw [hl', hl₁, List.append_assoc, List.flatten_cons]
    · have hm : (t.print msg).top ≤ ((t.print msg).print msgs.flatten).top :=
        Nat.sub_le_sub_right ((t.print msg).row_le_print _) 24
      rw [Nat.max_assoc, Nat.max_eq_right hm, ← hp, ← List.flatten_cons] at hs'
      exact hs'

theorem run_printks_two : ∃ vga' uart' top, ∃ t : Terminal,
    (forM [[65], [10, 66]] (printk true)).run device
      (⟨fun a => if a % 2 = 0 then 32 else 7, 0, 0, 0⟩, ⟨true, 0, 0x03, 0, 1, (12, 0), fun _ => 3, 0, []⟩) = (⟨⟩, vga', uart') ∧
      uart'.Ready ∧ uart'.log = [65, 10, 66] ∧
      vga'.Shows (max top (t.print [65, 10, 66]).top) (t.print [65, 10, 66]) := by
  have hr : Vga.Ready ⟨fun a => if a % 2 = 0 then 32 else 7, 0, 0, 0⟩ := by
    refine ⟨by decide, fun i _ hi => ?_⟩
    have hv := Vga.videoMemory_eq
    simp only [Vga.cell]
    rw [if_pos (by omega), if_neg (by omega)]
    rfl
  obtain ⟨vga', uart', h⟩ := run_printks
    (⟨rfl, rfl, rfl, fun _ => (by decide : 3 < 128), (by decide : 0 < 128)⟩ :
      Uart.Ready ⟨true, 0, 0x03, 0, 1, (12, 0), fun _ => 3, 0, []⟩) hr.shows [[65], [10, 66]]
  exact ⟨vga', uart', _, _, h⟩

end Console
