import Yabloko.Cpu.Swtch

abbrev tSyscall : Nat := 0x84
abbrev stsIG32 : Nat := 0xe
abbrev stsTG32 : Nat := 0xf
abbrev stsT32A : Nat := 0x9
abbrev staX : Nat := 0x8
abbrev staW : Nat := 0x2
abbrev staR : Nat := 0x2

-- The bit fields of `idt_gate_t`.
structure IdtGate where
  lowOffset  : Nat
  selector   : Nat
  always0    : Nat
  type       : Nat
  s          : Nat
  dpl        : Nat
  p          : Nat
  highOffset : Nat

-- The gate as the processor finds it in the memory.
def IdtGate.bits (g : IdtGate) : Nat :=
  g.lowOffset + 2 ^ 16 * g.selector + 2 ^ 32 * g.always0 + 2 ^ 40 * g.type + 2 ^ 44 * g.s + 2 ^ 45 * g.dpl +
    2 ^ 47 * g.p + 2 ^ 48 * g.highOffset

abbrev Idt := Fin 256 → Nat

-- What the processor reads from a gate for interrupts or for traps.
structure Gate where
  offset   : Word
  selector : Selector
  dpl      : Nat
  trap     : Bool
  deriving DecidableEq

def Gate.decode (bits : Nat) : Option Gate :=
  let type := bits / 2 ^ 40 % 2 ^ 5
  if bits / 2 ^ 47 % 2 = 1 ∧ (type = stsIG32 ∨ type = stsTG32) then
    some {
      offset := .ofNat 32 (bits % 2 ^ 16 + 2 ^ 16 * (bits / 2 ^ 48))
      selector := .ofNat 16 (bits / 2 ^ 16)
      dpl := bits / 2 ^ 45 % 4
      trap := type = stsTG32 }
  else
    none

-- The vector, the error code and the gate which the processor uses. An instruction for an interrupt needs the
-- privilege level of the gate, and it causes a general protection fault without it. It has no error code itself.
def Idt.select (idt : Idt) (cpl : Nat) (instruction : Bool) (n : Fin 256) (error : Word) :
    Option (Fin 256 × Option Word × Gate) := do
  let gate ← Gate.decode (idt n)
  if instruction ∧ gate.dpl < cpl then
    let gate ← Gate.decode (idt 13)
    return (13, some <| .ofNat 32 (8 * n.val + 2), gate)
  else
    return (n, if instruction then none else Cpu.errorCode n error, gate)

-- The handler of which the code lies at the address.
def vectorAt (defaultHandlers : Fin 256 → Word) (address : Word) : Option (Fin 256) :=
  (List.finRange 256).find? (defaultHandlers · = address)

-- From the interrupted state to the entry of `trap`, through the gate in the table.
def Cpu.deliver (zeroExtends : Bool) (defaultHandlers : Fin 256 → Word) (idt : Idt) (tss : Tss) (trap ret : Word)
    (instruction : Bool) (n : Fin 256) (error : Word) (c : Cpu) : Option Cpu := do
  let (_, errCode, gate) ← idt.select c.cpl instruction n error
  if gate.selector.desc = some ⟨true, 0⟩ then
    let c := c.interrupt zeroExtends gate.trap tss gate.offset errCode
    let handler ← vectorAt defaultHandlers c.eip
    c.handler handler |>.alltraps zeroExtends trap ret
  else
    none

namespace Cpu

end Cpu
