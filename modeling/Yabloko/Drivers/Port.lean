import Yabloko.Lib.Prog

-- The accesses to the ports, and to the memory of the display.
inductive PortOp
  | byteIn (port : Nat)
  | wordIn (port : Nat)
  | longIn (port : Nat)
  | byteOut (port : Nat) (data : UInt8)
  | load (addr : Nat)
  | store (addr : Nat) (data : UInt8)

-- The access concerns one of the ports, or the memory of the display if `memory` is set.
def PortOp.Concerns (ports : List Nat) (memory : Bool) : PortOp → Prop
  | byteIn port | wordIn port | longIn port | byteOut port _ => port ∈ ports
  | load _ | store _ _                                       => memory = true

abbrev Driver := Prog PortOp Nat

def portByteIn (port : Nat) : Driver UInt8 := do
  let result ← Prog.perform (.byteIn port)
  return .ofNat result

def portByteOut (port : Nat) (data : UInt8) : Driver Unit := do
  let _ ← Prog.perform (.byteOut port data)

namespace Prog

variable {σ : Type} {d : Device PortOp Nat σ}

@[simp] theorem run_portByteIn (port : Nat) (s : σ) :
    (portByteIn port).run d s = (.ofNat (d (.byteIn port) s).1, (d (.byteIn port) s).2) :=
  rfl

@[simp] theorem run_portByteOut (port : Nat) (data : UInt8) (s : σ) :
    (portByteOut port data).run d s = ((), (d (.byteOut port data) s).2) :=
  rfl

theorem Within.portByteOut {ports : List Nat} {memory : Bool} {port : Nat} (h : port ∈ ports) (data : UInt8) :
    (portByteOut port data).Within (PortOp.Concerns ports memory) :=
  .op h fun _ => .pure

end Prog
