import Yabloko.Kernel.Machine

namespace Kernel

def kfree (v : Nat) : Kernel Unit := do
  if v % pgsize ≠ 0 ∨ v2p v ≥ phystop then
    throw (.panic "kfree")
  memset v 1 pgsize
  store32 v (← get).freelist
  modify fun s => { s with freelist := v }

def kalloc : Kernel Nat := do
  let r := (← get).freelist
  if r ≠ 0 then
    let next ← load32 r
    modify fun s => { s with freelist := next }
  else
    modify fun s => { s with exhausted := true }
  return r

def freerange (vstart vend : Nat) : Kernel Unit :=
  go (2 ^ 20) (pgroundup vstart)
where
  go : Nat → Nat → Kernel Unit
    | 0, _ => throw .diverges
    | fuel + 1, p => do
      if p + pgsize ≤ vend then
        kfree p
        go fuel (p + pgsize)

end Kernel
