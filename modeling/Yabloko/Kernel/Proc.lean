import Yabloko.Kernel.Fs
import Yabloko.Kernel.Vm

-- The offsets of the fields of `struct task`, `struct kstack` and `registers_t`.
namespace Task

abbrev pgdir : Nat := 104
abbrev stack : Nat := 108

end Task

namespace Kstack

abbrev context : Nat := 1600
abbrev trapframe : Nat := 1620
abbrev bottom : Nat := 1696

end Kstack

abbrev segKdata : Nat := 2
abbrev segUcode : Nat := 3
abbrev segUdata : Nat := 4
abbrev dplUser : Nat := 3
abbrev flIf : Nat := 0x200

-- The ways in which `run_elf` ends: it prints a message after the name of the file and returns, or
-- it switches to the stack of the process, of which it has determined the image.
inductive RunElf
  | returned (message : String)
  | swtch (stack imageTop : Nat)

namespace Kernel

def switchuvm (tss esp pgdir : Nat) : Kernel Unit := do
  memset tss 0 104
  store16 (tss + 8) (segKdata <<< 3)
  store32 (tss + 4) esp
  store16 (tss + 102) 0xFFFF
  modify fun s => { s with cr3 := v2p pgdir }

-- The loop of `run_elf` over the program headers. Its bound is not reached, as there are less than
-- 2¹⁶ of them.
def imageTop (hdr fileTop : Nat) : Kernel Nat :=
  go (2 ^ 16) 0 fileTop
where
  go : Nat → Nat → Nat → Kernel Nat
    | 0, _, _ => throw .diverges
    | fuel + 1, i, top => do
      if i < (← load16 (hdr + 44)) then
        let phdr := (hdr + (← load32 (hdr + 28)) + i * (← load16 (hdr + 42))) % 2 ^ 32
        if (← load32 phdr) ≠ 1 then
          go fuel (i + 1) top
        else if (← load32 ((phdr + 20) % 2 ^ 32)) = 0 then
          go fuel (i + 1) top
        else
          let segTop :=
            ((← load32 ((phdr + 8) % 2 ^ 32)) + (← load32 ((phdr + 20) % 2 ^ 32))) % 2 ^ 32
          go fuel (i + 1) (if segTop > top then segTop else top)
      else
        return top

section

variable (trapret : Nat) (disk : Disk)

-- The kernel stack of the process, from which `swtch` enters it.
def setupStack (u hdr : Nat) : Kernel Unit := do
  memset u 0 Kstack.bottom
  store32 (u + Kstack.context + 16) trapret
  let tf := u + Kstack.trapframe
  store32 (tf + 56) (← load32 (hdr + 24))
  store32 (tf + 60) (segUcode <<< 3 ||| dplUser)
  store32 (tf + 44) (segUdata <<< 3 ||| dplUser)
  store32 (tf + 40) (← load32 (tf + 44))
  store32 (tf + 36) (← load32 (tf + 44))
  store32 (tf + 32) (← load32 (tf + 44))
  store32 (tf + 72) (← load32 (tf + 44))
  store32 (tf + 64) flIf
  store32 (tf + 68) userStackBase

-- The parts of `run_elf`: the directory of the process, its image and its entry.
def newProcess : Kernel Nat := do
  if (← get).userTask = 0 then
    let task ← kalloc
    modify fun s => { s with userTask := task }
  let task := (← get).userTask
  store32 (task + Task.pgdir) (← setupkvm)
  return task

def readImage (statbuf : Stat) (task : Nat) : Kernel Int := do
  let _ ← allocuvm (← load32 (task + Task.pgdir)) userBase ((userBase + statbuf.size) % 2 ^ 32)
  let _ ← allocuvm (← load32 (task + Task.pgdir)) (userStackBase - 2 * pgsize) userStackBase
  switchuvm task (task + Task.stack + Kstack.bottom) (← load32 (task + Task.pgdir))
  readFile disk statbuf userBase (100 <<< 20)

def enterImage (statbuf : Stat) (task : Nat) : Kernel RunElf := do
  let fileTop := (userBase + statbuf.size) % 2 ^ 32
  let imageTop ← imageTop userBase fileTop
  if imageTop > fileTop then
    if (← allocuvm (← load32 (task + Task.pgdir)) fileTop imageTop) < 0 then
      return .returned ": out of memory\n"
  let u := task + Task.stack
  setupStack trapret u userBase
  return .swtch (u + Kstack.context) imageTop

def loadElf (statbuf : Stat) (task : Nat) : Kernel RunElf := do
  if (← readImage disk statbuf task) ≤ 0 then
    return .returned ": file not found\n"
  enterImage trapret statbuf task

def runElf (name : CString) : Kernel RunElf :=
  match disk.stat name with
  | none         => return .returned ": file not found\n"
  | some statbuf => do loadElf trapret disk statbuf (← newProcess)

end

-- The end of a process. The video memory, which `proc_restore_text_mode` writes, is not part of the
-- pages of the allocator.
def killproc : Kernel Unit := do
  switchkvm
  freevm (← load32 ((← get).userTask + Task.pgdir))

end Kernel
