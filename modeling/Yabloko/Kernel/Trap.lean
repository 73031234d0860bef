import Yabloko.Cpu.Gates
import Yabloko.Drivers.Critical
import Yabloko.Drivers.Pic
import Yabloko.Drivers.Speaker
import Yabloko.Kernel.Mode13
import Yabloko.Kernel.Puts
import Yabloko.Kernel.Stos
import Yabloko.Lib.Triple

abbrev irq0 : Nat := 32
abbrev irq1 : Nat := 33

-- What the handlers do between two points at which an interrupt can make a difference. The loops over the tables and
-- over the strings of the process are one operation each, as the interrupts do not change what they read.
inductive KernelOp
  | portByteOut (port : Nat) (data : UInt8)
  | printk (msg : List UInt8)
  | printkUser (msg : Nat)
  | getUserspacePtr (ptr : Nat)
  | userReadableAfter (ptr : Nat)
  | userWritableAfter (ptr : Nat)
  | store32 (va v : Nat)
  | kbdPopEvent
  | kbdClearBuffer
  | pitMonotonicMs
  | speakerOn (frequencyHz : UInt16)
  | setOffDeadline (ms : UInt32)
  | mode13FbIsActive
  | setUserFbPtr (userFbPtr : Nat)
  | setEnabled (enabled : Bool)
  | vgaMode13
  | vgaMode3
  | mode13FbTick
  | switchkvm
  | freevm (es : Selector)
  | timerInterruptHandler
  | keyboardInterruptHandler
  | panic (msg : String)

abbrev KernelProg := Prog KernelOp Int

-- The registers with the result of the system call.
def Registers.withResult (r : Registers) (result : Int) : Registers :=
  { r with eax := .ofInt 32 result }

inductive Handler
  | timer
  | keyboard
  | syscall

-- How `trap` ends: the process goes on with its registers, or the shell goes on. A process which sleeps is
-- not waited for forever.
inductive TrapEnd
  | returned (r : Registers)
  | killed
  | asleep
  | halted

namespace KernelProg

def execute (o : KernelOp) : KernelProg Unit := do
  let _ ← Prog.perform o

def printk (msg : String) : KernelProg Unit :=
  execute <| .printk msg.toUTF8.toList

def mode13FbBind (userFbPtr : Nat) : KernelProg Unit := do
  execute <| .setUserFbPtr userFbPtr
  execute <| .setEnabled true
  execute .vgaMode13
  execute .mode13FbTick

def mode13FbUnbind : KernelProg Unit := do
  execute <| .setEnabled false
  execute <| .setUserFbPtr 0

-- The display is set up by `vgaMode3` and by what follows it.
def procRestoreTextMode : KernelProg Unit := do
  if (← Prog.perform .mode13FbIsActive) = 0 then
    return
  mode13FbUnbind
  execute .vgaMode3
  execute .kbdClearBuffer

-- After the switch to the kernel thread, `run_elf` returns to the shell.
def killproc (es : Selector) : KernelProg TrapEnd := do
  procRestoreTextMode
  execute .switchkvm
  execute <| .freevm es
  return .killed

-- There is no result while the deadline has not been reached.
def msleep (rounds : Nat) (ms : Int) : KernelProg Bool := do
  if ms ≤ 0 then
    return true
  let deadline := ((← Prog.perform .pitMonotonicMs) + ms) % 2 ^ 64
  Prog.poll .pitMonotonicMs (fun now => decide (deadline ≤ now)) rounds

-- The frequency and the duration are not zero.
def speakerBeep (frequencyHz durationMs : UInt16) : KernelProg Unit := do
  execute <| .speakerOn frequencyHz
  let ms ← Prog.perform .pitMonotonicMs
  execute <| .setOffDeadline <| .ofNat (ms.toNat + durationMs.toNat)

def handlePuts (s : Int) : KernelProg Int := do
  if s = 0 then
    return -1
  execute <| .printkUser s.toNat
  return 0

def handleEnter13h (userFbPtr : Nat) : KernelProg Int := do
  if (← Prog.perform <| .userReadableAfter userFbPtr) < Kernel.videoMode13FramebufferSize then
    return -1
  mode13FbBind userFbPtr
  return 0

def handleLeave13h : KernelProg Int := do
  procRestoreTextMode
  return 0

def handlePoll (userEventPtr : Nat) : KernelProg Int := do
  if (← Prog.perform <| .userWritableAfter userEventPtr) < 4 then
    return -1
  let event ← Prog.perform .kbdPopEvent
  if event = 0 then
    return 0
  execute <| .store32 userEventPtr event.toNat
  return 1

def handleTimeMs (userTimePtr : Nat) : KernelProg Int := do
  if (← Prog.perform <| .userWritableAfter userTimePtr) < 8 then
    return -1
  let ms ← Prog.perform .pitMonotonicMs
  execute <| .store32 userTimePtr (ms.toNat % 2 ^ 32)
  execute <| .store32 ((userTimePtr + 4) % 2 ^ 32) (ms.toNat / 2 ^ 32)
  return 0

def handleBeep (packedTone : Word) : KernelProg Int := do
  let frequencyHz : UInt16 := .ofNat packedTone.toNat
  let durationMs : UInt16 := .ofNat (packedTone.toNat / 2 ^ 16)
  if frequencyHz = 0 ∨ durationMs = 0 then
    return 0
  speakerBeep frequencyHz durationMs
  return 0

def handleSyscall (rounds : Nat) (r : Registers) : KernelProg TrapEnd := do
  let ebx := r.ebx.toNat
  match r.eax.toNat with
  | 0  =>
    printk <| if ebx = 0 then "* success\n" else "* failure\n"
    killproc <| .ofWord r.es
  | 1  =>
    printk "Hello world!\n"
    return .returned <| r.withResult 0
  | 2  =>
    execute <| .printk <| [.ofNat ebx].takeWhile (· ≠ 0)
    return .returned <| r.withResult 0
  | 3  => return .returned <| r.withResult <| ← handlePuts <| ← Prog.perform <| .getUserspacePtr ebx
  | 4  => return .returned <| r.withResult <| ← Prog.perform .kbdPopEvent
  | 5  => return .returned <| r.withResult <| ← handleEnter13h ebx
  | 6  => return .returned <| r.withResult <| ← handleLeave13h
  | 7  => return .returned <| r.withResult <| ← handlePoll ebx
  | 8  => return .returned <| r.withResult <| ← handleTimeMs ebx
  | 9  =>
    let ms := toInt32 ebx
    if ms < 0 then
      return .returned <| r.withResult (-1)
    return if ← msleep rounds ms then .returned <| r.withResult 0 else .asleep
  | 10 => return .returned <| r.withResult <| ← handleBeep r.ebx
  | _  =>
    printk "Unknown syscall\n"
    return .returned <| r.withResult (-1)

def registerInterruptHandler (i : Nat) (handler : Handler) (handlers : Nat → Option Handler) : Nat → Option Handler :=
  Function.update handlers i (some handler)

-- The handlers are registered by `init_keyboard`, by `init_pit` and by `load_idt`.
def interruptHandlers : Nat → Option Handler :=
  (fun _ => none) |> registerInterruptHandler irq1 .keyboard |> registerInterruptHandler irq0 .timer
    |> registerInterruptHandler tSyscall .syscall

def exceptionMessages : List String := [
  "Division By Zero", "Debug", "Non Maskable Interrupt", "Breakpoint", "Into Detected Overflow", "Out of Bounds",
  "Invalid Opcode", "No Coprocessor", "Double Fault", "Coprocessor Segment Overrun", "Bad TSS", "Segment Not Present",
  "Stack Fault", "General Protection Fault", "Page Fault", "Unknown Interrupt", "Coprocessor Fault", "Alignment Check",
  "Machine Check"]

def exceptionMessage (intNo : Nat) : String :=
  exceptionMessages.getD intNo "Reserved"

-- The parts of `trap`: the end of the interrupt for the controllers, and the call of the handler.
def endOfInterrupt (intNo : Nat) : KernelProg Unit := do
  if intNo ≥ irq0 + 8 ∧ intNo ≤ irq0 + 15 then
    execute <| .portByteOut 0xa0 0x20
  if intNo ≥ irq0 ∧ intNo ≤ irq0 + 15 then
    execute <| .portByteOut 0x20 0x20

def callHandler (rounds : Nat) (r : Registers) : KernelProg TrapEnd := do
  let intNo := r.intNo.toNat
  match interruptHandlers intNo with
  | some .timer    =>
    execute .timerInterruptHandler
    return .returned r
  | some .keyboard =>
    execute .keyboardInterruptHandler
    return .returned r
  | some .syscall  => handleSyscall rounds r
  | none           =>
    if intNo < 32 then
      let msg := exceptionMessage intNo
      if r.cs.toNat % 4 ≠ 0 then
        printk "Exception: "
        printk msg
        printk "\n"
        killproc <| .ofWord r.es
      else
        execute <| .panic msg
        return .halted
    else
      return .returned r

def trap (rounds : Nat) (r : Registers) : KernelProg TrapEnd := do
  endOfInterrupt r.intNo.toNat
  callHandler rounds r

end KernelProg

-- What makes the kernel stop.
inductive Stop
  | fault (fault : Fault)
  | outOfBounds

-- The variables of the kernel, and what the handlers access of the devices. The messages on the console are kept
-- as they have been sent to the serial line, and the requests of the timer are counted as they occur.
structure Os where
  machine         : Machine
  mode13UserFbPtr : Nat
  mode13Enabled   : Bool
  graphics        : Bool
  kbd             : Keyboard
  kbdData         : UInt8
  speaker         : Speaker
  pic             : Pic
  console         : List UInt8
  ticks           : Nat
  stop            : Option Stop

namespace Os

def print (σ : Os) (msg : List UInt8) : Os :=
  { σ with console := σ.console ++ msg }

def panic (σ : Os) (msg : String) : Os :=
  { σ.print ("\nKernel panic: " ++ msg).toUTF8.toList with stop := some <| .fault <| .panic msg }

-- The exceptions of the kernel end in `panic`, too.
def fail (σ : Os) : Fault → Os
  | .panic msg => σ.panic msg
  | fault      => { σ with stop := some <| .fault fault }

def exec {α : Type} (f : Kernel α) (result : α → Int) (σ : Os) : Int × Os :=
  match f.run σ.machine with
  | .ok a machine    => (result a, { σ with machine })
  | .error e machine => (0, fail { σ with machine } e)

-- The callbacks `speaker_tick` and `mode13_fb_tick`. The third one draws the spinner.
def timerInterruptHandler (σ : Os) : Int × Os :=
  exec (Kernel.mode13FbTick σ.mode13UserFbPtr σ.mode13Enabled) (fun _ => 0)
    { σ with speaker := σ.speaker.timerInterruptHandler }

def step (σ : Os) : KernelOp → Int × Os
  | .portByteOut port data     => (0, { σ with pic := σ.pic.portByteOut port data })
  | .printk msg                => (0, σ.print msg)
  | .printkUser msg            =>
    match (Kernel.printk Kernel.loadByte msg).run σ.machine with
    | .ok (_, sent) machine => (0, { σ with machine }.print sent)
    | .error e machine      => (0, fail { σ with machine } e)
  | .getUserspacePtr ptr       => σ.exec (Kernel.getUserspacePtr Kernel.loadByte ptr) fun p => p
  | .userReadableAfter ptr     => σ.exec (Kernel.userReadableAfter ptr) fun n => n
  | .userWritableAfter ptr     => σ.exec (Kernel.userWritableAfter ptr) id
  | .store32 va v              => σ.exec (Kernel.store32 va v) fun _ => 0
  | .kbdPopEvent               =>
    match σ.kbd.popEvent with
    | some (event, kbd) => (event, { σ with kbd })
    | none              => (0, { σ with stop := some .outOfBounds })
  | .kbdClearBuffer            => (0, { σ with kbd := σ.kbd.clearBuffer })
  | .pitMonotonicMs            => (σ.speaker.monotonicMs.toNat, σ)
  | .speakerOn frequencyHz     => (0, { σ with speaker := σ.speaker.on frequencyHz })
  | .setOffDeadline ms         => (0, { σ with speaker := { σ.speaker with offDeadlineMs := ms } })
  | .mode13FbIsActive          => (σ.mode13Enabled.toNat, σ)
  | .setUserFbPtr userFbPtr    => (0, { σ with mode13UserFbPtr := userFbPtr })
  | .setEnabled enabled        => (0, { σ with mode13Enabled := enabled })
  | .vgaMode13                 => (0, { σ with graphics := true })
  | .vgaMode3                  => (0, { σ with graphics := false })
  | .mode13FbTick              =>
    σ.exec (Kernel.mode13FbTick σ.mode13UserFbPtr σ.mode13Enabled) fun _ => 0
  | .switchkvm                 => σ.exec Kernel.switchkvm fun _ => 0
  | .freevm es                 =>
    σ.exec (do Kernel.freevmIn es (← Kernel.load32 ((← get).userTask + Task.pgdir))) fun _ => 0
  | .timerInterruptHandler     => σ.timerInterruptHandler
  | .keyboardInterruptHandler  =>
    match σ.kbd.interruptHandler σ.kbdData with
    | some kbd => (0, { σ with kbd })
    | none     => (0, { σ with stop := some .outOfBounds })
  | .panic msg                 => (0, σ.panic msg)

-- Nothing happens any more after the kernel has stopped.
def device : Device KernelOp Int Os :=
  fun o σ => if σ.stop.isSome then (0, σ) else σ.step o

-- One of the controllers interrupts the kernel or the process, after a key has been pressed or not. The
-- handlers are not interrupted.
inductive Irq (σ : Os) : Os → Prop
  | intro (request : PicRequest) (kbdData : UInt8) (r : Registers) : σ.stop = none → σ.pic.Accepts request →
      r.intNo = .ofNat 32 (σ.pic.acknowledge request).1 →
      Irq σ ((KernelProg.trap 0 r).run device { σ with
        kbdData
        pic := (σ.pic.acknowledge request).2
        ticks := if request.irq = 0 then σ.ticks + 1 else σ.ticks }).2

end Os
