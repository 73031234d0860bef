import Yabloko.Boot.Bootmain
import Yabloko.Boot.Kstart
import Yabloko.Boot.Load
import Yabloko.Cpu.Gates
import Yabloko.Cpu.Registers
import Yabloko.Cpu.Swtch
import Yabloko.Cpu.Vectors
import Yabloko.Disk.Directory
import Yabloko.Disk.Mkfs
import Yabloko.Disk.ReadFile
import Yabloko.Disk.RoundTrip
import Yabloko.Drivers.Ata
import Yabloko.Drivers.Critical
import Yabloko.Drivers.Drain
import Yabloko.Drivers.Graphics
import Yabloko.Drivers.Keyboard
import Yabloko.Drivers.KeyboardEvent
import Yabloko.Drivers.Pic
import Yabloko.Drivers.Port
import Yabloko.Drivers.Print
import Yabloko.Drivers.Scancodes
import Yabloko.Drivers.Screen
import Yabloko.Drivers.Speaker
import Yabloko.Drivers.Spinner
import Yabloko.Drivers.Uart
import Yabloko.Drivers.Vga
import Yabloko.Kernel.Alloc
import Yabloko.Kernel.Apart
import Yabloko.Kernel.Balance
import Yabloko.Kernel.Boot
import Yabloko.Kernel.Buffer
import Yabloko.Kernel.Conservation
import Yabloko.Kernel.Context
import Yabloko.Kernel.Enter
import Yabloko.Kernel.Free
import Yabloko.Kernel.Fs
import Yabloko.Kernel.Handlers
import Yabloko.Kernel.Headers
import Yabloko.Kernel.Image
import Yabloko.Kernel.LoadFile
import Yabloko.Kernel.Machine
import Yabloko.Kernel.Mem
import Yabloko.Kernel.Memmove
import Yabloko.Kernel.Mode13
import Yabloko.Kernel.Os
import Yabloko.Kernel.PageLists
import Yabloko.Kernel.Pages
import Yabloko.Kernel.Paging
import Yabloko.Kernel.Poll
import Yabloko.Kernel.Proc
import Yabloko.Kernel.Puts
import Yabloko.Kernel.Ranges
import Yabloko.Kernel.Reachable
import Yabloko.Kernel.RunElf
import Yabloko.Kernel.Segments
import Yabloko.Kernel.Shell
import Yabloko.Kernel.Sleep
import Yabloko.Kernel.Stos
import Yabloko.Kernel.System
import Yabloko.Kernel.Tables
import Yabloko.Kernel.Trap
import Yabloko.Kernel.Traps
import Yabloko.Kernel.UserMemory
import Yabloko.Kernel.UserPtr
import Yabloko.Kernel.Vm
import Yabloko.Lib.Arr
import Yabloko.Lib.Bytes
import Yabloko.Lib.Exec
import Yabloko.Lib.Linked
import Yabloko.Lib.Masking
import Yabloko.Lib.Overlay
import Yabloko.Lib.Prog
import Yabloko.Lib.Ring
import Yabloko.Lib.Trail
import Yabloko.Lib.Triple
import Yabloko.Lib.View
import Yabloko.Lib.Words
import Yabloko.Snake.Apples
import Yabloko.Snake.Board
import Yabloko.Snake.Center
import Yabloko.Snake.Frames
import Yabloko.Snake.FullBoard
import Yabloko.Snake.Gfx
import Yabloko.Snake.Growth
import Yabloko.Snake.Heading
import Yabloko.Snake.Input
import Yabloko.Snake.Log
import Yabloko.Snake.Loop
import Yabloko.Snake.Main
import Yabloko.Snake.Menu
import Yabloko.Snake.Model
import Yabloko.Snake.Move
import Yabloko.Snake.Picture
import Yabloko.Snake.Redraw
import Yabloko.Snake.Refinement.Basic
import Yabloko.Snake.Refinement.Init
import Yabloko.Snake.Refinement.Step
import Yabloko.Snake.Render
import Yabloko.Snake.Restart
import Yabloko.Snake.Runs
import Yabloko.Snake.Screen
import Yabloko.Snake.Speed
import Yabloko.Snake.Ticks
import Yabloko.Snake.Tiles
import Yabloko.Snake.Time
import Yabloko.Snake.Turns
