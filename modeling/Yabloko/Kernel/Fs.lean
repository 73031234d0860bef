import Yabloko.Kernel.Machine

-- The contents of the sectors of the disk.
abbrev Disk := Nat → Bytes

abbrev sectorSize : Nat := 512
abbrev entsInDir : Nat := 15
abbrev fsStart : Nat := 1

-- The characters from a pointer on.
abbrev CString := Nat → UInt8

def strncmp (s1 s2 : CString) : Nat → Int
  | 0        => 0
  | size + 1 =>
    if s1 0 ≠ 0 ∧ s2 0 ≠ 0 ∧ s1 0 = s2 0 then
      strncmp (fun i => s1 (i + 1)) (fun i => s2 (i + 1)) size
    else
      (s1 0).toNat - (s2 0).toNat

structure Dirent where
  offsetSectors : Nat
  sizeBytes     : Nat
  name          : CString

structure Stat where
  size        : Nat
  startSector : Nat

-- The entry of the directory in the given sector.
def dirent (dir : Bytes) (i : Nat) : Dirent where
  offsetSectors := dir.load32 (32 + 32 * i)
  sizeBytes := dir.load32 (32 + 32 * i + 4)
  name j := dir (32 + 32 * i + 12 + j)

namespace Disk

-- The drive gets 28 bits of the address.
def sector (disk : Disk) (lba : Nat) : Bytes :=
  disk (lba % 2 ^ 28)

def stat (disk : Disk) (name : CString) : Option Stat :=
  let dir := disk.sector fsStart
  (List.range entsInDir).findSome? fun i =>
    let e := dirent dir i
    if strncmp e.name name 20 = 0 then
      some { size := e.sizeBytes, startSector := e.offsetSectors }
    else
      none

end Disk

namespace Kernel

-- All callers read a single sector.
def readSectorsAtaPio (disk : Disk) (target lba : Nat) : Kernel Unit :=
  forM (List.range 256) fun i =>
    store16 ((target + 2 * i) % 2 ^ 32) ((disk.sector lba).load16 (2 * i))

def readFile (disk : Disk) (statbuf : Stat) (buf bufsize : Nat) : Kernel Int := do
  let sector := (fsStart + statbuf.startSector) % 2 ^ 32
  let fileSectors := (statbuf.size + sectorSize - 1) % 2 ^ 32 / sectorSize
  let bytesRead ← go fileSectors sector buf bufsize 0
  return toInt32 (if bytesRead < statbuf.size then bytesRead else statbuf.size)
where
  go : Nat → Nat → Nat → Nat → Nat → Kernel Nat
    | 0, _, _, _, bytesRead => return bytesRead
    | fileSectors + 1, sector, buf, bufsize, bytesRead => do
      if bufsize ≥ sectorSize then
        readSectorsAtaPio disk buf sector
        go fileSectors ((sector + 1) % 2 ^ 32) ((buf + sectorSize) % 2 ^ 32) (bufsize - sectorSize)
          ((bytesRead + sectorSize) % 2 ^ 32)
      else
        return bytesRead

end Kernel
