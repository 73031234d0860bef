import Yabloko.Drivers.Port
import Yabloko.Boot.Bootmain

abbrev statusBsy : UInt8 := 0x80
abbrev statusRdy : UInt8 := 0x40
abbrev statusDrq : UInt8 := 0x08

-- The loops wait for the drive. They are bounded by a number of rounds, which is `none` if it is exceeded.
def ataWaitBSY (rounds : Nat) : Driver Bool :=
  Prog.poll (.byteIn 0x1f7) (fun status => UInt8.ofNat status &&& statusBsy = 0) rounds

def ataWaitRDY (rounds : Nat) : Driver Bool :=
  Prog.poll (.byteIn 0x1f7) (fun status => UInt8.ofNat status &&& statusRdy ≠ 0) rounds

-- The words of a sector which are read one after the other.
def readWords : Nat → Driver (List Nat)
  | 0     => return []
  | n + 1 => do
    let word ← Prog.perform (.wordIn 0x1f0)
    let words ← readWords n
    return word :: words

def readSectors (rounds : Nat) : Nat → Driver (Option (List Nat))
  | 0     => return some []
  | n + 1 => do
    if ← ataWaitBSY rounds then
      if ← ataWaitRDY rounds then
        let sector ← readWords 256
        let sectors ← readSectors rounds n
        return sectors.map (sector ++ ·)
      else
        return none
    else
      return none

-- The words which are stored to the target.
def readSectorsAtaPio (rounds lba : Nat) (sectorCount : UInt8) : Driver (Option (List Nat)) := do
  if ← ataWaitBSY rounds then
    portByteOut 0x1f6 (.ofNat (0xe0 ||| (lba >>> 24 &&& 0xf)))
    portByteOut 0x1f2 sectorCount
    portByteOut 0x1f3 (.ofNat lba)
    portByteOut 0x1f4 (.ofNat (lba >>> 8))
    portByteOut 0x1f5 (.ofNat (lba >>> 16))
    portByteOut 0x1f7 0x20
    readSectors rounds sectorCount.toNat
  else
    return none

inductive AtaPhase
  -- The drive will be busy for a number of accesses to the status. Then a sector is ready, if one is left.
  | busy (polls lba left : Nat)
  | idle
  -- A word of the sector is read next.
  | data (word lba left : Nat)
  -- An access which the drive does not expect.
  | failed

-- A drive with the sectors of a disk. The times for which it is busy are arbitrary.
structure Ata where
  disk    : Disk
  -- The other bits of the status while the drive is busy.
  noise   : UInt8
  delays  : Nat → Nat
  periods : Nat
  count   : UInt8
  lbaLow  : UInt8
  lbaMid  : UInt8
  lbaHigh : UInt8
  drive   : UInt8
  phase   : AtaPhase

namespace Ata

-- The next time for which the drive is busy.
def wait (ata : Ata) (lba left : Nat) : Ata :=
  { ata with periods := ata.periods + 1, phase := .busy (ata.delays ata.periods) lba left }

def status (ata : Ata) : UInt8 × Ata :=
  match ata.phase with
  | .busy (polls + 1) lba left => (statusBsy ||| ata.noise, { ata with phase := .busy polls lba left })
  | .busy 0 _ 0                => (0x50, { ata with phase := .idle })
  | .busy 0 lba (left + 1)     => (0x58, { ata with phase := .data 0 lba (left + 1) })
  | .idle                      => (0x50, ata)
  | .data ..                   => (0x58, ata)
  | .failed                    => (0x51, ata)

def lba (ata : Ata) : Nat :=
  ata.lbaLow.toNat + 2 ^ 8 * ata.lbaMid.toNat + 2 ^ 16 * ata.lbaHigh.toNat + 2 ^ 24 * (ata.drive.toNat % 16)

-- The registers are written while the drive is idle, and the first drive is selected.
def byteOut (ata : Ata) (port : Nat) (data : UInt8) : Ata :=
  match ata.phase, port with
  | .idle, 0x1f2 => { ata with count := data }
  | .idle, 0x1f3 => { ata with lbaLow := data }
  | .idle, 0x1f4 => { ata with lbaMid := data }
  | .idle, 0x1f5 => { ata with lbaHigh := data }
  | .idle, 0x1f6 => { ata with drive := data }
  | .idle, 0x1f7 =>
    if data = 0x20 ∧ ata.drive.toNat / 16 = 0xe then
      ata.wait ata.lba (if ata.count = 0 then 256 else ata.count.toNat)
    else
      { ata with phase := .failed }
  | _, _         => { ata with phase := .failed }

def word (ata : Ata) : Nat × Ata :=
  match ata.phase with
  | .data word lba left =>
    let value := (ata.disk.sector lba).load16 (2 * word)
    if word + 1 < 256 then
      (value, { ata with phase := .data (word + 1) lba left })
    else
      (value, ata.wait (lba + 1) (left - 1))
  | _                   => (0xffff, { ata with phase := .failed })

def device : Device PortOp Nat Ata
  | .byteIn 0x1f7, ata      => (ata.status.1.toNat, ata.status.2)
  | .byteOut port data, ata => (0, ata.byteOut port data)
  | .wordIn 0x1f0, ata      => ata.word
  | .longIn 0x1f0, ata      => (ata.word.1 + 2 ^ 16 * ata.word.2.word.1, ata.word.2.word.2)
  | _, ata                  => (0, ata)

end Ata

-- The words of the sectors from `lba` on.
def Disk.sectorWords (disk : Disk) (lba : Nat) : List Nat :=
  (List.range 256).map fun i => (disk.sector lba).load16 (2 * i)

def Disk.words (disk : Disk) (lba n : Nat) : List Nat :=
  (List.range n).flatMap fun j => disk.sectorWords (lba + j)

namespace Ata

-- A drive which is busy for the same time whenever it has something to do.
def ofDisk (disk : Disk) (delay : Nat) : Ata where
  disk    := disk
  noise   := 0
  delays  := fun _ => delay
  periods := 0
  count   := 0
  lbaLow  := 0
  lbaMid  := 0
  lbaHigh := 0
  drive   := 0
  phase   := .idle

variable {ata : Ata} {rounds polls lba left n word : Nat} {test : Nat → Bool}

-- Each of the times for which the drive is busy ends.
structure Resting (rounds : Nat) (ata : Ata) : Prop where
  delays : ∀ n, ata.delays n < rounds
  phase  : ata.phase = .idle ∨ ∃ polls lba, polls < rounds ∧ ata.phase = .busy polls lba 0

-- The phase in which the drive is after it was busy.
def readyPhase (lba left : Nat) : AtaPhase :=
  if left = 0 then .idle else .data 0 lba left

-- A test which fails as long as the drive is busy.
structure Awaits (test : Nat → Bool) : Prop where
  busy  : ∀ noise : UInt8, test (statusBsy ||| noise).toNat = false
  ready : test 0x50 = true
  drq   : test 0x58 = true

theorem poll_idle (ht : test 0x50 = true) (hr : 0 < rounds) (hp : ata.phase = .idle) :
    (Prog.poll (.byteIn 0x1f7) test rounds).run device ata = (true, ata) := by
  obtain ⟨rounds, rfl⟩ := Nat.exists_eq_succ_of_ne_zero hr.ne'
  have hs : device (.byteIn 0x1f7) ata = (0x50, ata) := by simp [device, status, hp]
  rw [Prog.poll, Prog.run, hs, if_pos ht]
  rfl

theorem poll_data (ht : test 0x58 = true) (hr : 0 < rounds) (hp : ata.phase = .data word lba left) :
    (Prog.poll (.byteIn 0x1f7) test rounds).run device ata = (true, ata) := by
  obtain ⟨rounds, rfl⟩ := Nat.exists_eq_succ_of_ne_zero hr.ne'
  have hs : device (.byteIn 0x1f7) ata = (0x58, ata) := by simp [device, status, hp]
  rw [Prog.poll, Prog.run, hs, if_pos ht]
  rfl

theorem poll_busy (ht : Awaits test) (hp : ata.phase = .busy polls lba left) (hr : polls < rounds) :
    (Prog.poll (.byteIn 0x1f7) test rounds).run device ata = (true, { ata with phase := readyPhase lba left }) := by
  induction polls generalizing ata rounds
  case zero =>
    obtain ⟨rounds, rfl⟩ := Nat.exists_eq_succ_of_ne_zero hr.ne'
    cases left
    case zero =>
      have hs : device (.byteIn 0x1f7) ata = (0x50, { ata with phase := .idle }) := by simp [device, status, hp]
      rw [Prog.poll, Prog.run, hs, if_pos ht.ready]
      rfl
    case succ left =>
      have hs : device (.byteIn 0x1f7) ata = (0x58, { ata with phase := .data 0 lba (left + 1) }) := by
        simp [device, status, hp]
      rw [Prog.poll, Prog.run, hs, if_pos ht.drq]
      rfl
  case succ polls hi =>
    cases rounds
    case zero        => omega
    case succ rounds =>
      have hs : device (.byteIn 0x1f7) ata = ((statusBsy ||| ata.noise).toNat, { ata with phase := .busy polls lba left }) := by
        simp [device, status, hp]
      rw [Prog.poll, Prog.run, hs, if_neg (by rw [ht.busy]; decide)]
      exact hi rfl (by omega)

theorem busy_testBit (noise : UInt8) : (statusBsy ||| noise).toNat.testBit 7 = true := by
  rw [UInt8.toNat_or, Nat.testBit_or]
  rfl

theorem awaits_BSY : Awaits fun status => UInt8.ofNat status &&& statusBsy = 0 where
  busy noise := by
    refine decide_eq_false fun h => ?_
    rw [UInt8.ofNat_toNat, ← UInt8.toNat_inj, UInt8.toNat_and] at h
    have hb := congrArg (Nat.testBit · 7) h
    rw [Nat.testBit_and, busy_testBit] at hb
    exact absurd hb (by decide)
  ready := by decide
  drq := by decide

theorem Resting.pos (h : ata.Resting rounds) : 0 < rounds :=
  Nat.zero_lt_of_lt <| h.delays 0

-- A drive without a sector which is left becomes idle.
theorem Resting.poll (ht : Awaits test) (h : ata.Resting rounds) :
    (Prog.poll (.byteIn 0x1f7) test rounds).run device ata = (true, { ata with phase := .idle }) := by
  rcases h.phase with hp | ⟨polls, lba, hl, hp⟩
  · rw [poll_idle ht.ready h.pos hp, ← hp]
  · exact poll_busy ht hp hl

-- The last word ends the sector.
theorem run_readWords (hp : ata.phase = .data word lba left) (hn : word + n = 256) (h₀ : 0 < n) :
    (readWords n).run device ata =
      ((List.range' word n).map fun i => (ata.disk.sector lba).load16 (2 * i), ata.wait (lba + 1) (left - 1)) := by
  induction n generalizing ata word
  case zero      => omega
  case succ n hi =>
    rw [readWords, Prog.run_bind, Prog.run_perform]
    by_cases hw : word + 1 < 256
    case pos =>
      have hd : device (.wordIn 0x1f0) ata =
          ((ata.disk.sector lba).load16 (2 * word), { ata with phase := .data (word + 1) lba left }) := by
        simp only [device, Ata.word, hp, if_pos hw]
      rw [hd, Prog.run_bind, hi rfl (by omega) (by omega)]
      rfl
    case neg =>
      have hd : device (.wordIn 0x1f0) ata = ((ata.disk.sector lba).load16 (2 * word), ata.wait (lba + 1) (left - 1)) := by
        simp only [device, Ata.word, hp, if_neg hw]
      obtain rfl : n = 0 := by omega
      rw [hd]
      rfl

-- The sectors which are left.
theorem run_readSectors (hd : ∀ n, ata.delays n < rounds) (hp : ata.phase = .busy polls lba n) (hl : polls < rounds) :
    ∃ ata', (readSectors rounds n).run device ata = (some (ata.disk.words lba n), ata') ∧
      ata'.Resting rounds ∧ ata'.disk = ata.disk := by
  induction n generalizing ata polls lba
  case zero      => exact ⟨ata, rfl, ⟨hd, .inr ⟨polls, lba, hl, hp⟩⟩, rfl⟩
  case succ n hi =>
    have hb : (ataWaitBSY rounds).run device ata = (true, { ata with phase := .data 0 lba (n + 1) }) :=
      poll_busy awaits_BSY hp hl
    have hr : (ataWaitRDY rounds).run device { ata with phase := .data 0 lba (n + 1) } = (true, _) :=
      poll_data (by decide) (Nat.zero_lt_of_lt hl) rfl
    have hw := run_readWords (n := 256) (show AtaPhase.data 0 lba (n + 1) = _ from rfl : { ata with phase := .data 0 lba (n + 1) }.phase = _) rfl (by decide)
    have ⟨ata', hs, hr', hd'⟩ := hi
      (hd : ∀ k, ({ ata with phase := .data 0 lba (n + 1) }.wait (lba + 1) n).delays k < rounds) rfl (hd _)
    refine ⟨ata', ?_, hr', hd'⟩
    rw [readSectors, Prog.run_bind, hb]
    dsimp only
    rw [if_pos rfl, Prog.run_bind, hr]
    dsimp only
    rw [if_pos rfl, Prog.run_bind, hw, Prog.run_bind]
    dsimp only
    rw [Nat.add_sub_cancel, hs]
    refine Prod.ext (congrArg some ?_) rfl
    rw [Disk.words, Disk.words, List.range_succ_eq_map, List.flatMap_cons, List.flatMap_map, ← List.range_eq_range']
    simp only [Nat.add_zero, Nat.succ_eq_add_one, Nat.add_assoc, Nat.add_comm 1]
    rfl

-- The registers give the lower 28 bits of the number of the sector.
theorem lba_eq (ata : Ata) {lba : Nat} (h₁ : ata.lbaLow = .ofNat lba) (h₂ : ata.lbaMid = .ofNat (lba >>> 8))
    (h₃ : ata.lbaHigh = .ofNat (lba >>> 16)) (h₄ : ata.drive.toNat % 16 = lba / 2 ^ 24 % 16) : ata.lba = lba % 2 ^ 28 := by
  rw [Ata.lba, h₁, h₂, h₃, h₄]
  simp only [UInt8.toNat_ofNat', Nat.shiftRight_eq_div_pow]
  omega

theorem drive_eq (lba : Nat) : (UInt8.ofNat (0xe0 ||| (lba >>> 24 &&& 0xf))).toNat = 0xe0 + lba / 2 ^ 24 % 16 := by
  have ha : lba >>> 24 &&& 0xf = lba / 2 ^ 24 % 16 := by
    rw [Nat.shiftRight_eq_div_pow]
    exact Nat.and_two_pow_sub_one_eq_mod _ 4
  have ho := Nat.two_pow_add_eq_or_of_lt (show lba / 2 ^ 24 % 16 < 2 ^ 4 by omega) 14
  rw [UInt8.toNat_ofNat', ha, show 0xe0 = 2 ^ 4 * 14 from rfl, ← ho]
  omega

theorem sector_mod (disk : Disk) (lba j : Nat) : disk.sector (lba % 2 ^ 28 + j) = disk.sector (lba + j) := by
  rw [Disk.sector, Disk.sector, Nat.mod_add_mod]

theorem words_mod (disk : Disk) (lba n : Nat) : disk.words (lba % 2 ^ 28) n = disk.words lba n := by
  simp only [Disk.words, Disk.sectorWords, sector_mod]

-- A read delivers the sectors, and the drive rests afterwards.
theorem run_readSectorsAtaPio (h : ata.Resting rounds) (lba : Nat) {sectorCount : UInt8} (hc : sectorCount ≠ 0) :
    ∃ ata', (readSectorsAtaPio rounds lba sectorCount).run device ata = (some (ata.disk.words lba sectorCount.toNat), ata') ∧
      ata'.Resting rounds ∧ ata'.disk = ata.disk := by
  have hb : (ataWaitBSY rounds).run device ata = (true, { ata with phase := .idle }) := h.poll awaits_BSY
  have hd := drive_eq lba
  rw [readSectorsAtaPio, Prog.run_bind, hb]
  dsimp only
  rw [if_pos rfl]
  simp only [Prog.run_bind, Prog.run_portByteOut, device, byteOut]
  have hl := lba_eq { ata with
    phase := .idle, drive := .ofNat (0xe0 ||| (lba >>> 24 &&& 0xf)), count := sectorCount, lbaLow := .ofNat lba
    lbaMid := .ofNat (lba >>> 8), lbaHigh := .ofNat (lba >>> 16) } rfl rfl rfl (by dsimp only; omega)
  rw [if_pos ⟨trivial, by rw [hd]; omega⟩, if_neg hc, hl, ← words_mod]
  exact run_readSectors h.delays rfl (h.delays _)

-- All requests for sectors, one after the other.
theorem run_requests {requests : List (Nat × UInt8)} (hc : ∀ r ∈ requests, r.2 ≠ 0) (h : ata.Resting rounds) : ∃ ata',
    (requests.mapM fun r => readSectorsAtaPio rounds r.1 r.2).run device ata =
      (requests.map fun r => some (ata.disk.words r.1 r.2.toNat), ata') ∧ ata'.Resting rounds ∧ ata'.disk = ata.disk := by
  induction requests generalizing ata
  case nil            => exact ⟨ata, rfl, h, rfl⟩
  case cons r rs hi =>
    have ⟨ata₁, h₁, hr₁, hd₁⟩ := run_readSectorsAtaPio h r.1 (hc r <| .head _)
    have ⟨ata₂, h₂, hr₂, hd₂⟩ := hi (fun r hr => hc r <| .tail _ hr) hr₁
    refine ⟨ata₂, ?_, hr₂, hd₂.trans hd₁⟩
    rw [List.mapM_cons, Prog.run_bind, h₁, Prog.run_bind, h₂, hd₁]
    rfl

theorem run_requests_two : ∃ ata', ([(1, 1), (5, 2)].mapM fun r => readSectorsAtaPio 4 r.1 r.2).run device
    (ofDisk (fun _ _ => 7) 3) = ([some (Disk.words (fun _ _ => 7) 1 1), some (Disk.words (fun _ _ => 7) 5 2)], ata') ∧
      ata'.Resting 4 ∧ ata'.disk = fun _ _ => 7 :=
  run_requests (by decide) (⟨fun _ => (by decide : 3 < 4), .inl rfl⟩ : (ofDisk (fun _ _ => 7) 3).Resting 4)

end Ata

-- The words are stored from the target on.
def Kernel.storeWords (target : Nat) (words : List Nat) : Kernel Unit :=
  forM words.zipIdx fun p => store16 ((target + 2 * p.2) % 2 ^ 32) p.1

theorem zipIdx_map_range {α : Type} (f : Nat → α) (n : Nat) :
    ((List.range n).map f).zipIdx = (List.range n).map fun i => (f i, i) := by
  apply List.ext_getElem
  · simp
  · intro i _ _
    simp

theorem Kernel.storeWords_sector (disk : Disk) (target lba : Nat) :
    storeWords target (disk.words lba 1) = readSectorsAtaPio disk target lba := by
  rw [Disk.words, List.range_one, List.flatMap_singleton, storeWords, readSectorsAtaPio, Disk.sectorWords,
    zipIdx_map_range, List.forM_map]
  rfl

namespace Bootmain

def waitdisk (rounds : Nat) : Driver Bool :=
  Prog.poll (.byteIn 0x1f7) (fun status => UInt8.ofNat status &&& 0xc0 = 0x40) rounds

def insl : Nat → Driver (List Nat)
  | 0     => return []
  | n + 1 => do
    let long ← Prog.perform (.longIn 0x1f0)
    let longs ← insl n
    return long :: longs

def readsectLongs (rounds offset : Nat) : Driver (Option (List Nat)) := do
  if ← waitdisk rounds then
    portByteOut 0x1f2 1
    portByteOut 0x1f3 (.ofNat offset)
    portByteOut 0x1f4 (.ofNat (offset >>> 8))
    portByteOut 0x1f5 (.ofNat (offset >>> 16))
    portByteOut 0x1f6 (.ofNat (offset >>> 24 ||| 0xe0))
    portByteOut 0x1f7 0x20
    if ← waitdisk rounds then
      let longs ← insl (sectsize / 4)
      return some longs
    else
      return none
  else
    return none

-- The longs which `insl` stores.
def storeLongs (m : Bytes) (dst : Nat) (longs : List Nat) : Bytes :=
  longs.zipIdx.foldl (fun m p => m.store32 (dst + 4 * p.2) p.1) m

def sectorLongs (disk : Disk) (offset : Nat) : List Nat :=
  (List.range (sectsize / 4)).map fun i => (disk.sector offset).load32 (4 * i)

open Ata

variable {ata : Ata} {rounds lba left word n : Nat}

theorem awaits_waitdisk : Awaits fun status => UInt8.ofNat status &&& 0xc0 = 0x40 where
  busy noise := by
    refine decide_eq_false fun h => ?_
    rw [UInt8.ofNat_toNat, ← UInt8.toNat_inj, UInt8.toNat_and] at h
    have hb := congrArg (Nat.testBit · 7) h
    rw [Nat.testBit_and, busy_testBit] at hb
    exact absurd hb (by decide)
  ready := by decide
  drq := by decide

theorem run_insl (hp : ata.phase = .data (2 * word) lba left) (hn : word + n = 128) (h₀ : 0 < n) :
    (insl n).run device ata =
      ((List.range' word n).map fun i => (ata.disk.sector lba).load32 (4 * i), ata.wait (lba + 1) (left - 1)) := by
  induction n generalizing ata word
  case zero      => omega
  case succ n hi =>
    have h₁ : ata.word = ((ata.disk.sector lba).load16 (2 * (2 * word)),
        { ata with phase := .data (2 * word + 1) lba left }) := by
      simp only [Ata.word, hp, if_pos (show 2 * word + 1 < 256 by omega)]
    have hl : (ata.disk.sector lba).load16 (2 * (2 * word)) + 2 ^ 16 * (ata.disk.sector lba).load16 (2 * (2 * word + 1)) =
        (ata.disk.sector lba).load32 (4 * word) := by
      rw [Bytes.load32, show 2 * (2 * word) = 4 * word by omega, show 2 * (2 * word + 1) = 4 * word + 2 by omega]
    rw [insl, Prog.run_bind, Prog.run_perform]
    by_cases hw : 2 * word + 1 + 1 < 256
    case pos =>
      have hd : device (.longIn 0x1f0) ata =
          ((ata.disk.sector lba).load32 (4 * word), { ata with phase := .data (2 * (word + 1)) lba left }) := by
        simp only [device, h₁, ← hl]
        simp only [Ata.word, if_pos hw]
        rfl
      rw [hd, Prog.run_bind, hi rfl (by omega) (by omega)]
      rfl
    case neg =>
      have hd : device (.longIn 0x1f0) ata = ((ata.disk.sector lba).load32 (4 * word), ata.wait (lba + 1) (left - 1)) := by
        simp only [device, h₁, ← hl]
        simp only [Ata.word, if_neg hw]
        rfl
      obtain rfl : n = 0 := by omega
      rw [hd]
      rfl

theorem drive_eq {offset : Nat} (h : offset < 2 ^ 28) :
    (UInt8.ofNat (offset >>> 24 ||| 0xe0)).toNat = 0xe0 + offset / 2 ^ 24 % 16 := by
  have ho := Nat.two_pow_add_eq_or_of_lt (show offset / 2 ^ 24 < 2 ^ 4 by omega) 14
  rw [UInt8.toNat_ofNat', Nat.shiftRight_eq_div_pow, Nat.or_comm, show 0xe0 = 2 ^ 4 * 14 from rfl, ← ho]
  omega

theorem run_readsectLongs (h : ata.Resting rounds) {offset : Nat} (ho : offset < 2 ^ 28) :
    ∃ ata', (readsectLongs rounds offset).run device ata = (some (sectorLongs ata.disk offset), ata') ∧
      ata'.Resting rounds ∧ ata'.disk = ata.disk := by
  have hb : (waitdisk rounds).run device ata = (true, { ata with phase := .idle }) := h.poll awaits_waitdisk
  have hd := drive_eq ho
  have hl := Ata.lba_eq { ata with
    phase := .idle, drive := .ofNat (offset >>> 24 ||| 0xe0), count := 1, lbaLow := .ofNat offset
    lbaMid := .ofNat (offset >>> 8), lbaHigh := .ofNat (offset >>> 16) } rfl rfl rfl (by dsimp only; omega)
  rw [readsectLongs, Prog.run_bind, hb]
  dsimp only
  rw [if_pos rfl]
  simp only [Prog.run_bind, Prog.run_portByteOut, device, byteOut]
  have hc : True ∧ (UInt8.ofNat (offset >>> 24 ||| 0xe0)).toNat / 16 = 0xe := ⟨trivial, by rw [hd]; omega⟩
  simp only [if_pos hc, if_neg (by decide : ¬(1 : UInt8) = 0), hl, Nat.mod_eq_of_lt ho, (by decide : (1 : UInt8).toNat = 1)]
  generalize hx : Ata.mk ata.disk _ _ _ _ _ _ _ _ _ = ata₁
  have hw : ata₁.delays = ata.delays ∧ ata₁.disk = ata.disk := by
    subst hx
    exact ⟨rfl, rfl⟩
  have hb₁ := poll_busy awaits_waitdisk
    (show (ata₁.wait offset 1).phase = .busy (ata₁.delays ata₁.periods) offset 1 from rfl) (hw.left ▸ h.delays _)
  have hi := run_insl (n := sectsize / 4) (show AtaPhase.data 0 offset 1 = .data (2 * 0) offset 1 from rfl :
    { ata₁.wait offset 1 with phase := readyPhase offset 1 }.phase = _) rfl (by decide)
  rw [waitdisk, hb₁]
  dsimp only at hi ⊢
  rw [if_pos rfl, Prog.run_bind, hi, ← List.range_eq_range']
  refine ⟨{ ata₁.wait offset 1 with phase := readyPhase offset 1 }.wait (offset + 1) 0, by rw [← hw.right]; rfl,
    ⟨fun n => ?_, .inr ⟨_, _, ?_, rfl⟩⟩, hw.right⟩
  · exact hw.left ▸ h.delays n
  · exact hw.left ▸ h.delays _

theorem load32_byte (f : Bytes) (b : Nat) {j : Nat} (hj : j < 4) : UInt8.ofNat (f.load32 b / 2 ^ (8 * j)) = f (b + j) := by
  have h i := (f i).toNat_lt
  have h₀ := h b
  have h₁ := h (b + 1)
  have h₂ := h (b + 2)
  have h₃ := h (b + 2 + 1)
  rw [← UInt8.toNat_inj, UInt8.toNat_ofNat', Bytes.load32, Bytes.load16, Bytes.load16]
  interval_cases j
  all_goals
    simp only [Nat.reduceMul, Nat.reducePow, Nat.add_zero, Nat.add_assoc, Nat.reduceAdd] at h₁ h₂ h₃ ⊢
    omega

theorem store32_apply (m f : Bytes) (a b i : Nat) : m.store32 a (f.load32 b) i =
    if a ≤ i ∧ i < a + 4 then f (b + (i - a)) else m i := by
  have h₀ : UInt8.ofNat (f.load32 b) = f b := by simpa using load32_byte f b (j := 0) (by decide)
  have h₁ := load32_byte f b (j := 1) (by decide)
  have h₂ := load32_byte f b (j := 2) (by decide)
  have h₃ := load32_byte f b (j := 3) (by decide)
  simp only [Nat.mul_one, Nat.reduceMul] at h₁ h₂ h₃
  simp only [Bytes.store32, Bytes.store, h₀, h₁, h₂, h₃]
  by_cases hi : a ≤ i ∧ i < a + 4
  case neg => rw [if_neg (by omega), if_neg (by omega), if_neg (by omega), if_neg (by omega), if_neg hi]
  case pos =>
    obtain ⟨k, rfl⟩ := Nat.exists_eq_add_of_le hi.left
    have hk : k < 4 := by omega
    rw [if_pos hi, Nat.add_sub_cancel_left]
    interval_cases k <;> simp

theorem storeLongs_sector {m : Bytes} {dst a : Nat} (disk : Disk) (offset : Nat) (hd : dst + sectsize ≤ 2 ^ 32)
    (ha : a < 2 ^ 32) : storeLongs m dst (sectorLongs disk offset) a = readsect disk m dst offset a := by
  have hs (n a : Nat) : (List.range n).foldl
      (fun m i => m.store32 (dst + 4 * i) ((disk.sector offset).load32 (4 * i))) m a =
        if dst ≤ a ∧ a < dst + 4 * n then disk.sector offset (a - dst) else m a := by
    induction n
    case zero      => rw [if_neg (by omega)]; rfl
    case succ n hi =>
      rw [List.range_succ, List.foldl_append, List.foldl_cons, List.foldl_nil, store32_apply, hi]
      by_cases hl : a < dst + 4 * n
      case pos =>
        rw [if_neg (by omega)]
        congr 1
        simp only [eq_iff_iff]
        omega
      case neg =>
        by_cases hu : a < dst + 4 * n + 4
        case pos =>
          rw [if_pos (by omega), if_pos (by omega)]
          congr 1
          omega
        case neg => rw [if_neg (by omega), if_neg (by omega), if_neg (by omega)]
  rw [storeLongs, sectorLongs, zipIdx_map_range, List.foldl_map, hs, readsect, copy_eq hd ha]
  rfl

-- The loop of `readseg` at the level of the ports.
def readsegPorts (rounds : Nat) (m : Bytes) (pa count offset : Nat) : Driver (Option Bytes) :=
  let epa := (pa + count) % 2 ^ 32
  let pa := (pa + 2 ^ 32 - offset % sectsize) % 2 ^ 32
  let offset := offset / sectsize + 2
  go epa (2 ^ 23 + 1) m pa offset
where
  go (epa : Nat) : Nat → Bytes → Nat → Nat → Driver (Option Bytes)
    | 0, _, _, _ => return none
    | fuel + 1, m, pa, offset =>
      if pa < epa then do
        match ← readsectLongs rounds offset with
        | some longs => go epa fuel (storeLongs m pa longs) ((pa + sectsize) % 2 ^ 32) ((offset + 1) % 2 ^ 32)
        | none       => return none
      else
        return some m

-- The memories agree on the addresses which exist.
def SameMemory (m m' : Bytes) : Prop :=
  ∀ a < 2 ^ 32, m' a = m a

theorem readsect_congr {m m' : Bytes} {dst offset : Nat} (disk : Disk) (h : SameMemory m m') :
    SameMemory (readsect disk m dst offset) (readsect disk m' dst offset) := by
  intro a ha
  simp only [readsect, copy, h a ha]

theorem run_readsegPorts_go {epa fuel pa offset : Nat} {m m' : Bytes} (h : ata.Resting rounds) (hm : SameMemory m m')
    (hp : pa % sectsize = 0) (hpa : pa < 2 ^ 32) (ho : offset + fuel < 2 ^ 28) : ∃ r ata',
      (readsegPorts.go rounds epa fuel m' pa offset).run device ata = (r, ata') ∧ ata'.Resting rounds ∧
      ata'.disk = ata.disk ∧ Option.Rel SameMemory (readseg.go ata.disk epa fuel m pa offset) r := by
  induction fuel generalizing ata m m' pa offset
  case zero         => exact ⟨none, ata, rfl, h, rfl, .none⟩
  case succ fuel hi =>
    rw [readsegPorts.go, readseg.go]
    split
    case isFalse => exact ⟨some m', ata, rfl, h, rfl, .some hm⟩
    case isTrue hl =>
      obtain ⟨ata₁, h₁, hr₁, hd₁⟩ := run_readsectLongs h (show offset < 2 ^ 28 by omega)
      have hs : SameMemory (readsect ata.disk m pa offset) (storeLongs m' pa (sectorLongs ata.disk offset)) := by
        intro a ha
        rw [storeLongs_sector _ _ (by simp only [sectsize] at hp ⊢; omega) ha]
        exact readsect_congr _ hm a ha
      have he : (offset + 1) % 2 ^ 32 = offset + 1 := by omega
      have hp' : (pa + sectsize) % 2 ^ 32 % sectsize = 0 := by
        simp only [sectsize] at hp ⊢
        omega
      obtain ⟨r, ata', hr, hrest, hdisk, hrel⟩ := hi hr₁ hs hp' (Nat.mod_lt _ (by decide))
        (by omega : offset + 1 + fuel < 2 ^ 28)
      refine ⟨r, ata', ?_, hrest, hdisk.trans hd₁, ?_⟩
      · rw [Prog.run_bind, h₁, he]
        exact hr
      · rw [hd₁] at hrel
        rw [he]
        exact hrel

-- The drive is read as `readseg` expects it, as long as each of the times for which it is busy ends.
theorem run_readsegPorts {pa count offset : Nat} (h : ata.Resting rounds) (m : Bytes)
    (hp : pa % sectsize = offset % sectsize) (ho : offset < 2 ^ 32) : ∃ r ata',
      (readsegPorts rounds m pa count offset).run device ata = (r, ata') ∧ ata'.Resting rounds ∧
      ata'.disk = ata.disk ∧ Option.Rel SameMemory (readseg ata.disk m pa count offset) r := by
  refine run_readsegPorts_go h (fun _ _ => rfl) ?_ (Nat.mod_lt _ (by decide)) ?_
  all_goals
    simp only [sectsize] at hp ⊢
    omega

theorem run_readsegPorts_page : ∃ r ata',
    (readsegPorts 4 (fun _ => 0) elf 4096 0).run device (ofDisk (fun _ _ => 7) 3) = (r, ata') ∧ ata'.Resting 4 ∧
      ata'.disk = (fun _ _ => 7) ∧ Option.Rel SameMemory (readseg (fun _ _ => 7) (fun _ => 0) elf 4096 0) r :=
  run_readsegPorts (⟨fun _ => (by decide : 3 < 4), .inl rfl⟩ : (ofDisk (fun _ _ => 7) 3).Resting 4) _ rfl (by decide)

end Bootmain
