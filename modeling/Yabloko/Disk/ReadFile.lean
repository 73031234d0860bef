import Yabloko.Kernel.Buffer
import Yabloko.Kernel.Fs

-- The number of sectors of a file.
def sectors (size : Nat) : Nat :=
  (size + sectorSize - 1) / sectorSize

-- The bytes from the beginning of a sector on.
def Disk.from (disk : Disk) (lba : Nat) : Nat → UInt8 :=
  fun i => disk.sector (lba + i / sectorSize) (i % sectorSize)

-- The number of sectors which `read_file` computes from the size, and how many of them it reads.
def Stat.fileSectors (statbuf : Stat) : Nat :=
  (statbuf.size + sectorSize - 1) % 2 ^ 32 / sectorSize

def Stat.sectorsRead (statbuf : Stat) (bufsize : Nat) : Nat :=
  min statbuf.fileSectors (bufsize / sectorSize)

variable {disk : Disk} {s s' : Machine} {f g : Nat → UInt8} {ptr n k q lba bufsize : Nat}
  {statbuf : Stat}

theorem toInt32_of_lt (h : n < 2 ^ 31) : toInt32 n = n :=
  if_pos h

theorem toInt32_neg (h : ¬n < 2 ^ 31) (hn : n < 2 ^ 32) : toInt32 n < 0 := by
  rw [toInt32, if_neg h]
  omega

namespace Machine.Writes

theorem congr (hw : s.Writes ptr n f s') (h : ∀ i < n, f i = g i) : s.Writes ptr n g s' where
  memory := hw.memory
  bytes i hi := h i hi ▸ hw.bytes i hi
  others := hw.others

theorem readSectorsAtaPio (hw : s.Writes ptr k g s') (disk : Disk) (lba : Nat) (hb : s.Buffer ptr n) (hk : k + sectorSize ≤ n)
    (hg : ∀ i < sectorSize, g (k + i) = disk.sector lba i) : ∃ s'',
    (Kernel.readSectorsAtaPio disk (ptr + k) lba).run s' = .ok () s'' ∧
    s.Writes ptr (k + sectorSize) g s'' := by
  simp only [sectorSize] at hk hg ⊢
  apply EStateM.forM_range (P := fun i s' => s.Writes ptr (k + 2 * i) g s') hw
  intro i s₁ hi hw₁
  have hu := hb.upper (k + 2 * i) (by omega)
  obtain ⟨s₂, hr, hw₂⟩ := hw₁.store16 (v := (disk.sector lba).load16 (2 * i)) hb (by omega) fun j hj => by
    have hl := ((disk.sector lba) (2 * i)).toNat_lt
    have hl' := ((disk.sector lba) (2 * i + 1)).toNat_lt
    rw [Nat.add_assoc, hg _ (by omega), Bytes.load16, ← UInt8.toNat_inj]
    obtain rfl | rfl : j = 0 ∨ j = 1 := by omega
    case inl => simp
    case inr => simp; omega
  refine ⟨s₂, ?_, hw₂⟩
  rw [Nat.add_assoc, Nat.mod_eq_of_lt hu, hr]

-- The rounds of `read_file`, as long as there are sectors and the buffer is large enough. The drive gets
-- only a part of the number of the sector, which may have wrapped around.
theorem readFile_go (hw : s.Writes ptr (sectorSize * q) (disk.from lba) s')
    (fileSectors sector b bufsize bytesRead : Nat) (hb : s.Buffer ptr n)
    (hn : sectorSize * (q + min fileSectors (bufsize / sectorSize)) ≤ n)
    (hbytes : bytesRead + sectorSize * min fileSectors (bufsize / sectorSize) < 2 ^ 32)
    (hsec : sector % 2 ^ 28 = (lba + q) % 2 ^ 28)
    (hp : min fileSectors (bufsize / sectorSize) ≠ 0 → b = ptr + sectorSize * q) : ∃ s'',
    (Kernel.readFile.go disk fileSectors sector b bufsize bytesRead).run s' =
      .ok (bytesRead + sectorSize * min fileSectors (bufsize / sectorSize)) s'' ∧
    s.Writes ptr (sectorSize * (q + min fileSectors (bufsize / sectorSize))) (disk.from lba) s'' := by
  simp only [sectorSize] at hw hn hbytes hp ⊢
  induction fileSectors generalizing q b s' sector bufsize bytesRead
  case zero      =>
    rw [Nat.zero_min]
    exact ⟨s', rfl, hw⟩
  case succ r hi =>
    rw [Kernel.readFile.go]
    simp only [sectorSize]
    by_cases hbuf : bufsize ≥ 512
    case neg =>
      have h₀ : min (r + 1) (bufsize / 512) = 0 := by omega
      rw [if_neg hbuf, h₀]
      exact ⟨s', rfl, hw⟩
    case pos =>
      have ⟨m, hm⟩ : ∃ m, m = min r ((bufsize - 512) / 512) := ⟨_, rfl⟩
      have hmin : min (r + 1) (bufsize / 512) = m + 1 := by omega
      rw [hp (by omega), if_pos hbuf, hmin]
      simp only [hmin, Nat.mul_add, Nat.mul_one, ← Nat.add_assoc] at hn hbytes ⊢
      have hsector : disk.sector sector = disk.sector (lba + q) := by
        rw [Disk.sector, hsec]
        rfl
      have ⟨s₁, hr₁, hw₁⟩ := hw.readSectorsAtaPio disk sector hb
        (by simp only [sectorSize]; omega) fun i hi => by
          simp only [Disk.from, sectorSize] at hi ⊢
          have h₁ : lba + (512 * q + i) / 512 = lba + q := by omega
          have h₂ : (512 * q + i) % 512 = i := by omega
          rw [h₁, h₂, hsector]
      simp only [sectorSize, ← Nat.mul_succ] at hw₁
      have ⟨s₂, hr₂, hw₂⟩ := hi (q := q + 1) hw₁ ((sector + 1) % 2 ^ 32)
        ((ptr + 512 * q + 512) % 2 ^ 32) (bufsize - 512) (bytesRead + 512) (by rw [← hm]; omega) (by rw [← hm]; omega) (by omega) fun hr => by
          have hu := hb.upper (512 * (q + 1)) (by omega)
          omega
      rw [← hm] at hr₂ hw₂
      refine ⟨s₂, ?_, ?_⟩
      · have h₂ : (bytesRead + 512) % 2 ^ 32 = bytesRead + 512 := Nat.mod_eq_of_lt (by omega)
        rw [EStateM.bind_ok hr₁, h₂, hr₂, Nat.add_right_comm]
      · have he : 512 * (q + 1 + m) = 512 * q + 512 * m + 512 := by omega
        rwa [he] at hw₂

end Machine.Writes

-- What `read_file` does with a buffer which is large enough for the sectors which are read.
theorem Kernel.readFile_run (disk : Disk) (statbuf : Stat) (bufsize : Nat)
    (hlt : sectorSize * statbuf.sectorsRead bufsize < 2 ^ 32)
    (hb : s.Buffer ptr (sectorSize * statbuf.sectorsRead bufsize)) : ∃ s',
    (Kernel.readFile disk statbuf ptr bufsize).run s =
      .ok (toInt32 (min (sectorSize * statbuf.sectorsRead bufsize) statbuf.size)) s' ∧
    s.Writes ptr (sectorSize * statbuf.sectorsRead bufsize)
      (disk.from (fsStart + statbuf.startSector)) s' := by
  have hw₀ := Machine.Writes.nil s ptr (disk.from (fsStart + statbuf.startSector))
  have ⟨s', hr, hw⟩ := hw₀.readFile_go (q := 0) statbuf.fileSectors
    ((fsStart + statbuf.startSector) % 2 ^ 32) ptr bufsize 0 hb
    (by rw [Nat.zero_add]; exact Nat.le_refl _) (by rw [Nat.zero_add]; exact hlt)
    (by simp only [fsStart]; omega) fun _ => rfl
  rw [Nat.zero_add] at hr hw
  refine ⟨s', ?_, hw⟩
  rw [Stat.sectorsRead]
  rw [Stat.fileSectors] at hr ⊢
  rw [Kernel.readFile, EStateM.bind_ok hr]
  split
  case isTrue h  => rw [Nat.min_eq_left (Nat.le_of_lt h)]; rfl
  case isFalse h => rw [Nat.min_eq_right (Nat.le_of_not_lt h)]; rfl

theorem Kernel.readFile_nothing (hf : statbuf.fileSectors = 0) (disk : Disk) (ptr bufsize : Nat) (s : Machine) :
    (Kernel.readFile disk statbuf ptr bufsize).run s = .ok 0 s := by
  rw [Kernel.readFile, ← Stat.fileSectors, hf]
  cases statbuf.size <;> rfl

-- All sectors of the file are read to a buffer which is large enough.
theorem Kernel.readFile_eq (disk : Disk) (statbuf : Stat)
    (hb : s.Buffer ptr (sectorSize * sectors statbuf.size))
    (hbuf : sectorSize * sectors statbuf.size ≤ bufsize) (hs : statbuf.size < 2 ^ 31) : ∃ s',
    (Kernel.readFile disk statbuf ptr bufsize).run s = .ok statbuf.size s' ∧
    s.Writes ptr (sectorSize * sectors statbuf.size)
      (disk.from (fsStart + statbuf.startSector)) s' := by
  have hr : statbuf.sectorsRead bufsize = sectors statbuf.size := by
    simp only [Stat.sectorsRead, Stat.fileSectors, sectors, sectorSize] at hbuf ⊢
    omega
  have hle : statbuf.size ≤ sectorSize * sectors statbuf.size ∧
      sectorSize * sectors statbuf.size < 2 ^ 32 := by
    simp only [sectors, sectorSize]
    omega
  have hrun := Kernel.readFile_run disk statbuf bufsize (hr ▸ hle.right) (hr ▸ hb)
  rwa [hr, Nat.min_eq_right hle.left, toInt32_of_lt hs] at hrun

theorem Machine.Buffer.mono (h : s.Buffer ptr n) (hk : k ≤ n) : s.Buffer ptr k where
  upper i hi := h.upper i (Nat.lt_of_lt_of_le hi hk)
  mapped i hi := h.mapped i (Nat.lt_of_lt_of_le hi hk)
  inj i hi j hj := h.inj i (Nat.lt_of_lt_of_le hi hk) j (Nat.lt_of_lt_of_le hj hk)
  stable m hm i hi := h.stable m (fun pa hpa => hm pa fun i hi => hpa i (Nat.lt_of_lt_of_le hi hk)) i
    (Nat.lt_of_lt_of_le hi hk)

-- The number of sectors which are to be read to a buffer.
def Stat.sectorsDue (statbuf : Stat) (bufsize : Nat) : Nat :=
  min (sectors statbuf.size) (bufsize / sectorSize)

-- The contract of `read_file`: the buffer is filled with the sectors of the file as far as these fit,
-- nothing else is written, and the number of bytes is returned.
def Stat.Fills (statbuf : Stat) (bufsize : Nat) (s : Machine) (ptr : Nat) (disk : Disk) : Prop :=
  ∃ s', (Kernel.readFile disk statbuf ptr bufsize).run s =
      .ok (min statbuf.size (sectorSize * (bufsize / sectorSize)) : Nat) s' ∧
    s.Writes ptr (sectorSize * statbuf.sectorsDue bufsize)
      (fun k => disk (fsStart + statbuf.startSector + k / sectorSize) (k % sectorSize)) s'

theorem Stat.bytes_due (statbuf : Stat) (bufsize : Nat) :
    min (sectorSize * statbuf.sectorsDue bufsize) statbuf.size =
      min statbuf.size (sectorSize * (bufsize / sectorSize)) := by
  simp only [sectorsDue, sectors, sectorSize]
  omega

theorem Stat.sectorsRead_eq (h : statbuf.size + sectorSize ≤ 2 ^ 32) (bufsize : Nat) :
    statbuf.sectorsRead bufsize = statbuf.sectorsDue bufsize := by
  simp only [sectorSize] at h
  simp only [sectorsRead, sectorsDue, fileSectors, sectors, sectorSize]
  rw [Nat.mod_eq_of_lt (by omega)]

-- The rounding of the size wraps around.
theorem Stat.sectorsRead_eq_zero (h : ¬statbuf.size + sectorSize ≤ 2 ^ 32) (hs : statbuf.size < 2 ^ 32)
    (bufsize : Nat) : statbuf.sectorsRead bufsize = 0 := by
  simp only [sectorsRead, fileSectors, sectorSize] at h ⊢
  omega

-- A sector which the drive cannot address is not read.
theorem Stat.Fills.addressed (h : ∀ disk, statbuf.Fills bufsize s ptr disk)
    (hr : ∀ disk : Disk, ∃ r s', (Kernel.readFile disk statbuf ptr bufsize).run s = .ok r s' ∧
      s.Writes ptr (sectorSize * statbuf.sectorsDue bufsize)
        (disk.from (fsStart + statbuf.startSector)) s')
    (h₀ : statbuf.sectorsDue bufsize ≠ 0) :
    fsStart + statbuf.startSector + statbuf.sectorsDue bufsize ≤ 2 ^ 28 := by
  by_contra hc
  have ⟨disk, hd⟩ : ∃ disk : Disk, disk = fun lba _ => if lba < 2 ^ 28 then 0 else 1 := ⟨_, rfl⟩
  have ⟨s₁, hr₁, hw₁⟩ := h disk
  have ⟨r, s₂, hr₂, hw₂⟩ := hr disk
  cases hr₁.symm.trans hr₂
  have hk : sectorSize * (statbuf.sectorsDue bufsize - 1) < sectorSize * statbuf.sectorsDue bufsize := by
    simp only [sectorSize]
    omega
  have he := (hw₁.bytes _ hk).symm.trans (hw₂.bytes _ hk)
  have hdiv : sectorSize * (statbuf.sectorsDue bufsize - 1) / sectorSize =
      statbuf.sectorsDue bufsize - 1 := Nat.mul_div_cancel_left _ (by decide)
  simp only [hd, Disk.from, Disk.sector, hdiv, Option.some.injEq] at he
  rw [if_neg (by omega), if_pos (Nat.mod_lt _ (by decide))] at he
  exact absurd he (by decide)

-- The contract is kept when nothing is to be read. Else the rounded size must not wrap around, the
-- number of bytes must be representable as `int`, and the drive must be able to address the sectors.
theorem Kernel.readFile_fills_iff (statbuf : Stat) (bufsize : Nat) (hs : statbuf.size < 2 ^ 32)
    (hbs : bufsize < 2 ^ 32) (hb : s.Buffer ptr (sectorSize * statbuf.sectorsDue bufsize)) :
    (∀ disk, statbuf.Fills bufsize s ptr disk) ↔ statbuf.sectorsDue bufsize = 0 ∨
      (statbuf.size + sectorSize ≤ 2 ^ 32 ∧
        min statbuf.size (sectorSize * (bufsize / sectorSize)) < 2 ^ 31 ∧
        fsStart + statbuf.startSector + statbuf.sectorsDue bufsize ≤ 2 ^ 28) := by
  have hlt : sectorSize * statbuf.sectorsDue bufsize < 2 ^ 32 := by
    simp only [Stat.sectorsDue, sectorSize]
    omega
  by_cases hov : statbuf.size + sectorSize ≤ 2 ^ 32
  case pos =>
    have hread := Stat.sectorsRead_eq hov bufsize
    have hrun (disk : Disk) := Kernel.readFile_run disk statbuf bufsize (hread ▸ hlt) (hread ▸ hb)
    simp only [hread, Stat.bytes_due] at hrun
    constructor
    case mp  =>
      intro h
      by_cases h₀ : statbuf.sectorsDue bufsize = 0
      case pos => exact .inl h₀
      case neg =>
        refine .inr ⟨hov, ?_, Stat.Fills.addressed h (fun disk => ⟨_, hrun disk⟩) h₀⟩
        by_contra hc
        have ⟨s₁, hr₁, _⟩ := h default
        have ⟨s₂, hr₂, _⟩ := hrun default
        have hneg := toInt32_neg hc (by omega)
        have ⟨he, _⟩ := EStateM.Result.ok.inj (hr₂.symm.trans hr₁)
        omega
    case mpr =>
      intro h disk
      have ⟨s', hr, hw⟩ := hrun disk
      have hm : min statbuf.size (sectorSize * (bufsize / sectorSize)) < 2 ^ 31 := by
        rcases h with h₀ | ⟨_, hm, _⟩
        case inl => rw [← Stat.bytes_due, h₀, Nat.mul_zero, Nat.zero_min]; decide
        case inr => exact hm
      rw [toInt32_of_lt hm] at hr
      refine ⟨s', hr, hw.congr fun k hk => ?_⟩
      have hk' : k / sectorSize < statbuf.sectorsDue bufsize := Nat.div_lt_of_lt_mul hk
      rcases h with h₀ | ⟨_, _, hl⟩
      case inl => exact absurd (h₀ ▸ hk') (Nat.not_lt_zero _)
      case inr =>
        rw [Disk.from, Disk.sector, Nat.mod_eq_of_lt (by omega)]
  case neg =>
    have hread := Stat.sectorsRead_eq_zero hov hs bufsize
    have hzero : sectorSize * statbuf.sectorsRead bufsize = 0 := by rw [hread, Nat.mul_zero]
    have hrun (disk : Disk) := Kernel.readFile_run disk statbuf bufsize (by rw [hzero]; decide)
      (hb.mono (by rw [hzero]; exact Nat.zero_le _))
    simp only [hzero, Nat.zero_min, toInt32_of_lt (show 0 < 2 ^ 31 by decide)] at hrun
    constructor
    case mp  =>
      intro h
      have ⟨s₁, hr₁, _⟩ := h default
      have ⟨s₂, hr₂, _⟩ := hrun default
      have ⟨he, _⟩ := EStateM.Result.ok.inj (hr₂.symm.trans hr₁)
      have he : min statbuf.size (sectorSize * (bufsize / sectorSize)) = 0 := by exact_mod_cast he.symm
      rw [← Stat.bytes_due] at he
      simp only [sectorSize] at he hov
      omega
    case mpr =>
      intro h disk
      have ⟨s', hr, hw⟩ := hrun disk
      rcases h with h₀ | ⟨hle, _⟩
      case inr => exact absurd hle hov
      case inl =>
        rw [Stat.Fills, ← Stat.bytes_due, h₀, Nat.mul_zero, Nat.zero_min]
        exact ⟨s', hr, hw.congr nofun⟩

-- A file of 1000 bytes, and a buffer of eight sectors.
theorem readFile_fills_thousand : Stat.Fills ⟨1000, 3⟩ 4096 ⟨fun _ => 0, 0, 0, 0, 0, false⟩
    (kernbase + 0x1000) default :=
  have hb := Machine.buffer_kernbase ⟨fun _ => 0, 0, 0, 0, 0, false⟩
    (show 0x1000 + sectorSize * Stat.sectorsDue ⟨1000, 3⟩ 4096 ≤ phystop by decide)
  (Kernel.readFile_fills_iff ⟨1000, 3⟩ 4096 (by decide) (by decide) hb).mpr (.inr (by decide)) default

-- A file of the largest size counts as empty.
theorem readFile_largest_size : ¬Stat.Fills ⟨2 ^ 32 - 1, 3⟩ 512 ⟨fun _ => 0, 0, 0, 0, 0, false⟩
    (kernbase + 0x1000) default := by
  intro ⟨s', hr, _⟩
  have hz : Stat.sectorsRead ⟨2 ^ 32 - 1, 3⟩ 512 = 0 :=
    Stat.sectorsRead_eq_zero (by simp only [sectorSize]; omega) (by simp only; omega) 512
  have hb := Machine.buffer_kernbase ⟨fun _ => 0, 0, 0, 0, 0, false⟩
    (show 0x1000 + sectorSize * Stat.sectorsRead ⟨2 ^ 32 - 1, 3⟩ 512 ≤ phystop by rw [hz]; decide)
  have ⟨s₁, hrun, _⟩ := Kernel.readFile_run default ⟨2 ^ 32 - 1, 3⟩ 512
    (by rw [hz]; exact Nat.two_pow_pos 32) hb
  have ⟨he, _⟩ := EStateM.Result.ok.inj (hrun.symm.trans hr)
  rw [hz, Nat.mul_zero, Nat.zero_min, toInt32_of_lt (Nat.two_pow_pos 31)] at he
  simp only [sectorSize] at he
  omega
