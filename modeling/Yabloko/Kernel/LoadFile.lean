import Yabloko.Kernel.Buffer
import Yabloko.Kernel.Proc

-- The computation does not change the machine.
def Kernel.Keeps {α : Type} (f : Kernel α) : Prop :=
  ∀ s a s', f.run s = .ok a s' → s' = s

-- The state in which a computation ends.
def Kernel.after {α : Type} (f : Kernel α) (s : Machine) : Machine :=
  match f.run s with
  | .ok _ s' | .error _ s' => s'

-- The computation takes no pages.
def Kernel.Quiet {α : Type} (f : Kernel α) : Prop :=
  ∀ s, (f.after s).exhausted = s.exhausted

-- The process with the directory `d`, or the kernel on its behalf, has written to its pages.
structure FrameWrite (d : Nat) (use : Nat → Use) (s s' : Machine) : Prop where
  memory  : s' = { s with mem := s'.mem }
  changes : ChangesIn (fun p => ∃ v, use p = .frame d v) s.mem s'.mem

variable {s s' s'' : Machine} {use : Nat → Use} {free : List Nat} {va d n k r buf bufsize bytesRead : Nat}
  {sector : Nat} {disk : Disk} {statbuf : Stat} {b : UInt8} {v : Nat}

theorem Disk.stat_size_lt {name : CString} (h : disk.stat name = some statbuf) :
    statbuf.size < 2 ^ 32 := by
  have ⟨i, _, hi⟩ := List.exists_of_findSome?_eq_some h
  simp only at hi
  split at hi
  case isFalse => cases hi
  case isTrue  => cases hi; exact Bytes.load32_lt _ _

namespace Kernel.Keeps

variable {α β : Type} {f g : Kernel α} {h : α → Kernel β}

theorem pure (a : α) : Keeps (Pure.pure a) := by
  intro s a' s' hr
  cases hr
  rfl

theorem throw (e : Fault) : Keeps (throw e : Kernel α) := by
  intro s a' s' hr
  cases hr

theorem bind (hf : Keeps f) (hh : ∀ a, Keeps (h a)) : Keeps (f >>= h) := by
  intro s b s' hr
  have ⟨a, s₁, hr₁, hr⟩ := EStateM.bind_eq_ok hr
  rw [← hf s a s₁ hr₁]
  exact hh a s₁ b s' hr

theorem ite {c : Prop} [Decidable c] (hf : Keeps f) (hg : Keeps g) : Keeps (if c then f else g) := by
  split
  case isTrue  => exact hf
  case isFalse => exact hg

theorem of_reads {r : View → Except Nat α} (hf : Reads f r) : Keeps f := by
  intro s a s' hr
  rw [hf s] at hr
  split at hr
  all_goals cases hr
  rfl

theorem load16 (va : Nat) : Keeps (load16 va) :=
  of_reads <| Reads.load16 va

theorem load32 (va : Nat) : Keeps (load32 va) :=
  of_reads <| Reads.load32 va

theorem imageTop_go (hdr fuel i top : Nat) : Keeps (imageTop.go hdr fuel i top) := by
  induction fuel generalizing i top
  case zero         => exact throw _
  case succ fuel hi =>
    refine (load16 _).bind fun _ => .ite ?_ (pure _)
    refine (load32 _).bind fun _ => (load16 _).bind fun _ => (load32 _).bind fun _ => .ite (hi _ _) ?_
    refine (load32 _).bind fun _ => .ite (hi _ _) ?_
    exact (load32 _).bind fun _ => (load32 _).bind fun _ => hi _ _

end Kernel.Keeps

namespace Kernel.Quiet

variable {α β : Type} {f g : Kernel α} {h : α → Kernel β}

theorem of_ok {a : α} (hf : Quiet f) (hr : f.run s = .ok a s') : s'.exhausted = s.exhausted := by
  have h := hf s
  rwa [after, hr] at h

theorem of_error {e : Fault} (hf : Quiet f) (hr : f.run s = .error e s') : s'.exhausted = s.exhausted := by
  have h := hf s
  rwa [after, hr] at h

theorem pure (a : α) : Quiet (Pure.pure a) :=
  fun _ => rfl

theorem throw (e : Fault) : Quiet (throw e : Kernel α) :=
  fun _ => rfl

theorem bind (hf : Quiet f) (hh : ∀ a, Quiet (h a)) : Quiet (f >>= h) := by
  intro s
  rw [after]
  match hr : f.run s with
  | .ok a s₁    =>
    rw [EStateM.bind_ok hr]
    exact (hh a s₁).trans <| hf.of_ok hr
  | .error e s₁ =>
    rw [EStateM.bind_error hr]
    exact hf.of_error hr

theorem ite {c : Prop} [Decidable c] (hf : Quiet f) (hg : Quiet g) : Quiet (if c then f else g) := by
  split
  case isTrue  => exact hf
  case isFalse => exact hg

theorem forM {l : List α} {f : α → Kernel Unit} (hf : ∀ a, Quiet (f a)) : Quiet (forM l f) := by
  induction l
  case nil         => exact pure ()
  case cons a l hi => exact (hf a).bind fun _ => hi

theorem storeByte (va : Nat) (b : UInt8) : Quiet (storeByte va b) := by
  intro s
  rw [after, Kernel.storeByte, physical, bind_assoc, EStateM.get_bind]
  cases s.translate va
  case none => rfl
  case some => rfl

theorem of_reads {r : View → Except Nat α} (hf : Reads f r) : Quiet f := by
  intro s
  rw [after, hf s]
  cases r s.view
  case ok    => rfl
  case error => rfl

theorem store16 (va v : Nat) : Quiet (store16 va v) :=
  (storeByte _ _).bind fun _ => storeByte _ _

theorem readFile_go (n sector buf bufsize bytesRead : Nat) :
    Quiet (readFile.go disk n sector buf bufsize bytesRead) := by
  induction n generalizing sector buf bufsize bytesRead
  case zero      => exact pure _
  case succ n hi => exact .ite ((forM fun _ => store16 _ _).bind fun _ => hi _ _ _ _) (pure _)

theorem readFile (statbuf : Stat) (buf bufsize : Nat) : Quiet (readFile disk statbuf buf bufsize) :=
  (readFile_go _ _ _ _ _).bind fun _ => pure _

theorem imageTop_go (hdr fuel i top : Nat) : Quiet (imageTop.go hdr fuel i top) := by
  have load16 va : Quiet (Kernel.load16 va) := of_reads <| Reads.load16 va
  have load32 va : Quiet (Kernel.load32 va) := of_reads <| Reads.load32 va
  induction fuel generalizing i top
  case zero         => exact throw _
  case succ fuel hi =>
    refine (load16 _).bind fun _ => .ite ?_ (pure _)
    refine (load32 _).bind fun _ => (load16 _).bind fun _ => (load32 _).bind fun _ => .ite (hi _ _) ?_
    refine (load32 _).bind fun _ => .ite (hi _ _) ?_
    exact (load32 _).bind fun _ => (load32 _).bind fun _ => hi _ _

end Kernel.Quiet

namespace FrameWrite

theorem refl (d : Nat) (use : Nat → Use) (s : Machine) : FrameWrite d use s s where
  memory := rfl
  changes := .refl _ _

theorem trans (h : FrameWrite d use s s') (h' : FrameWrite d use s' s'') : FrameWrite d use s s'' where
  memory := by rw [h'.memory, h.memory]
  changes := h.changes.trans h'.changes

theorem owns (h : FrameWrite d use s s') (ho : s.Owns use free) : s'.Owns use free := by
  rw [h.memory]
  exact ho.touch h.changes fun p ⟨v, hp⟩ => by simp [hp]

end FrameWrite

namespace Machine.Owns

-- A store to an address of the user half succeeds only if the page is mapped.
theorem storeByte_ok (h : s.Owns use free) (hd : use s.cr3 = .dir) (hva : va < kernbase)
    (hr : (Kernel.storeByte va b).run s = .ok () s') :
    Maps use s.cr3 (va / pgsize) ∧ FrameWrite s.cr3 use s s' := by
  obtain ⟨hv, hn, he⟩ := user_split hva
  by_cases hm : Maps use s.cr3 (va / pgsize)
  case neg =>
    have ht := h.translate_none hd hm hv hn
    rw [he] at ht
    have hp : (Kernel.physical va).run s = .error (.pageFault va) s := by
      rw [Kernel.physical, EStateM.get_bind, ht]
      rfl
    rw [Kernel.storeByte, EStateM.bind_error hp] at hr
    cases hr
  case pos =>
    obtain ⟨f, hf, ht⟩ := h.translate_maps hva hm
    rw [storeByte_eq ht] at hr
    cases hr
    have hfp := h.page (p := f) (by simp [hf])
    refine ⟨hm, rfl, (ChangesIn.of_agree hfp (s.mem.store_agree _ _) ?_ ?_).mono fun p hp => ⟨_, hp ▸ hf⟩⟩
    all_goals simp only [pgsize]; omega

theorem store16_ok (h : s.Owns use free) (hd : use s.cr3 = .dir) (hva : va + 1 < kernbase)
    (hr : (Kernel.store16 va v).run s = .ok () s') :
    Maps use s.cr3 (va / pgsize) ∧ Maps use s.cr3 ((va + 1) / pgsize) ∧ FrameWrite s.cr3 use s s' := by
  have ⟨_, s₁, hr₁, hr₂⟩ := EStateM.bind_eq_ok hr
  have ⟨hm₁, hw₁⟩ := h.storeByte_ok hd (by omega) hr₁
  have hc : s₁.cr3 = s.cr3 := by rw [hw₁.memory]
  have hva' : (va + 1) % 2 ^ 32 = va + 1 := by
    simp only [kernbase] at hva
    omega
  rw [hva'] at hr₂
  have ⟨hm₂, hw₂⟩ := (hw₁.owns h).storeByte_ok (hc ▸ hd) hva hr₂
  rw [hc] at hm₂ hw₂
  exact ⟨hm₁, hm₂, hw₁.trans hw₂⟩

-- A sector has been read to the user half.
theorem readSectorsAtaPio_ok (h : s.Owns use free) (hd : use s.cr3 = .dir)
    (hva : va + sectorSize ≤ kernbase) (hr : (Kernel.readSectorsAtaPio disk va k).run s = .ok () s') :
    (∀ i < sectorSize, Maps use s.cr3 ((va + i) / pgsize)) ∧ FrameWrite s.cr3 use s s' := by
  simp only [sectorSize] at hva ⊢
  have hp := EStateM.forM_range_ok (P := fun n s' =>
    (∀ i < 2 * n, Maps use s.cr3 ((va + i) / pgsize)) ∧ FrameWrite s.cr3 use s s') hr
    ⟨fun i hi => by omega, .refl _ _ _⟩ fun n s₁ s₂ hn ⟨hm, hw⟩ hr => by
      have hc : s₁.cr3 = s.cr3 := by rw [hw.memory]
      have ha : (va + 2 * n) % 2 ^ 32 = va + 2 * n := by
        simp only [kernbase] at hva
        omega
      rw [ha] at hr
      have ⟨h₁, h₂, hw'⟩ := (hw.owns h).store16_ok (hc ▸ hd) (by omega) hr
      rw [hc] at h₁ h₂ hw'
      refine ⟨fun i hi => ?_, hw.trans hw'⟩
      by_cases hi₁ : i < 2 * n
      case pos => exact hm i hi₁
      case neg =>
        by_cases hi₂ : i = 2 * n
        case pos => rwa [hi₂]
        case neg => rwa [show i = 2 * n + 1 by omega, ← Nat.add_assoc]
  exact hp

theorem readFile_go_ok (h : s.Owns use free) (hd : use s.cr3 = .dir)
    (hbuf : buf + sectorSize * min r (bufsize / sectorSize) ≤ kernbase)
    (hr : (Kernel.readFile.go disk r sector buf bufsize bytesRead).run s = .ok n s') :
    (∀ i < sectorSize * min r (bufsize / sectorSize), Maps use s.cr3 ((buf + i) / pgsize)) ∧
      FrameWrite s.cr3 use s s' := by
  simp only [sectorSize] at hbuf ⊢
  induction r generalizing s sector buf bufsize bytesRead
  case zero      =>
    cases hr
    exact ⟨fun i hi => by omega, .refl _ _ _⟩
  case succ r hi =>
    rw [Kernel.readFile.go] at hr
    simp only [sectorSize] at hr
    split at hr
    case isFalse hlt =>
      cases hr
      exact ⟨fun i hi => by omega, .refl _ _ _⟩
    case isTrue hge  =>
      have ⟨_, s₁, hr₁, hr₂⟩ := EStateM.bind_eq_ok hr
      have ⟨hm₁, hw₁⟩ := h.readSectorsAtaPio_ok hd (by simp only [sectorSize]; omega) hr₁
      have hc : s₁.cr3 = s.cr3 := by rw [hw₁.memory]
      have hmin : min (r + 1) (bufsize / 512) = min r ((bufsize - 512) / 512) + 1 := by omega
      have hb : (buf + 512) % 2 ^ 32 = buf + 512 := by
        simp only [kernbase] at hbuf
        omega
      rw [hb] at hr₂
      rw [hmin, Nat.mul_succ] at hbuf ⊢
      rw [← Nat.add_assoc, Nat.add_right_comm] at hbuf
      have ⟨hm₂, hw₂⟩ := hi (hw₁.owns h) (hc ▸ hd) hbuf hr₂
      clear hbuf
      rw [hc] at hm₂ hw₂
      refine ⟨fun i hi => ?_, hw₁.trans hw₂⟩
      by_cases hi₁ : i < 512
      case pos => exact hm₁ i hi₁
      case neg =>
        have := hm₂ (i - 512) (by omega)
        rwa [Nat.add_assoc, Nat.add_sub_cancel' (by omega)] at this

-- All pages have been mapped to which a file has been read.
theorem readFile_maps {r : Int} (h : s.Owns use free) (hd : use s.cr3 = .dir)
    (hr : (Kernel.readFile disk statbuf userBase (100 <<< 20)).run s = .ok r s') :
    ∀ i < sectorSize * min ((statbuf.size + sectorSize - 1) % 2 ^ 32 / sectorSize) 204800,
      Maps use s.cr3 ((userBase + i) / pgsize) := by
  have ⟨n, s₁, hr₁, _⟩ := EStateM.bind_eq_ok hr
  exact (h.readFile_go_ok hd (by simp only [userBase, kernbase, sectorSize]; omega) hr₁).left

-- `run_elf` reads a file to where the image of the process begins.
theorem readFile_ok {r : Int} (h : s.Owns use free) (hd : use s.cr3 = .dir)
    (hr : (Kernel.readFile disk statbuf userBase (100 <<< 20)).run s = .ok r s') :
    FrameWrite s.cr3 use s s' ∧ (0 < r →
      0 < (statbuf.size + sectorSize - 1) % 2 ^ 32 / sectorSize ∧
      ∀ i < sectorSize * min ((statbuf.size + sectorSize - 1) % 2 ^ 32 / sectorSize) 204800,
        Maps use s.cr3 ((userBase + i) / pgsize)) := by
  have ⟨n, s₁, hr₁, hr⟩ := EStateM.bind_eq_ok hr
  have ⟨hm, hw⟩ := h.readFile_go_ok hd (by simp only [userBase, kernbase, sectorSize]; omega) hr₁
  cases hr
  refine ⟨hw, fun hpos => ⟨?_, hm⟩⟩
  by_contra hc
  rw [Nat.eq_zero_of_not_pos hc] at hr₁
  cases hr₁
  have hz : (if 0 < statbuf.size then 0 else statbuf.size) = 0 := by
    split
    case isTrue  => rfl
    case isFalse => omega
  rw [hz] at hpos
  exact absurd hpos (by decide)

end Machine.Owns
