import Yabloko.Kernel.Vm
import Yabloko.Lib.Linked

-- What a page of the physical memory is used for. The pages of a page directory name this directory,
-- together with the index of the table, or with the number of the virtual page.
inductive Use
  | unmanaged
  | free
  | held
  | dir
  | table (d i : Nat)
  | frame (d v : Nat)
  deriving DecidableEq

-- The page belongs to a page directory.
def Use.Paging : Use → Prop
  | dir | table .. | frame .. => True
  | _                         => False

-- The allocator starts with the pages above 1 MB.
structure IsPage (p : Nat) : Prop where
  aligned : p % pgsize = 0
  lower   : 1 <<< 20 ≤ p
  upper   : p < phystop

-- The entry of a page table or of a page directory is empty, or refers to a page.
def Slot (entry : Nat) (refersTo : Nat → Prop) : Prop :=
  entry = 0 ∨ ∃ p, refersTo p ∧ entry = p + 7

-- The entry for one of the parts of the physical memory in the upper half of a directory.
def kernelEntry (i : Nat) : Nat :=
  if i < phystop / (4 <<< 20) then i * (4 <<< 20) + 0x83 else 0

-- The page directories and their tables agree with the use of the pages.
structure Mapped (mem : Bytes) (use : Nat → Use) : Prop where
  page    : ∀ p, use p ≠ .unmanaged → IsPage p
  kernel  : ∀ d, use d = .dir → ∀ i < 512, mem.load32 (d + 4 * (512 + i)) = kernelEntry i
  tables  : ∀ d, use d = .dir → ∀ i < 512, Slot (mem.load32 (d + 4 * i)) (use · = .table d i)
  table   : ∀ t d i, use t = .table d i → use d = .dir ∧ i < 512 ∧ mem.load32 (d + 4 * i) = t + 7
  frames  : ∀ t d i, use t = .table d i → ∀ j < 1024,
              Slot (mem.load32 (t + 4 * j)) (use · = .frame d (1024 * i + j))
  frame   : ∀ f d v, use f = .frame d v → ∃ t, use t = .table d (v / 1024) ∧
              mem.load32 (t + 4 * (v % 1024)) = f + 7

-- The free list, from its first cell on.
def Machine.FreeList (s : Machine) (free : List Nat) : Prop :=
  Linked (fun va => s.mem.load32 (va - kernbase)) 0 s.freelist (free.map (kernbase + ·))

structure Machine.Owns (s : Machine) (use : Nat → Use) (free : List Nat) : Prop where
  mapped  : Mapped s.mem use
  list    : s.FreeList free
  nodup   : free.Nodup
  mem_iff : ∀ p, p ∈ free ↔ use p = .free

-- Memories with the same contents of a page.
def SamePage (p : Nat) (m m' : Bytes) : Prop :=
  ∀ i < pgsize, m' (p + i) = m (p + i)

-- Memories with the same contents below the video memory, where the kernel and its first stack are.
def SameLow (m m' : Bytes) : Prop :=
  ∀ pa < 0xA0000, m' pa = m pa

variable {m m' m'' : Bytes} {use use' : Nat → Use} {u : Use} {p q i d t f v n : Nat} {s s' : Machine}
  {free : List Nat}

theorem SamePage.load32_eq (h : SamePage p m m') (hi : i < 1024) :
    m'.load32 (p + 4 * i) = m.load32 (p + 4 * i) := by
  simp only [SamePage, pgsize] at h
  simp only [Bytes.load32, Bytes.load16, Nat.add_assoc]
  rw [h (4 * i) (by omega), h (4 * i + 1) (by omega), h (4 * i + 2) (by omega),
    h (4 * i + (2 + 1)) (by omega)]

theorem SameLow.trans (h : SameLow m m') (h' : SameLow m' m'') : SameLow m m'' :=
  fun pa hpa => (h' pa hpa).trans (h pa hpa)

theorem SameLow.of_agree {a : Nat} (h : Bytes.AgreeOutside a n m m') (ha : 0xA0000 ≤ a) : SameLow m m' :=
  fun _ hpa => h _ <| .inl <| Nat.lt_of_lt_of_le hpa ha

theorem IsPage.samePage (hp : IsPage p) (hq : IsPage q) (hn : p ≠ q) {a : Nat}
    (h : Bytes.AgreeOutside a n m m') (ha : q ≤ a ∧ a + n ≤ q + pgsize) : SamePage p m m' := by
  have hp := hp.aligned
  have hq := hq.aligned
  intro i hi
  simp only [pgsize] at hp hq hi ha
  exact h (p + i) <| by omega

namespace Mapped

theorem dir_page (h : Mapped m use) (hu : (use p).Paging) : IsPage p :=
  h.page p fun he => by simp [he, Use.Paging] at hu

-- Only the pages of the directories and of their tables matter.
theorem congr (h : Mapped m use) (hu : ∀ p u, u.Paging → (use' p = u ↔ use p = u))
    (hp : ∀ p, use' p ≠ .unmanaged → IsPage p)
    (hm : ∀ p, (use p = .dir ∨ ∃ d i, use p = .table d i) → SamePage p m m') : Mapped m' use' := by
  have hd p : use' p = .dir ↔ use p = .dir := hu p _ trivial
  have ht p d i : use' p = .table d i ↔ use p = .table d i := hu p _ trivial
  have hf p d v : use' p = .frame d v ↔ use p = .frame d v := hu p _ trivial
  have hmd {d i} (h : use d = .dir) (hi : i < 1024) := (hm d <| .inl h).load32_eq hi
  have hmt {t d i j} (h : use t = .table d i) (hj : j < 1024) := (hm t <| .inr ⟨d, i, h⟩).load32_eq hj
  exact {
    page := hp
    kernel := fun d hu i hi => by
      rw [hd] at hu
      rw [hmd hu (by omega), h.kernel d hu i hi]
    tables := fun d hu i hi => by
      rw [hd] at hu
      simp only [hmd hu (by omega : i < 1024), ht]
      exact h.tables d hu i hi
    table := fun t d i hu => by
      rw [ht] at hu
      have ⟨hu', hi, he⟩ := h.table t d i hu
      rw [hd, hmd hu' (by omega)]
      exact ⟨hu', hi, he⟩
    frames := fun t d i hu j hj => by
      rw [ht] at hu
      simp only [hmt hu hj, hf]
      exact h.frames t d i hu j hj
    frame := fun f d v hu => by
      rw [hf] at hu
      have ⟨t, hu', he⟩ := h.frame f d v hu
      refine ⟨t, (ht _ _ _).mpr hu', ?_⟩
      rw [hmt hu' (Nat.mod_lt _ (by decide)), he] }

end Mapped

theorem v2p_kernbase (h : p < phystop) : v2p (kernbase + p) = p := by
  simp only [v2p, kernbase, phystop] at h ⊢
  omega

theorem p2v_eq (h : p < phystop) : p2v p = kernbase + p := by
  simp only [p2v, kernbase, phystop] at h ⊢
  omega

theorem update_paging (hp : ¬(use p).Paging) (hu : ¬u.Paging) (q : Nat) (u' : Use)
    (h : u'.Paging) : Function.update use p u q = u' ↔ use q = u' := by
  by_cases hq : q = p
  case neg => rw [Function.update_of_ne hq]
  case pos =>
    subst hq
    rw [Function.update_self]
    exact ⟨fun he => absurd (he ▸ h) hu, fun he => absurd (he ▸ h) hp⟩

theorem Mapped.update_page (h : Mapped m use) (hp : use p ≠ .unmanaged) (q : Nat)
    (hq : Function.update use p u q ≠ .unmanaged) : IsPage q := by
  by_cases he : q = p
  case pos => exact he ▸ h.page p hp
  case neg => exact h.page q <| by rwa [Function.update_of_ne he] at hq

namespace Machine.Owns

theorem page (h : s.Owns use free) (hu : use p ≠ .unmanaged) : IsPage p :=
  h.mapped.page p hu

theorem freelist_lt (h : s.Owns use free) : s.freelist < 2 ^ 32 := by
  have hl := h.list
  cases free
  case nil      => simp [FreeList, Linked] at hl; simp [hl]
  case cons p l =>
    have hp := (h.page (p := p) <| by simp [(h.mem_iff p).mp (by simp)]).upper
    simp only [FreeList, List.map_cons, Linked] at hl
    simp only [phystop, kernbase] at hp hl
    omega

-- Another use of a page which does not belong to a directory, and whose contents may change.
theorem reuse (h : s.Owns use free) (hp : use p ≠ .unmanaged) (hp' : ¬(use p).Paging)
    (hu : ¬u.Paging) (hm : Bytes.AgreeOutside p pgsize s.mem m) :
    Mapped m (Function.update use p u) := by
  apply h.mapped.congr (update_paging hp' hu) (fun q => h.mapped.update_page hp q)
  intro q hq
  have hq : (use q).Paging := by
    cases hq
    case inl hq => simp [hq, Use.Paging]
    case inr hq => have ⟨_, _, hq⟩ := hq; simp [hq, Use.Paging]
  exact IsPage.samePage (h.mapped.dir_page hq) (h.page hp) (fun he => hp' <| he ▸ hq) hm
    ⟨Nat.le_refl _, Nat.le_refl _⟩

theorem kalloc_nil (h : s.Owns use []) :
    Kernel.kalloc.run s = .ok 0 { s with exhausted := true } := by
  have hl : s.freelist = 0 := h.list
  rw [Kernel.kalloc, EStateM.get_bind, if_neg <| by simp [hl]]
  exact congrArg (EStateM.Result.ok · { s with exhausted := true }) hl

theorem kalloc_cons (h : s.Owns use (p :: free)) : ∃ freelist,
    Kernel.kalloc.run s = .ok (kernbase + p) { s with freelist } ∧
    Machine.Owns { s with freelist } (Function.update use p .held) free := by
  have hp := (h.mem_iff p).mp (by simp)
  have hpp := h.page (p := p) (by simp [hp])
  have ⟨hf, hn, hl⟩ := h.list
  refine ⟨s.mem.load32 p, ?_, ?_⟩
  · have hlt : p + 3 < phystop := by
      have ha := hpp.aligned
      have hu := hpp.upper
      simp only [phystop, pgsize] at ha hu ⊢
      omega
    rw [Kernel.kalloc, EStateM.get_bind, hf, if_pos hn,
      EStateM.bind_ok (s.load32_kernbase hlt)]
    rfl
  · have ⟨hnot, hnodup⟩ := List.nodup_cons.mp h.nodup
    exact {
      mapped := h.reuse (by simp [hp]) (by simp [hp, Use.Paging]) (by simp [Use.Paging]) <| .refl _ _ _
      list := by simpa only [FreeList, Nat.add_sub_cancel_left] using hl
      nodup := hnodup
      mem_iff := fun q => by
        by_cases he : q = p
        case pos => simp [he, hnot]
        case neg => rw [Function.update_of_ne he, ← h.mem_iff q, List.mem_cons, or_iff_right he] }

theorem kfree_held (h : s.Owns use free) (hp : use p = .held) : ∃ mem,
    (Kernel.kfree (kernbase + p)).run s = .ok () { s with mem, freelist := kernbase + p } ∧
    Machine.Owns { s with mem, freelist := kernbase + p } (Function.update use p .free) (p :: free) ∧
    Bytes.AgreeOutside p pgsize s.mem mem := by
  have hpp := h.page (p := p) (by simp [hp])
  have ha := hpp.aligned
  have hu := hpp.upper
  have hm : Bytes.AgreeOutside p pgsize s.mem
      ((s.mem.fill p pgsize (.ofNat 1)).store32 p s.freelist) :=
    (Bytes.fill_agree _ _ _ _).trans <| (Bytes.store32_agree _ _ _).mono (by simp) (by simp [pgsize])
  have hn : p ∉ free := fun hf => by simp [(h.mem_iff p).mp hf] at hp
  refine ⟨(s.mem.fill p pgsize (.ofNat 1)).store32 p s.freelist, ?_, ?_, hm⟩
  · have hc : ¬((kernbase + p) % pgsize ≠ 0 ∨ v2p (kernbase + p) ≥ phystop) := by
      rw [v2p_kernbase hu]
      simp only [kernbase, pgsize] at ha ⊢
      omega
    have hlt : p + 3 < phystop ∧ p + pgsize ≤ phystop := by
      simp only [phystop, pgsize] at ha hu ⊢
      omega
    rw [Kernel.kfree, if_neg hc, EStateM.bind_ok (s.memset_kernbase hlt.right 1),
      EStateM.get_bind, EStateM.bind_ok (Machine.store32_kernbase _ hlt.left _)]
    rfl
  · exact {
      mapped := h.reuse (by simp [hp]) (by simp [hp, Use.Paging]) (by simp [Use.Paging]) hm
      list := by
        refine ⟨rfl, by simp [kernbase], ?_⟩
        simp only [Nat.add_sub_cancel_left]
        rw [Bytes.load32_store32 h.freelist_lt]
        apply h.list.congr
        intro va hva
        have ⟨q, hq, he⟩ := List.mem_map.mp hva
        have hqp := h.page (p := q) (by simp [(h.mem_iff q).mp hq])
        subst he
        simp only [Nat.add_sub_cancel_left]
        exact (hqp.samePage hpp (fun he => hn <| he ▸ hq) hm ⟨Nat.le_refl _, Nat.le_refl _⟩).load32_eq
          (i := 0) (by decide)
      nodup := List.nodup_cons.mpr ⟨hn, h.nodup⟩
      mem_iff := fun q => by
        by_cases he : q = p
        case pos => simp [he]
        case neg => rw [Function.update_of_ne he, ← h.mem_iff q, List.mem_cons, or_iff_right he] }

end Machine.Owns
