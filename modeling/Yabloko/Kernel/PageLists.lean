import Yabloko.Kernel.Boot
import Yabloko.Kernel.Ranges

-- The pages which the present entries of a page directory or of a page table refer to.
def entryPages (mem : Bytes) (p n : Nat) : List Nat :=
  (List.range n).filterMap fun i =>
    let entry := mem.load32 (p + 4 * i)
    if entry % 2 = 1 then some (pteAddr entry) else none

-- All pages of a directory: itself, its tables, and the pages which these map.
def dirPages (mem : Bytes) (d : Nat) : List Nat :=
  let tables := entryPages mem d (npdentries / 2)
  d :: tables ++ tables.flatMap (entryPages mem · nptentries)

-- The pages between 1 MB and `PHYSTOP`.
def allPages : List Nat :=
  (List.range ((phystop - (1 <<< 20)) / pgsize)).map fun i => (1 <<< 20) + i * pgsize

namespace Machine

-- The pages of the free list. A list of all pages is as long as the bound.
def freePages (s : Machine) : List Nat :=
  go (phystop / pgsize) s.freelist
where
  go : Nat → Nat → List Nat
    | 0, _ => []
    | fuel + 1, va => if va = 0 then [] else (va - kernbase) :: go fuel (s.mem.load32 (va - kernbase))

end Machine

namespace Belongs

variable {use : Nat → Use} {d d' p : Nat}

theorem paging (h : Belongs use d p) : (use p).Paging := by
  rcases h with ⟨hu, _⟩ | ⟨i, hu⟩ | ⟨v, hu⟩
  all_goals simp [hu, Use.Paging]

theorem ne_free (h : Belongs use d p) : use p ≠ .free := by
  intro hu
  have hp := h.paging
  simp [hu, Use.Paging] at hp

theorem unique (h : Belongs use d p) (h' : Belongs use d' p) : d = d' := by
  rcases h with ⟨hu, he⟩ | ⟨i, hu⟩ | ⟨v, hu⟩
  case inl =>
    simp only [Belongs, hu, reduceCtorEq, exists_false, or_false, true_and] at h'
    exact he.symm.trans h'
  case inr.inl => simpa [Belongs, hu] using h'
  case inr.inr => simpa [Belongs, hu] using h'

end Belongs

section Reading

variable {m : Bytes} {use use' : Nat → Use} {p q i j k d d' t f v n : Nat} {s s' : Machine}
  {free free' : List Nat} {refersTo : Nat → Nat → Prop}

-- The page to which a present entry refers.
theorem Slot.of_entry {entry : Nat} {refersTo : Nat → Prop} (h : Slot entry refersTo)
    (hr : ∀ q, refersTo q → IsPage q ∧ entry = q + 7)
    (he : (if entry % 2 = 1 then some (pteAddr entry) else none) = some q) : refersTo q := by
  cases h
  case inl hz => simp [hz] at he
  case inr hq =>
    have ⟨q', hq', hl⟩ := hq
    have ⟨hp, _⟩ := hr q' hq'
    simp only [hl, hp.present, hp.pteAddr_eq, if_true, Option.some.injEq] at he
    exact he ▸ hq'

theorem mem_entryPages (refersTo : Nat → Nat → Prop) (h : ∀ i < n, Slot (m.load32 (p + 4 * i)) (refersTo i))
    (hr : ∀ i q, refersTo i q → IsPage q ∧ m.load32 (p + 4 * i) = q + 7) :
    q ∈ entryPages m p n ↔ ∃ i < n, refersTo i q := by
  rw [entryPages, List.mem_filterMap]
  constructor
  case mp  =>
    intro ⟨i, hi, he⟩
    rw [List.mem_range] at hi
    exact ⟨i, hi, Slot.of_entry (h i hi) (hr i) he⟩
  case mpr =>
    intro ⟨i, hi, hq⟩
    have ⟨hp, hl⟩ := hr i q hq
    exact ⟨i, List.mem_range.mpr hi, by simp only [hl, hp.present, hp.pteAddr_eq, if_true]⟩

theorem nodup_entryPages (refersTo : Nat → Nat → Prop) (h : ∀ i < n, Slot (m.load32 (p + 4 * i)) (refersTo i))
    (hr : ∀ i q, refersTo i q → IsPage q ∧ m.load32 (p + 4 * i) = q + 7)
    (hu : ∀ i j q, refersTo i q → refersTo j q → i = j) : (entryPages m p n).Nodup := by
  rw [entryPages, List.Nodup, List.pairwise_filterMap]
  apply List.nodup_range.pairwise_of_forall_ne
  intro i hi j hj hij q hq q' hq' he
  rw [List.mem_range] at hi hj
  exact hij <| hu i j q (Slot.of_entry (h i hi) (hr i) hq) (Slot.of_entry (h j hj) (hr j) <| he ▸ hq')

namespace Machine.Owns

theorem table_entry (h : s.Owns use free) (ht : use t = .table d i) :
    IsPage t ∧ s.mem.load32 (d + 4 * i) = t + 7 :=
  ⟨h.page (by simp [ht]), (h.mapped.table t d i ht).right.right⟩

theorem mem_tablePages (h : s.Owns use free) (hd : use d = .dir) :
    t ∈ entryPages s.mem d (npdentries / 2) ↔ ∃ i, use t = .table d i := by
  apply (mem_entryPages _ (n := npdentries / 2) (h.mapped.tables d hd) fun _ _ => h.table_entry).trans
  constructor
  case mp  => exact fun ⟨i, _, ht⟩ => ⟨i, ht⟩
  case mpr => exact fun ⟨i, ht⟩ => ⟨i, h.table_lt ht, ht⟩

-- The entry of a table for a frame is in this table.
theorem frame_entry (h : s.Owns use free) (ht : use t = .table d i)
    (hf : use f = .frame d (1024 * i + j)) (hj : j < 1024) :
    IsPage f ∧ s.mem.load32 (t + 4 * j) = f + 7 := by
  have hv : (1024 * i + j) / 1024 = i ∧ (1024 * i + j) % 1024 = j := by omega
  have ⟨t', ht', he⟩ := h.mapped.frame f d _ hf
  rw [hv.left] at ht'
  rw [hv.right, ← h.table_unique ht ht'] at he
  exact ⟨h.page (by simp [hf]), he⟩

theorem mem_framePages (h : s.Owns use free) (ht : use t = .table d i) :
    f ∈ entryPages s.mem t nptentries ↔ ∃ v, use f = .frame d v ∧ v / 1024 = i := by
  rw [mem_entryPages fun j f => j < 1024 ∧ use f = .frame d (1024 * i + j)]
  case h => exact fun j hj => by simpa [hj] using h.mapped.frames t d i ht j hj
  case hr => exact fun j f hf => h.frame_entry ht hf.right hf.left
  constructor
  case mp  => exact fun ⟨j, hj, _, hf⟩ => ⟨_, hf, by omega⟩
  case mpr =>
    intro ⟨v, hf, hv⟩
    have he : v = 1024 * i + v % 1024 := by omega
    exact ⟨v % 1024, Nat.mod_lt _ (by decide), Nat.mod_lt _ (by decide), he ▸ hf⟩

theorem mem_dirPages (h : s.Owns use free) (hd : use d = .dir) :
    p ∈ dirPages s.mem d ↔ Belongs use d p := by
  simp only [dirPages, List.mem_append, List.mem_cons, List.mem_flatMap, h.mem_tablePages hd, Belongs]
  rw [or_assoc]
  apply or_congr (by simp +contextual [hd]) <| or_congr_right _
  constructor
  case mp  =>
    rintro ⟨t, ⟨i, ht⟩, hf⟩
    obtain ⟨v, hf, _⟩ := (h.mem_framePages ht).mp hf
    exact ⟨v, hf⟩
  case mpr =>
    rintro ⟨v, hf⟩
    obtain ⟨t, ht, _⟩ := h.mapped.frame p d v hf
    exact ⟨t, ⟨_, ht⟩, (h.mem_framePages ht).mpr ⟨v, hf, rfl⟩⟩

theorem nodup_tablePages (h : s.Owns use free) (hd : use d = .dir) :
    (entryPages s.mem d (npdentries / 2)).Nodup := by
  apply nodup_entryPages _ (n := npdentries / 2) (h.mapped.tables d hd) fun _ _ => h.table_entry
  intro i j q hi hj
  simpa [hi] using hj

theorem nodup_framePages (h : s.Owns use free) (ht : use t = .table d i) :
    (entryPages s.mem t nptentries).Nodup := by
  apply nodup_entryPages fun j f => j < 1024 ∧ use f = .frame d (1024 * i + j)
  case h => exact fun j hj => by simpa [hj] using h.mapped.frames t d i ht j hj
  case hr => exact fun j f hf => h.frame_entry ht hf.right hf.left
  case hu =>
    intro i j q hi hj
    have he := hi.right.symm.trans hj.right
    rw [Use.frame.injEq] at he
    omega

theorem nodup_dirPages (h : s.Owns use free) (hd : use d = .dir) : (dirPages s.mem d).Nodup := by
  rw [dirPages, List.cons_append, List.nodup_cons, List.nodup_append', List.nodup_flatMap]
  refine ⟨?_, h.nodup_tablePages hd, ⟨?_, ?_⟩, ?_⟩
  · simp only [List.mem_append, List.mem_flatMap, not_or, not_exists, not_and]
    refine ⟨fun ht => ?_, fun t ht hf => ?_⟩
    · have ⟨i, ht⟩ := (h.mem_tablePages hd).mp ht
      simp [hd] at ht
    · have ⟨i, ht⟩ := (h.mem_tablePages hd).mp ht
      have ⟨v, hf, _⟩ := (h.mem_framePages ht).mp hf
      simp [hd] at hf
  · intro t ht
    have ⟨i, ht⟩ := (h.mem_tablePages hd).mp ht
    exact h.nodup_framePages ht
  · apply List.Nodup.pairwise_of_forall_ne <| h.nodup_tablePages hd
    intro t ht t' ht' hne f hf hf'
    have ⟨i, ht⟩ := (h.mem_tablePages hd).mp ht
    have ⟨j, ht'⟩ := (h.mem_tablePages hd).mp ht'
    have ⟨v, hf, hv⟩ := (h.mem_framePages ht).mp hf
    have ⟨w, hf', hw⟩ := (h.mem_framePages ht').mp hf'
    have he := hf.symm.trans hf'
    rw [Use.frame.injEq] at he
    have hij : i = j := by omega
    exact hne <| h.table_unique ht <| hij ▸ ht'
  · intro p hp hp'
    have ⟨i, ht⟩ := (h.mem_tablePages hd).mp hp
    have ⟨t, ht', hf⟩ := List.mem_flatMap.mp hp'
    have ⟨j, ht'⟩ := (h.mem_tablePages hd).mp ht'
    have ⟨v, hf, _⟩ := (h.mem_framePages ht').mp hf
    simp [ht] at hf

-- Different directories do not share pages.
theorem disjoint_dirPages (h : s.Owns use free) (hd : use d = .dir) (hd' : use d' = .dir)
    (hn : d ≠ d') : List.Disjoint (dirPages s.mem d) (dirPages s.mem d') := by
  intro p hp hp'
  exact hn <| ((h.mem_dirPages hd).mp hp).unique <| (h.mem_dirPages hd').mp hp'

theorem freePages_go (hl : Linked (fun va => s.mem.load32 (va - kernbase)) 0 n
    (free.map (kernbase + ·))) (hf : free.length < j) : Machine.freePages.go s j n = free := by
  induction free generalizing n j
  case nil =>
    cases j
    case zero   => omega
    case succ j => exact if_pos hl
  case cons p free hi =>
    cases j
    case zero   => omega
    case succ j =>
      have ⟨he, hn, hl⟩ := hl
      simp only [Nat.add_sub_cancel_left] at hl
      rw [Machine.freePages.go, if_neg (he ▸ hn), he, Nat.add_sub_cancel_left,
        hi hl (by simpa using hf)]

theorem freePages_eq (h : s.Owns use free) : s.freePages = free :=
  freePages_go h.list h.length_lt

end Machine.Owns

theorem mem_allPages : p ∈ allPages ↔ IsPage p := by
  rw [allPages, List.mem_map]
  simp only [List.mem_range, phystop, pgsize, Nat.reduceShiftLeft]
  constructor
  case mp  =>
    intro ⟨i, hi, he⟩
    constructor <;> simp only [phystop, pgsize, Nat.reduceShiftLeft] <;> omega
  case mpr =>
    intro hp
    have ha := hp.aligned
    have hl := hp.lower
    have hu := hp.upper
    simp only [phystop, pgsize, Nat.reduceShiftLeft] at ha hl hu
    exact ⟨(p - 1048576) / 4096, by omega, by omega⟩

theorem nodup_allPages : allPages.Nodup := by
  apply List.Nodup.map _ List.nodup_range
  intro i j he
  simp only [pgsize] at he
  omega

-- The number of free pages, when all others are listed.
theorem Machine.Owns.length_add (h : s.Owns use free) {l : List Nat} (hl : l.Nodup)
    (ht : ∀ p ∈ l, use p ≠ .free ∧ use p ≠ .unmanaged) (ha : ∀ p, IsPage p → use p = .free ∨ p ∈ l) :
    free.length + l.length = allPages.length := by
  have hn : (free ++ l).Nodup :=
    List.nodup_append'.mpr ⟨h.nodup, hl, fun p hp hp' => (ht p hp').left <| (h.mem_iff p).mp hp⟩
  have hp : (free ++ l).Perm allPages := by
    apply (List.perm_ext_iff_of_nodup hn nodup_allPages).mpr
    intro p
    rw [List.mem_append, h.mem_iff, mem_allPages]
    constructor
    case mp  =>
      intro hp
      cases hp
      case inl hp => exact h.page (by simp [hp])
      case inr hp => exact h.page (ht p hp).right
    case mpr => exact ha p
  rw [← List.length_append, hp.length_eq]

-- After the kernel has been started, all pages are free but one.
theorem Booted.length_free (h : Booted s use free k) : free.length + 1 = allPages.length := by
  apply h.owns.length_add (List.nodup_singleton k)
  case ht => exact fun p hp => by simp [List.mem_singleton.mp hp, h.dir]
  case ha =>
    intro p hp
    by_cases he : p = k
    case pos => exact .inr <| List.mem_singleton.mpr he
    case neg => exact .inl <| h.free p hp he

theorem Booted.length_eq (h : Booted s use free k) : free.length = 32511 := by
  have hl := h.length_free
  simp only [allPages, List.length_map, List.length_range, phystop, pgsize, Nat.reduceShiftLeft] at hl
  omega

-- A directory which has just been set up, with `n` pages from the start of the user memory on.
theorem Booted.exists_mapped (h : Booted s use free k) (n : Nat) (hn : n ≤ 1024) :
    ∃ d s₁ use₁ free₁ s₂ use₂ free₂, Kernel.setupkvm.run s = .ok (kernbase + d) s₁ ∧ s₁.Owns use₁ free₁ ∧
      use₁ d = .dir ∧ s₁.kvm = s.kvm ∧ d ≠ k ∧ (∀ v, ¬Maps use₁ d v) ∧
      (Kernel.allocuvm (kernbase + d) userBase (userBase + n * pgsize)).run s₁ = .ok 0 s₂ ∧
      Ranged d (userBase / pgsize) n s₁ use₁ s₂ use₂ free₂ := by
  have hl := h.length_eq
  match free, h with
  | d :: free, h =>
    have ⟨mem, freelist, hr₁, h₁, _⟩ := h.owns.setupkvm_cons
    have hd := (h.owns.mem_iff d).mp List.mem_cons_self
    have hd₁ : Function.update use d .dir d = .dir := Function.update_self _ _ _
    have hm v : ¬Maps (Function.update use d .dir) d v := fun hm => by
      have ⟨f, hf⟩ := hm.of_update (by simp)
      have hp := h.owns.page (p := f) (by simp [hf])
      by_cases hk : f = k
      case pos => simp [hk, h.dir] at hf
      case neg => simp [h.free f hp hk] at hf
    have ht i : ¬HasTable (Function.update use d .dir) d i := fun ⟨t, ht⟩ => by
      by_cases htd : t = d
      case pos => simp [htd] at ht
      case neg =>
        rw [Function.update_of_ne htd] at ht
        have hu := (h.owns.mapped.table t d i ht).left
        simp [hd] at hu
    have hc := pagesFor_le (fun _ => false) (userBase / pgsize) n
    simp only [List.length_cons] at hl
    have ⟨s₂, use₂, free₂, hr₂, hx, _⟩ := h₁.allocuvm_ok hd₁
      (fun i => (iff_false_right (ht i)).mpr Bool.false_ne_true)
      (show pgroundup userBase = userBase / pgsize * pgsize by decide)
      (show userBase / pgsize + n ≤ 2 ^ 19 by simp only [userBase, pgsize]; omega)
      (show ∀ i < n, (userBase / pgsize + i) * pgsize < userBase + n * pgsize by
        intro i hi
        simp only [userBase, pgsize]
        omega)
      (by simp only [userBase, pgsize]; omega) (fun v _ _ => hm v) (by omega)
    refine ⟨d, _, _, _, s₂, use₂, free₂, hr₁, h₁, hd₁, rfl, fun he => ?_, hm, hr₂, hx⟩
    rw [he, h.dir] at hd
    cases hd

end Reading
