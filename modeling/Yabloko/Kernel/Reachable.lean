import Yabloko.Kernel.Boot
import Yabloko.Kernel.Buffer

-- The machines, with their directories, which arise from `s₀` when the directories are set up, extended
-- in user ranges and freed. In between, pages are taken for other purposes, directories are loaded, and
-- the process writes to its memory.
inductive Machine.Reaches (s₀ : Machine) : Machine → List Nat → Prop
  | boot : Reaches s₀ s₀ [s₀.cr3]
  | setupkvm {s s' dirs pgdir} : Reaches s₀ s dirs → Kernel.setupkvm.run s = .ok pgdir s' →
      Reaches s₀ s' (v2p pgdir :: dirs)
  | allocuvm {s s' dirs d base top r} : Reaches s₀ s dirs → d ∈ dirs → userBase ≤ base → base ≤ top →
      top ≤ kernbase → (Kernel.allocuvm (p2v d) base top).run s = .ok r s' → Reaches s₀ s' dirs
  | freevm {s s' dirs d} : Reaches s₀ s dirs → d ∈ dirs → d ≠ s.cr3 →
      (Kernel.freevm (p2v d)).run s = .ok () s' → Reaches s₀ s' (dirs.filter (· ≠ d))
  | kalloc {s s' dirs p} : Reaches s₀ s dirs → Kernel.kalloc.run s = .ok p s' → Reaches s₀ s' dirs
  | lcr3 {s dirs d} : Reaches s₀ s dirs → d ∈ dirs → Reaches s₀ { s with cr3 := d } dirs
  | process {s dirs m} : Reaches s₀ s dirs →
      (∀ pa, m pa ≠ s.mem pa → ∃ va < kernbase, s.translate va = some pa) →
      Reaches s₀ { s with mem := m } dirs

-- The directories are made up of pages of their own, and do not map the lowest page.
structure Tabled (s : Machine) (dirs : List Nat) (use : Nat → Use) (free : List Nat) : Prop where
  owns : s.Owns use free
  cr3  : s.cr3 ∈ dirs
  dirs : ∀ d ∈ dirs, use d = .dir
  zero : ∀ d, ¬Maps use d 0

variable {s s' s₀ : Machine} {use use' : Nat → Use} {free free' dirs : List Nat} {m : Bytes}
  {p d k v a n base top pgdir : Nat} {r : Int}

namespace Tabled

theorem setupkvm (h : Tabled s dirs use free) (hr : Kernel.setupkvm.run s = .ok pgdir s') :
    ∃ use' free', Tabled s' (v2p pgdir :: dirs) use' free' := by
  match free, h with
  | [], h         =>
    have hz := h.owns.translate_none (h.dirs _ h.cr3) (h.zero _) (n := 0) (by decide) (by decide)
    rw [h.owns.setupkvm_nil hz] at hr
    cases hr
  | p :: free', h =>
    have ⟨mem, freelist, hr', h', _⟩ := h.owns.setupkvm_cons
    rw [hr] at hr'
    cases hr'
    have hp := (h.owns.mem_iff p).mp (by simp)
    rw [v2p_kernbase (h.owns.page (p := p) (by simp [hp])).upper]
    refine ⟨_, _, h', List.mem_cons_of_mem _ h.cr3, fun d hd => ?_, fun d hd => ?_⟩
    case refine_1 =>
      cases hd
      case head      => exact Function.update_self _ _ _
      case tail _ hd =>
        rw [Function.update_of_ne, h.dirs d hd]
        intro he
        simp [← he, h.dirs d hd] at hp
    case refine_2 => exact h.zero d <| hd.of_update (by simp)

theorem allocuvm (h : Tabled s dirs use free) (hd : d ∈ dirs) (hb : userBase ≤ base)
    (hbt : base ≤ top) (ht : top ≤ kernbase)
    (hr : (Kernel.allocuvm (p2v d) base top).run s = .ok r s') :
    ∃ use' free', Tabled s' dirs use' free' := by
  have hdd := h.dirs d hd
  rw [p2v_eq (h.owns.page (p := d) (by simp [hdd])).upper] at hr
  have ⟨use', free', k, h', _⟩ := h.owns.allocuvm_any hdd (.inr fun j _ hlt => by
    have hlt := Nat.lt_of_lt_of_le hlt ht
    rwa [show kernbase = 2 ^ 19 * pgsize from rfl, Nat.mul_lt_mul_right (by decide)] at hlt) hr
  refine ⟨use', free', h'.owns, ?_, fun d' hd' => ?_, fun d' hm => ?_⟩
  · rw [h'.extend.cr3]
    exact h.cr3
  · rw [h'.extend.uses d' (by simp [h.dirs d' hd']), h.dirs d' hd']
  · cases h'.maps_any hm
    case inl hm => exact h.zero d' hm
    case inr hm =>
      have hle := hm.right.left
      simp only [pgroundup, pgsize] at hle
      simp only [userBase, kernbase] at hb ht
      omega

theorem freevm (h : Tabled s dirs use free) (hd : d ∈ dirs) (hc : d ≠ s.cr3)
    (hr : (Kernel.freevm (p2v d)).run s = .ok () s') :
    ∃ use' free', Tabled s' (dirs.filter (· ≠ d)) use' free' := by
  have hdd := h.dirs d hd
  have ⟨s₁, hr₁, hu⟩ := h.owns.freevm hdd
  rw [p2v_eq (h.owns.page (p := d) (by simp [hdd])).upper, hr₁] at hr
  cases hr
  have ⟨free', ho⟩ := hu.owns
  refine ⟨_, free', ho, ?_, fun d' hd' => ?_, fun d' hm => h.zero d' hm.of_partly⟩
  · rw [hu.steady.cr3, List.mem_filter]
    exact ⟨h.cr3, by simpa using hc.symm⟩
  · rw [List.mem_filter, decide_eq_true_iff] at hd'
    have hd := h.dirs d' hd'.left
    rw [partly_belongs, hd]
    simp [Belongs, hd, hd'.right]

theorem kalloc (h : Tabled s dirs use free) (hr : Kernel.kalloc.run s = .ok p s') :
    ∃ use' free', Tabled s' dirs use' free' := by
  match free, h with
  | [], h         =>
    rw [h.owns.kalloc_nil] at hr
    cases hr
    exact ⟨use, [], { h.owns with }, h.cr3, h.dirs, h.zero⟩
  | q :: free', h =>
    have ⟨freelist, hr', h'⟩ := h.owns.kalloc_cons
    rw [hr] at hr'
    cases hr'
    have hq := (h.owns.mem_iff q).mp (by simp)
    refine ⟨_, _, h', h.cr3, fun d hd => ?_, fun d hd => h.zero d <| hd.of_update (by simp)⟩
    rw [Function.update_of_ne, h.dirs d hd]
    intro he
    simp [← he, h.dirs d hd] at hq

theorem process (h : Tabled s dirs use free)
    (hm : ∀ pa, m pa ≠ s.mem pa → ∃ va < kernbase, s.translate va = some pa) :
    Tabled { s with mem := m } dirs use free := by
  refine ⟨h.owns.of_frames fun pa hpa => ?_, h.cr3, h.dirs, h.zero⟩
  by_contra hne
  have ⟨va, hva, ht⟩ := hm pa hne
  have ⟨hv, hlt, he⟩ := Machine.Owns.user_split hva
  by_cases hmap : Maps use s.cr3 (va / pgsize)
  case pos => exact hpa va hva hmap ht
  case neg =>
    have hnone := h.owns.translate_none (h.dirs _ h.cr3) hmap hv hlt
    rw [he, ht] at hnone
    cases hnone

end Tabled

theorem Booted.tabled (h : Booted s use free k) : Tabled s [s.cr3] use free where
  owns := h.owns
  cr3 := List.mem_singleton_self _
  dirs d hd := by rw [List.mem_singleton.mp hd, h.cr3, h.dir]
  zero d := fun ⟨f, hf⟩ => by
    have hp := h.owns.page (p := f) (by simp [hf])
    by_cases hk : f = k
    case pos => simp [hk, h.dir] at hf
    case neg => simp [h.free f hp hk] at hf

theorem Machine.Reaches.tabled (h : s₀.Reaches s dirs) (h₀ : Tabled s₀ [s₀.cr3] use free) :
    ∃ use' free', Tabled s dirs use' free' := by
  induction h
  case boot                        => exact ⟨use, free, h₀⟩
  case setupkvm hr hi              => have ⟨_, _, hi⟩ := hi; exact hi.setupkvm hr
  case allocuvm hd hb hbt ht hr hi => have ⟨_, _, hi⟩ := hi; exact hi.allocuvm hd hb hbt ht hr
  case freevm hd hc hr hi          => have ⟨_, _, hi⟩ := hi; exact hi.freevm hd hc hr
  case kalloc hr hi                => have ⟨_, _, hi⟩ := hi; exact hi.kalloc hr
  case process hm hi               => have ⟨_, _, hi⟩ := hi; exact ⟨_, _, hi.process hm⟩
  case lcr3 hd hi                  =>
    have ⟨use', free', hi⟩ := hi
    exact ⟨use', free', hi.owns.with_cr3 _, hd, hi.dirs, hi.zero⟩
