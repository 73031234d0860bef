import Yabloko.Kernel.PageLists
import Yabloko.Kernel.UserMemory

inductive VmOp
  | setupkvm
  | allocuvm (d base top : Nat)
  | freevm (d : Nat)

-- The machine, with the live directories and the pages which each of them has acquired.
structure VmState where
  machine  : Machine
  dirs     : List Nat
  acquired : Nat → List Nat

namespace VmState

def boot (s : Machine) : VmState where
  machine := s
  dirs := [v2p s.kvm]
  acquired _ := [v2p s.kvm]

-- The pages which are not free any more.
def taken (s s' : Machine) : List Nat :=
  s.freePages.filter (· ∉ s'.freePages)

def call {α : Type} (σ : VmState) (f : Kernel α) : Except Fault (α × Machine) :=
  match f.run σ.machine with
  | .ok a s    => .ok (a, s)
  | .error e _ => .error e

def step (σ : VmState) : VmOp → Except Fault VmState
  | .setupkvm            => do
    let (pgdir, s) ← σ.call Kernel.setupkvm
    return {
      machine := s
      dirs := v2p pgdir :: σ.dirs
      acquired := Function.update σ.acquired (v2p pgdir) (taken σ.machine s) }
  | .allocuvm d base top => do
    let (_, s) ← σ.call <| Kernel.allocuvm (p2v d) base top
    return { σ with
      machine := s
      acquired := Function.update σ.acquired d (σ.acquired d ++ taken σ.machine s) }
  | .freevm d            => do
    let (_, s) ← σ.call <| Kernel.freevm (p2v d)
    return { σ with machine := s, dirs := σ.dirs.erase d }

def Allowed (σ : VmState) : VmOp → Prop
  | .setupkvm            => σ.machine.freePages ≠ []
  | .allocuvm d base top => d ∈ σ.dirs ∧ userBase ≤ base ∧ base ≤ top ∧ top ≤ kernbase ∧
      ∀ va, pgroundup base ≤ va → va < top → { σ.machine with cr3 := d }.translate va = none
  | .freevm d            => d ∈ σ.dirs ∧ d ≠ v2p σ.machine.kvm

def run (σ : VmState) (ops : List VmOp) : Except Fault VmState :=
  ops.foldlM step σ

def Valid (σ : VmState) : List VmOp → Prop
  | []        => True
  | op :: ops => σ.Allowed op ∧ ∀ σ', σ.step op = .ok σ' → σ'.Valid ops

end VmState

-- Every page is free, or belongs to one of the live directories, which have acquired these pages.
structure VmState.Conserved (σ : VmState) (use : Nat → Use) (free : List Nat) : Prop where
  owns     : σ.machine.Owns use free
  dirs     : ∀ d, d ∈ σ.dirs ↔ use d = .dir
  nodup    : σ.dirs.Nodup
  managed  : ∀ p, IsPage p → use p = .free ∨ (use p).Paging
  acquired : ∀ d, use d = .dir → (σ.acquired d).Nodup ∧ ∀ p, p ∈ σ.acquired d ↔ Belongs use d p

variable {σ σ' : VmState} {use use' : Nat → Use} {p q i j d d' t f v n a base top : Nat}
  {s s' : Machine} {free free' : List Nat}

namespace VmState

theorem call_ok {α : Type} {f : Kernel α} {r : α} (hr : f.run σ.machine = .ok r s) :
    σ.call f = .ok (r, s) := by
  rw [call, hr]

theorem step_setupkvm {pgdir : Nat} (hr : Kernel.setupkvm.run σ.machine = .ok pgdir s)
    (hv : v2p pgdir = d) : σ.step .setupkvm = .ok {
      machine := s
      dirs := d :: σ.dirs
      acquired := Function.update σ.acquired d (taken σ.machine s) } := by
  rw [step, call_ok hr, ← hv]
  rfl

theorem step_allocuvm {r : Int} {pgdir : Nat}
    (hr : (Kernel.allocuvm pgdir base top).run σ.machine = .ok r s) (hv : p2v d = pgdir) :
    σ.step (.allocuvm d base top) = .ok { σ with
      machine := s
      acquired := Function.update σ.acquired d (σ.acquired d ++ taken σ.machine s) } := by
  rw [step, hv, call_ok hr]
  rfl

theorem step_freevm (hr : (Kernel.freevm (p2v d)).run σ.machine = .ok () s) :
    σ.step (.freevm d) = .ok { σ with machine := s, dirs := σ.dirs.erase d } := by
  rw [step, call_ok hr]
  rfl

theorem mem_taken (h : s.Owns use free) (h' : s'.Owns use' free') :
    p ∈ taken s s' ↔ use p = .free ∧ use' p ≠ .free := by
  rw [taken, List.mem_filter, h.freePages_eq, h'.freePages_eq, decide_eq_true_iff, h.mem_iff,
    h'.mem_iff]

theorem nodup_taken (h : s.Owns use free) (s' : Machine) : (taken s s').Nodup := by
  rw [taken, h.freePages_eq]
  exact h.nodup.filter _

namespace Conserved

theorem belongs_iff (h : σ.Conserved use free) : (use p).Paging ↔ ∃ d ∈ σ.dirs, Belongs use d p := by
  constructor
  case mp  =>
    intro hp
    cases hu : use p with
    | dir       => exact ⟨p, (h.dirs p).mpr hu, .inl ⟨hu, rfl⟩⟩
    | table d i => exact ⟨d, (h.dirs d).mpr (h.owns.mapped.table p d i hu).left, .inr <| .inl ⟨i, hu⟩⟩
    | frame d v =>
      obtain ⟨t, ht, _⟩ := h.owns.mapped.frame p d v hu
      exact ⟨d, (h.dirs d).mpr (h.owns.mapped.table t d _ ht).left, .inr <| .inr ⟨v, hu⟩⟩
    | unmanaged | free | held => simp [hu, Use.Paging] at hp
  case mpr =>
    rintro ⟨d, _, hb⟩
    exact hb.paging

theorem mem_pages (h : σ.Conserved use free) :
    p ∈ σ.dirs.flatMap (dirPages σ.machine.mem) ↔ (use p).Paging := by
  rw [List.mem_flatMap, h.belongs_iff]
  exact exists_congr fun d => and_congr_right fun hd => h.owns.mem_dirPages <| (h.dirs d).mp hd

theorem nodup_pages (h : σ.Conserved use free) :
    (σ.dirs.flatMap (dirPages σ.machine.mem)).Nodup := by
  rw [List.nodup_flatMap]
  constructor
  case left  => exact fun d hd => h.owns.nodup_dirPages <| (h.dirs d).mp hd
  case right =>
    apply List.Nodup.pairwise_of_forall_ne h.nodup
    intro d hd d' hd' hn
    exact h.owns.disjoint_dirPages ((h.dirs d).mp hd) ((h.dirs d').mp hd') hn

-- The free pages and the pages of the directories, which are read off the memory, are all pages.
theorem perm (h : σ.Conserved use free) :
    (σ.machine.freePages ++ σ.dirs.flatMap (dirPages σ.machine.mem)).Perm allPages := by
  rw [h.owns.freePages_eq]
  have hn : (free ++ σ.dirs.flatMap (dirPages σ.machine.mem)).Nodup := by
    rw [List.nodup_append']
    refine ⟨h.owns.nodup, h.nodup_pages, fun p hp hp' => ?_⟩
    rw [h.owns.mem_iff] at hp
    simp [h.mem_pages, hp, Use.Paging] at hp'
  apply (List.perm_ext_iff_of_nodup hn nodup_allPages).mpr
  intro p
  rw [List.mem_append, h.owns.mem_iff, h.mem_pages, mem_allPages]
  constructor
  case mpr => exact h.managed p
  case mp  =>
    intro hp
    apply h.owns.page
    intro hu
    simp [hu, Use.Paging] at hp

theorem dirPages_perm (h : σ.Conserved use free) (hd : d ∈ σ.dirs) :
    (dirPages σ.machine.mem d).Perm (σ.acquired d) := by
  have hd := (h.dirs d).mp hd
  apply (List.perm_ext_iff_of_nodup (h.owns.nodup_dirPages hd) (h.acquired d hd).left).mpr
  intro p
  rw [h.owns.mem_dirPages hd, (h.acquired d hd).right]

-- Free pages become pages of one directory.
theorem grow (h : σ.Conserved use free) (h' : s'.Owns use' free')
    (hk : ∀ p, use p ≠ .free → use' p = use p)
    (hf : ∀ p, use p = .free → use' p = .free ∨ Belongs use' d p) {dirs old : List Nat}
    (hd : ∀ d, d ∈ dirs ↔ use' d = .dir) (hn : dirs.Nodup) (ho : old.Nodup)
    (hb : ∀ p, p ∈ old ↔ Belongs use d p) : Conserved {
      machine := s'
      dirs
      acquired := Function.update σ.acquired d (old ++ taken σ.machine s') } use' free' where
  owns := h'
  dirs := hd
  nodup := hn
  managed p hp := by
    cases h.managed p hp
    case inl hu => exact (hf p hu).imp_right Belongs.paging
    case inr hu =>
      rw [hk p fun he => by simp [he, Use.Paging] at hu]
      exact .inr hu
  acquired d' hd' := by
    have hold p (hp : use p = .free) (d) : ¬Belongs use d p := by simp [Belongs, hp]
    by_cases he : d' = d
    case pos =>
      simp only [he, Function.update_self]
      constructor
      case left  =>
        refine List.nodup_append'.mpr ⟨ho, nodup_taken h.owns s', fun p hp hp' => ?_⟩
        exact hold p ((mem_taken h.owns h').mp hp').left d <| (hb p).mp hp
      case right =>
        intro p
        rw [List.mem_append, hb, mem_taken h.owns h']
        by_cases hp : use p = .free
        case pos =>
          rw [or_iff_right <| hold p hp d]
          exact ⟨fun hc => (hf p hp).resolve_left hc.right, fun hc => ⟨hp, hc.ne_free⟩⟩
        case neg => simp [Belongs, hk p hp, hp]
    case neg =>
      simp only [Function.update_of_ne he]
      have hu : use d' = .dir := by
        by_cases hp : use d' = .free
        case neg => rwa [← hk d' hp]
        case pos =>
          rcases hf d' hp with hc | ⟨_, hc⟩ | ⟨_, hc⟩ | ⟨_, hc⟩
          case inr.inl => exact absurd hc he
          all_goals simp [hd'] at hc
      obtain ⟨hn', hb'⟩ := h.acquired d' hu
      refine ⟨hn', fun p => ?_⟩
      rw [hb']
      by_cases hp : use p = .free
      case neg => simp only [Belongs, hk p hp]
      case pos =>
        rw [iff_false_left <| hold p hp d']
        intro hc
        cases hf p hp
        case inl hc' => exact hc.ne_free hc'
        case inr hc' => exact he <| hc.unique hc'

theorem setupkvm (h : σ.Conserved use free) (ha : σ.Allowed .setupkvm) :
    ∃ σ' use' free', σ.step .setupkvm = .ok σ' ∧ σ'.Conserved use' free' := by
  rw [Allowed, h.owns.freePages_eq] at ha
  match free, h with
  | [], _         => exact absurd rfl ha
  | p :: free', h =>
    have ⟨mem, freelist, hr, h', _⟩ := h.owns.setupkvm_cons
    have hp := (h.owns.mem_iff p).mp (by simp)
    have hpp := h.owns.page (p := p) (by simp [hp])
    have hother {q} (hq : q ≠ p) : Function.update use p .dir q = use q := Function.update_of_ne hq _ _
    refine ⟨_, Function.update use p .dir, free', step_setupkvm hr <| v2p_kernbase hpp.upper, ?_⟩
    refine h.grow h' ?hk ?hf ?hd ?hn List.nodup_nil ?hb
    case hk => exact fun q hq => hother fun he => hq <| he ▸ hp
    case hf =>
      intro q hq
      by_cases hqp : q = p
      case pos => exact .inr <| .inl ⟨by simp [hqp], hqp⟩
      case neg => exact .inl <| by rwa [hother hqp]
    case hd =>
      intro d
      rw [List.mem_cons]
      by_cases hd : d = p
      case pos => simp [hd]
      case neg => rw [or_iff_right hd, h.dirs, hother hd]
    case hn => exact List.nodup_cons.mpr ⟨by simp [h.dirs, hp], h.nodup⟩
    case hb =>
      intro q
      rw [iff_false_left (by simp)]
      rintro (⟨hu, he⟩ | ⟨i, hu⟩ | ⟨v, hu⟩)
      case inl     => simp [he, hp] at hu
      case inr.inl => simp [(h.owns.mapped.table q p i hu).left] at hp
      case inr.inr =>
        have ⟨t, ht, _⟩ := h.owns.mapped.frame q p v hu
        simp [(h.owns.mapped.table t p _ ht).left] at hp

theorem allocuvm (h : σ.Conserved use free) (ha : σ.Allowed (.allocuvm d base top)) :
    ∃ σ' use' free', σ.step (.allocuvm d base top) = .ok σ' ∧ σ'.Conserved use' free' := by
  have ⟨hd, _, hbt, htop, hmap⟩ := ha
  have hdir := (h.dirs d).mp hd
  have hdp := h.owns.page (p := d) (by simp [hdir])
  have ⟨r, s', use', free', k, hr, hx⟩ := h.owns.allocuvm hdir hbt htop fun v hv hvt ⟨f, hf⟩ => by
    have hvt' : v < 2 ^ 19 := by
      simp only [pgsize, kernbase] at hvt htop
      omega
    have ho : Machine.Owns { σ.machine with cr3 := d } use free := { h.owns with }
    have ht := ho.translate_frame hf hvt' (n := 0) (by decide)
    rw [Nat.add_zero, hmap _ hv hvt] at ht
    cases ht
  have hnf : use d ≠ .free := by simp [hdir]
  refine ⟨_, use', free', step_allocuvm hr <| p2v_eq hdp.upper, ?_⟩
  apply h.grow hx.owns hx.extend.uses
  case hf =>
    intro p hp
    rcases hx.extend.free p hp with hc | ⟨i, hc⟩ | ⟨v, hc⟩
    case inl     => exact .inl hc
    case inr.inl => exact .inr <| .inr <| .inl ⟨i, hc⟩
    case inr.inr => exact .inr <| .inr <| .inr ⟨v, hc⟩
  case hd =>
    intro d'
    rw [h.dirs]
    by_cases hp : use d' = .free
    case neg => rw [hx.extend.uses d' hp]
    case pos =>
      rcases hx.extend.free d' hp with hc | ⟨i, hc⟩ | ⟨v, hc⟩
      all_goals simp [hp, hc]
  case hn => exact h.nodup
  case ho => exact (h.acquired d hdir).left
  case hb => exact (h.acquired d hdir).right

theorem freevm (h : σ.Conserved use free) (ha : σ.Allowed (.freevm d)) :
    ∃ s' use' free', (Kernel.freevm (p2v d)).run σ.machine = .ok () s' ∧
      Conserved { σ with machine := s', dirs := σ.dirs.erase d } use' free' ∧
      s'.freePages.Perm (σ.acquired d ++ σ.machine.freePages) := by
  have hdir := (h.dirs d).mp ha.left
  have hdp := h.owns.page (p := d) (by simp [hdir])
  obtain ⟨s', hr, hu⟩ := h.owns.freevm hdir
  obtain ⟨free', ho⟩ := hu.owns
  have hfree {p} (hp : Belongs use d p) : partly use d (Belongs use d) p = .free := partly_of_done hp
  have hother {p} (hp : ¬Belongs use d p) : partly use d (Belongs use d) p = use p :=
    partly_of_not_belongs (fun _ => id) hp
  rw [← p2v_eq hdp.upper] at hr
  refine ⟨s', partly use d (Belongs use d), free', hr, ?_, ?_⟩
  · exact {
      owns := ho
      dirs := fun d' => by
        rw [h.nodup.mem_erase_iff, h.dirs]
        by_cases hp : Belongs use d d'
        case neg =>
          rw [hother hp, and_iff_right_iff_imp]
          exact fun hu he => hp <| .inl ⟨hu, he⟩
        case pos =>
          simp only [hfree hp, reduceCtorEq, iff_false, not_and]
          intro hn hu
          simp [Belongs, hu, hn] at hp
      nodup := h.nodup.erase d
      managed := fun p hp => by
        by_cases hb : Belongs use d p
        case pos => exact .inl <| hfree hb
        case neg => rw [hother hb]; exact h.managed p hp
      acquired := fun d' hd' => by
        have hb : ¬Belongs use d d' := fun hb => by simp [hfree hb] at hd'
        rw [hother hb] at hd'
        refine ⟨(h.acquired d' hd').left, fun p => ?_⟩
        rw [(h.acquired d' hd').right]
        by_cases hp : Belongs use d p
        case neg => simp only [Belongs, hother hp]
        case pos =>
          constructor
          case mp  =>
            intro hp'
            exact absurd (.inl ⟨hd', hp'.unique hp⟩) hb
          case mpr => exact fun hp' => absurd (hfree hp) hp'.ne_free }
  · obtain ⟨hn, hm⟩ := h.acquired d hdir
    rw [ho.freePages_eq, h.owns.freePages_eq]
    have hn' : (σ.acquired d ++ free).Nodup := by
      refine List.nodup_append'.mpr ⟨hn, h.owns.nodup, fun p hp hp' => ?_⟩
      exact ((hm p).mp hp).ne_free <| (h.owns.mem_iff p).mp hp'
    apply (List.perm_ext_iff_of_nodup ho.nodup hn').mpr
    intro p
    rw [ho.mem_iff, List.mem_append, hm, h.owns.mem_iff]
    by_cases hp : Belongs use d p
    case pos => simp [hfree hp, hp]
    case neg => simp [hother hp, hp]

theorem step (h : σ.Conserved use free) {op : VmOp} (ha : σ.Allowed op) :
    ∃ σ' use' free', σ.step op = .ok σ' ∧ σ'.Conserved use' free' := by
  cases op
  case setupkvm => exact h.setupkvm ha
  case allocuvm => exact h.allocuvm ha
  case freevm   =>
    have ⟨s', use', free', hr, h', _⟩ := h.freevm ha
    exact ⟨_, use', free', step_freevm hr, h'⟩

theorem run (h : σ.Conserved use free) {ops : List VmOp} (hv : σ.Valid ops) :
    ∃ σ' use' free', σ.run ops = .ok σ' ∧ σ'.Conserved use' free' := by
  induction ops generalizing σ use free
  case nil => exact ⟨σ, use, free, rfl, h⟩
  case cons op ops hi =>
    have ⟨σ₁, use₁, free₁, hr, h₁⟩ := h.step hv.left
    have ⟨σ', use', free', hr', h'⟩ := hi h₁ <| hv.right σ₁ hr
    refine ⟨σ', use', free', ?_, h'⟩
    rw [VmState.run, List.foldlM_cons, hr]
    exact hr'

end Conserved

theorem conserved_boot {k : Nat} (h : Booted s use free k) : (boot s).Conserved use free := by
  have hkp := h.owns.page (p := k) (by simp [h.dir])
  have hk : v2p s.kvm = k := by rw [h.kvm, v2p_kernbase hkp.upper]
  have hu p (hp : p ≠ k) : use p = .free ∨ use p = .unmanaged := by
    by_cases hc : IsPage p
    case pos => exact .inl <| h.free p hc hp
    case neg =>
      right
      by_contra hn
      exact hc <| h.owns.page hn
  exact {
    owns := h.owns
    dirs := fun d => by
      rw [boot, hk, List.mem_singleton]
      constructor
      case mp  => exact fun he => he ▸ h.dir
      case mpr =>
        intro hd
        by_contra hn
        cases hu d hn
        all_goals simp_all
    nodup := List.nodup_singleton _
    managed := fun p hp => by
      by_cases he : p = k
      case pos => simp [he, h.dir, Use.Paging]
      case neg => exact .inl <| h.free p hp he
    acquired := fun d hd => by
      have hdk : d = k := by
        by_contra hn
        simpa [hd] using hu d hn
      refine ⟨List.nodup_singleton _, fun p => ?_⟩
      rw [boot, hk, List.mem_singleton, hdk]
      constructor
      case mp  => exact fun he => .inl ⟨he ▸ h.dir, he⟩
      case mpr =>
        intro hb
        by_contra hn
        have hp := hb.paging
        cases hu p hn
        all_goals simp_all [Use.Paging] }

end VmState

theorem Kernel.pages_conserved {s s₀ : Machine} {ops : List VmOp} (hf : s.freelist = 0)
    (ht : s.userTask = 0) (hr : Kernel.kmain.run s = .ok () s₀) (hv : (VmState.boot s₀).Valid ops) :
    ∃ σ, (VmState.boot s₀).run ops = .ok σ ∧
      (σ.machine.freePages ++ σ.dirs.flatMap (dirPages σ.machine.mem)).Perm allPages ∧
      ∀ d ∈ σ.dirs, (dirPages σ.machine.mem d).Perm (σ.acquired d) ∧
        (d ≠ v2p σ.machine.kvm → ∃ s', (Kernel.freevm (p2v d)).run σ.machine = .ok () s' ∧
          s'.freePages.Perm (σ.acquired d ++ σ.machine.freePages)) := by
  have ⟨s₁, use, free, k, hr₁, hb, _⟩ := Kernel.kmain_booted hf ht
  rw [hr] at hr₁
  cases hr₁
  have ⟨σ, use', free', hσ, h⟩ := (VmState.conserved_boot hb).run hv
  refine ⟨σ, hσ, h.perm, fun d hd => ⟨h.dirPages_perm hd, fun hk => ?_⟩⟩
  have ⟨s', _, _, hr', _, hp⟩ := h.freevm ⟨hd, hk⟩
  exact ⟨s', hr', hp⟩

-- A process gets two pages, and then as many as there are. Afterwards, it is taken apart.
theorem Kernel.pages_conserved_exhausted : ∃ s₀ d σ σ', Kernel.kmain.run .zero = .ok () s₀ ∧
    (VmState.boot s₀).run [.setupkvm, .allocuvm d userBase (userBase + 2 * pgsize),
      .allocuvm d (userBase + 2 * pgsize) kernbase] = .ok σ ∧
    σ.machine.exhausted = true ∧
    (σ.machine.freePages ++ σ.dirs.flatMap (dirPages σ.machine.mem)).Perm allPages ∧
    (dirPages σ.machine.mem d).Perm (σ.acquired d) ∧
    (∃ s', (Kernel.freevm (p2v d)).run σ.machine = .ok () s' ∧
      s'.freePages.Perm (σ.acquired d ++ σ.machine.freePages)) ∧
    (VmState.boot s₀).run [.setupkvm, .allocuvm d userBase (userBase + 2 * pgsize),
      .allocuvm d (userBase + 2 * pgsize) kernbase, .freevm d] = .ok σ' ∧
    (σ'.machine.freePages ++ σ'.dirs.flatMap (dirPages σ'.machine.mem)).Perm allPages := by
  have ⟨s₀, use, free, k, hr, hb, _⟩ := Kernel.kmain_booted (s := .zero) rfl rfl
  have ⟨d, s₁, use₁, free₁, s₂, use₂, free₂, hr₁, h₁, hd₁, hk₁, hdk, hm₁, hr₂, h₂⟩ := hb.exists_mapped 2 (by decide)
  have hdp := h₁.page (p := d) (by simp [hd₁])
  have hd₂ : use₂ d = .dir := by rw [h₂.extend.uses d (by simp [hd₁]), hd₁]
  have hm₂ v (hv : userBase / pgsize + 2 ≤ v) : ¬Maps use₂ d v := by
    rw [h₂.maps, or_iff_right (hm₁ v)]
    exact fun hc => Nat.not_lt.mpr hv hc.right
  have ⟨s₃, _, _, _, hr₃, hx₃, he₃⟩ := h₂.owns.allocuvm_exhausted hd₂ (by decide) hm₂
  have hv := v2p_kernbase hdp.upper
  have hp := p2v_eq hdp.upper
  let σ₁ : VmState := ⟨s₁, [d, v2p s₀.kvm],
    Function.update (VmState.boot s₀).acquired d <| VmState.taken s₀ s₁⟩
  let σ₂ : VmState := { σ₁ with
    machine := s₂
    acquired := Function.update σ₁.acquired d (σ₁.acquired d ++ VmState.taken s₁ s₂) }
  let σ₃ : VmState := { σ₂ with
    machine := s₃
    acquired := Function.update σ₂.acquired d (σ₂.acquired d ++ VmState.taken s₂ s₃) }
  have hs₁ : (VmState.boot s₀).step .setupkvm = .ok σ₁ := VmState.step_setupkvm hr₁ hv
  have hs₂ : σ₁.step (.allocuvm d userBase (userBase + 2 * pgsize)) = .ok σ₂ := VmState.step_allocuvm hr₂ hp
  have hs₃ : σ₂.step (.allocuvm d (userBase + 2 * pgsize) kernbase) = .ok σ₃ := VmState.step_allocuvm hr₃ hp
  have hkd : v2p s₀.kvm = k := by rw [hb.kvm, v2p_kernbase (hb.owns.page (p := k) (by simp [hb.dir])).upper]
  -- The ranges are not mapped before.
  have hnone {s use free} (h : Machine.Owns s use free) (hd : use d = .dir) {n : Nat}
      (hm : ∀ v, userBase / pgsize + n ≤ v → ¬Maps use d v) (va : Nat)
      (hl : userBase + n * pgsize ≤ va) (hu : va < kernbase) : { s with cr3 := d }.translate va = none := by
    have ⟨hv, hn, he⟩ := Machine.Owns.user_split hu
    have ht := (h.with_cr3 d).translate_none hd (hm (va / pgsize) ?_) hv hn
    · rwa [he] at ht
    · simp only [userBase, pgsize] at hl ⊢
      omega
  have ha₁ : (VmState.boot s₀).Allowed .setupkvm := by
    rw [VmState.Allowed, VmState.boot, hb.owns.freePages_eq]
    exact List.ne_nil_of_length_pos <| by rw [hb.length_eq]; decide
  have ha₂ : σ₁.Allowed (.allocuvm d userBase (userBase + 2 * pgsize)) :=
    ⟨List.mem_cons_self, Nat.le_refl _, by decide, by decide, fun va hl hu =>
      hnone h₁ hd₁ (n := 0) (fun v _ => hm₁ v) va hl (Nat.lt_trans hu (by decide))⟩
  have ha₃ : σ₂.Allowed (.allocuvm d (userBase + 2 * pgsize) kernbase) :=
    ⟨List.mem_cons_self, by decide, by decide, Nat.le_refl _, fun va hl hu => hnone h₂.owns hd₂ hm₂ va hl hu⟩
  have hvalid ops (h : σ₃.Valid ops) : (VmState.boot s₀).Valid (.setupkvm ::
      .allocuvm d userBase (userBase + 2 * pgsize) :: .allocuvm d (userBase + 2 * pgsize) kernbase :: ops) := by
    refine ⟨ha₁, fun σ hσ => ?_⟩
    cases hs₁.symm.trans hσ
    refine ⟨ha₂, fun σ hσ => ?_⟩
    cases hs₂.symm.trans hσ
    refine ⟨ha₃, fun σ hσ => ?_⟩
    cases hs₃.symm.trans hσ
    exact h
  have hrun : (VmState.boot s₀).run [.setupkvm, .allocuvm d userBase (userBase + 2 * pgsize),
      .allocuvm d (userBase + 2 * pgsize) kernbase] = .ok σ₃ := by
    simp only [VmState.run, List.foldlM_cons, hs₁, hs₂, hs₃, bind, Except.bind]
    rfl
  have ⟨σ, hσ, hperm, hdirs⟩ := pages_conserved rfl rfl hr <| hvalid [] trivial
  cases hrun.symm.trans hσ
  have hne : d ≠ v2p s₃.kvm := by
    rw [hx₃.extend.kvm, h₂.extend.kvm, hk₁, hkd]
    exact hdk
  have ⟨σ', hσ', hperm', _⟩ := pages_conserved rfl rfl hr <| hvalid [.freevm d]
    ⟨⟨List.mem_cons_self, hne⟩, fun _ _ => trivial⟩
  have ⟨hd, hf⟩ := hdirs d List.mem_cons_self
  exact ⟨s₀, d, σ₃, σ', hr, hrun, he₃, hperm, hd, hf hne, hσ', hperm'⟩
