import Yabloko.Kernel.Alloc

-- The page belongs to a directory: it is the directory, one of its tables, or a page which it maps.
def Belongs (use : Nat → Use) (d p : Nat) : Prop :=
  (use p = .dir ∧ p = d) ∨ (∃ i, use p = .table d i) ∨ ∃ v, use p = .frame d v

open Classical in
-- The use of the pages while a directory is taken apart, and some of its pages are free again.
noncomputable def partly (use : Nat → Use) (d : Nat) (done : Nat → Prop) (p : Nat) : Use :=
  if done p then .free else if Belongs use d p then .held else use p

variable {use use' : Nat → Use} {p q i j d t t' f f' v n : Nat} {s s' s₁ : Machine}
  {free free' : List Nat} {done done' : Nat → Prop}

theorem partly_of_done (h : done p) : partly use d done p = .free :=
  if_pos h

theorem partly_of_belongs (h : ¬done p) (hb : Belongs use d p) : partly use d done p = .held := by
  rw [partly, if_neg h, if_pos hb]

theorem partly_of_not_belongs (hd : ∀ p, done p → Belongs use d p) (hb : ¬Belongs use d p) :
    partly use d done p = use p := by
  rw [partly, if_neg fun h => hb <| hd p h, if_neg hb]

theorem partly_congr (h : ∀ p, done p ↔ done' p) : partly use d done = partly use d done' := by
  have he : done = done' := funext fun p => propext (h p)
  rw [he]

-- The pages of other directories keep their uses.
theorem partly_belongs (hp : ¬Belongs use d p) : partly use d (Belongs use d) p = use p :=
  partly_of_not_belongs (fun _ => id) hp

theorem Maps.of_partly (h : Maps (partly use d (Belongs use d)) i v) : Maps use i v := by
  have ⟨f, hf⟩ := h
  by_cases hb : Belongs use d f
  case pos => simp [partly_of_done hb] at hf
  case neg => exact ⟨f, by rwa [partly_belongs hb] at hf⟩

theorem update_partly (use : Nat → Use) (d : Nat) (done : Nat → Prop) (p : Nat) :
    Function.update (partly use d done) p .free = partly use d fun q => done q ∨ q = p := by
  funext q
  by_cases hq : q = p
  case pos => rw [hq, Function.update_self, partly_of_done <| .inr rfl]
  case neg =>
    rw [Function.update_of_ne hq]
    by_cases hd : done q <;> simp [partly, hd, hq]

namespace Machine.Owns

theorem table_unique (h : s.Owns use free) (ht : use t = .table d i) (ht' : use t' = .table d i) :
    t = t' := by
  have ⟨_, _, h₁⟩ := h.mapped.table t d i ht
  have ⟨_, _, h₂⟩ := h.mapped.table t' d i ht'
  omega

theorem frame_unique (h : s.Owns use free) (hf : use f = .frame d v) (hf' : use f' = .frame d v) :
    f = f' := by
  have ⟨t, ht, h₁⟩ := h.mapped.frame f d v hf
  have ⟨t', ht', h₂⟩ := h.mapped.frame f' d v hf'
  have he := h.table_unique ht ht'
  subst he
  omega

-- The pages of a directory can be given back: no other directory refers to them.
theorem detach (h : s.Owns use free) (d : Nat) : s.Owns (partly use d fun _ => False) free := by
  have hne {u : Use} (hu : u ≠ .held) (p : Nat) :
      partly use d (fun _ => False) p = u ↔ use p = u ∧ ¬Belongs use d p := by
    by_cases hb : Belongs use d p
    case pos => simp [partly, hb, hu.symm]
    case neg => simp [partly, hb]
  have ht {d' i p} (hn : d' ≠ d) (hp : use p = .table d' i) : ¬Belongs use d p := by
    simp [Belongs, hp, hn]
  have hf {d' v p} (hn : d' ≠ d) (hp : use p = .frame d' v) : ¬Belongs use d p := by
    simp [Belongs, hp, hn]
  have hd {d'} (hn : d' ≠ d) (hp : use d' = .dir) : ¬Belongs use d d' := by
    simp [Belongs, hp, hn]
  have hdn {d'} (hp : use d' = .dir) (hb : ¬Belongs use d d') : d' ≠ d :=
    fun he => hb <| .inl ⟨hp, he⟩
  have htn {d' i p} (hp : use p = .table d' i) (hb : ¬Belongs use d p) : d' ≠ d :=
    fun he => hb <| .inr <| .inl ⟨i, he ▸ hp⟩
  have hfn {d' v p} (hp : use p = .frame d' v) (hb : ¬Belongs use d p) : d' ≠ d :=
    fun he => hb <| .inr <| .inr ⟨v, he ▸ hp⟩
  exact {
    mapped := {
      page := fun p hp => by
        apply h.page
        intro hu
        exact hp <| (hne (by simp) p).mpr ⟨hu, by simp [Belongs, hu]⟩
      kernel := fun d' hu => h.mapped.kernel d' ((hne (by simp) d').mp hu).left
      tables := fun d' hu i hi => by
        have ⟨hu, hb⟩ := (hne (by simp) d').mp hu
        refine (h.mapped.tables d' hu i hi).imp_right fun ⟨t, ht', he⟩ => ⟨t, ?_, he⟩
        exact (hne (by simp) t).mpr ⟨ht', ht (hdn hu hb) ht'⟩
      table := fun t d' i hu => by
        have ⟨hu, hb⟩ := (hne (by simp) t).mp hu
        have ⟨hu', hi, he⟩ := h.mapped.table t d' i hu
        exact ⟨(hne (by simp) d').mpr ⟨hu', hd (htn hu hb) hu'⟩, hi, he⟩
      frames := fun t d' i hu j hj => by
        have ⟨hu, hb⟩ := (hne (by simp) t).mp hu
        refine (h.mapped.frames t d' i hu j hj).imp_right fun ⟨f, hf', he⟩ => ⟨f, ?_, he⟩
        exact (hne (by simp) f).mpr ⟨hf', hf (htn hu hb) hf'⟩
      frame := fun f d' v hu => by
        have ⟨hu, hb⟩ := (hne (by simp) f).mp hu
        have ⟨t, ht', he⟩ := h.mapped.frame f d' v hu
        exact ⟨t, (hne (by simp) t).mpr ⟨ht', ht (hfn hu hb) ht'⟩, he⟩ }
    list := h.list
    nodup := h.nodup
    mem_iff := fun p => by
      rw [hne (by simp), h.mem_iff, iff_self_and]
      exact fun hu => by simp [Belongs, hu] }

end Machine.Owns

-- A state in which some pages of the directory have been given back, and the others are unchanged.
structure Undoing (d : Nat) (s : Machine) (use : Nat → Use) (done : Nat → Prop) (s' : Machine) :
    Prop where
  owns    : ∃ free', s'.Owns (partly use d done) free'
  belongs : ∀ p, done p → Belongs use d p
  kept    : ∀ p, use p ≠ .unmanaged → use p ≠ .free → ¬done p → SamePage p s.mem s'.mem
  steady  : s.Steady s'
  low     : SameLow s.mem s'.mem

namespace Undoing

theorem congr (h : Undoing d s use done s₁) (he : ∀ p, done p ↔ done' p) :
    Undoing d s use done' s₁ where
  owns := by
    rw [← partly_congr he]
    exact h.owns
  belongs p hp := h.belongs p <| (he p).mpr hp
  kept p hu hf hp := h.kept p hu hf <| mt (he p).mp hp
  steady := h.steady
  low := h.low

theorem kfree (h : Undoing d s use done s₁) (hp : Belongs use d p) (hn : ¬done p) : ∃ s',
    (Kernel.kfree (kernbase + p)).run s₁ = .ok () s' ∧
    Undoing d s use (fun q => done q ∨ q = p) s' := by
  have ⟨free', ho⟩ := h.owns
  have hu := partly_of_belongs hn hp
  have ⟨mem, hr, ho', hm⟩ := ho.kfree_held hu
  refine ⟨_, hr, ?_⟩
  exact {
    owns := ⟨_, update_partly use d done p ▸ ho'⟩
    belongs := fun q hq => hq.elim (h.belongs q) fun he => he ▸ hp
    kept := fun q hu' hf hq => by
      simp only [not_or] at hq
      have hqq := ho.page (p := q) <| by
        rw [partly, if_neg hq.left]
        split
        case isTrue  => simp
        case isFalse => exact hu'
      exact (h.kept q hu' hf hq.left).trans <|
        hqq.samePage (ho.page (by simp [hu])) hq.right hm ⟨Nat.le_refl _, Nat.le_refl _⟩
    steady := { h.steady with }
    low := h.low.trans <| .of_agree hm <| Nat.le_trans (by decide) (ho.page (by simp [hu])).lower }

end Undoing

-- The tables with an index below `i`, and the pages which they map.
def Below (use : Nat → Use) (d i p : Nat) : Prop :=
  (∃ k < i, use p = .table d k) ∨ ∃ v, v / 1024 < i ∧ use p = .frame d v

-- In addition, the pages of the first `j` entries of table `i`.
def Started (use : Nat → Use) (d i j p : Nat) : Prop :=
  Below use d i p ∨ ∃ v, v / 1024 = i ∧ v % 1024 < j ∧ use p = .frame d v

namespace Undoing

theorem load32_eq (h : Undoing d s use done s₁) (ho : s.Owns use free) (hp : Belongs use d p)
    (hn : ¬done p) (hi : i < 1024) :
    (Kernel.load32 (kernbase + p + 4 * i)).run s₁ = .ok (s.mem.load32 (p + 4 * i)) s₁ := by
  have hu : use p ≠ .unmanaged ∧ use p ≠ .free := by
    rcases hp with hp | ⟨i, hp⟩ | ⟨v, hp⟩
    case inl     => simp [hp.left]
    case inr.inl => simp [hp]
    case inr.inr => simp [hp]
  rw [(ho.page hu.left).loadEntry hi, (h.kept p hu.left hu.right hn).load32_eq hi]

theorem freeEntry (h : Undoing d s use (Started use d i j) s₁) (ho : s.Owns use free)
    (ht : use t = .table d i) (hj : j < 1024) : ∃ s',
    (do
      let pte ← Kernel.load32 (kernbase + t + 4 * j)
      if pte % 2 = 1 then
        Kernel.kfree (p2v (pteAddr pte))).run s₁ = .ok () s' ∧
    Undoing d s use (Started use d i (j + 1)) s' := by
  have htn : ¬Started use d i j t := by
    intro hs
    rcases hs with (⟨k, hk, he⟩ | ⟨v, _, he⟩) | ⟨v, _, _, he⟩
    case inl.inl =>
      rw [ht, Use.table.injEq] at he
      omega
    all_goals simp [ht] at he
  have hstart p : Started use d i (j + 1) p ↔
      Started use d i j p ∨ use p = .frame d (1024 * i + j) := by
    rw [Started, Started, or_assoc]
    apply or_congr_right
    constructor
    case mp  =>
      intro ⟨v, hv, hv', he⟩
      by_cases hvj : v % 1024 = j
      case pos => exact .inr <| by rw [he]; congr 1; omega
      case neg => exact .inl ⟨v, hv, by omega, he⟩
    case mpr =>
      intro hc
      cases hc
      case inl hc => have ⟨v, hv, hv', he⟩ := hc; exact ⟨v, hv, by omega, he⟩
      case inr hc => exact ⟨1024 * i + j, by omega, by omega, hc⟩
  rw [EStateM.bind_ok <| h.load32_eq ho (.inr <| .inl ⟨i, ht⟩) htn hj]
  cases ho.mapped.frames t d i ht j hj
  case inl hz =>
    refine ⟨s₁, by rw [hz]; rfl, h.congr fun p => ?_⟩
    rw [hstart, iff_self_or]
    intro hf
    have hv : (1024 * i + j) / 1024 = i ∧ (1024 * i + j) % 1024 = j := by omega
    have ⟨t', ht', he⟩ := ho.mapped.frame p d _ hf
    rw [hv.left] at ht'
    rw [hv.right, ← ho.table_unique ht ht', hz] at he
    omega
  case inr hf =>
    have ⟨f, hf, he⟩ := hf
    have hfp := ho.page (p := f) (by simp [hf])
    have hfn : ¬Started use d i j f := by
      intro hs
      rcases hs with (⟨k, _, he⟩ | ⟨v, hv, he⟩) | ⟨v, hv, hv', he⟩
      case inl.inl => simp [hf] at he
      case inl.inr =>
        rw [hf, Use.frame.injEq] at he
        omega
      case inr     =>
        rw [hf, Use.frame.injEq] at he
        omega
    have ⟨s', hr, h'⟩ := h.kfree (.inr <| .inr ⟨_, hf⟩) hfn
    refine ⟨s', ?_, h'.congr fun p => ?_⟩
    · rw [he, if_pos hfp.present, hfp.pteAddr_eq, p2v_eq hfp.upper, hr]
    · rw [hstart]
      exact or_congr_right ⟨fun hp => hp ▸ hf, fun hp => ho.frame_unique hp hf⟩

theorem freept (h : Undoing d s use (Below use d i) s₁) (ho : s.Owns use free)
    (ht : use t = .table d i) : ∃ s',
    (Kernel.freept (kernbase + t)).run s₁ = .ok () s' ∧ Undoing d s use (Below use d (i + 1)) s' := by
  have ⟨s₂, hr₂, h₂⟩ := EStateM.forM_range (n := nptentries) (s := s₁)
    (P := fun j => Undoing d s use (Started use d i j))
    (h.congr fun p => by simp [Started])
    (fun j s' hj h' => h'.freeEntry ho ht hj)
  have htn : ¬Started use d i nptentries t := by
    intro hs
    rcases hs with (⟨k, hk, he⟩ | ⟨v, _, he⟩) | ⟨v, _, _, he⟩
    case inl.inl =>
      rw [ht, Use.table.injEq] at he
      omega
    all_goals simp [ht] at he
  have ⟨s', hr, h'⟩ := h₂.kfree (.inr <| .inl ⟨i, ht⟩) htn
  refine ⟨s', ?_, h'.congr fun p => ?_⟩
  · rw [Kernel.freept, EStateM.bind_ok hr₂, hr]
  · constructor
    case mp  =>
      intro hc
      rcases hc with ((⟨k, hk, he⟩ | ⟨v, hv, he⟩) | ⟨v, hv, _, he⟩) | he
      case inl.inl.inl => exact .inl ⟨k, by omega, he⟩
      case inl.inl.inr => exact .inr ⟨v, by omega, he⟩
      case inl.inr     => exact .inr ⟨v, by omega, he⟩
      case inr         => exact .inl ⟨i, by omega, he ▸ ht⟩
    case mpr =>
      intro hc
      rcases hc with ⟨k, hk, he⟩ | ⟨v, hv, he⟩
      case inl =>
        by_cases hki : k = i
        case pos => exact .inr <| ho.table_unique (hki ▸ he) ht
        case neg => exact .inl <| .inl <| .inl ⟨k, by omega, he⟩
      case inr =>
        by_cases hvi : v / 1024 = i
        case pos => exact .inl <| .inr ⟨v, hvi, Nat.mod_lt _ (by decide), he⟩
        case neg => exact .inl <| .inl <| .inr ⟨v, by omega, he⟩

theorem freeTable (h : Undoing d s use (Below use d i) s₁) (ho : s.Owns use free)
    (hd : use d = .dir) (hi : i < 512) : ∃ s',
    (do
      let pde ← Kernel.load32 (kernbase + d + 4 * i)
      if pde % 2 = 1 then
        Kernel.freept (p2v (pteAddr pde))).run s₁ = .ok () s' ∧
    Undoing d s use (Below use d (i + 1)) s' := by
  rw [EStateM.bind_ok <| h.load32_eq ho (.inl ⟨hd, rfl⟩) (by simp [Below, hd]) (by omega)]
  cases ho.mapped.tables d hd i hi
  case inr ht =>
    have ⟨t, ht, he⟩ := ht
    have htp := ho.page (p := t) (by simp [ht])
    rw [he, if_pos htp.present, htp.pteAddr_eq, p2v_eq htp.upper]
    exact h.freept ho ht
  case inl hz =>
    have hnt t (ht : use t = .table d i) : False := by
      have ⟨_, _, he⟩ := ho.mapped.table t d i ht
      omega
    refine ⟨s₁, by rw [hz]; rfl, h.congr fun p => ?_⟩
    constructor
    case mp  =>
      intro hc
      rcases hc with ⟨k, hk, he⟩ | ⟨v, hv, he⟩
      case inl => exact .inl ⟨k, by omega, he⟩
      case inr => exact .inr ⟨v, by omega, he⟩
    case mpr =>
      intro hc
      rcases hc with ⟨k, hk, he⟩ | ⟨v, hv, he⟩
      case inl =>
        by_cases hki : k = i
        case pos => exact (hnt p <| hki ▸ he).elim
        case neg => exact .inl ⟨k, by omega, he⟩
      case inr =>
        by_cases hvi : v / 1024 = i
        case pos =>
          have ⟨t, ht, _⟩ := ho.mapped.frame p d v he
          exact (hnt t <| hvi ▸ ht).elim
        case neg => exact .inr ⟨v, by omega, he⟩

end Undoing

-- All pages of the directory are free again, and nothing else has changed.
theorem Machine.Owns.freevm (h : s.Owns use free) (hd : use d = .dir) : ∃ s',
    (Kernel.freevm (kernbase + d)).run s = .ok () s' ∧ Undoing d s use (Belongs use d) s' := by
  have h₀ : Undoing d s use (Below use d 0) s := {
    owns := ⟨free, by
      have he : ∀ p, False ↔ Below use d 0 p := by simp [Below]
      rw [← partly_congr he]
      exact h.detach d⟩
    belongs := fun p hp => by simp [Below] at hp
    kept := fun _ _ _ _ _ _ => rfl
    steady := ⟨rfl, rfl, rfl, rfl⟩
    low := fun _ _ => rfl }
  have ⟨s₁, hr₁, h₁⟩ := EStateM.forM_range (n := npdentries / 2)
    (P := fun i => Undoing d s use (Below use d i)) h₀
    (fun i s₁ hi h₁ => h₁.freeTable h hd hi)
  have ⟨s', hr, h'⟩ := h₁.kfree (.inl ⟨hd, rfl⟩) (by simp [Below, hd])
  refine ⟨s', ?_, h'.congr fun p => ?_⟩
  · rw [Kernel.freevm, EStateM.bind_ok hr₁, hr]
  · constructor
    case mp  =>
      intro hc
      rcases hc with (⟨k, _, he⟩ | ⟨v, _, he⟩) | he
      case inl.inl => exact .inr <| .inl ⟨k, he⟩
      case inl.inr => exact .inr <| .inr ⟨v, he⟩
      case inr     => exact .inl ⟨he ▸ hd, he⟩
    case mpr =>
      intro hc
      rcases hc with ⟨_, he⟩ | ⟨k, he⟩ | ⟨v, he⟩
      case inl     => exact .inr he
      case inr.inl => exact .inl <| .inl ⟨k, (h.mapped.table p d k he).right.left, he⟩
      case inr.inr =>
        have ⟨t, ht, _⟩ := h.mapped.frame p d v he
        exact .inl <| .inr ⟨v, (h.mapped.table t d _ ht).right.left, he⟩
