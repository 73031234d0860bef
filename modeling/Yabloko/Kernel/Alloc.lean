import Yabloko.Kernel.Paging

-- The directory has a table, or maps a page.
def HasTable (use : Nat → Use) (d i : Nat) : Prop :=
  ∃ t, use t = .table d i

def Maps (use : Nat → Use) (d v : Nat) : Prop :=
  ∃ f, use f = .frame d v

-- Free pages have become tables and frames of a directory. The new frames are filled with zeros, and
-- the contents of all other pages stay as they are.
structure Extends (d : Nat) (s : Machine) (use : Nat → Use) (s' : Machine) (use' : Nat → Use) : Prop where
  uses     : ∀ p, use p ≠ .free → use' p = use p
  free     : ∀ p, use p = .free → use' p = .free ∨ (∃ i, use' p = .table d i) ∨ ∃ v, use' p = .frame d v
  kept     : ∀ p, use p ≠ .unmanaged → use p ≠ .free → p ≠ d → (∀ i, use p ≠ .table d i) →
               SamePage p s.mem s'.mem
  zero     : ∀ p v, use p = .free → use' p = .frame d v → ∀ i < pgsize, s'.mem (p + i) = 0
  cr3      : s'.cr3 = s.cr3
  kvm      : s'.kvm = s.kvm
  userTask : s'.userTask = s.userTask

-- The two machines only differ in their memory and in the free list.
structure Machine.Steady (s s' : Machine) : Prop where
  cr3       : s'.cr3 = s.cr3
  kvm       : s'.kvm = s.kvm
  userTask  : s'.userTask = s.userTask
  exhausted : s'.exhausted = s.exhausted

variable {m : Bytes} {use use' use'' : Nat → Use} {p q i j d t f v w n : Nat} {s s' s'' : Machine}
  {free : List Nat}

theorem SamePage.trans {m m' m'' : Bytes} (h : SamePage p m m') (h' : SamePage p m' m'') :
    SamePage p m m'' :=
  fun i hi => (h' i hi).trans (h i hi)

namespace Extends

theorem refl (d : Nat) (s : Machine) (use : Nat → Use) : Extends d s use s use where
  uses _ _ := rfl
  free _ hp := .inl hp
  kept _ _ _ _ _ _ _ := rfl
  zero p v hp hp' := by simp [hp] at hp'
  cr3 := rfl
  kvm := rfl
  userTask := rfl

theorem trans (h : Extends d s use s' use') (h' : Extends d s' use' s'' use'') (hd : use d ≠ .free) :
    Extends d s use s'' use'' where
  uses p hp := by rw [h'.uses p (by rwa [h.uses p hp]), h.uses p hp]
  free p hp := by
    rcases h.free p hp with he | ⟨i, he⟩ | ⟨v, he⟩
    case inl        => exact h'.free p he
    case inr.inl    => exact .inr <| .inl ⟨i, by rw [h'.uses p (by simp [he]), he]⟩
    case inr.inr    => exact .inr <| .inr ⟨v, by rw [h'.uses p (by simp [he]), he]⟩
  kept p hp hu hn ht := by
    have he := h.uses p hu
    exact (h.kept p hp hu hn ht).trans <| h'.kept p (by rwa [he]) (by rwa [he]) hn (by rwa [he])
  zero p v hp hp'' := by
    rcases h.free p hp with he | ⟨i, he⟩ | ⟨v', he⟩
    case inl        => exact h'.zero p v he hp''
    case inr.inl    => simp [h'.uses p (by simp [he]), he] at hp''
    case inr.inr    =>
      intro i hi
      have hs := h'.kept p (by simp [he]) (by simp [he]) (fun hd' => hd <| hd' ▸ hp) (by simp [he])
      rw [hs i hi, h.zero p v' hp he i hi]
  cr3 := h'.cr3.trans h.cr3
  kvm := h'.kvm.trans h.kvm
  userTask := h'.userTask.trans h.userTask

end Extends

namespace Machine.Owns

theorem entry_eq_zero_iff (h : s.Owns use free) (hd : use d = .dir) (hi : i < 512) :
    s.mem.load32 (d + 4 * i) = 0 ↔ ¬HasTable use d i := by
  constructor
  case mp  =>
    intro he ⟨t, ht⟩
    have ⟨_, _, he'⟩ := h.mapped.table t d i ht
    omega
  case mpr =>
    intro hn
    cases h.mapped.tables d hd i hi
    case inl he => exact he
    case inr ht => have ⟨t, ht, _⟩ := ht; exact absurd ⟨t, ht⟩ hn

theorem pte_eq_zero_iff (h : s.Owns use free) (ht : use t = .table d (v / 1024)) :
    s.mem.load32 (t + 4 * (v % 1024)) = 0 ↔ ¬Maps use d v := by
  have he : 1024 * (v / 1024) + v % 1024 = v := by omega
  constructor
  case mp  =>
    intro hz ⟨f, hf⟩
    have ⟨t', ht', he'⟩ := h.mapped.frame f d v hf
    have ⟨_, _, h₁⟩ := h.mapped.table t d _ ht
    have ⟨_, _, h₂⟩ := h.mapped.table t' d _ ht'
    have heq : t' = t := by omega
    rw [heq, hz] at he'
    omega
  case mpr =>
    intro hn
    cases h.mapped.frames t d _ ht (v % 1024) (Nat.mod_lt _ (by decide))
    case inl hz => exact hz
    case inr hf => have ⟨f, hf, _⟩ := hf; exact absurd ⟨f, he ▸ hf⟩ hn

theorem table_lt (h : s.Owns use free) (ht : use t = .table d i) : i < 512 :=
  (h.mapped.table t d i ht).right.left

-- A page is taken from the free list and filled with zeros.
theorem take_zeroed (h : s.Owns use (p :: free)) : ∃ s₁ s₂,
    Kernel.kalloc.run s = .ok (kernbase + p) s₁ ∧
    (Kernel.memset (kernbase + p) 0 pgsize).run s₁ = .ok () s₂ ∧
    s₂.Owns (Function.update use p .held) free ∧ (∀ i < pgsize, s₂.mem (p + i) = 0) ∧
    Bytes.AgreeOutside p pgsize s.mem s₂.mem ∧ s.Steady s₂ := by
  have ⟨freelist, hk, h₁⟩ := h.kalloc_cons
  have hpp := h₁.page (p := p) (by simp)
  have hm := s.mem.fill_agree p pgsize 0
  exact ⟨_, _, hk, memset_kernbase _ hpp.page_upper 0, h₁.write_held (by simp) hm,
    fun i hi => Bytes.fill_eq (by omega) (by omega), hm, ⟨rfl, rfl, rfl, rfl⟩⟩

section Mappages

variable {s₁ : Machine} {pgdir pa : Nat}

theorem mappages_fail (hw : (Kernel.walkpgdir pgdir (v * pgsize) true).run s = .ok 0 s₁)
    (hv : v < 2 ^ 19) (pa perm : Nat) :
    (Kernel.mappages pgdir (v * pgsize) pgsize pa perm).run s = .ok (-1) s₁ := by
  rw [mappages_page hv, EStateM.bind_ok hw]
  rfl

theorem mappages_remap
    (hw : (Kernel.walkpgdir pgdir (v * pgsize) true).run s = .ok (kernbase + t + 4 * (v % 1024)) s₁)
    (hv : v < 2 ^ 19) (ht : IsPage t) (hf : IsPage f)
    (he : s₁.mem.load32 (t + 4 * (v % 1024)) = f + 7) (pa perm : Nat) :
    (Kernel.mappages pgdir (v * pgsize) pgsize pa perm).run s = .error (.panic "remap") s₁ := by
  have hn : kernbase + t + 4 * (v % 1024) ≠ 0 := by simp [kernbase]
  rw [mappages_page hv, EStateM.bind_ok hw, if_neg hn,
    EStateM.bind_ok (ht.loadEntry (Nat.mod_lt _ (by decide)) s₁), he, if_pos hf.present]
  rfl

theorem mappages_ok
    (hw : (Kernel.walkpgdir pgdir (v * pgsize) true).run s = .ok (kernbase + t + 4 * (v % 1024)) s₁)
    (hv : v < 2 ^ 19) (ht : IsPage t) (hf : IsPage f)
    (he : s₁.mem.load32 (t + 4 * (v % 1024)) = 0) :
    (Kernel.mappages pgdir (v * pgsize) pgsize f (pteW ||| pteU)).run s =
      .ok 0 { s₁ with mem := s₁.mem.store32 (t + 4 * (v % 1024)) (f + 7) } := by
  have hn : kernbase + t + 4 * (v % 1024) ≠ 0 := by simp [kernbase]
  have hj : v % 1024 < 1024 := Nat.mod_lt _ (by decide)
  rw [mappages_page hv, EStateM.bind_ok hw, if_neg hn, EStateM.bind_ok (ht.loadEntry hj s₁), he,
    if_neg (by decide), hf.entry_eq', EStateM.bind_ok (ht.storeEntry hj _ _)]
  rfl

end Mappages

section Round

variable {fuel top : Nat}

-- The rounds of `allocuvm`, for a page below the upper half.
theorem allocuvm_nil (h : s.Owns use []) (ha : v * pgsize < top) (pgdir : Nat) :
    (Kernel.allocuvm.go pgdir top (fuel + 1) (v * pgsize)).run s =
      .ok (-1) { s with exhausted := true } := by
  rw [Kernel.allocuvm.go, if_pos ha, EStateM.bind_ok h.kalloc_nil, if_pos rfl]
  rfl

theorem allocuvm_remap (h : s.Owns use (p :: free)) (fuel : Nat) (ha : v * pgsize < top)
    (hv : v < 2 ^ 19) (hm : Maps use d v) : ∃ s',
    (Kernel.allocuvm.go (kernbase + d) top (fuel + 1) (v * pgsize)).run s =
      .error (.panic "remap") s' ∧ s'.exhausted = s.exhausted := by
  have ⟨s₁, s₂, hk, hz, h₂, _, _, hs⟩ := h.take_zeroed
  have hp := (h.mem_iff p).mp (by simp)
  have ⟨f, hf⟩ := hm
  have ⟨t, ht, he⟩ := h₂.mapped.frame f d v <| by
    rwa [Function.update_of_ne fun he => by simp [← he, hf] at hp]
  have hw := h₂.walkpgdir_table ht hv
  refine ⟨s₂, ?_, hs.exhausted⟩
  rw [Kernel.allocuvm.go, if_pos ha, EStateM.bind_ok hk, if_neg (kernbase_ne p),
    EStateM.bind_ok hz]
  apply EStateM.bind_error
  exact mappages_remap hw hv (h₂.page (by simp [ht])) (h.page (by simp [hf])) he _ _

-- The only page which is left would be needed twice.
theorem allocuvm_single (h : s.Owns use [p]) (fuel : Nat) (ha : v * pgsize < top) (hv : v < 2 ^ 19)
    (hd : use d = .dir) (ht : ¬HasTable use d (v / 1024)) : ∃ s',
    (Kernel.allocuvm.go (kernbase + d) top (fuel + 1) (v * pgsize)).run s = .ok (-1) s' ∧
    s'.Owns use [p] ∧ Extends d s use s' use ∧ s'.exhausted = true := by
  have ⟨s₁, s₂, hk, hz, h₂, _, hm, hs⟩ := h.take_zeroed
  have hp := (h.mem_iff p).mp (by simp)
  have hpp := h₂.page (p := p) (by simp)
  have hd' : Function.update use p .held d = .dir := by
    rwa [Function.update_of_ne fun he => by simp [he, hp] at hd]
  have he := (h₂.entry_eq_zero_iff (i := v / 1024) hd' (by omega)).mpr fun ⟨t, hu⟩ => by
    by_cases htp : t = p
    case pos => simp [htp] at hu
    case neg => exact ht ⟨t, by rwa [Function.update_of_ne htp] at hu⟩
  have hw := h₂.walkpgdir_nil hd' hv he
  have h₃ : Machine.Owns { s₂ with exhausted := true } (Function.update use p .held) [] := { h₂ with }
  have ⟨mem, hf, h₄, hm'⟩ := h₃.kfree_held (p := p) (by simp)
  rw [Function.update_idem, ← hp, Function.update_eq_self] at h₄
  refine ⟨_, ?_, h₄, ?_, rfl⟩
  · rw [Kernel.allocuvm.go, if_pos ha, EStateM.bind_ok hk, if_neg (kernbase_ne p),
      EStateM.bind_ok hz, EStateM.bind_ok (mappages_fail hw hv _ _), if_pos (by decide),
      EStateM.bind_ok hf]
    rfl
  · exact {
      uses := fun _ _ => rfl
      free := fun _ hq => .inl hq
      kept := fun q hq hqf _ _ =>
        (h.page hq).samePage hpp (fun he => hqf <| he ▸ hp) (hm.trans hm')
          ⟨Nat.le_refl _, Nat.le_refl _⟩
      zero := fun q _ hq hq' => by simp [hq] at hq'
      cr3 := hs.cr3
      kvm := hs.kvm
      userTask := hs.userTask }

-- A page `p` is mapped through the table `t`.
theorem allocuvm_map {s₁ s₂ s₃ : Machine} (fuel : Nat) (ha : v * pgsize < top) (hv : v < 2 ^ 19)
    (hk : Kernel.kalloc.run s = .ok (kernbase + p) s₁)
    (hz : (Kernel.memset (kernbase + p) 0 pgsize).run s₁ = .ok () s₂)
    (hw : (Kernel.walkpgdir (kernbase + d) (v * pgsize) true).run s₂ =
      .ok (kernbase + t + 4 * (v % 1024)) s₃)
    (h : s₃.Owns use free) (ht : use t = .table d (v / 1024)) (hp : use p = .held)
    (hm : ¬Maps use d v) : ∃ s₄,
    (Kernel.allocuvm.go (kernbase + d) top (fuel + 1) (v * pgsize)).run s =
      (Kernel.allocuvm.go (kernbase + d) top fuel ((v + 1) * pgsize)).run s₄ ∧
    s₄.Owns (Function.update use p (.frame d v)) free ∧
    (∀ q, use q ≠ .unmanaged → q ≠ t → SamePage q s₃.mem s₄.mem) ∧ s₃.Steady s₄ := by
  have hj : v % 1024 < 1024 := Nat.mod_lt _ (by decide)
  have htp := h.page (p := t) (by simp [ht])
  have hpp := h.page (p := p) (by simp [hp])
  have he := (h.pte_eq_zero_iff ht).mpr hm
  have h₄ := h.attach_frame ht hj he hp
  rw [show 1024 * (v / 1024) + v % 1024 = v by omega] at h₄
  have hadd : (v * pgsize + pgsize) % 2 ^ 32 = (v + 1) * pgsize := by
    simp only [pgsize]
    omega
  refine ⟨_, ?_, h₄, ?_, ⟨rfl, rfl, rfl, rfl⟩⟩
  · rw [Kernel.allocuvm.go, if_pos ha, EStateM.bind_ok hk, if_neg (kernbase_ne p),
      EStateM.bind_ok hz, v2p_kernbase hpp.upper, EStateM.bind_ok (mappages_ok hw hv htp hpp he),
      if_neg (by decide), hadd]
  · exact fun q hq hqt => (h.page hq).samePage htp hqt (s₃.mem.store32_agree _ _)
      ⟨by omega, by simp only [pgsize]; omega⟩

theorem allocuvm_frame (h : s.Owns use (p :: free)) (fuel : Nat) (ha : v * pgsize < top) (hv : v < 2 ^ 19)
    (ht : HasTable use d (v / 1024)) (hm : ¬Maps use d v) : ∃ s',
    (Kernel.allocuvm.go (kernbase + d) top (fuel + 1) (v * pgsize)).run s =
      (Kernel.allocuvm.go (kernbase + d) top fuel ((v + 1) * pgsize)).run s' ∧
    s'.Owns (Function.update use p (.frame d v)) free ∧
    Extends d s use s' (Function.update use p (.frame d v)) ∧ s'.exhausted = s.exhausted := by
  have ⟨s₁, s₂, hk, hz, h₂, hzero, hagree, hs⟩ := h.take_zeroed
  have hp := (h.mem_iff p).mp (by simp)
  have hpp := h.page (p := p) (by simp [hp])
  have ⟨t, ht⟩ := ht
  have htp : t ≠ p := fun he => by simp [he, hp] at ht
  have ht' : Function.update use p .held t = .table d (v / 1024) := by rwa [Function.update_of_ne htp]
  have ⟨s₄, hr, h₄, hkept, hs'⟩ := allocuvm_map fuel ha hv hk hz
    (h₂.walkpgdir_table ht' hv) h₂ ht' (by simp) fun ⟨f, hf⟩ => by
      by_cases hfp : f = p
      case pos => simp [hfp] at hf
      case neg => exact hm ⟨f, by rwa [Function.update_of_ne hfp] at hf⟩
  rw [Function.update_idem] at h₄
  refine ⟨s₄, hr, h₄, ?_, hs'.exhausted.trans hs.exhausted⟩
  exact {
    uses := fun q hq => Function.update_of_ne (fun he : q = p => hq <| he ▸ hp) _ _
    free := fun q hq => by
      by_cases hqp : q = p
      case pos => exact .inr <| .inr ⟨v, by simp [hqp]⟩
      case neg => exact .inl <| by rwa [Function.update_of_ne hqp]
    kept := fun q hq hqf _ hqt => by
      have hqp : q ≠ p := fun he => hqf <| he ▸ hp
      have hq' : Function.update use p .held q ≠ .unmanaged := by rwa [Function.update_of_ne hqp]
      exact ((h.page hq).samePage hpp hqp hagree ⟨Nat.le_refl _, Nat.le_refl _⟩).trans <|
        hkept q hq' fun he => hqt _ <| he ▸ ht
    zero := fun q v' hq hq' i hi => by
      have hqp : q = p := by
        by_contra hn
        rw [Function.update_of_ne hn, hq] at hq'
        cases hq'
      rw [hqp, hkept p (by simp) htp.symm i hi, hzero i hi]
    cr3 := hs'.cr3.trans hs.cr3
    kvm := hs'.kvm.trans hs.kvm
    userTask := hs'.userTask.trans hs.userTask }

theorem allocuvm_table (h : s.Owns use (p :: t :: free)) (fuel : Nat) (ha : v * pgsize < top) (hv : v < 2 ^ 19)
    (hd : use d = .dir) (ht : ¬HasTable use d (v / 1024)) : ∃ s' use',
    (Kernel.allocuvm.go (kernbase + d) top (fuel + 1) (v * pgsize)).run s =
      (Kernel.allocuvm.go (kernbase + d) top fuel ((v + 1) * pgsize)).run s' ∧
    use' = Function.update (Function.update use t (.table d (v / 1024))) p (.frame d v) ∧
    s'.Owns use' free ∧ Extends d s use s' use' ∧ s'.exhausted = s.exhausted := by
  have ⟨s₁, s₂, hk, hz, h₂, hzero, hagree, hs⟩ := h.take_zeroed
  have hp := (h.mem_iff p).mp (by simp)
  have htf := (h.mem_iff t).mp (by simp)
  have hpp := h.page (p := p) (by simp [hp])
  have htp : t ≠ p := by
    have hn := h.nodup
    simp only [List.nodup_cons, List.mem_cons, not_or] at hn
    exact Ne.symm hn.left.left
  have hdp : d ≠ p := fun he => by simp [he, hp] at hd
  have hdt : d ≠ t := fun he => by simp [he, htf] at hd
  have hd' : Function.update use p .held d = .dir := by rwa [Function.update_of_ne hdp]
  have he := (h₂.entry_eq_zero_iff (i := v / 1024) hd' (by omega)).mpr fun ⟨q, hq⟩ => by
    by_cases hqp : q = p
    case pos => simp [hqp] at hq
    case neg => exact ht ⟨q, by rwa [Function.update_of_ne hqp] at hq⟩
  have ⟨mem, freelist, hw, h₃, _, hpages⟩ := h₂.walkpgdir_cons hd' hv he
  have hup := Function.update_comm htp.symm Use.held (Use.table d (v / 1024)) use
  have ⟨s₄, hr, h₄, hkept, hs'⟩ := allocuvm_map fuel ha hv hk hz hw h₃ (by simp)
    (p := p) (by rw [Function.update_of_ne htp.symm]; simp) fun ⟨f, hf⟩ => by
      have ⟨q, hq, _⟩ := h₃.mapped.frame f d v hf
      have hft : f ≠ t := fun he => by simp [he] at hf
      have hfp : f ≠ p := fun he => by simp [he, Function.update_of_ne htp.symm] at hf
      rw [Function.update_of_ne hft, Function.update_of_ne hfp] at hf
      have ⟨q', hq', _⟩ := h.mapped.frame f d v hf
      exact ht ⟨q', hq'⟩
  rw [hup, Function.update_idem] at h₄
  refine ⟨s₄, _, hr, rfl, h₄, ?_, hs'.exhausted.trans hs.exhausted⟩
  have hother {q} (hqp : q ≠ p) (hqt : q ≠ t) : Function.update
      (Function.update use t (.table d (v / 1024))) p (.frame d v) q = use q := by
    rw [Function.update_of_ne hqp, Function.update_of_ne hqt]
  have huse₃ {q} (hqp : q ≠ p) (hqt : q ≠ t) : Function.update
      (Function.update use p .held) t (.table d (v / 1024)) q = use q := by
    rw [Function.update_of_ne hqt, Function.update_of_ne hqp]
  exact {
    uses := fun q hq => hother (fun he => hq <| he ▸ hp) (fun he => hq <| he ▸ htf)
    free := fun q hq => by
      by_cases hqp : q = p
      case pos => exact .inr <| .inr ⟨v, by simp [hqp]⟩
      case neg =>
        by_cases hqt : q = t
        case pos => exact .inr <| .inl ⟨v / 1024, by simp [hqt, Function.update_of_ne htp]⟩
        case neg => exact .inl <| (hother hqp hqt).trans hq
    kept := fun q hq hqf hqd _ => by
      have hqp : q ≠ p := fun he => hqf <| he ▸ hp
      have hqt : q ≠ t := fun he => hqf <| he ▸ htf
      have hqq := h.page hq
      exact (hqq.samePage hpp hqp hagree ⟨Nat.le_refl _, Nat.le_refl _⟩).trans <|
        (hpages q hqq hqt hqd).trans <| hkept q (by rwa [huse₃ hqp hqt]) hqt
    zero := fun q v' hq hq' i hi => by
      have hqp : q = p := by
        by_contra hn
        by_cases hqt : q = t
        case pos => simp [hqt, Function.update_of_ne htp] at hq'
        case neg => simp [hother hn hqt, hq] at hq'
      have hu : Function.update (Function.update use p .held) t (.table d (v / 1024)) p ≠
          .unmanaged := by
        rw [Function.update_of_ne htp.symm]
        simp
      rw [hqp]
      exact (hkept p hu htp.symm i hi).trans <| (hpages p hpp htp.symm hdp.symm i hi).trans <|
        hzero i hi
    cr3 := hs'.cr3.trans hs.cr3
    kvm := hs'.kvm.trans hs.kvm
    userTask := hs'.userTask.trans hs.userTask }

end Round

end Machine.Owns
