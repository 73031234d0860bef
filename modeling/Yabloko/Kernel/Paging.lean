import Yabloko.Kernel.Tables

variable {m m' : Bytes} {use use' : Nat → Use} {u : Use} {p q i j d t f v n : Nat} {s s' : Machine}
  {free : List Nat}

theorem or_eq_add (h : p % pgsize = 0) (hf : f < pgsize) : p ||| f = p + f := by
  have he : p = (p / pgsize) <<< 12 := by
    rw [Nat.shiftLeft_eq]
    simp only [pgsize] at h ⊢
    omega
  rw [he, Nat.shiftLeft_add_eq_or_of_lt hf]

theorem IsPage.entry_eq (hp : IsPage p) : p ||| pteP ||| pteW ||| pteU = p + 7 := by
  rw [Nat.or_assoc, Nat.or_assoc]
  exact or_eq_add hp.aligned (by decide)

theorem IsPage.entry_eq' (hp : IsPage p) : p ||| (pteW ||| pteU) ||| pteP = p + 7 := by
  rw [Nat.or_assoc]
  exact or_eq_add hp.aligned (by decide)

theorem IsPage.pteAddr_eq (hp : IsPage p) : pteAddr (p + 7) = p := by
  have hp := hp.aligned
  simp only [pteAddr, pgsize] at hp ⊢
  omega

theorem IsPage.present (hp : IsPage p) : (p + 7) % 2 = 1 := by
  have hp := hp.aligned
  simp only [pgsize] at hp
  omega

theorem IsPage.entry_upper (hp : IsPage p) (hi : i < 1024) : p + 4 * i + 3 < phystop := by
  have ha := hp.aligned
  have hu := hp.upper
  simp only [pgsize, phystop] at ha hu ⊢
  omega

theorem IsPage.page_upper (hp : IsPage p) : p + pgsize ≤ phystop := by
  have ha := hp.aligned
  have hu := hp.upper
  simp only [pgsize, phystop] at ha hu ⊢
  omega

theorem kernbase_ne (p : Nat) : kernbase + p ≠ 0 := by
  simp [kernbase]

theorem pdx_page (h : v < 2 ^ 20) : pdx (v * pgsize) = v / 1024 := by
  simp only [pdx, pgsize]
  omega

theorem ptx_page (v : Nat) : ptx (v * pgsize) = v % 1024 := by
  simp only [ptx, pgsize]
  omega

theorem IsPage.loadEntry (hp : IsPage p) (hi : i < 1024) (s : Machine) :
    (Kernel.load32 (kernbase + p + 4 * i)).run s = .ok (s.mem.load32 (p + 4 * i)) s := by
  rw [Nat.add_assoc]
  exact s.load32_kernbase <| hp.entry_upper hi

theorem IsPage.storeEntry (hp : IsPage p) (hi : i < 1024) (v : Nat) (s : Machine) :
    (Kernel.store32 (kernbase + p + 4 * i) v).run s =
      .ok () { s with mem := s.mem.store32 (p + 4 * i) v } := by
  rw [Nat.add_assoc]
  exact s.store32_kernbase (hp.entry_upper hi) v

namespace Machine.Owns

-- The contents of a held page may change.
theorem write_held (h : s.Owns use free) (hp : use p = .held)
    (hm : Bytes.AgreeOutside p pgsize s.mem m) : Machine.Owns { s with mem := m } use free where
  mapped := by
    have hr := h.reuse (u := .held) (by simp [hp]) (by simp [hp, Use.Paging]) (by simp [Use.Paging]) hm
    rwa [← hp, Function.update_eq_self] at hr
  list := by
    have hpp := h.page (p := p) (by simp [hp])
    apply h.list.congr
    intro va hva
    obtain ⟨q, hq, he⟩ := List.mem_map.mp hva
    have hq := (h.mem_iff q).mp hq
    have hs := (h.page (p := q) (by simp [hq])).samePage hpp (fun he => by simp [← he, hq] at hp) hm
      ⟨Nat.le_refl _, Nat.le_refl _⟩
    rw [← he]
    simpa using hs.load32_eq (i := 0) (by decide)
  nodup := h.nodup
  mem_iff := h.mem_iff

theorem kernelEntry_store (hi : i < phystop / (4 <<< 20)) :
    (i * (4 <<< 20) ||| pteP ||| pteW ||| ptePS) = kernelEntry i := by
  rw [Nat.or_assoc, Nat.or_assoc, or_eq_add (by simp only [pgsize]; omega) (by decide), kernelEntry,
    if_pos hi]
  rfl

theorem setupkvm_cons (h : s.Owns use (p :: free)) : ∃ mem freelist,
    Kernel.setupkvm.run s = .ok (kernbase + p) { s with mem, freelist } ∧
    Machine.Owns { s with mem, freelist } (Function.update use p .dir) free ∧
    Bytes.AgreeOutside p pgsize s.mem mem := by
  have ⟨freelist, ha, h₁⟩ := h.kalloc_cons
  have hpp := h₁.page (p := p) (by simp)
  have ⟨s', hr, he, hm, hl⟩ := EStateM.forM_range
    (s := { s with freelist, mem := s.mem.fill p pgsize 0 })
    (P := fun n s' => s' = { s with freelist, mem := s'.mem } ∧
      Bytes.AgreeOutside p pgsize s.mem s'.mem ∧
      ∀ j < 1024, s'.mem.load32 (p + 4 * j) =
        if 512 ≤ j ∧ j < 512 + n then kernelEntry (j - 512) else 0)
    (f := fun i => Kernel.store32 (kernbase + p + 4 * pdx (kernbase + i * (4 <<< 20)))
      (i * (4 <<< 20) ||| pteP ||| pteW ||| ptePS))
    (n := phystop / (4 <<< 20))
    ⟨rfl, s.mem.fill_agree p pgsize 0, fun j hj => by
      rw [if_neg (by omega)]
      exact Bytes.load32_fill_zero (by omega) (by simp only [pgsize]; omega)⟩
    (fun i s₁ hi ⟨he, hm, hl⟩ => by
      have hx : pdx (kernbase + i * (4 <<< 20)) = 512 + i := by
        simp only [pdx, kernbase, phystop, Nat.reduceShiftLeft] at hi ⊢
        omega
      have hi' : 512 + i < 1024 := by
        simp only [phystop, Nat.reduceShiftLeft] at hi
        omega
      have hlt : kernelEntry i < 2 ^ 32 := by
        rw [kernelEntry, if_pos hi]
        simp only [phystop, Nat.reduceShiftLeft] at hi ⊢
        omega
      refine ⟨{ s₁ with mem := s₁.mem.store32 (p + 4 * (512 + i)) (kernelEntry i) }, ?_, ?_, ?_, ?_⟩
      · rw [hx, kernelEntry_store hi, hpp.storeEntry hi']
      · rw [he]
      · exact hm.trans <| (Bytes.store32_agree _ _ _).mono (by omega) (by simp only [pgsize]; omega)
      · intro j hj
        have hl' := hpp.load32_store32 (m := s₁.mem) hpp hi' hj hlt
        simp only [hl', true_and, hl j hj]
        split
        case isTrue he => rw [he, if_pos (by omega), Nat.add_sub_cancel_left]
        case isFalse hn =>
          have hc : (512 ≤ j ∧ j < 512 + i) ↔ (512 ≤ j ∧ j < 512 + (i + 1)) := by omega
          simp only [hc])
  have hw := h₁.write_held (by simp) hm
  refine ⟨s'.mem, freelist, ?_, ?_, hm⟩
  · rw [Kernel.setupkvm, EStateM.bind_ok ha, EStateM.bind_ok (memset_kernbase _ hpp.page_upper 0)]
    apply (EStateM.bind_ok hr).trans
    rw [he]
    rfl
  · have hd := hw.attach_dir (d := p) (by simp)
      (fun i hi => by rw [hl i (by omega), if_neg (by omega)])
      (fun i hi => by
        rw [hl _ (by omega), Nat.add_sub_cancel_left]
        split
        case isTrue  => rfl
        case isFalse => rw [kernelEntry, if_neg (by omega)])
    rwa [Function.update_idem] at hd

-- Without a page, `setupkvm` writes to the address 0.
theorem setupkvm_nil (h : s.Owns use []) (hn : s.translate 0 = none) :
    Kernel.setupkvm.run s = .error (.pageFault 0) { s with exhausted := true } := by
  rw [Kernel.setupkvm, EStateM.bind_ok h.kalloc_nil]
  apply EStateM.bind_error
  have hn : Machine.translate { s with exhausted := true } 0 = none := hn
  have hp : (Kernel.physical 0).run { s with exhausted := true } =
      .error (.pageFault 0) { s with exhausted := true } := by
    rw [Kernel.physical, EStateM.get_bind, hn]
    rfl
  have hm : Kernel.memset 0 0 pgsize = Kernel.stosl 0 0 1024 := rfl
  rw [hm, Kernel.stosl]
  apply EStateM.bind_error
  rw [Kernel.store32]
  apply EStateM.bind_error
  rw [Kernel.storeByte]
  exact EStateM.bind_error hp

theorem walkpgdir_table (h : s.Owns use free) (ht : use t = .table d (v / 1024)) (hv : v < 2 ^ 19) :
    (Kernel.walkpgdir (kernbase + d) (v * pgsize) true).run s =
      .ok (kernbase + t + 4 * (v % 1024)) s := by
  have ⟨hd, hi, he⟩ := h.mapped.table t d _ ht
  have hdp := h.page (p := d) (by simp [hd])
  have htp := h.page (p := t) (by simp [ht])
  rw [Kernel.walkpgdir, pdx_page (by omega), EStateM.bind_ok (hdp.loadEntry (by omega) s), he,
    if_pos htp.present, htp.pteAddr_eq, p2v_eq htp.upper, ptx_page]
  rfl

theorem walkpgdir_nil (h : s.Owns use []) (hd : use d = .dir) (hv : v < 2 ^ 19)
    (he : s.mem.load32 (d + 4 * (v / 1024)) = 0) :
    (Kernel.walkpgdir (kernbase + d) (v * pgsize) true).run s = .ok 0 { s with exhausted := true } := by
  have hdp := h.page (p := d) (by simp [hd])
  rw [Kernel.walkpgdir, pdx_page (by omega), EStateM.bind_ok (hdp.loadEntry (by omega) s), he,
    if_neg (by decide), if_neg (by decide), EStateM.bind_ok h.kalloc_nil, if_pos rfl]
  rfl

theorem walkpgdir_cons (h : s.Owns use (t :: free)) (hd : use d = .dir) (hv : v < 2 ^ 19)
    (he : s.mem.load32 (d + 4 * (v / 1024)) = 0) : ∃ mem freelist,
    (Kernel.walkpgdir (kernbase + d) (v * pgsize) true).run s =
      .ok (kernbase + t + 4 * (v % 1024)) { s with mem, freelist } ∧
    Machine.Owns { s with mem, freelist } (Function.update use t (.table d (v / 1024))) free ∧
    (∀ j < 1024, mem.load32 (t + 4 * j) = 0) ∧
    ∀ p, IsPage p → p ≠ t → p ≠ d → SamePage p s.mem mem := by
  have hdp := h.page (p := d) (by simp [hd])
  have ⟨freelist, ha, h₁⟩ := h.kalloc_cons
  have htp := h₁.page (p := t) (by simp)
  have hne : d ≠ t := fun he => by simp [(h.mem_iff d).mp (by simp [he])] at hd
  have hm := s.mem.fill_agree t pgsize 0
  have hz j (hj : j < 1024) : (s.mem.fill t pgsize 0).load32 (t + 4 * j) = 0 :=
    Bytes.load32_fill_zero (by omega) (by simp only [pgsize]; omega)
  have h₂ := h₁.write_held (by simp) hm
  have hsd := (hdp.samePage htp hne hm ⟨Nat.le_refl _, Nat.le_refl _⟩).load32_eq
    (i := v / 1024) (by omega)
  have h₃ := h₂.attach_table (d := d) (i := v / 1024) (t := t) (by rwa [Function.update_of_ne hne])
    (by omega) (hsd.trans he) (by simp) hz
  rw [Function.update_idem] at h₃
  refine ⟨(s.mem.fill t pgsize 0).store32 (d + 4 * (v / 1024)) (t + 7), freelist, ?_, h₃, ?_, ?_⟩
  · have hv2p := v2p_kernbase htp.upper
    rw [Kernel.walkpgdir, pdx_page (by omega), EStateM.bind_ok (hdp.loadEntry (by omega) s), he,
      if_neg (by decide), if_neg (by decide), EStateM.bind_ok ha, if_neg (kernbase_ne t),
      EStateM.bind_ok (memset_kernbase _ htp.page_upper 0), hv2p, htp.entry_eq,
      EStateM.bind_ok (hdp.storeEntry (by omega) _ _), ptx_page]
    rfl
  · intro j hj
    rw [hdp.load32_store32 htp (by omega) hj htp.entry_lt, if_neg fun hc => hne hc.left.symm]
    exact hz j hj
  · intro p hp hpt hpd i hi
    have hs := hp.samePage htp hpt hm ⟨Nat.le_refl _, Nat.le_refl _⟩
    have hs' := hp.samePage hdp hpd ((s.mem.fill t pgsize 0).store32_agree (d + 4 * (v / 1024)) (t + 7))
      ⟨by omega, by simp only [pgsize]; omega⟩
    exact (hs' i hi).trans (hs i hi)

-- The user addresses which the current directory maps.
theorem translate_frame (h : s.Owns use free) (hf : use f = .frame s.cr3 v) (hv : v < 2 ^ 19)
    (ho : n < pgsize) : s.translate (v * pgsize + n) = some (f + n) := by
  have ⟨t, ht, he⟩ := h.mapped.frame f _ v hf
  have ⟨hd, hi, hl⟩ := h.mapped.table t _ _ ht
  have htp := h.page (p := t) (by simp [ht])
  have hfp := h.page (p := f) (by simp [hf])
  have hs : (t + 7) / ptePS % 2 = 0 := by
    have ha := htp.aligned
    simp only [pgsize, ptePS] at ha ⊢
    omega
  simp only [pgsize] at ho
  have hx : pdx (v * pgsize + n) = v / 1024 ∧ ptx (v * pgsize + n) = v % 1024 ∧
      (v * pgsize + n) % pgsize = n := by
    simp only [pdx, ptx, pgsize]
    omega
  rw [translate, if_neg (by simp only [kernbase, pgsize]; omega)]
  simp only [hx.left, hl, hx.right.left, htp.pteAddr_eq, he, hs, hx.right.right, hfp.pteAddr_eq]
  rw [if_neg (by rw [htp.present]; decide), if_neg (by decide),
    if_neg (by rw [hfp.present]; decide)]

-- The mapping of one page.
theorem mappages_page (hv : v < 2 ^ 19) (pgdir pa perm : Nat) :
    Kernel.mappages pgdir (v * pgsize) pgsize pa perm = (do
      let pte ← Kernel.walkpgdir pgdir (v * pgsize) true
      if pte = 0 then
        return -1
      if (← Kernel.load32 pte) % 2 = 1 then
        throw (.panic "remap")
      Kernel.store32 pte (pa ||| perm ||| pteP)
      return 0) := by
  have h₁ : pgrounddown (v * pgsize) = v * pgsize := by
    simp only [pgrounddown, pgsize]
    omega
  have h₂ : Kernel.mappages.last (v * pgsize) pgsize = v * pgsize := by
    simp only [Kernel.mappages.last, pgrounddown, pgsize]
    omega
  rw [Kernel.mappages, h₁, show 2 ^ 20 = 2 ^ 20 - 1 + 1 from rfl, Kernel.mappages.go]
  simp only [h₂, if_true]

end Machine.Owns
