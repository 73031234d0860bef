import Yabloko.Kernel.UserMemory

namespace Machine

-- The `n` bytes from the address `ptr` on are mapped to places of their own, and they can be overwritten
-- without a change of the address translation.
structure Buffer (s : Machine) (ptr n : Nat) : Prop where
  upper  : ∀ i < n, ptr + i < 2 ^ 32
  mapped : ∀ i < n, ∃ pa, s.translate (ptr + i) = some pa
  inj    : ∀ i < n, ∀ j < n, s.translate (ptr + i) = s.translate (ptr + j) → i = j
  stable : ∀ m : Bytes, (∀ pa, (∀ i < n, s.translate (ptr + i) ≠ some pa) → m pa = s.mem pa) →
             ∀ i < n, { s with mem := m }.translate (ptr + i) = s.translate (ptr + i)

-- The bytes `f 0` to `f (n - 1)` have been written from the address `ptr` on, and no others.
structure Writes (s : Machine) (ptr n : Nat) (f : Nat → UInt8) (s' : Machine) : Prop where
  memory : s' = { s with mem := s'.mem }
  bytes  : ∀ i < n, s'.view (ptr + i) = some (f i)
  others : ∀ pa, (∀ i < n, s.translate (ptr + i) ≠ some pa) → s'.mem pa = s.mem pa

end Machine

variable {s s' : Machine} {use : Nat → Use} {free : List Nat} {va ptr n k p f v pa : Nat}
  {g : Nat → UInt8}

namespace Machine

theorem loadByte_eq (h : s.translate va = some pa) : (Kernel.loadByte va).run s = .ok (s.mem pa) s := by
  have hp : (Kernel.physical va).run s = .ok pa s := by
    rw [Kernel.physical, EStateM.get_bind, h]
    rfl
  rw [Kernel.loadByte, EStateM.bind_ok hp]
  rfl

theorem storeByte_eq (h : s.translate va = some pa) (b : UInt8) :
    (Kernel.storeByte va b).run s = .ok () { s with mem := s.mem.store pa b } := by
  have hp : (Kernel.physical va).run s = .ok pa s := by
    rw [Kernel.physical, EStateM.get_bind, h]
    rfl
  rw [Kernel.storeByte, EStateM.bind_ok hp]
  rfl

namespace Writes

theorem nil (s : Machine) (ptr : Nat) (g : Nat → UInt8) : s.Writes ptr 0 g s where
  memory := rfl
  bytes := by simp
  others _ _ := rfl

-- The addresses are mapped to the same places as before.
theorem translate_eq (hw : s.Writes ptr k g s') (hb : s.Buffer ptr n) (hk : k ≤ n) {i : Nat}
    (hi : i < n) : s'.translate (ptr + i) = s.translate (ptr + i) := by
  have h := hb.stable s'.mem (fun pa hpa => hw.others pa fun i hi => hpa i (by omega)) i hi
  rwa [← hw.memory] at h

-- One more byte.
theorem storeByte (hw : s.Writes ptr k g s') (hb : s.Buffer ptr n) (hk : k < n) : ∃ s'',
    (Kernel.storeByte (ptr + k) (g k)).run s' = .ok () s'' ∧ s.Writes ptr (k + 1) g s'' := by
  have ⟨pa, ht⟩ := hb.mapped k hk
  have ht' := (hw.translate_eq hb (Nat.le_of_lt hk) hk).trans ht
  have hothers pa' (hpa : ∀ i < k + 1, s.translate (ptr + i) ≠ some pa') :
      (s'.mem.store pa (g k)) pa' = s.mem pa' := by
    have hne : pa' ≠ pa := fun he => hpa k (Nat.lt_succ_self k) (he ▸ ht)
    exact (if_neg hne).trans <| hw.others pa' fun i hi => hpa i (by omega)
  refine ⟨_, storeByte_eq ht' (g k), by rw [hw.memory], fun i hi => ?_, hothers⟩
  -- The byte has been put to a place which no other address of the buffer shares.
  have ⟨pai, hti⟩ := hb.mapped i (by omega)
  have hst := hb.stable (s'.mem.store pa (g k)) (fun pa' hpa => hothers pa' fun i hi => hpa i (by omega))
    i (by omega)
  have hti' : { s' with mem := s'.mem.store pa (g k) }.translate (ptr + i) = some pai := by
    rw [← hti, ← hst, hw.memory]
  rw [view, hti']
  apply congrArg some
  simp only [Bytes.store]
  by_cases hik : i = k
  case pos =>
    have he : pai = pa := Option.some.inj <| hti.symm.trans <| hik ▸ ht
    rw [if_pos he, hik]
  case neg =>
    have hne : pai ≠ pa := fun he => hik <| hb.inj i (by omega) k hk <| hti.trans <| he ▸ ht.symm
    have hby := hw.bytes i (by omega)
    rw [view, hw.translate_eq hb (Nat.le_of_lt hk) (by omega), hti] at hby
    rw [if_neg hne]
    exact Option.some.inj hby

theorem store16 (hw : s.Writes ptr k g s') (hb : s.Buffer ptr n) (hk : k + 2 ≤ n)
    (hg : ∀ i < 2, g (k + i) = .ofNat (v / 2 ^ (8 * i))) : ∃ s'',
    (Kernel.store16 (ptr + k) v).run s' = .ok () s'' ∧ s.Writes ptr (k + 2) g s'' := by
  have ⟨s₁, hr₁, h₁⟩ := hw.storeByte hb (by omega)
  have ⟨s₂, hr₂, h₂⟩ := h₁.storeByte hb (by omega)
  refine ⟨s₂, ?_, h₂⟩
  have hu := hb.upper (k + 1) (by omega)
  have g₀ := hg 0 (by omega)
  have g₁ := hg 1 (by omega)
  simp only [Nat.mul_zero, Nat.pow_zero, Nat.div_one, Nat.add_zero] at g₀
  rw [Kernel.store16, Nat.mod_eq_of_lt (by omega), ← g₀, EStateM.bind_ok hr₁, ← g₁, Nat.add_assoc, hr₂]

theorem store32 (hw : s.Writes ptr k g s') (hb : s.Buffer ptr n) (hk : k + 4 ≤ n)
    (hg : ∀ i < 4, g (k + i) = .ofNat (v / 2 ^ (8 * i))) : ∃ s'',
    (Kernel.store32 (ptr + k) v).run s' = .ok () s'' ∧ s.Writes ptr (k + 4) g s'' := by
  have ⟨s₁, hr₁, h₁⟩ := hw.storeByte hb (by omega)
  have ⟨s₂, hr₂, h₂⟩ := h₁.storeByte hb (by omega)
  have ⟨s₃, hr₃, h₃⟩ := h₂.storeByte hb (by omega)
  have ⟨s₄, hr₄, h₄⟩ := h₃.storeByte hb (by omega)
  refine ⟨s₄, ?_, h₄⟩
  have hu := hb.upper (k + 3) (by omega)
  have g₀ := hg 0 (by omega)
  have g₁ := hg 1 (by omega)
  have g₂ := hg 2 (by omega)
  have g₃ := hg 3 (by omega)
  simp only [Nat.mul_zero, Nat.pow_zero, Nat.div_one, Nat.add_zero] at g₀
  rw [Kernel.store32, Nat.mod_eq_of_lt (by omega), Nat.mod_eq_of_lt (by omega), Nat.mod_eq_of_lt (by omega),
    ← g₀, EStateM.bind_ok hr₁, ← g₁, Nat.add_assoc, EStateM.bind_ok hr₂, ← g₂, Nat.add_assoc,
    EStateM.bind_ok hr₃, ← g₃, Nat.add_assoc, hr₄]

end Writes

-- The kernel's own view of the physical memory.
theorem buffer_kernbase (s : Machine) (h : pa + n ≤ phystop) : s.Buffer (kernbase + pa) n := by
  have ht i (hi : i < n) (s : Machine) : s.translate (kernbase + pa + i) = some (pa + i) := by
    rw [Nat.add_assoc]
    exact s.translate_kernbase (by omega)
  constructor
  case upper  =>
    intro i hi
    simp only [kernbase, phystop] at h ⊢
    omega
  case mapped => exact fun i hi => ⟨pa + i, ht i hi s⟩
  case inj    =>
    intro i hi j hj he
    rw [ht i hi, ht j hj, Option.some.injEq] at he
    omega
  case stable => exact fun m _ i hi => (ht i hi _).trans (ht i hi s).symm

namespace Owns

-- The frames of a process.
theorem translate_maps (h : s.Owns use free) (hk : va < kernbase)
    (hm : Maps use s.cr3 (va / pgsize)) : ∃ f, use f = .frame s.cr3 (va / pgsize) ∧
      s.translate va = some (f + va % pgsize) := by
  have ⟨f, hf⟩ := hm
  have ⟨hv, hn, he⟩ := user_split hk
  have ht := h.translate_frame hf hv hn
  rw [he] at ht
  exact ⟨f, hf, ht⟩

theorem translate_inj {va' : Nat} (h : s.Owns use free) (hk : va < kernbase)
    (hk' : va' < kernbase) (hm : Maps use s.cr3 (va / pgsize)) (hm' : Maps use s.cr3 (va' / pgsize))
    (ht : s.translate va = s.translate va') : va = va' := by
  have ⟨f, hf, he⟩ := h.translate_maps hk hm
  have ⟨f', hf', he'⟩ := h.translate_maps hk' hm'
  have ha := (h.page (p := f) (by simp [hf])).aligned
  have ha' := (h.page (p := f') (by simp [hf'])).aligned
  rw [he, he', Option.some.injEq] at ht
  have hff : f = f' := by
    simp only [pgsize] at ha ha' ht
    omega
  have hv := hf.symm.trans (hff ▸ hf')
  injection hv with _ hv
  simp only [pgsize] at hv ht
  omega

-- Writes to the frames of the process.
theorem of_frames (h : s.Owns use free) {m : Bytes} (hm : ∀ pa, (∀ va < kernbase,
    Maps use s.cr3 (va / pgsize) → s.translate va ≠ some pa) → m pa = s.mem pa) :
    Machine.Owns { s with mem := m } use free := by
  refine h.touch (show ChangesIn (fun p => ∃ v, use p = .frame s.cr3 v) s.mem m from ?hm) ?hp
  case hm =>
    intro p hp hn k hk
    refine hm _ fun va hva hmap hc => ?_
    have ⟨f, hf, ht⟩ := h.translate_maps hva hmap
    have he := Option.some.inj <| hc.symm.trans ht
    have ha := (h.page (p := f) (by simp [hf])).aligned
    have ha' := hp.aligned
    have hpf : p = f := by
      simp only [pgsize] at ha ha' he hk
      omega
    exact hn ⟨_, hpf ▸ hf⟩
  case hp => exact fun p ⟨v, hp⟩ => by simp [hp]

theorem buffer (h : s.Owns use free)
    (hm : ∀ i < n, ptr + i < kernbase ∧ Maps use s.cr3 ((ptr + i) / pgsize)) : s.Buffer ptr n := by
  constructor
  case upper  =>
    intro i hi
    have hk := (hm i hi).left
    simp only [kernbase] at hk
    omega
  case mapped =>
    intro i hi
    have ⟨_, _, ht⟩ := h.translate_maps (hm i hi).left (hm i hi).right
    exact ⟨_, ht⟩
  case inj    =>
    intro i hi j hj he
    have := h.translate_inj (hm i hi).left (hm j hj).left (hm i hi).right (hm j hj).right he
    omega
  case stable =>
    intro m hmem i hi
    have ho := h.of_frames (m := m) fun pa hpa => hmem pa fun i hi => hpa _ (hm i hi).left (hm i hi).right
    have ⟨f, hf, ht⟩ := h.translate_maps (hm i hi).left (hm i hi).right
    have ⟨f', hf', ht'⟩ := ho.translate_maps (hm i hi).left (hm i hi).right
    rw [ht, ht', h.frame_unique hf hf']

-- Bytes which are written to the frames are seen by the process, and nothing else is.
theorem shows_writes {x : View} (h : s.Owns use free) (h' : s'.Owns use free) (hd : use s.cr3 = .dir)
    (hs : s.Shows s.cr3 x) (hm : ∀ i < n, ptr + i < kernbase ∧ Maps use s.cr3 ((ptr + i) / pgsize))
    (hw : s.Writes ptr n g s') : s'.Shows s.cr3 (x.write ptr n g) := by
  intro va hva
  have hc : s'.cr3 = s.cr3 := by rw [hw.memory]
  have he : { s' with cr3 := s.cr3 } = s' := by rw [hw.memory]
  have hs := hs va hva
  rw [he, View.write, ← hs]
  by_cases hin : ptr ≤ va ∧ va < ptr + n
  case pos =>
    have hb := hw.bytes (va - ptr) (by omega)
    rw [if_pos hin, ← hb, Nat.add_sub_cancel' hin.left]
  case neg =>
    rw [if_neg hin]
    by_cases hmap : Maps use s.cr3 (va / pgsize)
    case neg => rw [h'.view_none (hc ▸ hd) (hc ▸ hmap) hva, h.view_none hd hmap hva]
    case pos =>
      have ⟨f, hf, ht⟩ := h.translate_maps hva hmap
      rw [h'.view_frame (hc ▸ hf) hva, h.view_frame hf hva]
      refine congrArg some <| hw.others _ fun i hi hti => hin ?_
      have := h.translate_inj hva (hm i hi).left hmap (hm i hi).right (ht.trans hti.symm)
      omega

end Owns

end Machine
