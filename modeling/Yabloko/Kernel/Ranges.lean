import Yabloko.Kernel.Alloc

-- The number of pages which are taken to map `n` pages from page `a` on: each frame takes one, and so
-- does each new table.
def pagesFor (tables : Nat → Bool) (a : Nat) : Nat → Nat
  | 0     => 0
  | n + 1 => pagesFor tables a n +
      if tables ((a + n) / 1024) ∨ (n ≠ 0 ∧ (a + n) % 1024 ≠ 0) then 1 else 2

theorem pagesFor_mono (tables : Nat → Bool) (a n : Nat) :
    pagesFor tables a n < pagesFor tables a (n + 1) := by
  rw [pagesFor]
  split <;> omega

theorem le_pagesFor (tables : Nat → Bool) (a n : Nat) : n ≤ pagesFor tables a n := by
  induction n
  case zero      => exact Nat.zero_le _
  case succ n hi => exact Nat.lt_of_le_of_lt hi <| pagesFor_mono tables a n

theorem pagesFor_le (tables : Nat → Bool) (a n : Nat) : pagesFor tables a n ≤ 2 * n := by
  induction n
  case zero      => exact Nat.zero_le _
  case succ n hi =>
    rw [pagesFor]
    split <;> omega

-- A directory after the pages `a` to `a + n - 1` have been mapped.
structure Ranged (d a n : Nat) (s : Machine) (use : Nat → Use) (s' : Machine) (use' : Nat → Use)
    (free' : List Nat) : Prop where
  owns    : s'.Owns use' free'
  extend  : Extends d s use s' use'
  maps    : ∀ v, Maps use' d v ↔ Maps use d v ∨ (a ≤ v ∧ v < a + n)
  tables  : ∀ i, HasTable use' d i ↔ HasTable use d i ∨ ∃ v, a ≤ v ∧ v < a + n ∧ v / 1024 = i

variable {use use' : Nat → Use} {p q i j d t f v w a n k fuel top : Nat} {s s' : Machine}
  {free free' : List Nat} {tables : Nat → Bool}

theorem maps_update (hp : use p = .free) (v w : Nat) :
    Maps (Function.update use p (.frame d v)) d w ↔ Maps use d w ∨ w = v := by
  constructor
  case mp  =>
    intro ⟨f, hf⟩
    by_cases hfp : f = p
    case pos =>
      rw [hfp, Function.update_self, Use.frame.injEq] at hf
      exact .inr hf.right.symm
    case neg => exact .inl ⟨f, by rwa [Function.update_of_ne hfp] at hf⟩
  case mpr =>
    intro h
    cases h
    case inr he => exact ⟨p, by simp [he]⟩
    case inl hm =>
      have ⟨f, hf⟩ := hm
      exact ⟨f, by rwa [Function.update_of_ne fun he => by simp [he, hp] at hf]⟩

theorem hasTable_update (hp : use p = .free) (i j : Nat) :
    HasTable (Function.update use p (.table d i)) d j ↔ HasTable use d j ∨ j = i := by
  constructor
  case mp  =>
    intro ⟨t, ht⟩
    by_cases htp : t = p
    case pos =>
      rw [htp, Function.update_self, Use.table.injEq] at ht
      exact .inr ht.right.symm
    case neg => exact .inl ⟨t, by rwa [Function.update_of_ne htp] at ht⟩
  case mpr =>
    intro h
    cases h
    case inr he => exact ⟨p, by simp [he]⟩
    case inl ht =>
      have ⟨t, ht⟩ := ht
      exact ⟨t, by rwa [Function.update_of_ne fun he => by simp [he, hp] at ht]⟩

theorem hasTable_update_frame (hp : use p = .free) (v j : Nat) :
    HasTable (Function.update use p (.frame d v)) d j ↔ HasTable use d j := by
  have h t := update_eq_iff (p := p) (u := .table d j) (show use p ≠ .table d j by simp [hp]) (.frame d v)
    (by simp) t
  simp only [HasTable, h]

theorem maps_update_table (hp : use p = .free) (i w : Nat) :
    Maps (Function.update use p (.table d i)) d w ↔ Maps use d w := by
  have h t := update_eq_iff (p := p) (u := .frame d w) (show use p ≠ .frame d w by simp [hp]) (.table d i)
    (by simp) t
  simp only [Maps, h]

-- No page is mapped by another use of a page.
theorem Maps.of_update {u : Use} (hu : ∀ d v, u ≠ .frame d v)
    (h : Maps (Function.update use p u) d v) : Maps use d v := by
  have ⟨f, hf⟩ := h
  by_cases hfp : f = p
  case pos => exact absurd (by rwa [hfp, Function.update_self] at hf) (hu d v)
  case neg => exact ⟨f, by rwa [Function.update_of_ne hfp] at hf⟩

-- No other directory maps a new page.
theorem Ranged.maps_any {d' : Nat} (h : Ranged d a n s use s' use' free') (hm : Maps use' d' v) :
    Maps use d' v ∨ (d' = d ∧ a ≤ v ∧ v < a + n) := by
  have ⟨f, hf⟩ := hm
  by_cases hu : use f = .free
  case neg => exact .inl ⟨f, by rw [← h.extend.uses f hu, hf]⟩
  case pos =>
    have hdd : d' = d := by
      rcases h.extend.free f hu with he | ⟨i, he⟩ | ⟨v, he⟩
      all_goals simp only [hf, reduceCtorEq, Use.frame.injEq] at he
      exact he.left
    subst hdd
    exact ((h.maps v).mp hm).imp_right fun hr => ⟨rfl, hr⟩

theorem Ranged.free_of_free (h : Ranged d a n s use s' use' free') (hp : use' p = .free) :
    use p = .free := by
  by_contra hc
  exact hc <| (h.extend.uses p hc).symm.trans hp

-- The first page of a range which has not been mapped before takes a free page.
theorem Ranged.first (h : Ranged d a n s use s' use' free') (hn : n ≠ 0) (hm : ¬Maps use d a) :
    ∃ p, use p = .free ∧ use' p = .frame d a := by
  have ⟨p, hp⟩ := (h.maps a).mpr <| .inr ⟨Nat.le_refl a, by omega⟩
  refine ⟨p, ?_, hp⟩
  by_contra hc
  exact hm ⟨p, by rw [← h.extend.uses p hc, hp]⟩

theorem Ranged.refl (h : s.Owns use free) (d a : Nat) : Ranged d a 0 s use s use free where
  owns := h
  extend := .refl d s use
  maps v := (or_iff_left (by omega)).symm
  tables i := by
    simp only [Nat.add_zero, iff_self_or]
    exact fun ⟨v, h₁, h₂, _⟩ => absurd h₂ <| by omega

-- Among the new pages, the one with number `a + n` needs a table of its own.
theorem Ranged.hasTable_iff (h : Ranged d a n s use s' use' free')
    (hT : ∀ i, tables i = true ↔ HasTable use d i) :
    HasTable use' d ((a + n) / 1024) ↔
      tables ((a + n) / 1024) ∨ (n ≠ 0 ∧ (a + n) % 1024 ≠ 0) := by
  rw [h.tables, hT]
  apply or_congr_right
  constructor
  case mp  => exact fun ⟨v, h₁, h₂, h₃⟩ => by omega
  case mpr => exact fun ⟨h₁, h₂⟩ => ⟨a + n - 1, by omega⟩

-- One more page is mapped, with or without a new table.
theorem Ranged.frame (h : Ranged d a n s use s' use' (p :: free))
    (ht : HasTable use' d ((a + n) / 1024)) {s'' : Machine}
    (h' : s''.Owns (Function.update use' p (.frame d (a + n))) free)
    (hx : Extends d s' use' s'' (Function.update use' p (.frame d (a + n)))) (hd : use d = .dir) :
    Ranged d a (n + 1) s use s'' (Function.update use' p (.frame d (a + n))) free where
  owns := h'
  extend := h.extend.trans hx (by simp [hd])
  maps v := by
    rw [maps_update <| (h.owns.mem_iff p).mp (by simp), h.maps, or_assoc]
    apply or_congr_right
    omega
  tables i := by
    rw [hasTable_update_frame <| (h.owns.mem_iff p).mp (by simp), h.tables]
    have ht := (h.tables _).mp ht
    constructor
    case mp  =>
      exact fun hc => hc.imp_right fun ⟨v, h₁, h₂, h₃⟩ => ⟨v, h₁, by omega, h₃⟩
    case mpr =>
      intro hc
      cases hc
      case inl hc => exact .inl hc
      case inr hc =>
        have ⟨v, h₁, h₂, h₃⟩ := hc
        by_cases hv : v = a + n
        case pos => rwa [← h₃, hv]
        case neg => exact .inr ⟨v, h₁, by omega, h₃⟩

theorem Ranged.table (h : Ranged d a n s use s' use' (p :: t :: free)) {s'' : Machine}
    {use'' : Nat → Use} (hu : use'' = Function.update
      (Function.update use' t (.table d ((a + n) / 1024))) p (.frame d (a + n)))
    (h' : s''.Owns use'' free) (hx : Extends d s' use' s'' use'') (hd : use d = .dir) :
    Ranged d a (n + 1) s use s'' use'' free := by
  have hp := (h.owns.mem_iff p).mp (by simp)
  have ht := (h.owns.mem_iff t).mp (by simp)
  have hpt : p ≠ t := by
    have hn := h.owns.nodup
    simp only [List.nodup_cons, List.mem_cons, not_or] at hn
    exact hn.left.left
  have hp' : Function.update use' t (.table d ((a + n) / 1024)) p = .free := by
    rwa [Function.update_of_ne hpt]
  exact {
    owns := h'
    extend := h.extend.trans hx (by simp [hd])
    maps := fun v => by
      rw [hu, maps_update hp', maps_update_table ht, h.maps, or_assoc]
      apply or_congr_right
      omega
    tables := fun i => by
      rw [hu, hasTable_update_frame hp', hasTable_update ht, h.tables, or_assoc]
      apply or_congr_right
      constructor
      case mp  =>
        intro hc
        cases hc
        case inl hc => have ⟨v, h₁, h₂, h₃⟩ := hc; exact ⟨v, h₁, by omega, h₃⟩
        case inr hc => exact ⟨a + n, by omega, by omega, hc.symm⟩
      case mpr =>
        intro ⟨v, h₁, h₂, h₃⟩
        by_cases hv : v = a + n
        case pos => exact .inr <| by rw [← h₃, hv]
        case neg => exact .inl ⟨v, h₁, by omega, h₃⟩ }

namespace Machine.Owns

theorem length_lt (h : s.Owns use free) : free.length < phystop / pgsize := by
  have hp p (hp : p ∈ free) := h.page (p := p) (by simp [(h.mem_iff p).mp hp])
  have hn : (free.map (· / pgsize)).Nodup := by
    apply List.Nodup.map_on _ h.nodup
    intro p hp' q hq' he
    have h₁ := (hp p hp').aligned
    have h₂ := (hp q hq').aligned
    simp only [pgsize] at h₁ h₂ he
    omega
  have hs : free.map (· / pgsize) ⊆ (List.range (phystop / pgsize)).erase 0 := by
    intro k hk
    have ⟨p, hpm, he⟩ := List.mem_map.mp hk
    have h₁ := (hp p hpm).lower
    have h₂ := (hp p hpm).upper
    have h₃ := (hp p hpm).aligned
    simp only [pgsize, phystop, Nat.reduceShiftLeft] at h₁ h₂ h₃ he ⊢
    rw [List.Nodup.mem_erase_iff List.nodup_range, List.mem_range]
    omega
  have hl := (hn.subperm hs).length_le
  rw [List.length_map] at hl
  apply Nat.lt_of_le_of_lt hl
  rw [List.length_erase_of_mem (by simp [phystop, pgsize]), List.length_range]
  decide

-- The rounds for the pages `a` to `a + n - 1`, as long as there are enough free pages.
theorem allocuvm_prefix (h : s.Owns use free) (hd : use d = .dir)
    (hT : ∀ i, tables i = true ↔ HasTable use d i) (hn : a + n ≤ 2 ^ 19)
    (ht : ∀ k < n, (a + k) * pgsize < top) (hm : ∀ v, a ≤ v → v < a + n → ¬Maps use d v)
    (hc : pagesFor tables a n ≤ free.length) (fuel : Nat) : ∃ s' use' free',
    (Kernel.allocuvm.go (kernbase + d) top (fuel + n) (a * pgsize)).run s =
      (Kernel.allocuvm.go (kernbase + d) top fuel ((a + n) * pgsize)).run s' ∧
    Ranged d a n s use s' use' free' ∧ free'.length + pagesFor tables a n = free.length ∧
    s'.exhausted = s.exhausted := by
  induction n generalizing fuel
  case zero      => exact ⟨s, use, free, rfl, .refl h d a, rfl, rfl⟩
  case succ n hi =>
    have hlt := pagesFor_mono tables a n
    have ⟨s₁, use₁, free₁, hr₁, h₁, hl₁, he₁⟩ := hi (by omega) (fun k hk => ht k (by omega))
      (fun v hv hv' => hm v hv (by omega)) (by omega) (fuel + 1)
    have hadd : fuel + 1 + n = fuel + (n + 1) := by omega
    rw [hadd] at hr₁
    have hd₁ : use₁ d = .dir := by rw [h₁.extend.uses d (by simp [hd]), hd]
    have hnm : ¬Maps use₁ d (a + n) := by
      rw [h₁.maps, not_or]
      exact ⟨hm _ (by omega) (by omega), by omega⟩
    have htop := ht n (by omega)
    rw [pagesFor] at hc ⊢
    by_cases hT₁ : tables ((a + n) / 1024) ∨ (n ≠ 0 ∧ (a + n) % 1024 ≠ 0)
    case pos =>
      rw [if_pos hT₁] at hc ⊢
      have ht₁ := (h₁.hasTable_iff hT).mpr hT₁
      match free₁, h₁, hl₁ with
      | [], _, hl₁               => simp at hl₁; omega
      | p :: free₂, h₁, hl₁ =>
        have ⟨s₂, hr₂, h₂, hx₂, he₂⟩ :=
          h₁.owns.allocuvm_frame fuel htop (by omega) ht₁ hnm
        exact ⟨s₂, _, free₂, hr₁.trans hr₂, h₁.frame ht₁ h₂ hx₂ hd, by simp at hl₁; omega,
          he₂.trans he₁⟩
    case neg =>
      rw [if_neg hT₁] at hc ⊢
      have ht₁ := mt (h₁.hasTable_iff hT).mp hT₁
      match free₁, h₁, hl₁ with
      | [], _, hl₁ | [_], _, hl₁ => simp at hl₁; omega
      | p :: t :: free₂, h₁, hl₁ =>
        have ⟨s₂, use₂, hr₂, hu₂, h₂, hx₂, he₂⟩ :=
          h₁.owns.allocuvm_table fuel htop (by omega) hd₁ ht₁
        exact ⟨s₂, use₂, free₂, hr₁.trans hr₂, h₁.table hu₂ h₂ hx₂ hd, by simp at hl₁; omega,
          he₂.trans he₁⟩

section Outcomes

variable {base : Nat}

theorem allocuvm_eq (hb : pgroundup base = a * pgsize) (hf : n < phystop / pgsize + 1)
    (pgdir top : Nat) : Kernel.allocuvm pgdir base top =
      Kernel.allocuvm.go pgdir top (phystop / pgsize - n + 1 + n) (a * pgsize) := by
  rw [Kernel.allocuvm, hb, show phystop / pgsize - n + 1 + n = phystop / pgsize + 1 by omega]

-- There are enough pages.
theorem allocuvm_ok (h : s.Owns use free) (hd : use d = .dir)
    (hT : ∀ i, tables i = true ↔ HasTable use d i) (hb : pgroundup base = a * pgsize)
    (hn : a + n ≤ 2 ^ 19) (ht : ∀ k < n, (a + k) * pgsize < top) (hl : top ≤ (a + n) * pgsize)
    (hm : ∀ v, a ≤ v → v < a + n → ¬Maps use d v) (hc : pagesFor tables a n ≤ free.length) :
    ∃ s' use' free', (Kernel.allocuvm (kernbase + d) base top).run s = .ok 0 s' ∧
      Ranged d a n s use s' use' free' ∧ free'.length + pagesFor tables a n = free.length ∧
      s'.exhausted = s.exhausted := by
  have hlen := h.length_lt
  have hle := le_pagesFor tables a n
  have ⟨s', use', free', hr, h', hl', he⟩ := h.allocuvm_prefix hd hT hn ht hm hc
    (phystop / pgsize - n + 1)
  refine ⟨s', use', free', ?_, h', hl', he⟩
  rw [allocuvm_eq (n := n) hb (by omega), hr, Kernel.allocuvm.go, if_neg (by omega)]
  rfl

-- The pages run out within the range, after some of it has been mapped.
theorem allocuvm_short (h : s.Owns use free) (hd : use d = .dir)
    (hT : ∀ i, tables i = true ↔ HasTable use d i) (hb : pgroundup base = a * pgsize)
    (hn : a + n ≤ 2 ^ 19) (ht : ∀ k < n, (a + k) * pgsize < top)
    (hm : ∀ v, a ≤ v → v < a + n → ¬Maps use d v) (hc : free.length < pagesFor tables a n) :
    ∃ s' use' free' k, k < n ∧ (Kernel.allocuvm (kernbase + d) base top).run s = .ok (-1) s' ∧
      Ranged d a k s use s' use' free' ∧ free'.length + pagesFor tables a k = free.length ∧
      free.length < pagesFor tables a (k + 1) ∧ s'.exhausted = true := by
  have hlen := h.length_lt
  have ⟨k, hk, hck, hck'⟩ : ∃ k < n, pagesFor tables a k ≤ free.length ∧
      free.length < pagesFor tables a (k + 1) := by
    clear hn ht hm
    induction n
    case zero      => simp [pagesFor] at hc
    case succ n hi =>
      by_cases hn : free.length < pagesFor tables a n
      case pos =>
        have ⟨k, hk, h⟩ := hi hn
        exact ⟨k, by omega, h⟩
      case neg => exact ⟨n, by omega, by omega, hc⟩
  have hle := le_pagesFor tables a k
  have ⟨s₁, use₁, free₁, hr, h₁, hl₁, he₁⟩ := h.allocuvm_prefix hd hT (n := k) (by omega)
    (fun j hj => ht j (by omega)) (fun v hv hv' => hm v hv (by omega)) hck (phystop / pgsize - k + 1)
  have htop := ht k hk
  have hd₁ : use₁ d = .dir := by rw [h₁.extend.uses d (by simp [hd]), hd]
  rw [pagesFor] at hck'
  match free₁, h₁, hl₁ with
  | [], h₁, hl₁                =>
    refine ⟨{ s₁ with exhausted := true }, use₁, [], k, hk, ?_, ?_, hl₁, hck', rfl⟩
    · rw [allocuvm_eq (n := k) hb (by omega), hr, h₁.owns.allocuvm_nil htop]
    · exact { h₁ with owns := { h₁.owns with }, extend := { h₁.extend with } }
  | [p], h₁, hl₁               =>
    have hT₁ : ¬(tables ((a + k) / 1024) ∨ (k ≠ 0 ∧ (a + k) % 1024 ≠ 0)) := by
      intro hT₁
      rw [if_pos hT₁] at hck'
      simp at hl₁
      omega
    have ⟨s₂, hr₂, h₂, hx₂, he₂⟩ := h₁.owns.allocuvm_single (phystop / pgsize - k) htop
      (by omega) hd₁ <| mt (h₁.hasTable_iff hT).mp hT₁
    refine ⟨s₂, use₁, [p], k, hk, ?_, ?_, hl₁, hck', he₂⟩
    · rw [allocuvm_eq (n := k) hb (by omega), hr, hr₂]
    · exact { h₁ with owns := h₂, extend := h₁.extend.trans hx₂ (by simp [hd]) }
  | p :: t :: free₂, _, hl₁    =>
    simp at hl₁
    split at hck' <;> omega

-- There are less pages than the user memory has.
theorem allocuvm_exhausted (h : s.Owns use free) (hd : use d = .dir) (ha : a + phystop / pgsize ≤ 2 ^ 19)
    (hm : ∀ v, a ≤ v → ¬Maps use d v) : ∃ s' use' free' k,
    (Kernel.allocuvm (kernbase + d) (a * pgsize) kernbase).run s = .ok (-1) s' ∧
      Ranged d a k s use s' use' free' ∧ s'.exhausted = true := by
  classical
  have hlen := h.length_lt
  have hle := le_pagesFor (fun i => decide (HasTable use d i)) a (2 ^ 19 - a)
  simp only [phystop, pgsize] at ha hlen
  have hb : pgroundup (a * pgsize) = a * pgsize := by
    simp only [pgroundup, pgsize]
    omega
  have ⟨s', use', free', k, _, hr, hx, _, _, he⟩ := h.allocuvm_short hd (fun i => decide_eq_true_iff) hb
    (show a + (2 ^ 19 - a) ≤ 2 ^ 19 by omega)
    (show ∀ i < 2 ^ 19 - a, (a + i) * pgsize < kernbase by
      intro i hi
      simp only [pgsize, kernbase]
      omega)
    (fun v hv _ => hm v hv) (by omega)
  exact ⟨s', use', free', k, hr, hx, he⟩

-- The pages run out exactly in front of a further page.
theorem allocuvm_last (h : s.Owns use free) (hd : use d = .dir)
    (hT : ∀ i, tables i = true ↔ HasTable use d i) (hb : pgroundup base = a * pgsize)
    (hn : a + n ≤ 2 ^ 19) (ht : ∀ k ≤ n, (a + k) * pgsize < top)
    (hm : ∀ v, a ≤ v → v < a + n → ¬Maps use d v) (hc : free.length = pagesFor tables a n) :
    ∃ s' use', (Kernel.allocuvm (kernbase + d) base top).run s = .ok (-1) s' ∧
      Ranged d a n s use s' use' [] ∧ s'.exhausted = true := by
  have hlen := h.length_lt
  have hle := le_pagesFor tables a n
  have ⟨s₁, use₁, free₁, hr, h₁, hl₁, _⟩ := h.allocuvm_prefix hd hT hn (fun k hk => ht k (by omega)) hm
    (by omega) (phystop / pgsize - n + 1)
  have hnil : free₁ = [] := List.eq_nil_of_length_eq_zero (by omega)
  subst hnil
  refine ⟨{ s₁ with exhausted := true }, use₁, ?_, ?_, rfl⟩
  · rw [allocuvm_eq (n := n) hb (by omega), hr, h₁.owns.allocuvm_nil (ht n (Nat.le_refl n))]
  · exact { h₁ with owns := { h₁.owns with }, extend := { h₁.extend with } }

-- The range reaches a page which is mapped already.
theorem allocuvm_hits (h : s.Owns use free) (hd : use d = .dir)
    (hT : ∀ i, tables i = true ↔ HasTable use d i) (hb : pgroundup base = a * pgsize)
    (hn : a + n < 2 ^ 19) (ht : ∀ k ≤ n, (a + k) * pgsize < top)
    (hm : ∀ v, a ≤ v → v < a + n → ¬Maps use d v) (hm' : Maps use d (a + n))
    (hc : pagesFor tables a n < free.length) :
    ∃ s', (Kernel.allocuvm (kernbase + d) base top).run s = .error (.panic "remap") s' ∧
      s'.exhausted = s.exhausted := by
  have hlen := h.length_lt
  have hle := le_pagesFor tables a n
  have ⟨s₁, use₁, free₁, hr, h₁, hl₁, he₁⟩ := h.allocuvm_prefix hd hT (by omega)
    (fun k hk => ht k (by omega)) hm (by omega) (phystop / pgsize - n + 1)
  match free₁, h₁, hl₁ with
  | [], _, hl₁         => simp at hl₁; omega
  | p :: free₂, h₁, _  =>
    have ⟨s₂, hr₂, he₂⟩ := h₁.owns.allocuvm_remap (phystop / pgsize - n)
      (ht n (Nat.le_refl n)) hn <| (h₁.maps _).mpr <| .inl hm'
    exact ⟨s₂, by rw [allocuvm_eq (n := n) hb (by omega), hr, hr₂], he₂.trans he₁⟩

-- The range does not reach a page which is mapped already.
theorem allocuvm (h : s.Owns use free) (hd : use d = .dir) (hbt : base ≤ top) (ht : top ≤ kernbase)
    (hm : ∀ v, pgroundup base ≤ v * pgsize → v * pgsize < top → ¬Maps use d v) :
    ∃ r s' use' free' k, (Kernel.allocuvm (kernbase + d) base top).run s = .ok r s' ∧
      Ranged d (pgroundup base / pgsize) k s use s' use' free' := by
  classical
  let tables i := decide (HasTable use d i)
  let n := (top + pgsize - 1) / pgsize - pgroundup base / pgsize
  have hT i : tables i = true ↔ HasTable use d i := decide_eq_true_iff
  have hb : pgroundup base = pgroundup base / pgsize * pgsize := by
    simp only [pgroundup, pgsize]
    omega
  have hn : pgroundup base / pgsize + n ≤ 2 ^ 19 := by
    simp only [n, pgroundup, pgsize, kernbase] at hbt ht ⊢
    omega
  have htop k (hk : k < n) : (pgroundup base / pgsize + k) * pgsize < top := by
    simp only [n, pgsize] at hk ⊢
    omega
  have hm' v (hv : pgroundup base / pgsize ≤ v) (hv' : v < pgroundup base / pgsize + n) :
      ¬Maps use d v := by
    have htv := htop (v - pgroundup base / pgsize) (by omega)
    rw [Nat.add_sub_cancel' hv] at htv
    apply hm v _ htv
    rw [hb]
    exact Nat.mul_le_mul_right _ hv
  by_cases hc : pagesFor tables (pgroundup base / pgsize) n ≤ free.length
  case pos =>
    have hl : top ≤ (pgroundup base / pgsize + n) * pgsize := by
      simp only [n, pgsize]
      omega
    have ⟨s', use', free', hr, h', _⟩ := h.allocuvm_ok hd hT hb hn htop hl hm' hc
    exact ⟨0, s', use', free', n, hr, h'⟩
  case neg =>
    have ⟨s', use', free', k, _, hr, h', _⟩ := h.allocuvm_short hd hT hb hn htop hm' (by omega)
    exact ⟨-1, s', use', free', k, hr, h'⟩

-- The pages which are left when they have run out: another page needs at most two of them.
theorem length_le_of_short {m : Nat} (hc : free'.length + pagesFor tables a k = m)
    (hk : m < pagesFor tables a (k + 1)) : free'.length ≤ 1 := by
  rw [pagesFor] at hk
  split at hk <;> omega

-- Whether or not the range is free, as long as the pages run out before the upper half is reached.
theorem allocuvm_any {r : Int} (h : s.Owns use free) (hd : use d = .dir)
    (hroom : free = [] ∨ ∀ j ≤ free.length, (pgroundup base / pgsize + j) * pgsize < top →
      pgroundup base / pgsize + j < 2 ^ 19)
    (hr : (Kernel.allocuvm (kernbase + d) base top).run s = .ok r s') :
    ∃ use' free' n, Ranged d (pgroundup base / pgsize) n s use s' use' free' ∧
      (∀ j < n, (pgroundup base / pgsize + j) * pgsize < top) ∧
      ((pgroundup base / pgsize + free.length) * pgsize < top → free'.length ≤ 1) := by
  classical
  have hb : pgroundup base = pgroundup base / pgsize * pgsize := by
    simp only [pgroundup, pgsize]
    omega
  generalize ha : pgroundup base / pgsize = a at *
  have hgo := hr
  rw [Kernel.allocuvm, hb] at hgo
  by_cases hat : a * pgsize < top
  case neg =>
    rw [Kernel.allocuvm.go, if_neg hat] at hgo
    cases hgo
    refine ⟨use, free, 0, .refl h d a, fun _ hj => absurd hj (Nat.not_lt_zero _), fun hc => absurd (Nat.lt_of_le_of_lt ?_ hc) hat⟩
    exact Nat.mul_le_mul_right _ (Nat.le_add_right _ _)
  case pos =>
    cases hroom
    case inl hnil   =>
      subst hnil
      rw [h.allocuvm_nil hat] at hgo
      cases hgo
      refine ⟨use, [], 0, ?_, fun _ hj => absurd hj (Nat.not_lt_zero _), fun _ => Nat.zero_le _⟩
      have hx := Ranged.refl h d a
      exact { hx with owns := { h with }, extend := { hx.extend with } }
    case inr hroom  =>
      let tables i := decide (HasTable use d i)
      have hT i : tables i = true ↔ HasTable use d i := decide_eq_true_iff
      -- The first page at which the loop cannot go on as before.
      have hex : ∃ n, n = free.length + 1 ∨ top ≤ (a + n) * pgsize ∨ Maps use d (a + n) := ⟨_, .inl rfl⟩
      obtain ⟨n, hn, hmin⟩ : ∃ n, (n = free.length + 1 ∨ top ≤ (a + n) * pgsize ∨ Maps use d (a + n)) ∧
          ∀ k < n, ¬(k = free.length + 1 ∨ top ≤ (a + k) * pgsize ∨ Maps use d (a + k)) :=
        ⟨Nat.find hex, Nat.find_spec hex, fun _ => Nat.find_min hex⟩
      have hle : n ≤ free.length + 1 := by
        by_contra hc
        exact hmin _ (by omega) <| .inl rfl
      have htop k (hk : k < n) : (a + k) * pgsize < top :=
        Nat.lt_of_not_le fun hc => hmin k hk <| .inr <| .inl hc
      have hmaps v (hv : a ≤ v) (hv' : v < a + n) : ¬Maps use d v := fun hc => by
        have hlt : v - a < n := by omega
        apply hmin _ hlt
        rw [Nat.add_sub_cancel' hv]
        exact .inr <| .inr hc
      have hn0 : 0 < n ∨ Maps use d a ∨ top ≤ a * pgsize := by
        by_contra hc
        simp only [not_or, Nat.not_lt, Nat.le_zero] at hc
        rw [hc.left, Nat.add_zero] at hn
        rcases hn with hn | hn | hn
        case inl     => omega
        case inr.inl => exact hc.right.right hn
        case inr.inr => exact hc.right.left hn
      have hmlt v (hm : Maps use d v) : v < 2 ^ 19 := by
        obtain ⟨f, hf⟩ := hm
        obtain ⟨t, ht, _⟩ := h.mapped.frame f d v hf
        have := h.table_lt ht
        omega
      have hlim : a + n ≤ 2 ^ 19 := by
        by_cases hz : n = 0
        case neg =>
          have := hroom (n - 1) (by omega) (htop _ (by omega))
          omega
        case pos =>
          rcases hn0 with hc | hc | hc
          case inl     => omega
          case inr.inl => have := hmlt a hc; omega
          case inr.inr => exact absurd hat (Nat.not_lt.mpr hc)
      by_cases hc : pagesFor tables a n ≤ free.length
      case neg =>
        obtain ⟨s₁, use', free', k, hkn, hr₁, h', hl, hk, _⟩ := h.allocuvm_short hd hT hb hlim htop hmaps
          (Nat.lt_of_not_le hc)
        rw [hr] at hr₁
        cases hr₁
        exact ⟨use', free', k, h', fun j hj => htop j (by omega), fun _ => length_le_of_short hl hk⟩
      case pos =>
        have hnf := Nat.le_trans (le_pagesFor tables a n) hc
        by_cases hend : top ≤ (a + n) * pgsize
        case pos =>
          obtain ⟨s₁, use', free', hr₁, h', _⟩ := h.allocuvm_ok hd hT hb hlim htop hend hmaps hc
          rw [hr] at hr₁
          cases hr₁
          refine ⟨use', free', n, h', htop, fun hlt => absurd hlt <| Nat.not_lt.mpr <| Nat.le_trans hend ?_⟩
          exact Nat.mul_le_mul_right _ (Nat.add_le_add_left hnf _)
        case neg =>
          have hmn : Maps use d (a + n) := by
            rcases hn with hn | hn | hn
            case inl     => omega
            case inr.inl => exact absurd hn hend
            case inr.inr => exact hn
          have htop' k (hk : k ≤ n) : (a + k) * pgsize < top :=
            Nat.lt_of_le_of_lt (Nat.mul_le_mul_right _ <| Nat.add_le_add_left hk _) (Nat.lt_of_not_le hend)
          cases Nat.lt_or_eq_of_le hc
          case inl hlt =>
            obtain ⟨s₁, hr₁, _⟩ := h.allocuvm_hits hd hT hb (hmlt _ hmn) htop' hmaps hmn hlt
            rw [hr] at hr₁
            cases hr₁
          case inr heq =>
            obtain ⟨s₁, use', hr₁, h', _⟩ := h.allocuvm_last hd hT hb hlim htop' hmaps heq.symm
            rw [hr] at hr₁
            cases hr₁
            exact ⟨use', [], n, h', htop, fun _ => Nat.zero_le _⟩

-- The only page which may be left is taken if the first page of the range is mapped afterwards.
theorem allocuvm_takes {r : Int} (h : s.Owns use free) (hl : free.length ≤ 1)
    (hb : pgroundup base = a * pgsize) (ha : a * pgsize < top) (ha' : a < 2 ^ 19)
    (hr : (Kernel.allocuvm (kernbase + d) base top).run s = .ok r s')
    (hx : Ranged d a n s use s' use' free') (hm : Maps use' d a) : free' = [] := by
  apply List.eq_nil_iff_forall_not_mem.mpr
  intro q hq
  have hq' := (hx.owns.mem_iff q).mp hq
  have hqf := (h.mem_iff q).mpr <| hx.free_of_free hq'
  match free, h, hl with
  | [p], h, _ =>
    by_cases hma : Maps use d a
    case pos =>
      have ⟨s₁, hr₁, _⟩ := h.allocuvm_remap (phystop / pgsize) ha ha' hma
      rw [Kernel.allocuvm, hb, hr₁] at hr
      cases hr
    case neg =>
      have hn : n ≠ 0 := by
        intro hn
        cases (hx.maps a).mp hm
        case inl hm => exact hma hm
        case inr hr => omega
      have ⟨p', hp, hp'⟩ := hx.first hn hma
      have he : p' = q := by
        rw [List.mem_singleton.mp <| (h.mem_iff p').mpr hp, List.mem_singleton.mp hqf]
      simp [← he, hp'] at hq'
  | [], _, _  => cases hqf

end Outcomes

end Machine.Owns
