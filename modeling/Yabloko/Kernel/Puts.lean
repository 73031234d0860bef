import Yabloko.Kernel.Poll

namespace Kernel

-- The bytes of the process are read through a load which is a parameter here, so that it can be
-- told which bytes are read. The kernel uses `loadByte`.
def getUserspacePtr (load : Nat → Kernel UInt8) (ptr : Nat) : Kernel Nat := do
  let readable ← userReadableAfter ptr
  if readable = 0 then
    return 0
  go readable 0
where
  go : Nat → Nat → Kernel Nat
    | 0, _     => return 0
    | n + 1, i => do
      if (← load ((ptr + i) % 2 ^ 32)) = 0 then
        return ptr
      go n (i + 1)

-- The characters in front of the terminating zero.
def loadString (load : Nat → Kernel UInt8) : Nat → Nat → Kernel (List UInt8)
  | 0, _          => throw .diverges
  | rounds + 1, s => do
    let c ← load s
    if c = 0 then
      return []
    return c :: (← loadString load rounds ((s + 1) % 2 ^ 32))

-- The string is read twice, for the display and for the serial line. The text memory of the display
-- is not mapped by the process.
def printk (load : Nat → Kernel UInt8) (msg : Nat) : Kernel (List UInt8 × List UInt8) := do
  let shown ← loadString load (2 ^ 32) msg
  let sent ← loadString load (2 ^ 32) msg
  return (shown, sent)

-- The result of the system call, and what is printed.
def handlePuts (load : Nat → Kernel UInt8) (s : Nat) : Kernel (Int × List UInt8 × List UInt8) := do
  if s = 0 then
    return (-1, [], [])
  let printed ← printk load s
  return (0, printed)

def sysPuts (load : Nat → Kernel UInt8) (ebx : Nat) : Kernel (Int × List UInt8 × List UInt8) := do
  handlePuts load (← getUserspacePtr load ebx)

end Kernel

variable {s : Machine} {ptr n va : Nat}

namespace Machine

theorem translate_eq (hk : va < kernbase) : s.translate va =
    if s.pde va % 2 = 0 then none
    else if Has (s.pde va) ptePS then some (s.pde va / 2 ^ 22 * 2 ^ 22 + va % 2 ^ 22)
    else if s.pte va % 2 = 0 then none
    else some (pteAddr (s.pte va) + va % pgsize) := by
  rw [translate, if_neg (by omega)]
  rfl

-- The byte of an accessible address.
theorem UserAccessible.loadByte (h : s.UserAccessible va) : ∃ c, s.view va = some c ∧
    (Kernel.loadByte va).run s = .ok c s := by
  obtain ⟨hk, hp, _, hl⟩ := h
  have hp : ¬s.pde va % 2 = 0 := by
    simp only [Has, pteP] at hp
    omega
  obtain ⟨pa, ht⟩ : ∃ pa, s.translate va = some pa := by
    rw [translate_eq hk, if_neg hp]
    by_cases hs : Has (s.pde va) ptePS
    case pos => exact ⟨_, if_pos hs⟩
    case neg =>
      have hpte : ¬s.pte va % 2 = 0 := by
        have hp := (hl.resolve_left hs).left
        simp only [Has, pteP] at hp
        omega
      exact ⟨_, (if_neg hs).trans <| if_neg hpte⟩
  have hv : s.view va = some (s.mem pa) := by
    rw [view, ht]
    rfl
  refine ⟨s.mem pa, hv, ?_⟩
  rw [Kernel.Reads.loadByte va s]
  simp only [View.loadByte, hv]

-- The load does as `loadByte` for the bytes which the process can read. What it does for other
-- addresses is left open.
def LoadsUser (s : Machine) (load : Nat → Kernel UInt8) : Prop :=
  ∀ va, s.UserAccessible va → (load va).run s = (Kernel.loadByte va).run s

variable {load : Nat → Kernel UInt8}

-- The first zero of a string is found by the two loops, which do not go beyond it.
theorem LoadsUser.go_eq (h : s.LoadsUser load) (ptr : Nat) {i : Nat}
    (ha : ∀ j < n, s.UserAccessible (ptr + (i + j))) : ∃ p,
    (Kernel.getUserspacePtr.go load ptr n i).run s = .ok p s ∧
      if ∃ j < n, s.view (ptr + (i + j)) = some 0 then p = ptr else p = 0 := by
  induction n generalizing i
  case zero      => exact ⟨0, rfl, by simp⟩
  case succ n hi =>
    have ha₀ := ha 0 (by omega)
    have ⟨c, hc, hl⟩ := ha₀.loadByte
    have hlt := ha₀.left
    have hm : (ptr + i) % 2 ^ 32 = ptr + (i + 0) := by
      simp only [kernbase] at hlt
      omega
    rw [Kernel.getUserspacePtr.go, hm, EStateM.bind_ok <| (h _ ha₀).trans hl]
    by_cases hz : c = 0
    case pos =>
      rw [if_pos hz]
      refine ⟨ptr, rfl, ?_⟩
      rw [if_pos ⟨0, by omega, hz ▸ hc⟩]
    case neg =>
      rw [if_neg hz]
      have ⟨p, hr, hp⟩ := hi (i := i + 1) fun j hj => by
        have hj := ha (j + 1) (by omega)
        rwa [show i + (j + 1) = i + 1 + j by omega] at hj
      refine ⟨p, hr, ?_⟩
      have he : (∃ j < n + 1, s.view (ptr + (i + j)) = some 0) ↔
          ∃ j < n, s.view (ptr + (i + 1 + j)) = some 0 := by
        constructor
        case mp  =>
          intro ⟨j, hj, hv⟩
          cases j
          case zero   => exact absurd (Option.some.inj <| hc.symm.trans hv) hz
          case succ j => exact ⟨j, by omega, by rwa [show i + 1 + j = i + (j + 1) by omega]⟩
        case mpr =>
          intro ⟨j, hj, hv⟩
          exact ⟨j + 1, by omega, by rwa [show i + (j + 1) = i + 1 + j by omega]⟩
      simpa only [he] using hp

theorem LoadsUser.loadString_eq (h : s.LoadsUser load) (rounds : Nat) {p : Nat} (hn : n < rounds)
    (ha : ∀ j ≤ n, s.UserAccessible (p + j)) (hz : s.view (p + n) = some 0) :
    ∃ l, (Kernel.loadString load rounds p).run s = .ok l s ∧
      (Kernel.loadString Kernel.loadByte rounds p).run s = .ok l s := by
  have ha₀ : s.UserAccessible p := ha 0 (by omega)
  have ⟨c, hc, hl⟩ := ha₀.loadByte
  induction n generalizing rounds p c
  case zero =>
    cases hc.symm.trans hz
    cases rounds
    case zero => omega
    case succ rounds =>
      refine ⟨[], ?_, ?_⟩
      · rw [Kernel.loadString, EStateM.bind_ok <| (h _ ha₀).trans hl]
        rfl
      · rw [Kernel.loadString, EStateM.bind_ok hl]
        rfl
  case succ n hi =>
    cases rounds
    case zero => omega
    case succ rounds =>
      rw [Kernel.loadString, Kernel.loadString, EStateM.bind_ok <| (h _ ha₀).trans hl,
        EStateM.bind_ok hl]
      by_cases hzero : c = 0
      case pos =>
        rw [if_pos hzero, if_pos hzero]
        exact ⟨[], rfl, rfl⟩
      case neg =>
        have hlt := (ha 1 (by omega)).left
        have hm : (p + 1) % 2 ^ 32 = p + 1 := by
          simp only [kernbase] at hlt
          omega
        have ha₁ := ha 1 (by omega)
        have ⟨c₁, hc₁, hl₁⟩ := ha₁.loadByte
        have ⟨l, hr, hr'⟩ := hi rounds (p := p + 1) (by omega)
          (fun j hj => by
            have hj := ha (j + 1) (by omega)
            rwa [show p + (j + 1) = p + 1 + j by omega] at hj)
          (by rwa [show p + 1 + n = p + (n + 1) by omega]) ha₁ c₁ hc₁ hl₁
        rw [if_neg hzero, if_neg hzero, hm, EStateM.bind_ok hr, EStateM.bind_ok hr']
        exact ⟨c :: l, rfl, rfl⟩

-- The string ends within the accessible bytes.
def UserString (s : Machine) (ptr : Nat) : Prop :=
  ∃ i, s.view (ptr + i) = some 0 ∧ ∀ j ≤ i, s.UserAccessible (ptr + j)

theorem TablesInMemory.readable_eq (h : s.TablesInMemory) (ptr : Nat) :
    ∃ n, (Kernel.userReadableAfter ptr).run s = .ok n s ∧ (∀ i < n, s.UserAccessible (ptr + i)) ∧
      ¬s.UserAccessible (ptr + n) := by
  have ⟨n, hr, hl, hu⟩ := h.userBytesAfter_eq false ptr
  exact ⟨n, hr, fun i hi => (hl i hi).left, fun hc => hu ⟨hc, by simp⟩⟩

theorem TablesInMemory.getUserspacePtr_eq (h : s.TablesInMemory) (hl : s.LoadsUser load) (ptr : Nat) :
    ∃ p, (Kernel.getUserspacePtr load ptr).run s = .ok p s ∧ (p = 0 ∨ s.UserString p) ∧
      (s.UserString ptr → p = ptr) ∧ (¬s.UserString ptr → p = 0) := by
  have ⟨n, hr, hlow, hup⟩ := h.readable_eq ptr
  have hstr : s.UserString ptr ↔ ∃ j < n, s.view (ptr + (0 + j)) = some 0 := by
    constructor
    case mp  =>
      intro ⟨i, hz, ha⟩
      have hi : i < n := Nat.lt_of_not_le fun hc => hup <| ha n hc
      exact ⟨i, hi, by rwa [Nat.zero_add]⟩
    case mpr =>
      intro ⟨j, hj, hz⟩
      exact ⟨j, by rwa [Nat.zero_add] at hz, fun k hk => hlow k (by omega)⟩
  rw [Kernel.getUserspacePtr, EStateM.bind_ok hr]
  by_cases hn : n = 0
  case pos =>
    have hno : ¬s.UserString ptr := fun hc => by
      have ⟨j, hj, _⟩ := hstr.mp hc
      omega
    rw [if_pos hn]
    exact ⟨0, rfl, .inl rfl, fun hc => absurd hc hno, fun _ => rfl⟩
  case neg =>
    have ⟨p, hgo, hp⟩ := hl.go_eq ptr (n := n) (i := 0) fun j hj => by
      rw [Nat.zero_add]
      exact hlow j hj
    rw [if_neg hn]
    by_cases hs : s.UserString ptr
    case pos =>
      rw [if_pos (hstr.mp hs)] at hp
      exact ⟨p, hgo, .inr <| hp ▸ hs, fun _ => hp, fun hc => absurd hs hc⟩
    case neg =>
      rw [if_neg (mt hstr.mpr hs)] at hp
      exact ⟨p, hgo, .inl hp, fun hc => absurd hc hs, fun _ => hp⟩

theorem LoadsUser.printk_eq (h : s.LoadsUser load) (hs : s.UserString ptr) :
    ∃ l, (Kernel.printk load ptr).run s = .ok (l, l) s ∧
      (Kernel.printk Kernel.loadByte ptr).run s = .ok (l, l) s := by
  have ⟨i, hz, ha⟩ := hs
  have hlt := (ha i (Nat.le_refl i)).left
  simp only [kernbase] at hlt
  have ⟨l, hr, hr'⟩ := h.loadString_eq (2 ^ 32) (by omega) ha hz
  refine ⟨l, ?_, ?_⟩
  · rw [Kernel.printk, EStateM.bind_ok hr, EStateM.bind_ok hr]
    rfl
  · rw [Kernel.printk, EStateM.bind_ok hr', EStateM.bind_ok hr']
    rfl

-- The accessible bytes are counted exactly, and `SYS_puts` reads accessible bytes only: it does the
-- same with every load which agrees on these bytes, for instance with one that fails elsewhere.
theorem TablesInMemory.user_readable_exact (h : s.TablesInMemory) (ptr : Nat) :
    (∃ n, (Kernel.userReadableAfter ptr).run s = .ok n s ∧
      IsGreatest { n | ∀ i < n, s.UserAccessible (ptr + i) } n ∧ (kernbase ≤ ptr → n = 0)) ∧
    (ptr ≠ 0 → ∃ p, (Kernel.getUserspacePtr Kernel.loadByte ptr).run s = .ok p s ∧
      (p = ptr ∨ p = 0) ∧ (p = ptr ↔ s.UserString ptr)) ∧
    ∀ load, s.LoadsUser load →
      (Kernel.getUserspacePtr load ptr).run s = (Kernel.getUserspacePtr Kernel.loadByte ptr).run s ∧
      ∃ r, (Kernel.sysPuts load ptr).run s = .ok r s ∧
        (Kernel.sysPuts Kernel.loadByte ptr).run s = .ok r s := by
  have hself : s.LoadsUser Kernel.loadByte := fun _ _ => rfl
  have ⟨p, hr, hp, hyes, hno⟩ := h.getUserspacePtr_eq hself ptr
  refine ⟨?_, fun hne => ⟨p, hr, ?_, ?_⟩, fun load hl => ?_⟩
  · have ⟨n, hr, hlow, hup⟩ := h.readable_eq ptr
    refine ⟨n, hr, ⟨hlow, fun k hk => ?_⟩, fun hk => ?_⟩
    · exact Nat.le_of_not_lt fun hc => hup <| hk n hc
    · by_contra hn
      have hlt := (hlow 0 (by omega)).left
      omega
  · by_cases hs : s.UserString ptr
    case pos => exact .inl <| hyes hs
    case neg => exact .inr <| hno hs
  · exact ⟨fun he => (he ▸ hp).resolve_left hne, hyes⟩
  · have ⟨p', hr', hp', hyes', hno'⟩ := h.getUserspacePtr_eq hl ptr
    have he : p' = p := by
      by_cases hs : s.UserString ptr
      case pos => rw [hyes hs, hyes' hs]
      case neg => rw [hno hs, hno' hs]
    subst he
    refine ⟨hr'.trans hr.symm, ?_⟩
    rw [Kernel.sysPuts, Kernel.sysPuts, EStateM.bind_ok hr, EStateM.bind_ok hr', Kernel.handlePuts,
      Kernel.handlePuts]
    by_cases hz : p' = 0
    case pos =>
      rw [if_pos hz, if_pos hz]
      exact ⟨_, rfl, rfl⟩
    case neg =>
      have ⟨l, hr₁, hr₂⟩ := hl.printk_eq (hp.resolve_left hz)
      rw [if_neg hz, if_neg hz, EStateM.bind_ok hr₁, EStateM.bind_ok hr₂]
      exact ⟨_, rfl, rfl⟩

-- A process with two pages has a string of two characters, which ends at the start of the second page.
theorem user_readable_exact_straddling : ∃ s₀ s₁ s₂ d s, Kernel.kmain.run .zero = .ok () s₀ ∧
    Kernel.setupkvm.run s₀ = .ok (p2v d) s₁ ∧
    (Kernel.allocuvm (p2v d) userBase (userBase + 2 * pgsize)).run s₁ = .ok 0 s₂ ∧
    (Kernel.store16 0x400ffe 0x4b4f).run { s₂ with cr3 := d } = .ok () s ∧
    s.UserString 0x400ffe ∧ (Kernel.userReadableAfter 0x400ffe).run s = .ok 0x1002 s ∧
    (Kernel.getUserspacePtr Kernel.loadByte 0x400ffe).run s = .ok 0x400ffe s ∧
    ∀ load, s.LoadsUser load →
      (Kernel.getUserspacePtr load 0x400ffe).run s =
        (Kernel.getUserspacePtr Kernel.loadByte 0x400ffe).run s ∧
      ∃ r, (Kernel.sysPuts load 0x400ffe).run s = .ok r s ∧
        (Kernel.sysPuts Kernel.loadByte 0x400ffe).run s = .ok r s := by
  have ⟨s₀, use, free, k, hr, hb, _⟩ := Kernel.kmain_booted (s := .zero) rfl rfl
  have ⟨d, s₁, use₁, free₁, s₂, use₂, free₂, hr₁, h₁, hd₁, _, _, hm₁, hr₂, h₂⟩ := hb.exists_mapped 2 (by decide)
  have hdp := h₁.page (p := d) (by simp [hd₁])
  have hd₂ : use₂ d = .dir := by rw [h₂.extend.uses d (by simp [hd₁]), hd₁]
  have ho := h₂.owns.with_cr3 d
  have hm va : Maps use₂ d (va / pgsize) ↔
      userBase / pgsize ≤ va / pgsize ∧ va / pgsize < userBase / pgsize + 2 := by
    rw [h₂.maps, or_iff_right (hm₁ _)]
  have hbuf i (hi : i < 2) : 0x400ffe + i < kernbase ∧ Maps use₂ d ((0x400ffe + i) / pgsize) := by
    rw [hm]
    simp only [kernbase, userBase, pgsize]
    omega
  -- The characters are written to the first page, and the second one contains zeros.
  have ⟨s, hs, hw⟩ := (Writes.nil { s₂ with cr3 := d } 0x400ffe fun i => .ofNat (0x4b4f / 2 ^ (8 * i))).store16
    (ho.buffer hbuf) (by decide) (v := 0x4b4f) fun i _ => by rw [Nat.zero_add]
  have hos : s.Owns use₂ free₂ := by
    rw [hw.memory]
    refine ho.of_frames fun pa hpa => hw.others pa fun i hi => hpa _ (hbuf i hi).left (hbuf i hi).right
  have hc : s.cr3 = d := by rw [hw.memory]
  have hs₂ := h₁.shows_ranged (h₁.shows_none hd₁ hm₁) hd₁ h₂ fun v _ _ => hm₁ v
  have hsh := ho.shows_writes hos hd₂ hs₂ hbuf hw
  have ha va (hva : va < kernbase) : s.UserAccessible va ↔ 0x400000 ≤ va ∧ va < 0x402000 := by
    rw [hos.userAccessible_iff (hc ▸ hd₂), hc, hm]
    simp only [kernbase, userBase, pgsize] at hva ⊢
    omega
  have hz : s.view 0x401000 = some 0 := by
    have hv := hsh 0x401000 (by decide)
    rw [← hc] at hv
    rw [hv]
    rfl
  have hstr : s.UserString 0x400ffe :=
    ⟨2, hz, fun i hi => (ha _ (by simp only [kernbase]; omega)).mpr (by omega)⟩
  have ⟨⟨n, hn, hgreat, _⟩, hptr, hload⟩ :=
    TablesInMemory.user_readable_exact (hos.tablesInMemory (hc ▸ hd₂)) 0x400ffe
  have hn' : n = 0x1002 := by
    apply hgreat.unique
    refine ⟨fun i hi => (ha _ (by simp only [kernbase]; omega)).mpr (by omega), fun k hk => ?_⟩
    by_contra hlt
    have hx := (ha _ (by decide)).mp (hk 0x1002 (by omega))
    omega
  have ⟨p, hp, _, hiff⟩ := hptr (by decide)
  rw [← p2v_eq hdp.upper] at hr₁ hr₂
  rw [hn'] at hn
  rw [hiff.mpr hstr] at hp
  rw [Nat.add_zero] at hs
  exact ⟨s₀, s₁, s₂, d, s, hr, hr₁, hr₂, hs, hstr, hn, hp, hload⟩

end Machine
