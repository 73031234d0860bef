import Yabloko.Drivers.Keyboard
import Yabloko.Kernel.Buffer
import Yabloko.Kernel.Conservation
import Yabloko.Kernel.Reachable
import Yabloko.Kernel.UserPtr

namespace Kernel

def userWritableAfter (ptr : Nat) : Kernel Int := do
  let bytes ← userBytesAfter true ptr
  return toInt32 bytes

-- There is no result when the queue is read outside of its bounds.
def handlePoll (kbd : Keyboard) (userEventPtr : Nat) : Kernel (Option (Int × Keyboard)) := do
  if (← userWritableAfter userEventPtr) < 4 then
    return some (-1, kbd)
  match kbd.popEvent with
  | none              => return none
  | some (event, kbd) =>
    if event = 0 then
      return some (0, kbd)
    store32 userEventPtr event
    return some (1, kbd)

-- The time is given by `pit_monotonic_ms`.
def handleTimeMs (ms : UInt64) (userTimePtr : Nat) : Kernel Int := do
  if (← userWritableAfter userTimePtr) < 8 then
    return -1
  store32 userTimePtr (ms.toNat % 2 ^ 32)
  store32 ((userTimePtr + 4) % 2 ^ 32) (ms.toNat / 2 ^ 32)
  return 0

end Kernel

namespace Machine

-- The process can write the byte at the address.
def UserWritable (s : Machine) (va : Nat) : Prop :=
  va < kernbase ∧ Has (s.pde va) pteP ∧ Has (s.pde va) pteU ∧ Has (s.pde va) pteW ∧
    (Has (s.pde va) ptePS ∨ (Has (s.pte va) pteP ∧ Has (s.pte va) pteU ∧ Has (s.pte va) pteW))

end Machine

variable {s s' : Machine} {use : Nat → Use} {free : List Nat} {va ptr n p d t f v : Nat} {w : Bool}
  {g : Nat → UInt8}

-- The entries for the pages of the processes.
theorem IsPage.flags (hp : IsPage p) : Has (p + 7) pteP ∧ Has (p + 7) pteU ∧ Has (p + 7) pteW ∧
    ¬Has (p + 7) ptePS := by
  have ha := hp.aligned
  simp only [pgsize, Has, pteP, pteU, pteW, ptePS] at ha ⊢
  omega

theorem not_has_zero (flag : Nat) : ¬Has 0 flag := by
  simp [Has]

namespace Machine.Owns

theorem user_index (hk : va < kernbase) : pdx va = va / pgsize / 1024 ∧ ptx va = va / pgsize % 1024 ∧
    va / pgsize < 2 ^ 19 := by
  simp only [kernbase] at hk
  simp only [pdx, pgsize]
  refine ⟨?_, rfl, ?_⟩ <;> omega

-- The entries of an address in the user half.
theorem pde_cases (h : s.Owns use free) (hd : use s.cr3 = .dir) (hk : va < kernbase) :
    (s.pde va = 0 ∧ ¬Maps use s.cr3 (va / pgsize)) ∨
      ∃ t, IsPage t ∧ s.pde va = t + 7 ∧
        ((s.pte va = 0 ∧ ¬Maps use s.cr3 (va / pgsize)) ∨
          (∃ f, IsPage f ∧ s.pte va = f + 7) ∧ Maps use s.cr3 (va / pgsize)) := by
  obtain ⟨hx, hy, hv⟩ := user_index hk
  have hpde : s.pde va = s.mem.load32 (s.cr3 + 4 * (va / pgsize / 1024)) := by rw [pde, hx]
  by_cases ht : HasTable use s.cr3 (va / pgsize / 1024)
  case neg =>
    refine .inl ⟨hpde.trans <| (h.entry_eq_zero_iff hd (by omega)).mpr ht, ?_⟩
    rintro ⟨f, hf⟩
    apply ht
    obtain ⟨t, ht, _⟩ := h.mapped.frame f _ _ hf
    exact ⟨t, ht⟩
  case pos =>
    obtain ⟨t, ht⟩ := ht
    have htp := h.page (p := t) (by simp [ht])
    have he : s.pde va = t + 7 := hpde.trans (h.mapped.table t _ _ ht).right.right
    have hpte : s.pte va = s.mem.load32 (t + 4 * (va / pgsize % 1024)) := by
      rw [pte, he, htp.pteAddr_eq, hy]
    refine .inr ⟨t, htp, he, ?_⟩
    by_cases hm : Maps use s.cr3 (va / pgsize)
    case neg => exact .inl ⟨hpte.trans <| (h.pte_eq_zero_iff ht).mpr hm, hm⟩
    case pos =>
      obtain ⟨f, hf⟩ := hm
      obtain ⟨t', ht', hl⟩ := h.mapped.frame f _ _ hf
      rw [h.table_unique ht' ht] at hl
      exact .inr ⟨⟨f, h.page (by simp [hf]), hpte.trans hl⟩, f, hf⟩

theorem allows_iff (h : s.Owns use free) (hd : use s.cr3 = .dir) (hk : va < kernbase) (w : Bool) :
    (s.Allows w va ↔ Maps use s.cr3 (va / pgsize)) ∧
      (s.UserWritable va ↔ Maps use s.cr3 (va / pgsize)) := by
  rw [Allows, UserAccessible, LeafWritable, UserWritable]
  cases h.pde_cases hd hk
  case inl hc =>
    obtain ⟨hz, hm⟩ := hc
    simp [hz, hm, not_has_zero]
  case inr hc =>
    obtain ⟨t, htp, he, hc⟩ := hc
    obtain ⟨h₁, h₂, h₃, h₄⟩ := htp.flags
    cases hc
    case inl hc =>
      obtain ⟨hz, hm⟩ := hc
      simp [he, hz, hm, h₄, not_has_zero]
    case inr hc =>
      obtain ⟨⟨f, hfp, hf⟩, hm⟩ := hc
      obtain ⟨h₁', h₂', h₃', _⟩ := hfp.flags
      simp [he, hf, hm, hk, h₁, h₂, h₃, h₄, h₁', h₂', h₃']

theorem userAccessible_iff (h : s.Owns use free) (hd : use s.cr3 = .dir) {va : Nat} :
    s.UserAccessible va ↔ va < kernbase ∧ Maps use s.cr3 (va / pgsize) := by
  constructor
  case mp  => exact fun ha => ⟨ha.left, ((h.allows_iff hd ha.left false).left).mp ⟨ha, by simp⟩⟩
  case mpr => exact fun ⟨hk, hm⟩ => (((h.allows_iff hd hk false).left).mpr hm).left

theorem tablesInMemory (h : s.Owns use free) (hd : use s.cr3 = .dir) : s.TablesInMemory where
  dir := (h.page (by simp [hd])).page_upper
  table va hk hp _ _ := by
    cases h.pde_cases hd hk
    case inl hc => exact absurd (hc.left ▸ hp) (not_has_zero _)
    case inr hc =>
      have ⟨t, htp, he, _⟩ := hc
      rw [he, htp.pteAddr_eq]
      exact htp.page_upper

-- The frames are different pages, of which there are less than 2¹⁵.
theorem exists_not_maps (h : s.Owns use free) (d : Nat) : ∃ v < 2 ^ 15 + 1, ¬Maps use d v := by
  by_contra hc
  simp only [not_exists, not_and, not_not] at hc
  choose f hf using hc
  have hmaps : ∀ v ∈ (Finset.range (2 ^ 15 + 1)).attach, f v (Finset.mem_range.mp v.2) / pgsize ∈ Finset.range (2 ^ 15) := by
    intro v _
    have hu := (h.page (p := f v (Finset.mem_range.mp v.2)) (by simp [hf])).upper
    simp only [phystop, pgsize, Finset.mem_range] at hu ⊢
    omega
  have ⟨v, _, v', _, hne, he⟩ := Finset.exists_ne_map_eq_of_card_lt_of_maps_to (by simp) hmaps
  have ha := (h.page (p := f v (Finset.mem_range.mp v.2)) (by simp [hf])).aligned
  have ha' := (h.page (p := f v' (Finset.mem_range.mp v'.2)) (by simp [hf])).aligned
  have heq : f v (Finset.mem_range.mp v.2) = f v' (Finset.mem_range.mp v'.2) := by
    simp only [pgsize] at ha ha' he
    omega
  have h₁ := hf v (Finset.mem_range.mp v.2)
  have h₂ := hf v' (Finset.mem_range.mp v'.2)
  rw [heq, h₂] at h₁
  injection h₁ with _ hv
  exact hne <| Subtype.ext hv.symm

-- The number of bytes is not negative as an `int`.
theorem userWritableAfter_eq (h : s.Owns use free) (hd : use s.cr3 = .dir) (ptr : Nat) :
    ∃ n : Nat, (Kernel.userWritableAfter ptr).run s = .ok n s ∧ (∀ i < n, s.UserWritable (ptr + i)) ∧
      ¬s.UserWritable (ptr + n) := by
  have ⟨n, hr, hl, hu⟩ := (h.tablesInMemory hd).userBytesAfter_eq true ptr
  have hmaps i (hi : i < n) : ptr + i < kernbase ∧ Maps use s.cr3 ((ptr + i) / pgsize) := by
    have hk := (hl i hi).left.left
    exact ⟨hk, ((h.allows_iff hd hk true).left).mp (hl i hi)⟩
  have hn : n < 2 ^ 31 := by
    by_contra hn
    have ⟨v, hv, hm⟩ := h.exists_not_maps s.cr3
    have hk := (hmaps (n - 1) (by omega)).left
    simp only [kernbase] at hk
    have hp := (hmaps (v * pgsize) (by simp only [pgsize]; omega)).right
    have he : (ptr + v * pgsize) / pgsize = v := by
      simp only [pgsize]
      omega
    exact hm <| he ▸ hp
  refine ⟨n, ?_, fun i hi => ?_, fun hc => hu ?_⟩
  · rw [Kernel.userWritableAfter, EStateM.bind_ok hr, toInt32, if_pos hn]
    rfl
  · have ⟨hk, hm⟩ := hmaps i hi
    exact ((h.allows_iff hd hk true).right).mpr hm
  · have hk := hc.left
    exact ((h.allows_iff hd hk true).left).mpr <| ((h.allows_iff hd hk true).right).mp hc

end Machine.Owns

namespace Machine.Owns

variable {kbd : Keyboard} {l : KeyList}

-- The guards of the two system calls.
theorem userWritableAfter_lt (h : s.Owns use free) (hd : use s.cr3 = .dir) (ptr : Nat) {size : Nat}
    (sizeof : Int) (hs : sizeof = size) : ∃ r, (Kernel.userWritableAfter ptr).run s = .ok r s ∧
      (r < sizeof ↔ ¬∀ i < size, s.UserWritable (ptr + i)) := by
  have ⟨n, hr, hlow, hup⟩ := h.userWritableAfter_eq hd ptr
  refine ⟨n, hr, ?_⟩
  rw [hs, Int.ofNat_lt]
  constructor
  case mp  => exact fun hn hc => hup <| hc n hn
  case mpr =>
    intro hc
    by_contra hn
    exact hc fun i hi => hlow i (by omega)

theorem maps_of_writable (h : s.Owns use free) (hd : use s.cr3 = .dir) (hw : s.UserWritable va) :
    va < kernbase ∧ Maps use s.cr3 (va / pgsize) :=
  ⟨hw.left, ((h.allows_iff hd hw.left true).right).mp hw⟩

theorem handlePoll_eq (h : s.Owns use free) (hd : use s.cr3 = .dir) (hk : kbd.Remembers l)
    (ptr : Nat) : ∃ event kbd', kbd.popEvent = some (event, kbd') ∧
      ((∀ i < 4, s.UserWritable (ptr + i)) → if event = 0 then
        (Kernel.handlePoll kbd ptr).run s = .ok (some (0, kbd')) s
      else ∃ s', (Kernel.handlePoll kbd ptr).run s = .ok (some (1, kbd')) s' ∧
        s.Writes ptr 4 (fun i => .ofNat (event / 2 ^ (8 * i))) s') ∧
      ((¬∀ i < 4, s.UserWritable (ptr + i)) →
        (Kernel.handlePoll kbd ptr).run s = .ok (some (-1, kbd)) s) := by
  have ⟨event, kbd', hp, _⟩ := hk.pop
  have ⟨r, hr, hn⟩ := h.userWritableAfter_lt hd ptr 4 rfl
  refine ⟨event, kbd', hp, fun hw => ?_, fun hw => ?_⟩
  · have hr' : ¬r < 4 := fun hc => hn.mp hc hw
    split
    case isTrue he  =>
      rw [Kernel.handlePoll, EStateM.bind_ok hr, if_neg hr']
      simp only [hp, he]
      rfl
    case isFalse he =>
      have hb : s.Buffer ptr 4 := h.buffer fun i hi => h.maps_of_writable hd <| hw i hi
      have ⟨s', hs', hw'⟩ := (Writes.nil s ptr fun i => .ofNat (event / 2 ^ (8 * i))).store32 hb (by omega)
        (v := event) (fun i _ => by rw [Nat.zero_add])
      refine ⟨s', ?_, by rwa [Nat.zero_add] at hw'⟩
      rw [Kernel.handlePoll, EStateM.bind_ok hr, if_neg hr']
      simp only [hp, if_neg he]
      exact EStateM.bind_ok hs'
  · rw [Kernel.handlePoll, EStateM.bind_ok hr, if_pos (hn.mpr hw)]
    rfl

theorem handleTimeMs_eq (h : s.Owns use free) (hd : use s.cr3 = .dir) (ms : UInt64) (ptr : Nat) :
    ((∀ i < 8, s.UserWritable (ptr + i)) → ∃ s',
      (Kernel.handleTimeMs ms ptr).run s = .ok 0 s' ∧
      s.Writes ptr 8 (fun i => .ofNat (ms.toNat / 2 ^ (8 * i))) s') ∧
    ((¬∀ i < 8, s.UserWritable (ptr + i)) → (Kernel.handleTimeMs ms ptr).run s = .ok (-1) s) := by
  have ⟨r, hr, hn⟩ := h.userWritableAfter_lt hd ptr 8 rfl
  refine ⟨fun hw => ?_, fun hw => ?_⟩
  · have hr' : ¬r < 8 := fun hc => hn.mp hc hw
    have hb : s.Buffer ptr 8 := h.buffer fun i hi => h.maps_of_writable hd <| hw i hi
    have hu := hb.upper 4 (by omega)
    -- The lower half of the number, and then the upper one.
    have ⟨s₁, hr₁, hw₁⟩ := (Writes.nil s ptr fun i => .ofNat (ms.toNat / 2 ^ (8 * i))).store32 hb
      (by omega) (v := ms.toNat % 2 ^ 32) fun i hi => by
        rw [Nat.zero_add, ← UInt8.toNat_inj]
        interval_cases i <;> simp <;> omega
    have ⟨s₂, hr₂, hw₂⟩ := hw₁.store32 hb (by omega) (v := ms.toNat / 2 ^ 32) fun i hi => by
        rw [Nat.div_div_eq_div_mul, ← Nat.pow_add, Nat.mul_add]
    refine ⟨s₂, ?_, hw₂⟩
    rw [Kernel.handleTimeMs, EStateM.bind_ok hr, if_neg hr']
    simp only [Nat.add_zero, Nat.zero_add] at hr₁ hr₂
    rw [EStateM.bind_ok hr₁, Nat.mod_eq_of_lt (by omega), EStateM.bind_ok hr₂]
    rfl
  · rw [Kernel.handleTimeMs, EStateM.bind_ok hr, if_pos (hn.mpr hw)]
    rfl

end Machine.Owns

-- The kernel only writes through user pointers what the process may write itself.
theorem Kernel.user_writes_permitted {s s₀ s' : Machine} {dirs : List Nat} (hf : s.freelist = 0)
    (ht : s.userTask = 0) (hr : Kernel.kmain.run s = .ok () s₀) (h : s₀.Reaches s' dirs) (ptr : Nat) :
    (∀ kbd l, kbd.Remembers l → ∃ event kbd', kbd.popEvent = some (event, kbd') ∧
      ((∀ i < 4, s'.UserWritable (ptr + i)) → if event = 0 then
        (Kernel.handlePoll kbd ptr).run s' = .ok (some (0, kbd')) s'
      else ∃ s'', (Kernel.handlePoll kbd ptr).run s' = .ok (some (1, kbd')) s'' ∧
        s'.Writes ptr 4 (fun i => .ofNat (event / 2 ^ (8 * i))) s'') ∧
      ((¬∀ i < 4, s'.UserWritable (ptr + i)) →
        (Kernel.handlePoll kbd ptr).run s' = .ok (some (-1, kbd)) s')) ∧
    ∀ ms, ((∀ i < 8, s'.UserWritable (ptr + i)) → ∃ s'',
      (Kernel.handleTimeMs ms ptr).run s' = .ok 0 s'' ∧
      s'.Writes ptr 8 (fun i => .ofNat (ms.toNat / 2 ^ (8 * i))) s'') ∧
      ((¬∀ i < 8, s'.UserWritable (ptr + i)) →
        (Kernel.handleTimeMs ms ptr).run s' = .ok (-1) s') := by
  have ⟨s₁, _, _, k, hr₁, hb, _⟩ := Kernel.kmain_booted hf ht
  rw [hr] at hr₁
  cases hr₁
  have ⟨use, free, hi⟩ := h.tabled hb.tabled
  have hd := hi.dirs _ hi.cr3
  exact ⟨fun kbd l hk => hi.owns.handlePoll_eq hd hk ptr, fun ms => hi.owns.handleTimeMs_eq hd ms ptr⟩

-- A process with two pages. A buffer in both of them is written, and one which reaches beyond them is not.
theorem Kernel.user_writes_permitted_straddling : ∃ s₀ s₁ s₂ d kbd kbd', Kernel.kmain.run .zero = .ok () s₀ ∧
    Kernel.setupkvm.run s₀ = .ok (p2v d) s₁ ∧
    (Kernel.allocuvm (p2v d) userBase (userBase + 2 * pgsize)).run s₁ = .ok 0 s₂ ∧
    (default : Keyboard).init.interruptHandler 0x1e = some kbd ∧ kbd.popEvent = some (0x11e61, kbd') ∧
    let s : Machine := { s₂ with cr3 := d }
    (∀ i < 8, s.UserWritable (0x400ffc + i)) ∧ ¬s.UserWritable 0x402000 ∧
    (∃ s', (Kernel.handlePoll kbd 0x400ffe).run s = .ok (some (1, kbd')) s' ∧
      s.Writes 0x400ffe 4 (fun i => .ofNat (0x11e61 / 2 ^ (8 * i))) s') ∧
    (∀ ms, ∃ s', (Kernel.handleTimeMs ms 0x400ffc).run s = .ok 0 s' ∧
      s.Writes 0x400ffc 8 (fun i => .ofNat (ms.toNat / 2 ^ (8 * i))) s') ∧
    (Kernel.handlePoll kbd 0x401ffe).run s = .ok (some (-1, kbd)) s ∧
    ∀ ms, (Kernel.handleTimeMs ms 0x401ffc).run s = .ok (-1) s := by
  have ⟨s₀, use, free, k, hr, hb, _⟩ := Kernel.kmain_booted (s := .zero) rfl rfl
  have ⟨d, s₁, use₁, free₁, s₂, use₂, free₂, hr₁, h₁, hd₁, _, _, hm₁, hr₂, h₂⟩ := hb.exists_mapped 2 (by decide)
  have hdp := h₁.page (p := d) (by simp [hd₁])
  have hd₂ : use₂ d = .dir := by rw [h₂.extend.uses d (by simp [hd₁]), hd₁]
  rw [← p2v_eq hdp.upper] at hr₁ hr₂
  have hreach : s₀.Reaches { s₂ with cr3 := d } [d, s₀.cr3] := by
    have hs := Machine.Reaches.boot.setupkvm hr₁
    rw [p2v_eq hdp.upper, v2p_kernbase hdp.upper] at hs
    exact .lcr3 (hs.allocuvm List.mem_cons_self (Nat.le_refl _) (by decide) (by decide) hr₂) List.mem_cons_self
  have hw va (hva : va < kernbase) : { s₂ with cr3 := d }.UserWritable va ↔
      userBase / pgsize ≤ va / pgsize ∧ va / pgsize < userBase / pgsize + 2 := by
    have ho := h₂.owns.with_cr3 d
    rw [(ho.allows_iff hd₂ hva true).right, h₂.maps, or_iff_right (hm₁ _)]
  have hw₀ i (hi : i < 0x1004) : { s₂ with cr3 := d }.UserWritable (0x400ffc + i) := by
    refine (hw _ ?_).mpr ?_
    all_goals simp only [kernbase, userBase, pgsize]; omega
  have hw₁ : ¬{ s₂ with cr3 := d }.UserWritable 0x402000 := fun hc =>
    absurd ((hw _ (by decide)).mp hc) (by decide)
  have ⟨kbd, hk, hl⟩ := ((default : Keyboard).init_remembers).interrupt 0x1e
  have ⟨hpoll, _⟩ := Kernel.user_writes_permitted rfl rfl hr hreach 0x400ffe
  have ⟨_, htime⟩ := Kernel.user_writes_permitted rfl rfl hr hreach 0x400ffc
  have ⟨hpoll', _⟩ := Kernel.user_writes_permitted rfl rfl hr hreach 0x401ffe
  have ⟨_, htime'⟩ := Kernel.user_writes_permitted rfl rfl hr hreach 0x401ffc
  have ⟨event, kbd', hp, hyes, _⟩ := hpoll kbd _ hl
  have ⟨_, _, _, _, hno⟩ := hpoll' kbd _ hl
  have he : event = 0x11e61 := by
    have hd : (((default : Keyboard).init.interruptHandler 0x1e).bind Keyboard.popEvent).map (·.1) =
      some 0x11e61 := by decide
    rw [hk, Option.bind_some, hp] at hd
    exact Option.some.inj hd
  subst he
  have hy := hyes fun i hi => by
    have hw := hw₀ (2 + i) (by omega)
    rwa [← Nat.add_assoc] at hw
  rw [if_neg (by decide)] at hy
  refine ⟨s₀, s₁, s₂, d, kbd, kbd', hr, hr₁, hr₂, hk, hp, fun i hi => hw₀ i (by omega), hw₁, hy,
    fun ms => (htime ms).left fun i hi => hw₀ i (by omega), hno fun hc => hw₁ (hc 2 (by decide)),
    fun ms => (htime' ms).right fun hc => hw₁ (hc 4 (by decide))⟩
