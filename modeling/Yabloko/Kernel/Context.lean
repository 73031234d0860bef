import Yabloko.Kernel.Enter

-- The words of `struct context` and of the trapframe, which `run_elf` sets up.
def contextWords (trapret entry : Nat) : List Nat :=
  [0, 0, 0, 0, trapret] ++
    [0, 0, 0, 0, 0, 0, 0, 0, 0x23, 0x23, 0x23, 0x23, 0, 0, entry, 0x1B, flIf, userStackBase, 0x23]

variable {s s' : Machine} {use : Nat → Use} {free : List Nat} {k t d trapret hdr u : Nat}

-- Some words from `context` on have been set, and nothing outside of the stack.
structure StackWords (u : Nat) (m m' : Bytes) (ws : List Nat) : Prop where
  agree : Bytes.AgreeOutside u Kstack.bottom m m'
  words : m'.Words (u + Kstack.context) ws

theorem StackWords.store32 {m m' : Bytes} {ws : List Nat} {v i : Nat} (h : StackWords u m m' ws)
    (hv : v < 2 ^ 32) (hi : i < 24) :
    StackWords u m (m'.store32 (u + Kstack.context + 4 * i) v) (ws.set i v) where
  agree := h.agree.trans <| (m'.store32_agree _ v).mono
    (by simp only [Kstack.context]; omega) (by simp only [Kstack.context, Kstack.bottom]; omega)
  words := h.words.store32 hv i

namespace Machine

-- The words are set one after the other.
theorem setupStack_words (hu : u + Kstack.bottom ≤ phystop) (ht : trapret < 2 ^ 32)
    (hr : (Kernel.setupStack trapret (kernbase + u) hdr).run s = .ok () s') : ∃ entry mem,
    (Kernel.load32 (hdr + 24)).run { s with mem } = .ok entry { s with mem } ∧
    Bytes.AgreeOutside u Kstack.bottom s.mem mem ∧ s' = { s with mem := s'.mem } ∧
    StackWords u s.mem s'.mem (contextWords trapret entry) := by
  simp only [Kstack.bottom, phystop] at hu
  have store {m : Bytes} {ws va o v f} (i : Nat) (hw : StackWords u s.mem m ws)
      (hr : (Kernel.store32 va v >>= f).run { s with mem := m } = .ok () s') (hva : va = kernbase + (u + o))
      (ho : o = Kstack.context + 4 * i) (hi : i < 24) (hv : v < 2 ^ 32) :
      ∃ m' : Bytes, StackWords u s.mem m' (ws.set i v) ∧ (f ()).run { s with mem := m' } = .ok () s' := by
    rw [hva, ho, ← Nat.add_assoc u, EStateM.bind_ok (store32_kernbase _ (by
      simp only [Kstack.context, phystop]
      omega) v)] at hr
    exact ⟨_, hw.store32 hv hi, hr⟩
  have copy {m : Bytes} {ws va va' o o' v} {f : Unit → Kernel Unit} (i j : Nat) (hw : StackWords u s.mem m ws)
      (hr : (Kernel.load32 va >>= fun v => Kernel.store32 va' v >>= f).run { s with mem := m } = .ok () s')
      (hva : va = kernbase + (u + o)) (ho : o = Kstack.context + 4 * i) (hi : i < 24) (hv : ws[i]? = some v)
      (hva' : va' = kernbase + (u + o')) (ho' : o' = Kstack.context + 4 * j) (hj : j < 24) (hlt : v < 2 ^ 32) :
      ∃ m' : Bytes, StackWords u s.mem m' (ws.set j v) ∧ (f ()).run { s with mem := m' } = .ok () s' := by
    rw [hva, ho, ← Nat.add_assoc u, EStateM.bind_ok (load32_kernbase _ (by
      simp only [Kstack.context, phystop]
      omega))] at hr
    simp only [hw.words i v hv] at hr
    exact store j hw hr hva' ho' hj hlt
  have field (i j : Nat) : kernbase + u + i + j = kernbase + (u + (i + j)) := by
    omega
  rw [Kernel.setupStack, EStateM.bind_ok (s.memset_kernbase hu 0)] at hr
  have h₀ : StackWords u s.mem (s.mem.fill u Kstack.bottom 0) (.replicate 24 0) :=
    ⟨s.mem.fill_agree u _ 0, s.mem.fill_words u (Nat.le_add_right _ _) (Nat.le_refl _)⟩
  have ⟨m₁, h₁, hr⟩ := store 4 h₀ hr (field _ _) rfl (by decide) ht
  have ⟨entry, s₂, hr₂, hr⟩ := EStateM.bind_eq_ok hr
  cases Kernel.Keeps.load32 _ _ _ _ hr₂
  have he := Kernel.load32_lt hr₂
  have ⟨m₂, h₂, hr⟩ := store 19 h₁ hr (field _ _) rfl (by decide) he
  have ⟨m₃, h₃, hr⟩ := store 20 h₂ hr (field _ _) rfl (by decide) (by decide)
  have ⟨m₄, h₄, hr⟩ := store 16 h₃ hr (field _ _) rfl (by decide) (by decide)
  have ⟨m₅, h₅, hr⟩ := copy 16 15 h₄ hr (field _ _) rfl (by decide) rfl (field _ _) rfl
    (by decide) (by decide)
  have ⟨m₆, h₆, hr⟩ := copy 16 14 h₅ hr (field _ _) rfl (by decide) rfl (field _ _) rfl
    (by decide) (by decide)
  have ⟨m₇, h₇, hr⟩ := copy 16 13 h₆ hr (field _ _) rfl (by decide) rfl (field _ _) rfl
    (by decide) (by decide)
  have ⟨m₈, h₈, hr⟩ := copy 16 23 h₇ hr (field _ _) rfl (by decide) rfl (field _ _) rfl
    (by decide) (by decide)
  have ⟨m₉, h₉, hr⟩ := store 21 h₈ hr (field _ _) rfl (by decide) (by decide)
  rw [← bind_pure (Kernel.store32 _ _)] at hr
  have ⟨m', h', hr⟩ := store 22 h₉ hr (field _ _) rfl (by decide) (by decide)
  cases hr
  exact ⟨entry, m₁, hr₂, h₁.agree, rfl, h'⟩

-- The entry point which has been stored is the one in the memory of the process.
theorem HasTask.entered (h : s.HasTask use free k t d) (hc : s.cr3 = d) (ht : trapret < 2 ^ 32)
    (he : s.Entered trapret t u) : ∃ entry, (Kernel.load32 (userBase + 24)).run s = .ok entry s ∧
      s.mem.Words (t + Task.stack + Kstack.context) (contextWords trapret entry) := by
  have ⟨s₁, hr₁⟩ := he.setup
  have hp := h.taskPage.page_upper
  simp only [pgsize] at hp
  rw [Nat.add_assoc] at hr₁
  have ⟨entry, mem, hl, ha, hm, hw⟩ := setupStack_words (by
    simp only [Task.stack, Kstack.bottom]
    omega) ht hr₁
  have hw' : TaskWrite t s { s with mem } := .of_agree (i := Task.stack) (n := Kstack.bottom)
    (fun i hi => (ha i hi).trans (hw.agree i hi).symm) (.inr (Nat.le_refl _)) (by decide)
  have hs := h.shows_taskWrite hw' (x := s.view) fun va hva => by rw [← hc]
  have hv va (hva : va < kernbase) : Machine.view { s with mem } va = s.view va := by
    rw [← hs va hva, ← hc]
  have hl' := (Kernel.Reads.load32 _).eq_ok hl
  rw [show ({ s₁ with mem } : Machine) = { s with mem } by rw [hm]] at hl'
  refine ⟨entry, (Kernel.Reads.load32 _).run_ok ?_, hw.words⟩
  rw [← hl']
  simp only [View.load32, View.load16, View.loadByte]
  rw [hv _ (by decide), hv _ (by decide), hv _ (by decide), hv _ (by decide)]

end Machine
