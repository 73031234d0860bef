import Yabloko.Kernel.Free

namespace Kernel

-- The calls with which `kmain` sets up the memory.
def kmain : Kernel Unit := do
  freerange (p2v (1 <<< 20)) (p2v (2 <<< 20))
  kvmalloc
  freerange (p2v (2 <<< 20)) (p2v phystop)

end Kernel

instance (p : Nat) : Decidable (IsPage p) :=
  decidable_of_iff (p % pgsize = 0 ∧ 1 <<< 20 ≤ p ∧ p < phystop)
    ⟨fun h => ⟨h.left, h.right.left, h.right.right⟩, fun h => ⟨h.aligned, h.lower, h.upper⟩⟩

-- Before the allocator is set up, no page is free.
def bootUse (p : Nat) : Use :=
  if IsPage p then .held else .unmanaged

variable {use use' : Nat → Use} {p q d lo hi n fuel : Nat} {s s' s₁ : Machine}
  {free free' : List Nat}

theorem Machine.owns_boot (hs : s.freelist = 0) : s.Owns bootUse [] := by
  have hb p : bootUse p = .held ∨ bootUse p = .unmanaged := by
    rw [bootUse]
    split <;> simp
  have hn p (u : Use) (hu : u.Paging ∨ u = .free) : bootUse p ≠ u := by
    intro he
    rw [← he] at hu
    cases hb p
    case inl h => simp [h, Use.Paging] at hu
    case inr h => simp [h, Use.Paging] at hu
  exact {
    mapped := {
      page := fun p hp => by
        by_contra hc
        exact hp <| if_neg hc
      kernel := fun d hd => absurd hd <| hn d _ <| .inl trivial
      tables := fun d hd => absurd hd <| hn d _ <| .inl trivial
      table := fun t d i ht => absurd ht <| hn t _ <| .inl trivial
      frames := fun t d i ht => absurd ht <| hn t _ <| .inl trivial
      frame := fun f d v hf => absurd hf <| hn f _ <| .inl trivial }
    list := hs
    nodup := List.nodup_nil
    mem_iff := fun p => by simpa using hn p _ <| .inr rfl }

-- The pages of a range have become free, and nothing else has changed.
structure Freed (lo hi : Nat) (s : Machine) (use : Nat → Use) (s' : Machine) : Prop where
  owns   : ∃ use' free', s'.Owns use' free' ∧
             ∀ p, use' p = if IsPage p ∧ lo ≤ p ∧ p < hi then .free else use p
  steady : s.Steady s'

namespace Machine.Owns

theorem freerange_go (h : s.Owns use free) (fuel : Nat) (hl : lo % pgsize = 0) (hl' : 1 <<< 20 ≤ lo)
    (hn : lo + n * pgsize ≤ phystop)
    (hu : ∀ p, IsPage p → lo ≤ p → p < lo + n * pgsize → use p = .held) (hf : n < fuel) : ∃ s',
    (Kernel.freerange.go (kernbase + (lo + n * pgsize)) fuel (kernbase + lo)).run s = .ok () s' ∧
    Freed lo (lo + n * pgsize) s use s' := by
  induction n generalizing lo s use free fuel
  case zero =>
    cases fuel
    case zero      => omega
    case succ fuel =>
      refine ⟨s, ?_, ⟨use, free, h, fun p => (if_neg (by omega)).symm⟩, ⟨rfl, rfl, rfl, rfl⟩⟩
      rw [Kernel.freerange.go, if_neg (by simp [pgsize])]
      rfl
  case succ n hi =>
    cases fuel
    case zero      => omega
    case succ fuel =>
      simp only [pgsize, phystop] at hl hn hu
      have hp : IsPage lo := ⟨hl, hl', by simp only [phystop]; omega⟩
      have ⟨mem, hr₁, h₁, _⟩ := h.kfree_held <| hu lo hp (Nat.le_refl _) (by omega)
      have hadd : lo + (n + 1) * pgsize = lo + pgsize + n * pgsize := by
        simp only [pgsize]
        omega
      have ⟨s', hr', ⟨use', free', h', he⟩, hs'⟩ := @hi _ (lo + pgsize) _ _ h₁ fuel
        (by simp only [pgsize]; omega) (by omega) (by simp only [pgsize, phystop]; omega)
        (fun p hp hlo hhi => by
          simp only [pgsize] at hlo hhi
          rw [Function.update_of_ne (by omega)]
          exact hu p hp (by omega) (by omega))
        (by omega)
      refine ⟨s', ?_, ⟨use', free', h', fun p => ?_⟩, { hs' with }⟩
      · rw [Kernel.freerange.go, hadd, if_pos (by omega), EStateM.bind_ok hr₁,
          Nat.add_assoc kernbase lo pgsize, hr']
      · rw [he]
        by_cases hpl : p = lo
        case pos =>
          rw [hpl, if_neg (by simp only [pgsize]; omega), Function.update_self,
            if_pos ⟨hp, by omega, by simp only [pgsize]; omega⟩]
        case neg =>
          rw [Function.update_of_ne hpl]
          apply if_congr _ rfl rfl
          apply and_congr_right
          intro hpp
          have := hpp.aligned
          simp only [pgsize] at this ⊢
          omega

theorem freerange (h : s.Owns use free) (lo hi : Nat) (hl : lo % pgsize = 0) (hl' : 1 <<< 20 ≤ lo)
    (hh : hi % pgsize = 0) (hlh : lo ≤ hi) (hh' : hi ≤ phystop)
    (hu : ∀ p, IsPage p → lo ≤ p → p < hi → use p = .held) : ∃ s',
    (Kernel.freerange (kernbase + lo) (kernbase + hi)).run s = .ok () s' ∧ Freed lo hi s use s' := by
  have he : lo + (hi - lo) / pgsize * pgsize = hi := by
    simp only [pgsize] at hl hh ⊢
    omega
  have hr : pgroundup (kernbase + lo) = kernbase + lo := by
    simp only [pgroundup, kernbase, pgsize, phystop] at hl hh' ⊢
    omega
  have ⟨s', hr', h'⟩ := h.freerange_go (n := (hi - lo) / pgsize) (2 ^ 20) hl hl' (by omega)
    (by rwa [he]) (by simp only [pgsize, phystop] at hh' ⊢; omega)
  rw [he] at hr' h'
  exact ⟨s', by rw [Kernel.freerange, hr, hr'], h'⟩

end Machine.Owns

-- The kernel runs in its own directory, and all other pages are free.
structure Booted (s : Machine) (use : Nat → Use) (free : List Nat) (k : Nat) : Prop where
  owns     : s.Owns use free
  kvm      : s.kvm = kernbase + k
  cr3      : s.cr3 = k
  dir      : use k = .dir
  free     : ∀ p, IsPage p → p ≠ k → use p = .free
  userTask : s.userTask = 0

theorem Kernel.kmain_booted (hf : s.freelist = 0) (ht : s.userTask = 0) : ∃ s' use free k,
    Kernel.kmain.run s = .ok () s' ∧ Booted s' use free k ∧ s'.exhausted = s.exhausted := by
  have h₀ := Machine.owns_boot hf
  have hheld {p} (hp : IsPage p) : bootUse p = .held := if_pos hp
  have ⟨s₁, hr₁, ⟨use₁, free₁, h₁, he₁⟩, hs₁⟩ := h₀.freerange (1 <<< 20) (2 <<< 20)
    (by decide) (by decide) (by decide) (by decide) (by decide) (fun p hp _ _ => hheld hp)
  have hfree p (hp : use₁ p = .free) : IsPage p ∧ p < 2 <<< 20 := by
    rw [he₁] at hp
    split at hp
    case isTrue hc  => exact ⟨hc.left, hc.right.right⟩
    case isFalse hc =>
      rw [bootUse] at hp
      split at hp <;> cases hp
  match free₁, h₁ with
  | [], h₁         =>
    have hp : use₁ (1 <<< 20) = .free := (he₁ _).trans <| if_pos (by decide)
    simp [← h₁.mem_iff] at hp
  | k :: free₁, h₁ =>
    have hk := (h₁.mem_iff k).mp (by simp)
    have ⟨mem, freelist, hr₂, h₂, _⟩ := h₁.setupkvm_cons
    have hkp := (hfree k hk).left
    have h₃ : Machine.Owns { s₁ with mem, freelist, kvm := kernbase + k, cr3 := k }
        (Function.update use₁ k .dir) free₁ := { h₂ with }
    have ⟨s₄, hr₄, ⟨use₄, free₄, h₄, he₄⟩, hs₄⟩ := h₃.freerange (2 <<< 20) phystop
      (by decide) (by decide) (by decide) (by decide) (by decide) (fun p hp hlo _ => by
        have hpk : p ≠ k := fun he => by
          have := (hfree k hk).right
          omega
        rw [Function.update_of_ne hpk, he₁, if_neg (by omega), hheld hp])
    refine ⟨s₄, use₄, free₄, k, ?_, ?_, hs₄.exhausted.trans hs₁.exhausted⟩
    · have hv : v2p (kernbase + k) = k := v2p_kernbase hkp.upper
      have hp₁ : p2v (1 <<< 20) = kernbase + 1 <<< 20 := p2v_eq (by decide)
      have hp₂ : p2v (2 <<< 20) = kernbase + 2 <<< 20 := p2v_eq (by decide)
      have hp₃ : p2v phystop = kernbase + phystop := by decide
      have hkvm : Kernel.kvmalloc.run s₁ =
          .ok () { s₁ with mem, freelist, kvm := kernbase + k, cr3 := k } := by
        rw [Kernel.kvmalloc, EStateM.bind_ok hr₂]
        simp only [Kernel.switchkvm]
        exact congrArg (fun cr3 => EStateM.Result.ok ()
          { s₁ with mem, freelist, kvm := kernbase + k, cr3 }) hv
      rw [Kernel.kmain, hp₁, hp₂, hp₃, EStateM.bind_ok hr₁, EStateM.bind_ok hkvm, hr₄]
    · have hdir : use₄ k = .dir := by
        rw [he₄, if_neg, Function.update_self]
        have := (hfree k hk).right
        omega
      exact {
        owns := h₄
        kvm := hs₄.kvm
        cr3 := hs₄.cr3
        dir := hdir
        free := fun p hp hpk => by
          rw [he₄]
          split
          case isTrue     => rfl
          case isFalse hn =>
            rw [Function.update_of_ne hpk, he₁, if_pos]
            have hl := hp.lower
            have hu := hp.upper
            simp only [hp, true_and] at hn ⊢
            omega
        userTask := hs₄.userTask.trans <| hs₁.userTask.trans ht }

-- A memory without contents, and no page is free yet.
def Machine.zero : Machine where
  mem _ := 0
  cr3 := 0
  freelist := 0
  kvm := 0
  userTask := 0
  exhausted := false
