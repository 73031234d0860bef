import Yabloko.Kernel.Os

-- The process calls `SYS_sleep`, and the time is positive.
structure Registers.Sleeps (r : Registers) : Prop where
  syscall  : r.intNo.toNat = tSyscall
  sleep    : r.eax.toNat = 9
  positive : 0 < toInt32 r.ebx.toNat

open KernelProg

namespace Os

-- What the clock shows after some more requests of the timer.
def clockAfter (σ : Os) (ticks : Nat) : Nat :=
  (σ.speaker.monotonicMs.toNat + 10 * ticks) % 2 ^ 64

-- The deadline is computed at the first look at the clock, and it is reached at the last one.
def Slept (σ : Os) (r : Registers) (σ' : Os) : Prop :=
  ∃ first last, first ≤ last ∧ σ.ticks + last ≤ σ'.ticks ∧
    (σ.clockAfter first + toInt32 r.ebx.toNat) % 2 ^ 64 ≤ σ.clockAfter last

-- Only the requests of the timer have changed the clock.
structure Ticked (σ σ' : Os) : Prop where
  ticks : σ.ticks ≤ σ'.ticks
  clock : σ'.speaker.monotonicMs.toNat = σ.clockAfter (σ'.ticks - σ.ticks)

-- A process which still sleeps goes on at the next look at the clock, once the time has passed. The clock does not
-- wrap around meanwhile.
def Wakes (σ : Os) (rounds : Nat) (r : Registers) (σ' : Os) : Prop :=
  ∀ σ₁, Relation.ReflTransGen Irq σ' σ₁ → toInt32 r.ebx.toNat ≤ 10 * (σ₁.ticks - σ'.ticks : Nat) →
    σ.speaker.monotonicMs.toNat + 10 * (σ₁.ticks - σ.ticks) < 2 ^ 64 →
    Prog.Runs device Irq (trap (rounds + 1) r) σ (.returned <| r.withResult 0) σ₁

variable {b : Origin} {x : View} {con : List UInt8} {F : Bool → Bool → Prop} {c : Control} {σ σ' σ₁ : Os}
  {r r' : Registers} {rounds : Nat}

theorem fail_clock (σ : Os) (e : Fault) : (σ.fail e).speaker = σ.speaker ∧ (σ.fail e).ticks = σ.ticks := by
  cases e
  all_goals exact ⟨rfl, rfl⟩

theorem timerInterruptHandler_clock (σ : Os) :
    σ.timerInterruptHandler.2.speaker = σ.speaker.timerInterruptHandler ∧
      σ.timerInterruptHandler.2.ticks = σ.ticks := by
  rw [timerInterruptHandler, exec]
  split
  case h_1 => exact ⟨rfl, rfl⟩
  case h_2 => exact fail_clock _ _

theorem keyboardInterruptHandler_clock (σ : Os) : (σ.step .keyboardInterruptHandler).2.speaker = σ.speaker ∧
    (σ.step .keyboardInterruptHandler).2.ticks = σ.ticks := by
  rw [Os.step]
  split
  all_goals exact ⟨rfl, rfl⟩

theorem Ticked.same (hs : σ'.speaker = σ.speaker) (ht : σ'.ticks = σ.ticks) : σ.Ticked σ' where
  ticks := Nat.le_of_eq ht.symm
  clock := by
    rw [hs, ht, clockAfter, Nat.sub_self, Nat.mul_zero, Nat.add_zero,
      Nat.mod_eq_of_lt σ.speaker.monotonicMs.toNat_lt]

theorem Ticked.timer (hs : σ'.speaker = σ.speaker.timerInterruptHandler) (ht : σ'.ticks = σ.ticks + 1) :
    σ.Ticked σ' where
  ticks := ht ▸ Nat.le_succ _
  clock := by
    rw [hs, ht, clockAfter, Nat.add_sub_cancel_left, Speaker.timerInterruptHandler, Speaker.tick_monotonicMs,
      UInt64.toNat_add]
    rfl

theorem Ticked.trans (h : σ.Ticked σ₁) (h' : σ₁.Ticked σ') : σ.Ticked σ' where
  ticks := h.ticks.trans h'.ticks
  clock := by
    have ht := h.ticks
    have ht' := h'.ticks
    rw [h'.clock, clockAfter, h.clock, clockAfter, clockAfter]
    omega

namespace Point

-- The clock of the kernel counts the requests of the timer.
theorem ticked (h : Point b x con F c σ) (hi : Irq σ σ') : σ.Ticked σ' := by
  cases hi
  case intro request kbdData r hs _ hr =>
    obtain ⟨hv, he⟩ := h.pic.acknowledge request
    have hlt : request.irq < 16 := by cases request <;> simp only [PicRequest.irq] <;> omega
    have hn : r.intNo.toNat = 32 + request.irq := by rw [hr, hv, BitVec.toNat_ofNat]; omega
    rw [run_trap_irq (by exact hs) hlt hn]
    dsimp only
    split
    case isTrue     =>
      obtain ⟨hs, ht⟩ := timerInterruptHandler_clock _
      exact .timer hs ht
    case isFalse ht =>
      split
      case isTrue  =>
        obtain ⟨hs, ht⟩ := keyboardInterruptHandler_clock _
        exact .same hs ht
      case isFalse => exact .same rfl rfl

theorem irqs (h : Point b x con F c σ) (hs : Relation.ReflTransGen Irq σ σ') : Point b x con F c σ' :=
  Prog.Stable.irqs stable hs h

theorem ticked_irqs (h : Point b x con F c σ) (hs : Relation.ReflTransGen Irq σ σ') : σ.Ticked σ' := by
  induction hs
  case refl          => exact .same rfl rfl
  case tail hs hi ht => exact ht.trans <| (h.irqs hs).ticked hi

end Point

theorem trap_sleep (h : r.Sleeps) (rounds : Nat) : trap rounds r = (do
    let now ← Prog.perform .pitMonotonicMs
    let awake ← Prog.poll .pitMonotonicMs (fun t => decide ((now + toInt32 r.ebx.toNat) % 2 ^ 64 ≤ t)) rounds
    return if awake then .returned <| r.withResult 0 else .asleep) := by
  have hp := h.positive
  have hh : interruptHandlers r.intNo.toNat = some .syscall := by rw [h.syscall]; rfl
  have he : endOfInterrupt r.intNo.toNat = pure () := by rw [h.syscall]; rfl
  simp only [trap, he, callHandler, hh, handleSyscall, h.sleep, msleep]
  rw [if_neg (by omega), if_neg (by omega)]
  rfl

theorem look_eq (σ : Os) : (device .pitMonotonicMs σ).2 = σ := by
  rw [device]
  split
  all_goals rfl

namespace Point

-- What a look at the clock returns.
theorem look (h : Point b x con F c σ) (hi : Relation.ReflTransGen Irq σ σ') :
    (device .pitMonotonicMs σ').1 = σ.clockAfter (σ'.ticks - σ.ticks) := by
  rw [device_step (h.irqs hi).stop]
  exact congrArg Nat.cast (h.ticked_irqs hi).clock

-- The looks at the clock in a run of `msleep`, and how it ends.
theorem run_sleep {e : TrapEnd} (h : Point b x con F c σ) (hs : r.Sleeps)
    (hr : Prog.Runs device Irq (trap rounds r) σ e σ') : ∃ σ₁ awake σ₂, Relation.ReflTransGen Irq σ σ₁ ∧
      Prog.Runs device Irq (Prog.poll .pitMonotonicMs (fun t => decide
        (((σ.clockAfter (σ₁.ticks - σ.ticks) : Int) + toInt32 r.ebx.toNat) % 2 ^ 64 ≤ t)) rounds) σ₁ awake σ₂ ∧
      Relation.ReflTransGen Irq σ₂ σ' ∧ (if awake then .returned <| r.withResult 0 else .asleep) = e := by
  rw [trap_sleep hs] at hr
  obtain ⟨now, σ₂, hn, hr⟩ := hr.of_bind
  obtain ⟨σ₁, h₁, hn⟩ := hn.of_op
  obtain ⟨hnow, h₂⟩ := hn.of_pure
  obtain ⟨awake, σ₃, hp, hr⟩ := hr.of_bind
  obtain ⟨he, h₃⟩ := hr.of_pure
  rw [look_eq] at h₂
  rw [h.look h₁] at hnow
  subst hnow
  exact ⟨σ₁, awake, σ₃, h₁, .irqs h₂ hp, h₃, he⟩

theorem slept (h : Point b x con F c σ) (hs : r.Sleeps)
    (hr : Prog.Runs device Irq (trap rounds r) σ (.returned r') σ') : σ.Slept r σ' := by
  obtain ⟨σ₁, awake, σ₃, h₁, hp, h₃, he⟩ := h.run_sleep hs hr
  obtain ⟨σ₂, h₂, h₂', ht⟩ := hp.of_poll look_eq
  cases awake
  case false => cases he
  case true  =>
    have ht := of_decide_eq_true (ht rfl)
    rw [h.look (h₁.trans h₂)] at ht
    have hle₁ := (h.ticked_irqs h₁).ticks
    have hle₂ := ((h.irqs h₁).ticked_irqs h₂).ticks
    have hle₃ := ((h.irqs <| h₁.trans h₂).ticked_irqs <| h₂'.trans h₃).ticks
    exact ⟨_, _, Nat.sub_le_sub_right hle₂ _, by omega, ht⟩

theorem wakes (h : Point b x con F c σ) (hs : r.Sleeps)
    (hr : Prog.Runs device Irq (trap rounds r) σ .asleep σ') : σ.Wakes rounds r σ' := by
  obtain ⟨σ₁, awake, σ₃, h₁, hp, h₃, he⟩ := h.run_sleep hs hr
  cases awake
  case true  => cases he
  case false =>
    intro σ₄ h₄ hms hlt
    obtain ⟨σ₂, h₂, h₂', _⟩ := hp.of_poll look_eq
    have hle₁ := (h.ticked_irqs h₁).ticks
    have hle₂ := ((h.irqs h₁).ticked_irqs <| h₂.trans <| h₂'.trans h₃).ticks
    -- The first look has been at this or at an earlier number of ticks.
    have ht : decide (((σ.clockAfter (σ₁.ticks - σ.ticks) : Int) + toInt32 r.ebx.toNat) % 2 ^ 64 ≤
        (device .pitMonotonicMs σ₄).1) = true := by
      rw [h.look <| h₁.trans <| h₂.trans <| h₂'.trans <| h₃.trans h₄, decide_eq_true_iff]
      have hpos := hs.positive
      simp only [clockAfter]
      omega
    have hloop := hp.poll_succ (h₃.trans h₄) ht
    have hlook := Prog.Runs.of_run device Irq (Prog.perform .pitMonotonicMs) σ₁
    rw [Prog.run_perform, h.look h₁, look_eq] at hlook
    rw [look_eq] at hloop
    rw [trap_sleep hs]
    exact (Prog.Runs.irqs h₁ hlook).bind <| hloop.bind .pure

end Point

end Os
