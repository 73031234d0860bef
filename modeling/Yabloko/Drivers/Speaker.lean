import Mathlib

abbrev pitInputHz : Nat := 1193182
abbrev pitChannel2SquareWave : UInt8 := 0xb6
abbrev speakerEnableBits : UInt8 := 0x03
abbrev speakerDisableBits : UInt8 := 0x03
abbrev speakerDivisorMin : Nat := 1
abbrev speakerDivisorMax : Nat := 0xffff

-- The variables of the timer and of the speaker, and the registers behind the ports of the speaker.
structure Speaker where
  monotonicMs   : UInt64
  offDeadlineMs : UInt32
  dataPort      : UInt8
  pitCommand    : UInt8
  channel2      : UInt8 × UInt8

-- The divisor which is programmed for a tone.
def speakerDivisor (frequencyHz : UInt16) : Nat :=
  let divisor := if frequencyHz ≠ 0 then pitInputHz / frequencyHz.toNat else 0
  if divisor = 0 then
    speakerDivisorMin
  else if divisor > speakerDivisorMax then
    speakerDivisorMax
  else
    divisor

namespace Speaker

def off (s : Speaker) : Speaker :=
  { s with dataPort := s.dataPort &&& ~~~speakerDisableBits }

def on (s : Speaker) (frequencyHz : UInt16) : Speaker :=
  let divisor := speakerDivisor frequencyHz
  { s with
    pitCommand := pitChannel2SquareWave
    channel2 := (.ofNat (divisor % 256), .ofNat (divisor / 256 % 256))
    dataPort := s.dataPort ||| speakerEnableBits }

def tick (s : Speaker) : Speaker :=
  if s.offDeadlineMs = 0 then
    s
  else
    let nowMs := s.monotonicMs.toUInt32
    -- The difference is compared as a signed number.
    if (nowMs - s.offDeadlineMs).toBitVec.toInt < 0 then
      s
    else
      { s with offDeadlineMs := 0 }.off

def beep (s : Speaker) (frequencyHz durationMs : UInt16) : Speaker :=
  if frequencyHz = 0 ∨ durationMs = 0 then
    { s with offDeadlineMs := 0 }.off
  else
    { s.on frequencyHz with offDeadlineMs := (s.monotonicMs + durationMs.toUInt64).toUInt32 }

-- The other timer callback draws the spinner.
def timerInterruptHandler (s : Speaker) : Speaker :=
  { s with monotonicMs := s.monotonicMs + 10 }.tick

def handleBeep (s : Speaker) (packedTone : UInt32) : Speaker :=
  let frequencyHz := (packedTone &&& 0xffff).toUInt16
  let durationMs := (packedTone >>> 16).toUInt16
  if frequencyHz = 0 ∨ durationMs = 0 then s else s.beep frequencyHz durationMs

end Speaker

inductive SpeakerOp
  | timer
  | beep (packedTone : UInt32)

namespace Speaker

def step (s : Speaker) : SpeakerOp → Speaker
  | .timer           => s.timerInterruptHandler
  | .beep packedTone => s.handleBeep packedTone

def run (s : Speaker) (ops : List SpeakerOp) : Speaker :=
  ops.foldl step s

def GateOn (s : Speaker) : Prop :=
  s.dataPort &&& speakerEnableBits = speakerEnableBits

def GateOff (s : Speaker) : Prop :=
  s.dataPort &&& speakerEnableBits = 0

variable {s s' : Speaker}

theorem on_gateOn (s : Speaker) (frequencyHz : UInt16) : (s.on frequencyHz).GateOn := by
  simp only [GateOn, on, ← UInt8.toBitVec_inj, UInt8.toBitVec_and, UInt8.toBitVec_or]
  ext i hi
  simp only [BitVec.getElem_and, BitVec.getElem_or]
  cases s.dataPort.toBitVec[i] <;> simp

theorem off_gateOff (s : Speaker) : s.off.GateOff := by
  rw [GateOff, off, UInt8.and_assoc]
  exact UInt8.and_zero

theorem GateOn.not_gateOff (h : s.GateOn) : ¬s.GateOff := by
  intro ho
  rw [GateOn, ho] at h
  exact absurd h (by decide)

-- A tone is played, as long as the difference to its deadline is negative.
structure Plays (s : Speaker) (deadline : Nat) : Prop where
  gate     : s.GateOn
  deadline : s.offDeadlineMs = .ofNat deadline

-- No tone is played, and the callback has nothing to do.
structure Silent (s : Speaker) : Prop where
  gate     : s.GateOff
  deadline : s.offDeadlineMs = 0

-- The speaker after some ticks.
def after (s : Speaker) (ticks : Nat) : Speaker :=
  s.run (.replicate ticks .timer)

theorem after_succ (s : Speaker) (ticks : Nat) :
    s.after (ticks + 1) = (s.after ticks).timerInterruptHandler := by
  rw [after, List.replicate_succ', run, List.foldl_append]
  rfl

theorem tick_monotonicMs (s : Speaker) : s.tick.monotonicMs = s.monotonicMs := by
  simp only [tick]
  split_ifs <;> rfl

theorem after_monotonicMs (s : Speaker) (ticks : Nat) :
    (s.after ticks).monotonicMs = .ofNat (s.monotonicMs.toNat + 10 * ticks) := by
  induction ticks
  case zero         => simp [after, run]
  case succ n hi    =>
    rw [after_succ, timerInterruptHandler, tick_monotonicMs, hi, ← UInt64.toNat_inj]
    simp only [UInt64.toNat_add, UInt64.toNat_ofNat', UInt64.reduceToNat]
    omega

-- The signed difference has the right sign when the two times are less than half of the range apart.
theorem deadline_neg_iff {now deadline : Nat} (h₁ : deadline ≤ now + 2 ^ 16) (h₂ : now < deadline + 2 ^ 16) :
    (UInt32.ofNat now - UInt32.ofNat deadline).toBitVec.toInt < 0 ↔ now < deadline := by
  rw [BitVec.toInt_neg_iff, UInt32.toNat_toBitVec, UInt32.toNat_sub, UInt32.toNat_ofNat',
    UInt32.toNat_ofNat']
  omega

theorem Silent.timer (h : s.Silent) : s.timerInterruptHandler.Silent := by
  rw [timerInterruptHandler, tick, if_pos h.deadline]
  exact ⟨h.gate, h.deadline⟩

-- A deadline which is a multiple of 2 ^ 32 is taken for none.
theorem Plays.timer_of_zero {deadline : Nat} (h : s.Plays deadline) (h₀ : deadline % 2 ^ 32 = 0) :
    s.timerInterruptHandler.Plays deadline := by
  have hz : s.offDeadlineMs = 0 := by
    rw [h.deadline, ← UInt32.toNat_inj, UInt32.toNat_ofNat', h₀]
    rfl
  rw [timerInterruptHandler, tick, if_pos hz]
  exact ⟨h.gate, h.deadline⟩

theorem Plays.timer {deadline now : Nat} (h : s.Plays deadline) (h₀ : deadline % 2 ^ 32 ≠ 0)
    (hn : s.monotonicMs = .ofNat now) (h₁ : deadline ≤ now + 2 ^ 16) (h₂ : now < deadline) :
    if now + 10 < deadline then s.timerInterruptHandler.Plays deadline
    else s.timerInterruptHandler.Silent := by
  have hz : s.offDeadlineMs ≠ 0 := by
    rw [h.deadline, ne_eq, ← UInt32.toNat_inj, UInt32.toNat_ofNat']
    exact h₀
  have hm : (s.monotonicMs + 10).toUInt32 = .ofNat (now + 10) := by
    rw [hn, ← UInt32.toNat_inj, UInt64.toNat_toUInt32, UInt64.toNat_add, UInt64.toNat_ofNat',
      UInt32.toNat_ofNat']
    simp only [UInt64.reduceToNat]
    omega
  have hd := @deadline_neg_iff (now + 10) deadline (by omega) (by omega)
  rw [timerInterruptHandler, tick, if_neg hz]
  by_cases hlt : now + 10 < deadline
  case pos =>
    rw [if_pos hlt, if_pos (by rwa [hm, h.deadline, hd])]
    exact ⟨h.gate, h.deadline⟩
  case neg =>
    rw [if_neg hlt, if_neg (by rwa [hm, h.deadline, hd])]
    exact ⟨off_gateOff _, rfl⟩

-- The tone is played up to its deadline, and the speaker is silent from then on.
theorem Plays.after {deadline : Nat} (h : s.Plays deadline) (h₀ : deadline % 2 ^ 32 ≠ 0)
    (h₁ : s.monotonicMs.toNat < deadline) (h₂ : deadline ≤ s.monotonicMs.toNat + 2 ^ 16) (ticks : Nat) :
    if s.monotonicMs.toNat + 10 * ticks < deadline then (s.after ticks).Plays deadline
    else (s.after ticks).Silent := by
  induction ticks
  case zero      => rwa [Nat.mul_zero, Nat.add_zero, if_pos h₁]
  case succ n hi =>
    rw [after_succ, Nat.mul_succ, ← Nat.add_assoc]
    by_cases hn : s.monotonicMs.toNat + 10 * n < deadline
    case pos =>
      rw [if_pos hn] at hi
      exact hi.timer h₀ (s.after_monotonicMs n) (by omega) hn
    case neg =>
      rw [if_neg hn] at hi
      rw [if_neg (by omega)]
      exact hi.timer

theorem Plays.after_of_zero {deadline : Nat} (h : s.Plays deadline) (h₀ : deadline % 2 ^ 32 = 0)
    (ticks : Nat) : (s.after ticks).Plays deadline := by
  induction ticks
  case zero      => exact h
  case succ n hi => exact after_succ s n ▸ hi.timer_of_zero h₀

-- The gate is open after each tick in front of the deadline, and closed from the first one at or behind
-- the deadline on.
def EndsAt (s : Speaker) (deadline : Nat) : Prop :=
  ∀ ticks, if s.monotonicMs.toNat + 10 * ticks < deadline then (s.after ticks).GateOn
    else (s.after ticks).GateOff

theorem Plays.endsAt_iff {deadline : Nat} (h : s.Plays deadline) (h₁ : s.monotonicMs.toNat < deadline)
    (h₂ : deadline ≤ s.monotonicMs.toNat + 2 ^ 16) : s.EndsAt deadline ↔ deadline % 2 ^ 32 ≠ 0 := by
  constructor
  case mp  =>
    intro he h₀
    have hg := he deadline
    rw [if_neg (by omega)] at hg
    exact (h.after_of_zero h₀ deadline).gate.not_gateOff hg
  case mpr =>
    intro h₀ ticks
    have ha := h.after h₀ h₁ h₂ ticks
    split
    case isTrue hc  => rw [if_pos hc] at ha; exact ha.gate
    case isFalse hc => rw [if_neg hc] at ha; exact ha.gate

def frequencyHz (packedTone : UInt32) : Nat :=
  packedTone.toNat % 2 ^ 16

def durationMs (packedTone : UInt32) : Nat :=
  packedTone.toNat / 2 ^ 16

theorem handleBeep_monotonicMs (s : Speaker) (packedTone : UInt32) :
    (s.handleBeep packedTone).monotonicMs = s.monotonicMs := by
  simp only [handleBeep, beep]
  split_ifs <;> rfl

-- The tone which is requested by `SYS_beep` replaces the one before.
theorem handleBeep_plays (s : Speaker) {packedTone : UInt32} (hf : frequencyHz packedTone ≠ 0)
    (hd : durationMs packedTone ≠ 0) :
    (s.handleBeep packedTone).Plays (s.monotonicMs.toNat + durationMs packedTone) := by
  have hp := packedTone.toNat_lt
  have hm : packedTone.toNat &&& 0xffff = packedTone.toNat % 2 ^ 16 := Nat.and_two_pow_sub_one_eq_mod _ 16
  have hf' : (packedTone &&& 0xffff).toUInt16.toNat = frequencyHz packedTone := by
    rw [UInt32.toNat_toUInt16, UInt32.toNat_and, frequencyHz]
    simp only [UInt32.reduceToNat, hm]
    omega
  have hd' : (packedTone >>> 16).toUInt16.toNat = durationMs packedTone := by
    rw [UInt32.toNat_toUInt16, UInt32.toNat_shiftRight, durationMs, Nat.shiftRight_eq_div_pow]
    simp only [UInt32.reduceToNat, Nat.reduceMod]
    omega
  have hn : ¬((packedTone &&& 0xffff).toUInt16 = 0 ∨ (packedTone >>> 16).toUInt16 = 0) := by
    rw [← UInt16.toNat_inj, ← UInt16.toNat_inj, hf', hd', UInt16.toNat_zero]
    exact not_or.mpr ⟨hf, hd⟩
  simp only [handleBeep, beep, hn, if_false]
  refine ⟨s.on_gateOn (packedTone &&& 0xffff).toUInt16, ?_⟩
  rw [← UInt32.toNat_inj, UInt64.toNat_toUInt32, UInt64.toNat_add, UInt16.toNat_toUInt64, hd',
    UInt32.toNat_ofNat']
  omega

-- After any ticks and tones, a tone ends in time, unless its deadline is a multiple of 2 ^ 32.
theorem run_beep_iff (s : Speaker) (ops : List SpeakerOp) (packedTone : UInt32)
    (hf : frequencyHz packedTone ≠ 0) (hd : durationMs packedTone ≠ 0) :
    (s.run (ops ++ [.beep packedTone])).EndsAt
      ((s.run ops).monotonicMs.toNat + durationMs packedTone) ↔
      ((s.run ops).monotonicMs.toNat + durationMs packedTone) % 2 ^ 32 ≠ 0 := by
  have hr : s.run (ops ++ [.beep packedTone]) = (s.run ops).handleBeep packedTone := by
    rw [run, List.foldl_append]
    rfl
  have hp := packedTone.toNat_lt
  have hm := (s.run ops).handleBeep_monotonicMs packedTone
  have hd' : durationMs packedTone < 2 ^ 16 := by
    rw [durationMs]
    omega
  rw [hr]
  apply (handleBeep_plays _ hf hd).endsAt_iff
  case h₁ => rw [hm]; omega
  case h₂ => rw [hm]; omega

-- The tone of a meal in the game: 880 Hz for 40 ms.
theorem run_beep_meal : ((Speaker.mk 0 0 0 0 (0, 0)).run ([.timer] ++ [.beep 0x280370])).EndsAt
    (((Speaker.mk 0 0 0 0 (0, 0)).run [.timer]).monotonicMs.toNat + durationMs 0x280370) :=
  (run_beep_iff ⟨0, 0, 0, 0, (0, 0)⟩ [.timer] 0x280370 (by decide) (by decide)).mpr (by decide)

-- A tone of 46 ms, 46 ms in front of the wrap of the lower half of the clock.
theorem beep_never_ends : ¬((Speaker.mk 4294967250 0 0 0 (0, 0)).run [.beep 0x2e0370]).EndsAt
    (4294967250 + durationMs 0x2e0370) := by
  intro h
  have hp := @handleBeep_plays ⟨4294967250, 0, 0, 0, (0, 0)⟩ 0x2e0370 (by decide) (by decide)
  exact (hp.endsAt_iff (by decide) (by decide)).mp h (by decide)

end Speaker
