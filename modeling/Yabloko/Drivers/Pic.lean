import Yabloko.Drivers.Port

-- One of the two interrupt controllers. While it is being initialized, `expects` is the number of the next
-- command word. The bits of `service` are the requests which have been delivered, but not ended.
structure Pic8259 where
  expects : Nat
  vector  : UInt8
  cascade : UInt8
  icw4    : UInt8
  mask    : UInt8
  service : Fin 8 → Bool

namespace Pic8259

-- The end of the request of the highest priority.
def endOfInterrupt (pic : Pic8259) : Pic8259 :=
  { pic with service := fun i => pic.service i && decide (∃ j < i, pic.service j = true) }

-- The first command word has the bit 4, and the command for the end of an interrupt is 0x20.
def command (pic : Pic8259) (data : UInt8) : Pic8259 :=
  if data.toNat.testBit 4 then
    { pic with expects := 2, mask := 0, service := fun _ => false }
  else if data = 0x20 then
    pic.endOfInterrupt
  else
    pic

def data (pic : Pic8259) (data : UInt8) : Pic8259 :=
  match pic.expects with
  | 2 => { pic with vector := data &&& 0xf8, expects := 3 }
  | 3 => { pic with cascade := data, expects := 4 }
  | 4 => { pic with icw4 := data, expects := 0 }
  | _ => { pic with mask := data }

-- A request is delivered if it is not masked, and if none of the same or of a higher priority is in service.
def Accepts (pic : Pic8259) (i : Fin 8) : Prop :=
  pic.mask.toNat.testBit i = false ∧ ∀ j ≤ i, pic.service j = false

def serve (pic : Pic8259) (i : Fin 8) : Pic8259 :=
  { pic with service := Function.update pic.service i true }

end Pic8259

structure Pic where
  leader   : Pic8259
  follower : Pic8259

-- What the controllers ask the processor for. A request which has been withdrawn is delivered as the last one
-- of its controller, and it is not in service there.
inductive PicRequest
  | leader (i : Fin 8)
  | follower (i : Fin 8)
  | spuriousLeader
  | spuriousFollower

namespace Pic

def portByteOut (pic : Pic) (port : Nat) (data : UInt8) : Pic :=
  if port = 0x20 then { pic with leader := pic.leader.command data }
  else if port = 0x21 then { pic with leader := pic.leader.data data }
  else if port = 0xa0 then { pic with follower := pic.follower.command data }
  else if port = 0xa1 then { pic with follower := pic.follower.data data }
  else pic

def device : Device PortOp Nat Pic
  | .byteOut port data, pic => (0, pic.portByteOut port data)
  | _, pic                  => (0, pic)

-- The follower is connected to the line 2 of the leader.
def Accepts (pic : Pic) : PicRequest → Prop
  | .leader i         => pic.leader.Accepts i
  | .follower i       => pic.leader.Accepts 2 ∧ pic.follower.Accepts i
  | .spuriousLeader   => True
  | .spuriousFollower => pic.leader.Accepts 2

-- The vector which the processor is given, and what is in service from then on.
def acknowledge (pic : Pic) : PicRequest → Nat × Pic
  | .leader i         => (pic.leader.vector.toNat + i, { pic with leader := pic.leader.serve i })
  | .follower i       => (pic.follower.vector.toNat + i,
      { leader := pic.leader.serve 2, follower := pic.follower.serve i })
  | .spuriousLeader   => (pic.leader.vector.toNat + 7, pic)
  | .spuriousFollower => (pic.follower.vector.toNat + 7, { pic with leader := pic.leader.serve 2 })

end Pic

def initPic : Driver Unit := do
  portByteOut 0x20 0x11
  portByteOut 0xa0 0x11
  portByteOut 0x21 0x20
  portByteOut 0xa1 0x28
  portByteOut 0x21 0x04
  portByteOut 0xa1 0x02
  portByteOut 0x21 0x01
  portByteOut 0xa1 0x01
  portByteOut 0x21 0x0
  portByteOut 0xa1 0x0

-- The number of the request among the lines of both controllers.
def PicRequest.irq : PicRequest → Nat
  | leader i         => i
  | follower i       => 8 + i
  | spuriousLeader   => 7
  | spuriousFollower => 15

namespace Pic

-- The end of an interrupt, as `trap` signals it.
def trapEnds (pic : Pic) (intNo : Nat) : Pic :=
  let pic := if 40 ≤ intNo ∧ intNo ≤ 47 then pic.portByteOut 0xa0 0x20 else pic
  if 32 ≤ intNo ∧ intNo ≤ 47 then pic.portByteOut 0x20 0x20 else pic

-- The controllers have been initialized, and no request is in service.
structure Ready (pic : Pic) : Prop where
  leader   : pic.leader = ⟨0, 0x20, 0x04, 0x01, 0, fun _ => false⟩
  follower : pic.follower = ⟨0, 0x28, 0x02, 0x01, 0, fun _ => false⟩

variable {pic : Pic}

theorem run_initPic (pic : Pic) : (initPic.run device pic).2.Ready where
  leader := rfl
  follower := rfl

theorem endOfInterrupt_serve {p : Pic8259} (h : p.service = fun _ => false) (i : Fin 8) :
    (p.serve i).endOfInterrupt = p := by
  have hs : (fun k => Function.update p.service i true k &&
      decide (∃ j < k, Function.update p.service i true j = true)) = p.service := by
    funext k
    rw [h]
    simp only [Function.update_apply, Bool.and_eq_false_iff, decide_eq_false_iff_not]
    by_cases hk : k = i
    case neg => exact .inl <| if_neg hk
    case pos =>
      refine .inr fun hj => ?_
      obtain ⟨j, hj, hs⟩ := hj
      rw [if_neg (by omega)] at hs
      cases hs
  rw [Pic8259.serve, Pic8259.endOfInterrupt]
  simp only [hs]

theorem endOfInterrupt_none {p : Pic8259} (h : p.service = fun _ => false) : p.endOfInterrupt = p := by
  rw [Pic8259.endOfInterrupt, h]
  simp only [Bool.false_and, ← h]

-- All lines are delivered when nothing is in service.
theorem Ready.accepts (h : pic.Ready) (request : PicRequest) : pic.Accepts request := by
  have hl (i : Fin 8) : pic.leader.Accepts i := by
    rw [h.leader]
    exact ⟨Nat.zero_testBit _, fun _ _ => rfl⟩
  have hf (i : Fin 8) : pic.follower.Accepts i := by
    rw [h.follower]
    exact ⟨Nat.zero_testBit _, fun _ _ => rfl⟩
  cases request
  case leader i         => exact hl i
  case follower i       => exact ⟨hl 2, hf i⟩
  case spuriousLeader   => trivial
  case spuriousFollower => exact hl 2

theorem trapEnds_leader {n : Nat} (hl : 32 ≤ n) (hu : n < 40) (pic : Pic) :
    pic.trapEnds n = { pic with leader := pic.leader.endOfInterrupt } := by
  rw [trapEnds, if_neg (show ¬(40 ≤ n ∧ n ≤ 47) by omega), if_pos (show 32 ≤ n ∧ n ≤ 47 by omega)]
  rfl

theorem trapEnds_follower {n : Nat} (hl : 40 ≤ n) (hu : n < 48) (pic : Pic) :
    pic.trapEnds n = ⟨pic.leader.endOfInterrupt, pic.follower.endOfInterrupt⟩ := by
  rw [trapEnds, if_pos (show 40 ≤ n ∧ n ≤ 47 by omega), if_pos (show 32 ≤ n ∧ n ≤ 47 by omega)]
  rfl

-- The requests arrive at the vectors from 32 on, and `trap` ends exactly the ones which are in service.
theorem Ready.acknowledge (h : pic.Ready) (request : PicRequest) :
    (pic.acknowledge request).1 = 32 + request.irq ∧
      (pic.acknowledge request).2.trapEnds (32 + request.irq) = pic := by
  have hls : pic.leader.service = fun _ => false := by rw [h.leader]
  have hfs : pic.follower.service = fun _ => false := by rw [h.follower]
  have hlv : pic.leader.vector.toNat = 32 := by rw [h.leader]; rfl
  have hfv : pic.follower.vector.toNat = 40 := by rw [h.follower]; rfl
  cases request
  case leader i         =>
    have hi := i.isLt
    refine ⟨congrArg (· + i.val) hlv, ?_⟩
    rw [trapEnds_leader (Nat.le_add_right _ _) (by simp only [PicRequest.irq]; omega)]
    simp only [Pic.acknowledge, endOfInterrupt_serve hls]
  case follower i       =>
    have hi := i.isLt
    refine ⟨(congrArg (· + i.val) hfv).trans <| Nat.add_assoc 32 8 i, ?_⟩
    rw [trapEnds_follower (by simp only [PicRequest.irq]; omega) (by simp only [PicRequest.irq]; omega)]
    simp only [Pic.acknowledge, endOfInterrupt_serve hls, endOfInterrupt_serve hfs]
  case spuriousLeader   =>
    refine ⟨congrArg (· + 7) hlv, ?_⟩
    rw [trapEnds_leader (by decide) (by decide)]
    simp only [Pic.acknowledge, endOfInterrupt_none hls]
  case spuriousFollower =>
    refine ⟨congrArg (· + 7) hfv, ?_⟩
    rw [trapEnds_follower (by decide) (by decide)]
    simp only [Pic.acknowledge, endOfInterrupt_serve hls, endOfInterrupt_none hfs]

end Pic
