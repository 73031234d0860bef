import Mathlib

-- Drawing on a canvas of points `ι`. What a drawing leaves at a point depends only on what has been
-- there before.

variable {ι α β : Type _}

-- The drawing `F` changes the canvas inside of `S` only, point by point.
structure Overlay (S : Set ι) (F : (ι → α) → ι → α) : Prop where
  outside   : ∀ f i, i ∉ S → F f i = f i
  pointwise : ∀ f g i, f i = g i → F f i = F g i

namespace Overlay

variable {S T : Set ι} {F G : (ι → α) → ι → α}

theorem mono (h : Overlay S F) (hs : S ⊆ T) : Overlay T F where
  outside f i hi := h.outside f i (hi <| hs ·)
  pointwise := h.pointwise

theorem id : Overlay S (fun f : ι → α => f) where
  outside _ _ _ := rfl
  pointwise _ _ _ h := h

theorem comp (hg : Overlay S G) (hf : Overlay S F) : Overlay S (fun f => G (F f)) where
  outside f i hi := (hg.outside _ i hi).trans (hf.outside f i hi)
  pointwise f g i h := hg.pointwise _ _ i <| hf.pointwise f g i h

theorem foldl {F : β → (ι → α) → ι → α} (l : List β) (h : ∀ b ∈ l, Overlay S (F b)) :
    Overlay S (fun f => l.foldl (fun f b => F b f) f) := by
  induction l
  case nil         => exact .id
  case cons b l hi =>
    exact (hi fun b hb => h b <| .tail _ hb).comp (h b <| .head _)

end Overlay

-- The drawing `F` covers all of `S`, so that nothing is left there of what has been there before.
structure Covers (S : Set ι) (F : (ι → α) → ι → α) : Prop where
  outside : ∀ f i, i ∉ S → F f i = f i
  inside  : ∀ f g i, i ∈ S → F f i = F g i

theorem Overlay.comp_covers {S : Set ι} {F G : (ι → α) → ι → α} (hg : Overlay S G) (hf : Covers S F) :
    Covers S (fun f => G (F f)) where
  outside f i hi := (hg.outside _ i hi).trans (hf.outside f i hi)
  inside f g i hi := hg.pointwise _ _ i <| hf.inside f g i hi

-- The drawing `F` fills the set `S` with a color.
def Fills (S : Set ι) (c : α) (F : (ι → α) → ι → α) : Prop :=
  ∀ f i, (i ∈ S → F f i = c) ∧ (i ∉ S → F f i = f i)

namespace Fills

variable {S T : Set ι} {c : α} {F G : (ι → α) → ι → α}

theorem of_mem (h : Fills S c F) {i : ι} (hi : i ∈ S) (f : ι → α) : F f i = c :=
  h f i |>.left hi

theorem of_notMem (h : Fills S c F) {i : ι} (hi : i ∉ S) (f : ι → α) : F f i = f i :=
  h f i |>.right hi

theorem congr (h : Fills S c F) (hs : ∀ i, i ∈ T ↔ i ∈ S) : Fills T c F :=
  fun f i => ⟨fun hi => h.of_mem ((hs i).mp hi) f, fun hi => h.of_notMem (mt (hs i).mpr hi) f⟩

theorem overlay (h : Fills S c F) : Overlay S F where
  outside f i hi := h.of_notMem hi f
  pointwise f g i he := by
    by_cases hi : i ∈ S
    case pos => rw [h.of_mem hi, h.of_mem hi]
    case neg => rw [h.of_notMem hi, h.of_notMem hi, he]

theorem covers (h : Fills S c F) : Covers S F where
  outside f _ hi := h.of_notMem hi f
  inside f g _ hi := (h.of_mem hi f).trans (h.of_mem hi g).symm

theorem empty : Fills ∅ c (fun f : ι → α => f) :=
  fun _ _ => ⟨False.elim, fun _ => rfl⟩

theorem foldl {F : β → (ι → α) → ι → α} {S : β → Set ι} (l : List β)
    (h : ∀ b ∈ l, Fills (S b) c (F b)) :
    Fills { i | ∃ b ∈ l, i ∈ S b } c (fun f => l.foldl (fun f b => F b f) f) := by
  induction l
  case nil         => exact empty.congr (by simp)
  case cons b l hi =>
    have hb := h b <| .head _
    have hl := hi fun b hb => h b <| .tail _ hb
    intro f i
    constructor
    case left =>
      intro ⟨b', hb', hi⟩
      by_cases hr : ∃ b ∈ l, i ∈ S b
      case pos => exact hl.of_mem hr _
      case neg =>
        cases hb'
        case head     => exact (hl.of_notMem hr _).trans (hb.of_mem hi f)
        case tail hb' => exact absurd ⟨b', hb', hi⟩ hr
    case right =>
      intro hn
      have hr : ¬∃ b ∈ l, i ∈ S b := fun ⟨b', hb', hi⟩ => hn ⟨b', .tail _ hb', hi⟩
      exact (hl.of_notMem hr _).trans (hb.of_notMem (hn ⟨b, .head _, ·⟩) f)

end Fills
