import Yabloko.Kernel.Free
import Yabloko.Kernel.Ranges
import Yabloko.Lib.View

-- The memory which is accessible through the current directory.
def Machine.view (s : Machine) : View :=
  fun va => (s.translate va).map s.mem

-- The lower half of the addresses, through the given directory.
def Machine.Shows (s : Machine) (d : Nat) (m : View) : Prop :=
  ∀ va < kernbase, { s with cr3 := d }.view va = m va

-- The memory changes in the given pages only.
def ChangesIn (pages : Nat → Prop) (m m' : Bytes) : Prop :=
  ∀ p, IsPage p → ¬pages p → SamePage p m m'

variable {use use' : Nat → Use} {p q i j d t f v w n a pa va : Nat} {s s' s'' : Machine}
  {free free' : List Nat} {m m' m'' : Bytes} {pages pages' : Nat → Prop} {x : View}

namespace ChangesIn

theorem refl (pages : Nat → Prop) (m : Bytes) : ChangesIn pages m m :=
  fun _ _ _ _ _ => rfl

theorem trans (h : ChangesIn pages m m') (h' : ChangesIn pages m' m'') : ChangesIn pages m m'' :=
  fun p hp hn => (h p hp hn).trans <| h' p hp hn

theorem mono (h : ChangesIn pages m m') (hp : ∀ p, pages p → pages' p) : ChangesIn pages' m m' :=
  fun p hp' hn => h p hp' <| mt (hp p) hn

theorem of_agree (hq : IsPage q) (h : Bytes.AgreeOutside a n m m') (ha : q ≤ a)
    (hn : a + n ≤ q + pgsize) : ChangesIn (· = q) m m' :=
  fun _ hp hpq => hp.samePage hq hpq h ⟨ha, hn⟩

end ChangesIn

namespace Machine.Owns

-- The contents of a page do not matter, unless it is a directory, a table, or free.
theorem touch (h : s.Owns use free) (hm : ChangesIn pages s.mem m)
    (hp : ∀ p, pages p → use p ≠ .dir ∧ use p ≠ .free ∧ ∀ d i, use p ≠ .table d i) :
    Machine.Owns { s with mem := m } use free where
  mapped := by
    apply h.mapped.congr (fun _ _ _ => Iff.rfl) h.mapped.page
    intro p hu
    have hpp : IsPage p := by
      rcases hu with hu | ⟨_, _, hu⟩
      all_goals exact h.page (by simp [hu])
    refine hm p hpp fun hc => ?_
    rcases hu with hu | ⟨_, _, hu⟩
    case inl => exact (hp p hc).left hu
    case inr => exact (hp p hc).right.right _ _ hu
  list := by
    apply h.list.congr
    intro va hva
    have ⟨q, hq, he⟩ := List.mem_map.mp hva
    have hq := (h.mem_iff q).mp hq
    have hs := hm q (h.page (by simp [hq])) fun hc => (hp q hc).right.left hq
    rw [← he]
    simpa using hs.load32_eq (i := 0) (by decide)
  nodup := h.nodup
  mem_iff := h.mem_iff

theorem translate_none (h : s.Owns use free) (hd : use s.cr3 = .dir) (hm : ¬Maps use s.cr3 v)
    (hv : v < 2 ^ 19) (hn : n < pgsize) : s.translate (v * pgsize + n) = none := by
  simp only [pgsize] at hn
  have hx : pdx (v * pgsize + n) = v / 1024 ∧ ptx (v * pgsize + n) = v % 1024 := by
    simp only [pdx, ptx, pgsize]
    omega
  rw [translate, if_neg (by simp only [kernbase, pgsize]; omega)]
  simp only [hx.left, hx.right]
  by_cases ht : HasTable use s.cr3 (v / 1024)
  case neg => rw [(h.entry_eq_zero_iff hd (by omega)).mpr ht]; rfl
  case pos =>
    obtain ⟨t, ht⟩ := ht
    have htp := h.page (p := t) (by simp [ht])
    have hs : (t + 7) / ptePS % 2 = 0 := by
      have ha := htp.aligned
      simp only [pgsize, ptePS] at ha ⊢
      omega
    have hz := (h.pte_eq_zero_iff ht).mpr hm
    simp only [(h.mapped.table t _ _ ht).right.right, htp.pteAddr_eq, hz, hs]
    rw [if_neg (by rw [htp.present]; decide), if_neg (by decide)]
    rfl

-- The two halves of a user address.
theorem user_split (hva : va < kernbase) :
    va / pgsize < 2 ^ 19 ∧ va % pgsize < pgsize ∧ va / pgsize * pgsize + va % pgsize = va := by
  simp only [kernbase, pgsize] at hva ⊢
  omega

theorem view_frame (h : s.Owns use free) (hf : use f = .frame s.cr3 (va / pgsize))
    (hva : va < kernbase) : s.view va = some (s.mem (f + va % pgsize)) := by
  have ⟨hv, hn, he⟩ := user_split hva
  have ht := h.translate_frame hf hv hn
  rw [he] at ht
  rw [view, ht]
  rfl

theorem view_none (h : s.Owns use free) (hd : use s.cr3 = .dir)
    (hm : ¬Maps use s.cr3 (va / pgsize)) (hva : va < kernbase) : s.view va = none := by
  have ⟨hv, hn, he⟩ := user_split hva
  have ht := h.translate_none hd hm hv hn
  rw [he] at ht
  rw [view, ht]
  rfl

theorem with_cr3 (h : s.Owns use free) (d : Nat) : Machine.Owns { s with cr3 := d } use free :=
  { h with }

theorem shows_none (h : s.Owns use free) (hd : use d = .dir) (hm : ∀ v, ¬Maps use d v) :
    s.Shows d fun _ => none :=
  fun _ hva => (h.with_cr3 d).view_none hd (hm _) hva

-- Another memory with the same frames.
theorem shows_congr (h : s.Owns use free) (h' : s'.Owns use free') (hs : s.Shows d x) (hd : use d = .dir)
    (hf : ∀ f v, use f = .frame d v → SamePage f s.mem s'.mem) : s'.Shows d x := by
  intro va hva
  rw [← hs va hva]
  by_cases hm : Maps use d (va / pgsize)
  case neg => rw [(h'.with_cr3 d).view_none hd hm hva, (h.with_cr3 d).view_none hd hm hva]
  case pos =>
    have ⟨f, hm⟩ := hm
    rw [(h'.with_cr3 d).view_frame hm hva, (h.with_cr3 d).view_frame hm hva]
    exact congrArg some <| hf f _ hm _ (user_split hva).right.left

-- The pages of a directory which is extended contain zeros.
theorem shows_ranged (h : s.Owns use free) (hs : s.Shows d x) (hd : use d = .dir)
    (hr : Ranged d a n s use s' use' free') (hm : ∀ v, a ≤ v → v < a + n → ¬Maps use d v) :
    s'.Shows d (x.zero (a * pgsize) ((a + n) * pgsize)) := by
  intro va hva
  have hd' : use' d = .dir := by rw [hr.extend.uses d (by simp [hd]), hd]
  have hrange : (a * pgsize ≤ va ∧ va < (a + n) * pgsize) ↔ a ≤ va / pgsize ∧ va / pgsize < a + n := by
    simp only [pgsize]
    omega
  have ho := h.with_cr3 d
  have ho' := hr.owns.with_cr3 d
  rw [View.zero]
  by_cases hmap : Maps use' d (va / pgsize)
  case neg =>
    have hnm : ¬Maps use d (va / pgsize) := fun hc => hmap <| (hr.maps _).mpr <| .inl hc
    have hnr := mt (fun hc => (hr.maps (va / pgsize)).mpr <| .inr hc) hmap
    rw [if_neg <| mt hrange.mp hnr, ho'.view_none hd' hmap hva, ← hs va hva, ho.view_none hd hnm hva]
  case pos =>
    have ⟨f, hf⟩ := hmap
    rw [ho'.view_frame hf hva]
    by_cases hfree : use f = .free
    case pos =>
      have hz := hr.extend.zero f _ hfree hf _ (user_split hva).right.left
      have hin : a ≤ va / pgsize ∧ va / pgsize < a + n := by
        apply ((hr.maps _).mp ⟨f, hf⟩).resolve_left
        intro ⟨f', hf'⟩
        have he := hr.extend.uses f' (by simp [hf'])
        have hff := hr.owns.frame_unique hf (he.trans hf')
        simp [hff, hf'] at hfree
      rw [if_pos <| hrange.mpr hin]
      exact congrArg some hz
    case neg =>
      have hf' : use f = .frame d (va / pgsize) := (hr.extend.uses f hfree).symm.trans hf
      have hnot : ¬(a * pgsize ≤ va ∧ va < (a + n) * pgsize) := by
        rw [hrange]
        exact fun hc => hm _ hc.left hc.right ⟨f, hf'⟩
      have hsame := hr.extend.kept f (by simp [hf']) hfree (fun he => by simp [he, hd] at hf')
        (by simp [hf']) _ (user_split hva).right.left
      rw [if_neg hnot, ← hs va hva, ho.view_frame hf' hva]
      exact congrArg some hsame

-- The addresses of the user memory show which pages are mapped.
theorem maps_iff (h : s.Owns use free) (hs : s.Shows d x) (hd : use d = .dir) (hva : va < kernbase) :
    Maps use d (va / pgsize) ↔ x va ≠ none := by
  rw [← hs va hva]
  constructor
  case mp  =>
    intro ⟨f, hf⟩
    rw [(h.with_cr3 d).view_frame hf hva]
    exact Option.some_ne_none _
  case mpr =>
    intro hn
    by_contra hm
    exact hn <| (h.with_cr3 d).view_none hd hm hva

end Machine.Owns

-- The computation only loads from the accessible memory.
def Kernel.Reads {α : Type} (f : Kernel α) (r : View → Except Nat α) : Prop :=
  ∀ s, f.run s = match r s.view with
    | .ok a    => .ok a s
    | .error e => .error (.pageFault e) s

namespace Kernel.Reads

variable {α β : Type} {f : Kernel α} {r : View → Except Nat α} {g : α → Kernel β}
  {q : α → View → Except Nat β}

theorem pure (a : α) : Reads (Pure.pure a) fun _ => .ok a :=
  fun _ => rfl

theorem bind (h : Reads f r) (hg : ∀ a, Reads (g a) (q a)) :
    Reads (f >>= g) fun m => r m >>= (q · m) := by
  intro s
  have h := h s
  simp only
  match hr : r s.view with
  | .ok a    =>
    simp only [hr] at h
    rw [EStateM.bind_ok h]
    exact hg a s
  | .error e =>
    simp only [hr] at h
    rw [EStateM.bind_error h]
    rfl

theorem run_ok {a : α} (h : Reads f r) (hr : r s.view = .ok a) : f.run s = .ok a s := by
  rw [h s, hr]

theorem eq_ok {a : α} (h : Reads f r) (hr : f.run s = .ok a s') : r s.view = .ok a := by
  rw [h s] at hr
  match hv : r s.view with
  | .ok a    => rw [hv] at hr; cases hr; rfl
  | .error e => rw [hv] at hr; cases hr

theorem run_error {e : Nat} (h : Reads f r) (hr : r s.view = .error e) :
    f.run s = .error (.pageFault e) s := by
  rw [h s, hr]

theorem ite {c : Prop} [Decidable c] {f' : Kernel α} {r' : View → Except Nat α} (h : Reads f r)
    (h' : Reads f' r') : Reads (if c then f else f') fun m => if c then r m else r' m := by
  split
  case isTrue  => exact h
  case isFalse => exact h'

theorem loadByte (va : Nat) : Reads (Kernel.loadByte va) (View.loadByte · va) := by
  intro s
  cases ht : s.translate va with
  | some pa =>
    have hp : (Kernel.physical va).run s = .ok pa s := by
      rw [Kernel.physical, EStateM.get_bind, ht]
      rfl
    rw [Kernel.loadByte, EStateM.bind_ok hp]
    simp only [View.loadByte, Machine.view, ht]
    rfl
  | none    =>
    have hp : (Kernel.physical va).run s = .error (.pageFault va) s := by
      rw [Kernel.physical, EStateM.get_bind, ht]
      rfl
    rw [Kernel.loadByte, EStateM.bind_error hp]
    simp only [View.loadByte, Machine.view, ht]
    rfl

theorem load16 (va : Nat) : Reads (Kernel.load16 va) (View.load16 · va) :=
  (loadByte va).bind fun _ => (loadByte _).bind fun _ => pure _

theorem load32 (va : Nat) : Reads (Kernel.load32 va) (View.load32 · va) :=
  (load16 va).bind fun _ => (load16 _).bind fun _ => pure _

end Kernel.Reads
