import Mathlib

-- Without gaps, the elements keep their places.
theorem List.filterMap_range {α : Type _} {f : Nat → Option α} {k : Nat}
    (h : ∀ i < k, (f i).isSome) : ((range k).filterMap f).length = k ∧
      ∀ i < k, ((range k).filterMap f)[i]? = f i := by
  induction k
  case zero      => simp
  case succ k hi =>
    have ⟨hl, hr⟩ := hi fun i hi => h i (by omega)
    have ⟨v, hv⟩ := Option.isSome_iff_exists.mp <| h k (by omega)
    rw [range_succ, filterMap_append, filterMap_cons_some hv, filterMap_nil]
    refine ⟨by simp [hl], fun i hi => ?_⟩
    by_cases he : i = k
    case pos => simp [he, hl, hv]
    case neg => rw [getElem?_append_left (by omega), hr i (by omega)]

-- An array of fixed size. An access with an index outside of its bounds has no result.
@[ext]
structure Arr (α : Type _) (n : Nat) where
  get : Fin n → α

namespace Arr

def const (v : α) : Arr α n :=
  ⟨fun _ => v⟩

instance [Inhabited α] : Inhabited (Arr α n) where
  default := const default

def read (a : Arr α n) (i : Int) : Option α :=
  if h : 0 ≤ i ∧ i < n then some <| a.get ⟨i.toNat, by omega⟩ else none

def write (a : Arr α n) (i : Int) (v : α) : Option (Arr α n) :=
  if 0 ≤ i ∧ i < n then some ⟨fun j => if (j : Int) = i then v else a.get j⟩ else none

-- The first `k` elements of the array.
def take (a : Arr α n) (k : Nat) : List α :=
  (List.range k).filterMap fun i : Nat => a.read i

variable {α : Type _} {n : Nat} {a b : Arr α n} {i j : Int} {v : α} {l : List α}

theorem read_of_mem (h₀ : 0 ≤ i) (h : i < n) :
    a.read i = some (a.get ⟨i.toNat, by omega⟩) := by
  simp [read, h₀, h]

theorem exists_read (h₀ : 0 ≤ i) (h : i < n) : ∃ v, a.read i = some v :=
  ⟨_, read_of_mem h₀ h⟩

theorem bounds_of_read (h : a.read i = some v) : 0 ≤ i ∧ i < n := by
  by_contra hc
  simp [read, hc] at h

theorem exists_write (h₀ : 0 ≤ i) (h : i < n) :
    ∃ b, a.write i v = some b ∧ ∀ j, b.read j = if j = i then some v else a.read j := by
  refine ⟨_, by rw [write, if_pos ⟨h₀, h⟩], fun j => ?_⟩
  by_cases hj : j = i
  case pos => subst hj; simp [read, h₀, h]
  case neg =>
    by_cases hb : 0 ≤ j ∧ j < n
    case neg => simp [read, hb, hj]
    case pos =>
      simp [read, hb, hj]

theorem read_write (h : a.write i v = some b) :
    b.read j = if j = i then some v else a.read j := by
  have hi : 0 ≤ i ∧ i < n := by
    by_contra hc
    simp [write, hc] at h
  have ⟨_, hw, hr⟩ := exists_write (a := a) (v := v) hi.left hi.right
  cases h ▸ hw
  exact hr j

@[simp]
theorem read_const (h₀ : 0 ≤ i) (h : i < n) : (const v : Arr α n).read i = some v := by
  simp [read, const, h₀, h]

theorem read_isSome (h₀ : 0 ≤ i) (h : i < n) : (a.read i).isSome := by
  simp [read, h₀, h]

-- The elements of `l` are stored at the start of the array.
structure Holds (a : Arr α n) (l : List α) : Prop where
  length_le : l.length ≤ n
  read_eq   : ∀ i : Nat, i < l.length → a.read i = l[i]?

namespace Holds

theorem nil : a.Holds [] where
  length_le := by simp
  read_eq := by simp

theorem exists_holds [Inhabited α] (h : l.length ≤ n) : ∃ a : Arr α n, a.Holds l := by
  refine ⟨⟨fun i => l.getD i default⟩, h, fun i hi => ?_⟩
  rw [read_of_mem (by omega) (by omega), List.getElem?_eq_getElem hi]
  exact congrArg some <| List.getD_eq_getElem _ _ hi

theorem read_getElem (h : a.Holds l) {i : Nat} (hi : i < l.length) : a.read i = some l[i] := by
  simp [h.read_eq i hi, hi]

theorem read_head (h : a.Holds (v :: l)) : a.read 0 = some v := by
  have := h.read_eq 0
  simp_all

theorem read_last (h : a.Holds l) (hl : l ≠ []) :
    a.read ((l.length : Int) - 1) = l.getLast? := by
  have hp := List.length_pos_iff.mpr hl
  have he : (l.length : Int) - 1 = (l.length - 1 : Nat) := by omega
  rw [he, h.read_eq _ (by omega), List.getLast?_eq_getElem?]

theorem take_eq (h : a.Holds l) : a.take l.length = l := by
  have hm : (List.range l.length).map (fun i : Nat => a.read i) = l.map some := by
    apply List.ext_getElem <;> simp
    intro i hi
    exact h.read_getElem hi
  have hf : a.take l.length = ((List.range l.length).map fun i : Nat => a.read i).filterMap id := by
    rw [List.filterMap_map]
    rfl
  rw [hf, hm]
  simp

theorem of_take {k : Nat} (h : k ≤ n) : a.Holds (a.take k) := by
  have ⟨hl, hr⟩ := List.filterMap_range (f := fun i : Nat => a.read i) (k := k) fun i hi =>
    read_isSome (by omega) (by omega)
  exact {
    length_le := by simpa only [take, hl] using h
    read_eq := fun i hi => (hr i <| by simpa only [take, hl] using hi).symm }

-- A loop over the stored elements.
theorem foldlM_read {σ : Type _} (h : a.Holds l) (f : σ → α → σ) (s : σ) :
    (List.range l.length).foldlM (fun s (i : Nat) => do
      let v ← a.read i
      return f s v) s = some (l.foldl f s) := by
  have hp (k : Nat) (hk : k ≤ l.length) : (List.range k).foldlM (fun s (i : Nat) => do
      let v ← a.read i
      return f s v) s = some ((l.take k).foldl f s) := by
    induction k
    case zero      => simp
    case succ k hi =>
      have hr := h.read_getElem hk
      rw [List.range_succ, List.foldlM_append, hi (by omega), List.take_succ_eq_append_getElem hk,
        List.foldl_append]
      simp [hr]
  simpa using hp l.length le_rfl

theorem append (h : a.Holds l) (hw : a.write l.length v = some b) : b.Holds (l ++ [v]) where
  length_le := by
    have ⟨v, hv⟩ : ∃ w, b.read l.length = some w := ⟨v, by simp [read_write hw]⟩
    have := bounds_of_read hv
    simp
    omega
  read_eq i hi := by
    simp at hi
    rw [read_write hw]
    by_cases he : i = l.length
    case pos => simp [he]
    case neg =>
      have hlt : i < l.length := by omega
      simp [he, h.read_eq i hlt, List.getElem?_append_left hlt]

theorem of_prefix {l' : List α} (h : a.Holds (l ++ l')) : a.Holds l where
  length_le := by
    have := h.length_le
    simp at this
    omega
  read_eq i hi := by
    rw [h.read_eq i (by simp; omega), List.getElem?_append_left hi]

-- The first `k` elements have been moved by one index, to make room for `v`.
theorem insert {c : Arr α n} {k : Nat} (h : a.Holds l) (hk : k < n)
    (hs : ∀ j, b.read j = if 0 < j ∧ j ≤ k then a.read (j - 1) else a.read j)
    (hw : b.write 0 v = some c) : c.Holds (v :: l.take k) where
  length_le := by
    simp
    omega
  read_eq i hi := by
    simp at hi
    rw [read_write hw]
    cases i
    case zero => simp
    case succ i =>
      have h₁ : ¬((i + 1 : Nat) : Int) = 0 := by omega
      have h₂ : 0 < ((i + 1 : Nat) : Int) ∧ ((i + 1 : Nat) : Int) ≤ k := by omega
      have h₃ : ((i + 1 : Nat) : Int) - 1 = i := by omega
      rw [if_neg h₁, hs, if_pos h₂, h₃, h.read_eq i (by omega)]
      simp [show i < k by omega]

-- The elements behind index `i` have been moved by one index, to close the gap there.
theorem eraseIdx {i : Nat} (h : a.Holds l) (hi : i < l.length)
    (hs : ∀ j : Int, b.read j = if i ≤ j ∧ j + 1 < l.length then a.read (j + 1) else a.read j) :
    b.Holds (l.eraseIdx i) where
  length_le := by
    have := h.length_le
    simp [List.length_eraseIdx, hi]
    omega
  read_eq j hj := by
    simp [List.length_eraseIdx, hi] at hj
    rw [hs, List.getElem?_eraseIdx]
    split
    case isTrue hc =>
      rw [if_neg (by omega), ← h.read_eq (j + 1) (by omega)]
      rfl
    case isFalse hc => rw [if_pos (by omega), ← h.read_eq j (by omega)]

end Holds

-- Arrays of arrays, as a field of `h` rows and `w` columns.
section Rows

variable {h w : Nat} {a b : Arr (Arr α w) h} {x y x' y' : Int}

def read₂ (a : Arr (Arr α w) h) (y x : Int) : Option α := do
  let row ← a.read y
  row.read x

def write₂ (a : Arr (Arr α w) h) (y x : Int) (v : α) : Option (Arr (Arr α w) h) := do
  let row ← a.read y
  let row ← row.write x v
  a.write y row

theorem exists_write₂ (hy₀ : 0 ≤ y) (hy : y < h) (hx₀ : 0 ≤ x) (hx : x < w) :
    ∃ b, a.write₂ y x v = some b ∧
      ∀ y' x', b.read₂ y' x' = if y' = y ∧ x' = x then some v else a.read₂ y' x' := by
  have ⟨row, hr⟩ := exists_read (a := a) hy₀ hy
  have ⟨row', hw, hw'⟩ := exists_write (a := row) (v := v) hx₀ hx
  have ⟨b, hb, hb'⟩ := exists_write (a := a) (v := row') hy₀ hy
  refine ⟨b, by simp [write₂, hr, hw, hb], fun y' x' => ?_⟩
  by_cases he : y' = y
  case neg => simp [read₂, hb', he]
  case pos => subst he; simp [read₂, hb', hw', hr]

end Rows

end Arr

namespace List

variable {α σ : Type _}

-- The invariant rule for a loop over a list: each round of the body succeeds, and extends the part of
-- the list for which the invariant holds.
theorem foldlM_inv {f : σ → α → Option σ} {P : List α → σ → Prop} {s : σ} (l : List α) (h₀ : P [] s)
    (hs : ∀ pre a s, pre ++ [a] <+: l → P pre s → ∃ s', f s a = some s' ∧ P (pre ++ [a]) s') :
    ∃ s', l.foldlM f s = some s' ∧ P l s' := by
  induction l using List.reverseRecOn
  case nil => exact ⟨s, by simp, h₀⟩
  case append_singleton l a hi =>
    have ⟨s₁, h₁, hp₁⟩ := hi fun pre a s hp => hs pre a s <| hp.trans <| prefix_append _ _
    have ⟨s₂, h₂, hp₂⟩ := hs l a s₁ prefix_rfl hp₁
    exact ⟨s₂, by simp [h₁, h₂], hp₂⟩

theorem foldlM_range_inv {f : σ → Nat → Option σ} {P : Nat → σ → Prop} {s : σ} (n : Nat) (h₀ : P 0 s)
    (hs : ∀ i s, i < n → P i s → ∃ s', f s i = some s' ∧ P (i + 1) s') :
    ∃ s', (range n).foldlM f s = some s' ∧ P n s' := by
  have h := foldlM_inv (f := f) (P := fun pre s => P pre.length s) (range n) h₀ fun pre a s hp h => by
    have hl := hp.length_le
    have ha : a = pre.length := by
      have := hp.getElem (i := pre.length) (by simp)
      simpa using this
    simp at hl
    simpa [ha] using hs pre.length s (by omega) h
  simpa using h

end List
