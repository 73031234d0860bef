import Yabloko.Lib.Arr

namespace Arr

-- A ring buffer in an array: the elements of `l`, oldest first, are stored from the index `head`
-- on, and wrap around at the end of the array.
structure Queue (a : Arr α n) (head : Nat) (l : List α) : Prop where
  head_lt   : head < n
  length_le : l.length ≤ n
  read_eq   : ∀ i : Nat, i < l.length → a.read ((head + i) % n : Nat) = l[i]?

-- The `k` elements of the ring buffer which starts at `head`.
def ring (a : Arr α n) (head k : Nat) : List α :=
  (List.range k).filterMap fun i : Nat => a.read ((head + i) % n : Nat)

namespace Queue

variable {α : Type _} {n : Nat} {a b : Arr α n} {head : Nat} {v : α} {l : List α}

theorem index_inj {i j : Nat} (hi : i < n) (hj : j < n) (h : (head + i) % n = (head + j) % n) :
    i = j := by
  have hm : i ≡ j [MOD n] := Nat.ModEq.add_left_cancel' head h
  rwa [Nat.ModEq, Nat.mod_eq_of_lt hi, Nat.mod_eq_of_lt hj] at hm

theorem nil (h : head < n) : a.Queue head [] where
  head_lt := h
  length_le := by simp
  read_eq := by simp

theorem of_holds (h : a.Holds l) (hn : 0 < n) : a.Queue 0 l where
  head_lt := hn
  length_le := h.length_le
  read_eq i hi := by
    have hlt := Nat.lt_of_lt_of_le hi h.length_le
    rw [Nat.zero_add, Nat.mod_eq_of_lt hlt, h.read_eq i hi]

theorem ring_eq (h : a.Queue head l) : a.ring head l.length = l := by
  have hm : (List.range l.length).map (fun i : Nat => a.read ((head + i) % n : Nat))
      = l.map some := by
    apply List.ext_getElem <;> simp
    intro i hi
    have := h.read_eq i hi
    simp_all
  have hf : a.ring head l.length =
      ((List.range l.length).map fun i : Nat => a.read ((head + i) % n : Nat)).filterMap id := by
    rw [List.filterMap_map]
    rfl
  rw [hf, hm]
  simp

theorem of_ring {k : Nat} (hh : head < n) (h : k ≤ n) : a.Queue head (a.ring head k) := by
  have ⟨hl, hr⟩ := List.filterMap_range (f := fun i : Nat => a.read ((head + i) % n : Nat)) (k := k)
    fun i _ => read_isSome (by omega) (by exact_mod_cast Nat.mod_lt _ (by omega))
  exact {
    head_lt := hh
    length_le := by simpa only [ring, hl] using h
    read_eq := fun i hi => (hr i <| by simpa only [ring, hl] using hi).symm }

theorem read_front (h : a.Queue head (v :: l)) : a.read head = some v := by
  have := h.read_eq 0 (by simp)
  simpa [Nat.mod_eq_of_lt h.head_lt] using this

theorem read_back (h : a.Queue head l) (hl : l ≠ []) :
    a.read ((head + l.length - 1) % n : Nat) = l.getLast? := by
  have hp := List.length_pos_iff.mpr hl
  have := h.read_eq (l.length - 1) (by omega)
  rw [List.getLast?_eq_getElem?, ← this]
  congr 3
  omega

theorem index_lt (h : a.Queue head l) (i : Nat) : (head + i) % n < n :=
  Nat.mod_lt _ (Nat.zero_lt_of_lt h.head_lt)

theorem push (h : a.Queue head l) (hl : l.length < n)
    (hw : a.write ((head + l.length) % n : Nat) v = some b) : b.Queue head (l ++ [v]) where
  head_lt := h.head_lt
  length_le := by simp; omega
  read_eq i hi := by
    simp at hi
    rw [read_write hw]
    by_cases he : i = l.length
    case pos => simp [he]
    case neg =>
      have hlt : i < l.length := by omega
      have hne : ¬(head + i) % n = (head + l.length) % n :=
        fun hc => he <| index_inj (by omega) hl hc
      rw [List.getElem?_append_left hlt, ← h.read_eq i hlt, if_neg (by exact_mod_cast hne)]

theorem pop (h : a.Queue head (v :: l)) : a.Queue ((head + 1) % n) l where
  head_lt := h.index_lt 1
  length_le := by
    have := h.length_le
    simp at this
    omega
  read_eq i hi := by
    have := h.read_eq (i + 1) (by simp; omega)
    rw [Nat.mod_add_mod, show head + 1 + i = head + (i + 1) by omega, this]
    simp

end Queue
end Arr
