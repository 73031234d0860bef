import Yabloko.Kernel.Pages

variable {m m' : Bytes} {use use' : Nat → Use} {u : Use} {p q i j d t f v n : Nat} {s s' : Machine}
  {free : List Nat}

-- Entries of tables and directories only overlap when they are the same.
theorem IsPage.load32_store32 (hp : IsPage p) (hq : IsPage q) (hi : i < 1024) (hj : j < 1024)
    (hv : v < 2 ^ 32) : (m.store32 (p + 4 * i) v).load32 (q + 4 * j) =
      if q = p ∧ j = i then v else m.load32 (q + 4 * j) := by
  split
  case isTrue he =>
    rw [he.left, he.right]
    exact Bytes.load32_store32 hv
  case isFalse hn =>
    apply (m.store32_agree _ _).load32_eq
    have hp := hp.aligned
    have hq := hq.aligned
    simp only [pgsize] at hp hq
    omega

theorem IsPage.entry_lt (hp : IsPage p) : p + 7 < 2 ^ 32 := by
  have hp := hp.upper
  simp only [phystop] at hp
  omega

theorem update_eq_iff (hp : use p ≠ u) (u' : Use) (hu : u' ≠ u) (q : Nat) :
    Function.update use p u' q = u ↔ use q = u := by
  by_cases hq : q = p
  case neg => rw [Function.update_of_ne hq]
  case pos =>
    subst hq
    rw [Function.update_self]
    exact ⟨fun he => absurd he hu, fun he => absurd he hp⟩

namespace Machine.Owns

-- The entries of a directory or of a table are not in the free list.
theorem list_store32 (h : s.Owns use free) (hp : (use p).Paging) (hi : i < 1024) (hv : v < 2 ^ 32) :
    Machine.FreeList { s with mem := s.mem.store32 (p + 4 * i) v } free := by
  apply h.list.congr
  intro va hva
  have ⟨q, hq, he⟩ := List.mem_map.mp hva
  have hq := (h.mem_iff q).mp hq
  have hn : q ≠ p := fun he => by simp [← he, hq, Use.Paging] at hp
  have hqp := h.page (p := q) (by simp [hq])
  have hl := (h.mapped.dir_page hp).load32_store32 (m := s.mem) hqp hi (j := 0) (by decide) hv
  rw [← he]
  simpa [hn] using hl

theorem attach_dir (h : s.Owns use free) (hd : use d = .held)
    (hz : ∀ i < 512, s.mem.load32 (d + 4 * i) = 0)
    (hk : ∀ i < 512, s.mem.load32 (d + 4 * (512 + i)) = kernelEntry i) :
    s.Owns (Function.update use d .dir) free := by
  have hf {u : Use} (hu : u ≠ .held) (hu' : u ≠ .dir) (q : Nat) :=
    update_eq_iff (p := d) (hd ▸ hu.symm) .dir hu'.symm q
  have hne {q : Nat} {u : Use} (hu : u ≠ .held) (hq : use q = u) : q ≠ d := fun he => hu <| hq.symm.trans <| he ▸ hd
  exact {
    mapped := {
      page := fun q => h.mapped.update_page (by simp [hd]) q
      kernel := fun q hq => by
        by_cases he : q = d
        case pos => exact he ▸ hk
        case neg => exact h.mapped.kernel q <| by rwa [Function.update_of_ne he] at hq
      tables := fun q hq i hi => by
        by_cases he : q = d
        case pos => exact .inl <| he ▸ hz i hi
        case neg =>
          simp only [hf (u := .table q i) (by simp) (by simp)]
          exact h.mapped.tables q (by rwa [Function.update_of_ne he] at hq) i hi
      table := fun t d' i ht => by
        rw [hf (by simp) (by simp)] at ht
        have ⟨hu, hi, he⟩ := h.mapped.table t d' i ht
        exact ⟨by rwa [Function.update_of_ne <| hne (by simp) hu], hi, he⟩
      frames := fun t d' i ht j hj => by
        rw [hf (by simp) (by simp)] at ht
        simp only [hf (u := .frame d' (1024 * i + j)) (by simp) (by simp)]
        exact h.mapped.frames t d' i ht j hj
      frame := fun f d' v hu => by
        rw [hf (by simp) (by simp)] at hu
        have ⟨t, ht, he⟩ := h.mapped.frame f d' v hu
        exact ⟨t, (hf (by simp) (by simp) _).mpr ht, he⟩ }
    list := h.list
    nodup := h.nodup
    mem_iff := fun q => by rw [hf (by simp) (by simp), h.mem_iff] }

theorem attach_table (h : s.Owns use free) (hd : use d = .dir) (hi : i < 512)
    (he : s.mem.load32 (d + 4 * i) = 0) (ht : use t = .held)
    (hz : ∀ j < 1024, s.mem.load32 (t + 4 * j) = 0) :
    Machine.Owns { s with mem := s.mem.store32 (d + 4 * i) (t + 7) }
      (Function.update use t (.table d i)) free := by
  have hdp := h.page (p := d) (by simp [hd])
  have htp := h.page (p := t) (by simp [ht])
  have hf {u : Use} (hu : u ≠ .held) (hu' : u ≠ .table d i) (q : Nat) :=
    update_eq_iff (p := t) (ht ▸ hu.symm) (.table d i) hu'.symm q
  have hne {q : Nat} {u : Use} (hu : u ≠ .held) (hq : use q = u) : q ≠ t := fun he => hu <| hq.symm.trans <| he ▸ ht
  have hl {q k} (hq : IsPage q) (hk : k < 1024) :=
    hdp.load32_store32 (m := s.mem) hq (i := i) (by omega) hk htp.entry_lt
  exact {
    mapped := {
      page := fun q => h.mapped.update_page (by simp [ht]) q
      kernel := fun q hq k hk => by
        rw [hf (by simp) (by simp)] at hq
        rw [hl (h.page (by simp [hq])) (by omega), if_neg (by omega), h.mapped.kernel q hq k hk]
      tables := fun q hq k hk => by
        rw [hf (by simp) (by simp)] at hq
        rw [hl (h.page (by simp [hq])) (by omega)]
        split
        case isTrue he =>
          rw [he.left, he.right]
          exact .inr ⟨t, by simp, rfl⟩
        case isFalse hn =>
          have hn : Use.table q k ≠ .table d i := by simpa using hn
          simp only [hf (u := .table q k) (by simp) hn]
          exact h.mapped.tables q hq k hk
      table := fun q d' k hq => by
        by_cases hqt : q = t
        case pos =>
          rw [hqt, Function.update_self, Use.table.injEq] at hq
          rw [hqt, ← hq.left, ← hq.right, hl hdp (by omega), if_pos ⟨rfl, rfl⟩]
          exact ⟨(hf (by simp) (by simp) d).mpr hd, hi, rfl⟩
        case neg =>
          rw [Function.update_of_ne hqt] at hq
          have ⟨hu, hk, he'⟩ := h.mapped.table q d' k hq
          refine ⟨(hf (by simp) (by simp) d').mpr hu, hk, ?_⟩
          rw [hl (h.page (by simp [hu])) (by omega), if_neg, he']
          intro hc
          rw [hc.left, hc.right, he] at he'
          omega
      frames := fun q d' k hq j hj => by
        simp only [hf (u := .frame d' (1024 * k + j)) (by simp) (by simp)]
        by_cases hqt : q = t
        case pos =>
          rw [hqt, hl htp hj, if_neg fun hc => hne (by simp) hd hc.left.symm]
          exact .inl <| hz j hj
        case neg =>
          rw [Function.update_of_ne hqt] at hq
          rw [hl (h.page (by simp [hq])) hj, if_neg]
          case hnc => exact fun hc => by simp [hc.left, hd] at hq
          exact h.mapped.frames q d' k hq j hj
      frame := fun q d' v hq => by
        rw [hf (by simp) (by simp)] at hq
        have ⟨t', ht', he'⟩ := h.mapped.frame q d' v hq
        refine ⟨t', by rwa [Function.update_of_ne <| hne (by simp) ht'], ?_⟩
        rw [hl (h.page (by simp [ht'])) (Nat.mod_lt _ (by decide)), if_neg, he']
        exact fun hc => by simp [hc.left, hd] at ht' }
    list := h.list_store32 (by simp [hd, Use.Paging]) (by omega) htp.entry_lt
    nodup := h.nodup
    mem_iff := fun q => by rw [hf (by simp) (by simp), h.mem_iff] }

theorem attach_frame (h : s.Owns use free) (ht : use t = .table d i) (hj : j < 1024)
    (he : s.mem.load32 (t + 4 * j) = 0) (hf : use f = .held) :
    Machine.Owns { s with mem := s.mem.store32 (t + 4 * j) (f + 7) }
      (Function.update use f (.frame d (1024 * i + j))) free := by
  have htp := h.page (p := t) (by simp [ht])
  have hfp := h.page (p := f) (by simp [hf])
  have hu {u : Use} (hu : u ≠ .held) (hu' : u ≠ .frame d (1024 * i + j)) (q : Nat) :=
    update_eq_iff (p := f) (hf ▸ hu.symm) (.frame d (1024 * i + j)) hu'.symm q
  have hl {q k} (hq : IsPage q) (hk : k < 1024) :=
    htp.load32_store32 (m := s.mem) hq hj hk hfp.entry_lt
  exact {
    mapped := {
      page := fun q => h.mapped.update_page (by simp [hf]) q
      kernel := fun q hq k hk => by
        rw [hu (by simp) (by simp)] at hq
        rw [hl (h.page (by simp [hq])) (by omega), if_neg, h.mapped.kernel q hq k hk]
        exact fun hc => by simp [← hc.left, hq] at ht
      tables := fun q hq k hk => by
        rw [hu (by simp) (by simp)] at hq
        simp only [hu (u := .table q k) (by simp) (by simp)]
        rw [hl (h.page (by simp [hq])) (by omega), if_neg]
        case hnc => exact fun hc => by simp [← hc.left, hq] at ht
        exact h.mapped.tables q hq k hk
      table := fun q d' k hq => by
        rw [hu (by simp) (by simp)] at hq
        have ⟨hd', hk, he'⟩ := h.mapped.table q d' k hq
        refine ⟨(hu (by simp) (by simp) d').mpr hd', hk, ?_⟩
        rw [hl (h.page (by simp [hd'])) (by omega), if_neg, he']
        exact fun hc => by simp [← hc.left, hd'] at ht
      frames := fun q d' k hq j' hj' => by
        rw [hu (by simp) (by simp)] at hq
        rw [hl (h.page (by simp [hq])) hj']
        split
        case isTrue hc =>
          rw [hc.left, ht, Use.table.injEq] at hq
          rw [hc.right, ← hq.left, ← hq.right]
          exact .inr ⟨f, by simp, rfl⟩
        case isFalse hn =>
          have hn : Use.frame d' (1024 * k + j') ≠ .frame d (1024 * i + j) := by
            intro hc
            rw [Use.frame.injEq] at hc
            have hk : k = i := by omega
            have ⟨_, _, he₁⟩ := h.mapped.table q d' k hq
            have ⟨_, _, he₂⟩ := h.mapped.table t d i ht
            rw [hc.left, hk] at he₁
            exact hn ⟨by omega, by omega⟩
          simp only [hu (u := .frame d' (1024 * k + j')) (by simp) hn]
          exact h.mapped.frames q d' k hq j' hj'
      frame := fun q d' v hq => by
        by_cases hqf : q = f
        case pos =>
          rw [hqf, Function.update_self, Use.frame.injEq] at hq
          have hv : v / 1024 = i ∧ v % 1024 = j := by omega
          rw [hqf, ← hq.left, hv.left, hv.right]
          exact ⟨t, (hu (by simp) (by simp) t).mpr ht, by rw [hl htp hj, if_pos ⟨rfl, rfl⟩]⟩
        case neg =>
          rw [Function.update_of_ne hqf] at hq
          have ⟨t', ht', he'⟩ := h.mapped.frame q d' v hq
          refine ⟨t', (hu (by simp) (by simp) t').mpr ht', ?_⟩
          rw [hl (h.page (by simp [ht'])) (Nat.mod_lt _ (by decide)), if_neg, he']
          intro hc
          rw [hc.left, hc.right, he] at he'
          omega }
    list := h.list_store32 (by simp [ht, Use.Paging]) hj hfp.entry_lt
    nodup := h.nodup
    mem_iff := fun q => by rw [hu (by simp) (by simp), h.mem_iff] }

end Machine.Owns
