import Yabloko.Snake.Refinement.Basic

open SnakeCell

theorem wrapCoord_eq (value : Int) {limit : Int} (h : 0 < limit) :
    wrapCoord value limit = value % limit := by
  simp only [wrapCoord, Int.tmod_eq_emod]
  have := Int.emod_nonneg value (by omega : limit ≠ 0)
  have := Int.emod_lt_of_pos value h
  have hl : (limit.natAbs : Int) = limit := Int.natAbs_of_nonneg h.le
  by_cases hc : 0 ≤ value ∨ limit ∣ value
  case pos => simp only [hc, if_true]; omega
  case neg => simp only [hc, if_false, hl]; omega

namespace SnakeModel

theorem shiftApples_eq (apples : Arr SnakeCell snakeMaxApples) {i n : Nat} (h : i + n < snakeMaxApples) :
    ∃ apples', shiftApples apples i n = some apples' ∧
      ∀ j : Int, apples'.read j =
        if i ≤ j ∧ j < i + n then apples.read (j + 1) else apples.read j := by
  induction n generalizing apples i
  case zero => exact ⟨apples, rfl, fun j => by rw [if_neg (by omega)]⟩
  case succ n hi =>
    have ⟨apple, hr⟩ := Arr.exists_read (a := apples) (i := i + 1) (by omega) (by simp at h ⊢; omega)
    have ⟨apples₁, hw, hw'⟩ := Arr.exists_write (a := apples) (i := i) (v := apple)
      (by omega) (by simp at h ⊢; omega)
    have ⟨apples₂, hs, hs'⟩ := hi apples₁ (i := i + 1) (by omega)
    refine ⟨apples₂, by simp [shiftApples, hr, hw, hs], fun j => ?_⟩
    rw [hs', hw', hw']
    by_cases hj : j = i
    case pos => subst hj; simp [hr]
    case neg => grind

theorem shiftBody_eq (body : Arr SnakeCell snakeMaxLength) {k : Nat} (h : k < snakeMaxLength) :
    ∃ body', shiftBody body k = some body' ∧
      ∀ j, body'.read j = if 0 < j ∧ j ≤ k then body.read (j - 1) else body.read j := by
  induction k generalizing body
  case zero => exact ⟨body, rfl, fun j => by rw [if_neg (by omega)]⟩
  case succ k hi =>
    have ⟨cell, hr⟩ := Arr.exists_read (a := body) (i := k) (by omega) (by simp at h ⊢; omega)
    have ⟨body₁, hw, hw'⟩ := Arr.exists_write (a := body) (i := k + 1) (v := cell)
      (by omega) (by simp at h ⊢; omega)
    have ⟨body₂, hs, hs'⟩ := hi body₁ (by omega)
    refine ⟨body₂, by simp [shiftBody, hr, hw, hs], fun j => ?_⟩
    rw [hs', hw', hw']
    by_cases hj : j = k + 1
    case pos => subst hj; simp [hr]
    case neg => grind

end SnakeModel

namespace SnakeModel.Shows

variable {m m' : SnakeModel} {b : Board} {c : SnakeCell}

theorem enqueueGrowthPoint_eq (h : m.Shows b) (c : SnakeCell) :
    ∃ r m', m.enqueueGrowthPoint c = some (r, m') ∧ m'.Shows (b.enqueueGrowth c) ∧
      (r = true ↔ b.growth.length < snakeMaxLength) := by
  by_cases hn : b.growth.length ≥ snakeMaxLength
  case pos =>
    refine ⟨false, m, by simp only [enqueueGrowthPoint, h.growthCount, hn, if_true]; rfl, ?_, by simp; simpa using hn⟩
    simpa only [Board.enqueueGrowth, hn, if_true]
  case neg =>
    have hlt := h.growth.index_lt b.growth.length
    obtain ⟨growthPoints, hw, _⟩ := Arr.exists_write (a := m.growthPoints) (v := c)
      (i := ((m.growthHead + b.growth.length) % snakeMaxLength : Nat)) (by omega) (by exact_mod_cast hlt)
    refine ⟨true, _, by
      simp only [enqueueGrowthPoint, h.growthCount, hn, if_false, hw, Option.bind_eq_bind, Option.bind_some]
      rfl, ?_, by simpa using hn⟩
    simp only [Board.enqueueGrowth, hn, if_false]
    exact { h with
      growthCount := by simp at hn ⊢; omega
      growth := h.growth.push (by simpa using hn) hw }

theorem tryConsumeApple_eq (h : m.Shows b) :
    ∃ m', m.tryConsumeApple = some (b.consume.1, m') ∧ m'.Shows b.consume.2 := by
  cases Board.consume_cases h.head
  case inl hc =>
    refine ⟨m, ?_, hc.right ▸ h⟩
    simp [tryConsumeApple, h.findAppleAt_eq, hc]
  case inr hc =>
    have ⟨ha, he⟩ := hc
    have hi := List.idxOf_lt_length_of_mem ha
    have hle := h.apples.length_le
    have ⟨apples, hs, hs'⟩ := shiftApples_eq m.apples (i := b.apples.idxOf m.head)
      (n := b.apples.length - 1 - b.apples.idxOf m.head) (by omega)
    have h' : Shows { m with
        apples
        appleCount := m.appleCount - 1
        score := (m.score + 1) % 2 ^ 16 } { b with
        apples := b.apples.erase m.head
        score := (b.score + 1) % 2 ^ 16 } := { h with
      score := by simp [h.score]
      appleCount := by simp [List.length_erase_of_mem ha, h.appleCount]
      apples := by
        rw [List.erase_eq_eraseIdx_of_idxOf rfl]
        refine h.apples.eraseIdx hi fun j => ?_
        rw [hs']
        congr 1
        grind }
    have ⟨r, m', hq, hm, _⟩ := h'.enqueueGrowthPoint_eq m.head
    refine ⟨m', ?_, he ▸ hm⟩
    have hne : b.apples ≠ [] := List.ne_nil_of_mem ha
    have hr : m.apples.read (b.apples.idxOf m.head : Nat) = some m.head := by
      rw [h.apples.read_getElem hi, List.getElem_idxOf]
    have hcnt := h.appleCount
    have hneg : ¬(b.apples.idxOf m.head : Int) < 0 := by omega
    simp only [hcnt, Nat.reducePow] at hq
    simp [tryConsumeApple, hneg, h.findAppleAt_eq, ha, he, hne, hcnt, hr, hs, hq]

theorem shouldGrow_eq (h : m.Shows b) : m.shouldGrow = some (decide b.Grows) := by
  have hlen := h.length
  have hcnt := h.growthCount
  by_cases hc : m.growthCount > 0 ∧ m.length > 1 ∧ m.length < snakeMaxLength
  case neg =>
    have hg : ¬b.Grows := fun hg => hc <| by
      have hp := List.length_pos_iff.mpr hg.right.right.left
      exact ⟨by omega, hlen ▸ hg.left, hlen ▸ hg.right.left⟩
    simp only [shouldGrow, hc, if_false, hg, decide_false]
    rfl
  case pos =>
    have ⟨h₁, h₂, h₃⟩ := hc
    have hr : m.body.read ((m.length : Int) - 2) = b.body.dropLast.getLast? := by
      have hi : (m.length : Int) - 2 = (b.body.length - 2 : Nat) := by omega
      rw [hi, h.body.read_eq _ (by omega), List.getLast?_eq_getElem?, List.getElem?_dropLast]
      simp
      grind
    cases hq : b.growth
    case nil => simp [hq] at hcnt; omega
    case cons g rest =>
      have hf : m.growthPointFront = some g := Arr.Queue.read_front (hq ▸ h.growth)
      cases hb : b.body.dropLast.getLast?
      case none =>
        have hz := congrArg List.length <| List.getLast?_eq_none_iff.mp hb
        simp at hz
        omega
      case some z =>
        rw [hb] at hr
        simp only [shouldGrow, hc, and_self, if_true, hr, hf, Option.bind_eq_bind, Option.bind_some]
        simp only [Board.Grows, hq, hb, ← hlen, h₂, h₃]
        simp [eq_comm]

theorem advance_eq_of_grows (h : m.Shows b) (hg : b.Grows) (hc : c.InField) (d : SnakeDir) :
    ∃ m', m.advance c.x c.y true d = some m' ∧
      m'.Shows { b with dir := d, body := c :: b.body, growth := b.growth.tail } := by
  have ⟨h₁, h₂, h₃, _⟩ := hg
  have hlen := h.length
  have ⟨g, rest, hq⟩ := List.exists_cons_of_ne_nil h₃
  have hcnt : m.growthCount = rest.length + 1 := by simp [h.growthCount, hq]
  have ⟨body₁, hs, hs'⟩ := shiftBody_eq m.body (k := m.length) (by omega)
  have ⟨body₂, hw, _⟩ := Arr.exists_write (a := body₁) (i := 0) (v := c) (by simp) (by simp)
  have hb : body₂.Holds (c :: b.body) := by
    have := h.body.insert (by omega) hs' hw
    rwa [hlen, List.take_length] at this
  have ⟨occupancy, ho, ho'⟩ := h.occupancy.set hc
  have hl : (m.length + 1) % 2 ^ 16 = m.length + 1 := by
    simp at h₂ ⊢
    omega
  have ht := hb.read_last (by simp)
  simp only [List.length_cons, ← hlen, List.getLast?_cons, h.tail] at ht
  refine ⟨_, by
    simp only [advance, if_true, hs, popGrowthPoint, hcnt, hl, ofInts_eq hc, hw, ho, hb.read_head, ht,
      Bool.not_true, Option.bind_eq_bind, Option.bind_some, Option.pure_def, Nat.add_eq_zero_iff,
      one_ne_zero, and_false, if_false, Bool.false_eq_true]
    rfl, ?_⟩
  exact { h with
    dir := rfl
    length := by simp [hlen]
    body := hb
    head := rfl
    tail := by simp [List.getLast?_cons, h.tail]
    occupancy := ho'
    growthCount := by simp [hq]
    growth := by
      have := h.growth
      rw [hq] at this ⊢
      exact this.pop }

theorem advance_eq_of_not_grows (h : m.Shows b) (hv : b.Valid) (hc : c.InField) (d : SnakeDir) :
    ∃ m', m.advance c.x c.y false d = some m' ∧
      m'.Shows { b with dir := d, body := c :: b.body.dropLast } := by
  have hlen := h.length
  have hpos := List.length_pos_iff.mpr hv.body_ne
  have hle : b.body.length ≤ 640 := hv.body_length
  have ⟨body₁, hs, hs'⟩ := shiftBody_eq m.body (k := m.length - 1) (by simp; omega)
  have ⟨body₂, hw, _⟩ := Arr.exists_write (a := body₁) (i := 0) (v := c) (by simp) (by simp)
  have hb : body₂.Holds (c :: b.body.dropLast) := by
    have := h.body.insert (by simp; omega) hs' hw
    rwa [hlen, ← List.dropLast_eq_take] at this
  have htail : m.tail ∈ b.body := List.mem_of_getLast? h.tail
  have ⟨occupancy₁, ho₁, ho₁'⟩ := h.occupancy.clear (hv.body_field _ htail)
    fun _ => hv.body_nodup.mem_dropLast_iff h.tail
  have ⟨occupancy, ho, ho'⟩ := ho₁'.set hc
  have ⟨tail, ht⟩ : ∃ tail, (c :: b.body.dropLast).getLast? = some tail := by simp [List.getLast?_cons]
  have ht' := hb.read_last (by simp)
  have hi : ((c :: b.body.dropLast).length : Int) - 1 = (m.length : Int) - 1 := by
    simp
    omega
  rw [hi, ht] at ht'
  refine ⟨{ m with body := body₂, occupancy, head := c, tail, dir := d }, ?_, { h with
    dir := rfl
    length := by simp; omega
    body := hb
    head := rfl
    tail := ht
    occupancy := ho' }⟩
  by_cases h₁ : m.length > 1
  case pos =>
    simp only [advance, h₁, hs, ofInts_eq hc, hw, ho₁, ho, hb.read_head, ht', if_true, Bool.not_false,
      Option.bind_eq_bind, Option.bind_some, Option.pure_def, if_false, Bool.false_eq_true]
  case neg =>
    -- With a single cell there is nothing to move, and the code does not enter the loop.
    have h₀ : m.length - 1 = 0 := by omega
    rw [h₀, shiftBody] at hs
    cases hs
    simp only [advance, h₁, ofInts_eq hc, hw, ho₁, ho, hb.read_head, ht', if_true, Bool.not_false,
      Option.bind_eq_bind, Option.bind_some, Option.pure_def, if_false, Bool.false_eq_true]

theorem advance_eq (h : m.Shows b) (hv : b.Valid) (hc : c.InField) (d : SnakeDir) :
    ∃ m', m.advance c.x c.y (decide b.Grows) d = some m' ∧ m'.Shows { b with
      dir := d
      body := c :: b.remains
      growth := if b.Grows then b.growth.tail else b.growth } := by
  by_cases hg : b.Grows
  case pos =>
    obtain ⟨m', ha, hs⟩ := h.advance_eq_of_grows hg hc d
    exact ⟨m', by simpa [hg] using ha, by simpa [hg, Board.remains] using hs⟩
  case neg =>
    obtain ⟨m', ha, hs⟩ := h.advance_eq_of_not_grows hv hc d
    exact ⟨m', by simpa [hg] using ha, by simpa [hg, Board.remains] using hs⟩

theorem step_eq_ite (h : m.Shows b) (hv : b.Valid) {d : SnakeDir} {δ} (hd : d.delta = some δ) :
    m.step d = if m.head.move δ ∈ b.obstacles ∨ m.head.move δ ∈ b.remains then
        some (false, m)
      else
        (m.advance (m.head.move δ).x (m.head.move δ).y (decide b.Grows) d).map (true, ·) := by
  have hx : wrapCoord (m.head.x + δ.1) snakeFieldWidth = (m.head.move δ).x := by
    rw [wrapCoord_eq _ (by simp)]
    simp [SnakeCell.move]
    omega
  have hy : wrapCoord (m.head.y + δ.2) snakeFieldHeight = (m.head.move δ).y := by
    rw [wrapCoord_eq _ (by simp)]
    simp [SnakeCell.move]
    omega
  have hc := move_inField m.head δ
  have ht : (((m.head.move δ).x : Int) = m.tail.x ∧ ((m.head.move δ).y : Int) = m.tail.y) ↔
      m.head.move δ = m.tail := by
    cases m.head.move δ; cases m.tail
    simp
  simp only [step, hd, hx, hy, h.shouldGrow_eq, h.hasObstacle_eq hc, h.isOccupied_eq hc,
    Option.bind_eq_bind, Option.bind_some, ht, decide_eq_true_eq, Board.mem_remains_iff hv h.tail (c := m.head.move δ)]
  by_cases ho : m.head.move δ ∈ b.obstacles
  case pos => simp [ho]
  case neg =>
    simp only [ho, if_false, false_or]
    split
    · rfl
    · cases m.advance (m.head.move δ).x (m.head.move δ).y (decide b.Grows) d <;> rfl

theorem step_eq_of_none (h : m.Shows b) (hv : b.Valid) {d : SnakeDir} (hs : b.step d = none) :
    m.step d = some (false, m) := by
  cases hd : d.delta
  case none   => simp [step, hd]
  case some δ =>
    rw [h.step_eq_ite hv hd, if_pos]
    by_contra hc
    simp [Board.step, hd, h.head, hc] at hs

theorem step_eq_of_some (h : m.Shows b) (hv : b.Valid) {d : SnakeDir} {b' : Board}
    (hs : b.step d = some b') : ∃ m', m.step d = some (true, m') ∧ m'.Shows b' := by
  have ⟨δ, head, hd, hh, ho, hr, he⟩ := Board.step_eq_some_iff.mp hs
  cases h.head.symm.trans hh
  have ⟨m', ha, hm⟩ := h.advance_eq hv (move_inField m.head δ) d
  refine ⟨m', ?_, he ▸ hm⟩
  rw [h.step_eq_ite hv hd, if_neg (by simp [ho, hr]), ha]
  rfl

end SnakeModel.Shows
