import Yabloko.Snake.Frames

open SnakeInput

-- The keys which change the number of apples in the menu.
inductive MenuKey
  | dec
  | inc
  deriving DecidableEq

namespace MenuKey

-- The key is pressed, in lower or upper case.
def Presses : MenuKey → Nat → Prop
  | dec, event => keyToDir (kbdEventKeycode event) = some .left ∧ kbdEventIsPressed event = true
  | inc, event => keyToDir (kbdEventKeycode event) = some .right ∧ kbdEventIsPressed event = true

-- A press changes the number by one, within its bounds.
def count : Nat → MenuKey → Nat
  | target, dec => if target > 1 then target - 1 else target
  | target, inc => if target < snakeMaxApples then target + 1 else target

-- The presses of a batch count as one press of each key, first of the one, then of the other.
def countBatch (target : Nat) (keys : List MenuKey) : Nat :=
  let target := if dec ∈ keys then count target dec else target
  if inc ∈ keys then count target inc else target

-- The batches in which no press is lost.
def Counted (keys : List MenuKey) : Prop :=
  keys = [dec] ∨ keys = [inc] ∨ ∃ n, keys = (List.replicate n [dec, inc]).flatten

variable {target : Nat} {keys : List MenuKey} {key : MenuKey}

theorem count_range (h : 1 ≤ target ∧ target ≤ snakeMaxApples) (key : MenuKey) :
    1 ≤ count target key ∧ count target key ≤ snakeMaxApples := by
  simp only [snakeMaxApples] at h ⊢
  cases key
  case dec => rw [count]; split <;> omega
  case inc => rw [count]; split <;> simp only [snakeMaxApples] at * <;> omega

theorem countBatch_range (h : 1 ≤ target ∧ target ≤ snakeMaxApples) (keys : List MenuKey) :
    1 ≤ countBatch target keys ∧ countBatch target keys ≤ snakeMaxApples := by
  have hd : 1 ≤ (if dec ∈ keys then count target dec else target) ∧
      (if dec ∈ keys then count target dec else target) ≤ snakeMaxApples := by
    split
    case isTrue  => exact count_range h dec
    case isFalse => exact h
  rw [countBatch]
  split
  case isTrue  => exact count_range hd inc
  case isFalse => exact hd

theorem foldl_count_pairs (h : 2 ≤ target ∧ target ≤ snakeMaxApples) (n : Nat) :
    (List.replicate n [dec, inc]).flatten.foldl count target = target := by
  induction n
  case zero      => rfl
  case succ n hi =>
    have hc : count (count target dec) inc = target := by
      simp only [snakeMaxApples] at h
      simp only [count, snakeMaxApples]
      split_ifs <;> omega
    rw [List.replicate_succ, List.flatten_cons, List.foldl_append, List.foldl_cons, List.foldl_cons,
      List.foldl_nil, hc, hi]

-- Two presses which differ in their results are not repeated, so that the presses alternate.
theorem eq_pairs_of_foldl_count : (keys : List MenuKey) →
    (∀ target, 2 ≤ target ∧ target ≤ snakeMaxApples → keys.foldl count target = target) →
    ∃ n, keys = (List.replicate n [dec, inc]).flatten
  | [], _                 => ⟨0, rfl⟩
  | inc :: keys, h        => by
    have h₁ : keys.foldl count 16 = 15 := h 15 (by decide)
    have h₂ : keys.foldl count 16 = 16 := h 16 (by decide)
    omega
  | [dec], h              => absurd (h 2 (by decide)) (by decide)
  | dec :: dec :: keys, h => by
    have h₁ : keys.foldl count 1 = 2 := h 2 (by decide)
    have h₂ : keys.foldl count 1 = 3 := h 3 (by decide)
    omega
  | dec :: inc :: keys, h => by
    have ⟨n, hn⟩ := eq_pairs_of_foldl_count keys fun target ht => by
      have hc := h target ht
      have hp := foldl_count_pairs ht 1
      simp only [List.replicate_one, List.flatten_cons, List.flatten_nil, List.append_nil,
        List.foldl_cons, List.foldl_nil] at hp
      rwa [List.foldl_cons, List.foldl_cons, hp] at hc
    exact ⟨n + 1, by rw [List.replicate_succ, List.flatten_cons, ← hn]; rfl⟩

-- A press of the key with the scancode of the original keyboard.
def event : MenuKey → Nat
  | dec => 0x11e61
  | inc => 0x12064

theorem presses_event (key : MenuKey) : key.Presses key.event := by
  cases key
  case dec => exact ⟨by decide, by decide⟩
  case inc => exact ⟨by decide, by decide⟩

theorem foldl_count_dec (n : Nat) (h : 1 ≤ target) :
    (List.replicate n dec).foldl count target = max (target - n) 1 := by
  induction n generalizing target
  case zero      => simp only [List.replicate_zero, List.foldl_nil]; omega
  case succ n hi =>
    rw [List.replicate_succ, List.foldl_cons, count]
    split
    case isTrue  => rw [hi (by omega)]; omega
    case isFalse => rw [hi h]; omega

theorem foldl_count_inc (n : Nat) (h : target ≤ snakeMaxApples) :
    (List.replicate n inc).foldl count target = min (target + n) snakeMaxApples := by
  induction n generalizing target
  case zero      => simp only [List.replicate_zero, List.foldl_nil]; omega
  case succ n hi =>
    rw [List.replicate_succ, List.foldl_cons, count]
    split
    case isTrue  => rw [hi (by omega)]; omega
    case isFalse => rw [hi h]; omega

theorem Counted.countBatch_eq (h : Counted keys) (ht : 1 ≤ target ∧ target ≤ snakeMaxApples) :
    countBatch target keys = keys.foldl count target := by
  rcases h with rfl | rfl | ⟨n, rfl⟩
  case inl     => rfl
  case inr.inl => rfl
  case inr.inr =>
    cases n
    case zero   => rfl
    case succ n =>
      -- After the first pair, the number is not 1 anymore.
      have hc : 2 ≤ count (count target dec) inc ∧ count (count target dec) inc ≤ snakeMaxApples := by
        simp only [snakeMaxApples] at ht
        simp only [count, snakeMaxApples]
        split_ifs <;> omega
      rw [countBatch, if_pos (by simp), if_pos (by simp), List.replicate_succ, List.flatten_cons,
        List.foldl_append, List.foldl_cons, List.foldl_cons, List.foldl_nil, foldl_count_pairs hc]

theorem counted_of_countBatch_eq (h : ∀ target, 1 ≤ target ∧ target ≤ snakeMaxApples →
    countBatch target keys = keys.foldl count target) : Counted keys := by
  by_cases hd : dec ∈ keys
  case pos =>
    by_cases hi : inc ∈ keys
    case pos =>
      refine .inr <| .inr <| eq_pairs_of_foldl_count keys fun target ht => ?_
      have hc := foldl_count_pairs ht 1
      simp only [List.replicate_one, List.flatten_cons, List.flatten_nil, List.append_nil,
        List.foldl_cons, List.foldl_nil] at hc
      rw [← h target ⟨by omega, ht.right⟩, countBatch, if_pos hd, if_pos hi, hc]
    case neg =>
      have hk : keys = List.replicate keys.length dec := List.eq_replicate_of_mem fun key hm => by
        cases key
        case dec => rfl
        case inc => exact absurd hm hi
      have hf := h 16 (by decide)
      rw [countBatch, if_pos hd, if_neg hi, hk, foldl_count_dec _ (by decide)] at hf
      have hl : keys.length = 1 := by
        have : count 16 dec = 15 := rfl
        omega
      exact .inl (by rw [hk, hl]; rfl)
  case neg =>
    have hk : keys = List.replicate keys.length inc := List.eq_replicate_of_mem fun key hm => by
      cases key
      case dec => exact absurd hm hd
      case inc => rfl
    by_cases hi : inc ∈ keys
    case pos =>
      have hf := h 1 (by decide)
      rw [countBatch, if_neg hd, if_pos hi, hk, foldl_count_inc _ (by decide)] at hf
      have hl : keys.length = 1 := by
        have : count 1 inc = 2 := rfl
        simp only [snakeMaxApples] at hf
        omega
      exact .inr <| .inl (by rw [hk, hl]; rfl)
    case neg =>
      have hn : keys = [] := List.eq_nil_iff_forall_not_mem.mpr fun key hm => by
        cases key
        case dec => exact hd hm
        case inc => exact hi hm
      exact .inr <| .inr ⟨0, hn⟩

end MenuKey

open MenuKey

-- The calls of a frame which delivers presses of some keys.
structure Syscalls.Delivers (keys : List MenuKey) (sys : Syscalls) : Prop where
  events : List.Forall₂ Presses keys sys.batch.events
  polled : sys.batch.failed = false
  sleep  : sys.sleep = true

namespace SnakeMain

-- The main loop waits in the menu, between two frames.
structure InMenu (main : SnakeMain) (target : Nat) : Prop where
  pc      : main.pc = .frame
  phase   : main.state.phase = .menu
  apples  : main.state.targetAppleCount = target
  range   : 1 ≤ target ∧ target ≤ snakeMaxApples
  bound   : main.state.framebufferBound = 1
  turns   : ∃ l, main.state.input.Turns l
  quit    : main.state.input.isPending snakeInputActionQuit = false
  dec     : main.state.input.isPending snakeInputActionMenuApplesDec = false
  inc     : main.state.input.isPending snakeInputActionMenuApplesInc = false
  restart : main.state.input.isPending snakeInputActionRestart = false
  confirm : main.state.input.isPending snakeInputActionConfirm = false

variable {main : SnakeMain} {sys : Syscalls} {target : Nat} {keys : List MenuKey} {mask : BitVec 8}
  {input : SnakeInput}

theorem eventAction_of_presses {key : MenuKey} {event : Nat} (h : key.Presses event) :
    eventAction event =
      match key with
      | .dec => snakeInputActionMenuApplesDec
      | .inc => snakeInputActionMenuApplesInc := by
  cases key
  case dec => rw [eventAction, if_pos h.right, keyAction, h.left]
  case inc => rw [eventAction, if_pos h.right, keyAction, h.left]

-- The actions which the presses set.
theorem any_isPress {events : List Nat} (h : List.Forall₂ Presses keys events) (mask : BitVec 8) :
    events.any (isPress mask) = true ↔
      (snakeInputActionMenuApplesDec &&& mask ≠ 0 ∧ .dec ∈ keys) ∨
        (snakeInputActionMenuApplesInc &&& mask ≠ 0 ∧ .inc ∈ keys) := by
  induction h
  case nil                            => simp
  case cons key event keys _ he _ hi =>
    rw [List.any_cons, Bool.or_eq_true, hi, isPress, eventAction_of_presses he, bne_iff_ne]
    cases key
    case dec => simp only [List.mem_cons, reduceCtorEq, true_or, false_or, and_true]; tauto
    case inc => simp only [List.mem_cons, reduceCtorEq, true_or, false_or, and_true]; tauto

-- The keys of the menu, in a batch of presses.
theorem decApples_eq (state : SnakeGameState) : state.decApples.2 = { state with
    input := (state.input.takeAction snakeInputActionMenuApplesDec).2
    targetAppleCount := if state.input.isPending snakeInputActionMenuApplesDec then
      count state.targetAppleCount .dec else state.targetAppleCount } := by
  rw [SnakeGameState.decApples, ← SnakeInput.takeAction_fst]
  simp only [SnakeGameState.takeAction, count]
  by_cases h : (state.input.takeAction snakeInputActionMenuApplesDec).1 = true
  case pos =>
    simp only [h, true_and, if_true]
    split <;> rfl
  case neg => simp only [h, false_and, if_false, Bool.false_eq_true]

theorem incApples_eq (state : SnakeGameState) : state.incApples.2 = { state with
    input := (state.input.takeAction snakeInputActionMenuApplesInc).2
    targetAppleCount := if state.input.isPending snakeInputActionMenuApplesInc then
      count state.targetAppleCount .inc else state.targetAppleCount } := by
  rw [SnakeGameState.incApples, ← SnakeInput.takeAction_fst]
  simp only [SnakeGameState.takeAction, count]
  by_cases h : (state.input.takeAction snakeInputActionMenuApplesInc).1 = true
  case pos =>
    simp only [h, true_and, if_true]
    split <;> rfl
  case neg => simp only [h, false_and, if_false, Bool.false_eq_true]

-- Taking an action changes no other action.
theorem isPending_takeAction_of_ne (input : SnakeInput) {mask' : BitVec 8} (hm : ~~~mask &&& mask' = mask') :
    (input.takeAction mask).2.isPending mask' = input.isPending mask' := by
  simp only [isPending, SnakeInput.takeAction]
  rw [BitVec.and_assoc, hm]

theorem startOrSleep_of_not_pending (hr : main.state.input.isPending snakeInputActionRestart = false)
    (hc : main.state.input.isPending snakeInputActionConfirm = false) (hs : sys.sleep = true) :
    main.startOrSleep sys = some { main with pc := .frame } := by
  simp only [startOrSleep, SnakeGameState.takeAction, takeAction_of_not_pending hr,
    takeAction_of_not_pending hc, Bool.false_eq_true, if_false, sleep, hs, if_true]

-- The menu may be drawn again.
theorem menuFrame_eq (hb : main.state.framebufferBound = 1) (sys : Syscalls) :
    ∃ framebuffer, main.menuFrame sys =
      SnakeMain.startOrSleep { main with
        state := { main.state.decApples.2.incApples.2 with framebuffer } } sys := by
  have hb' : main.state.decApples.2.incApples.2.framebufferBound = 1 := by
    rw [incApples_eq, decApples_eq]
    exact hb
  simp only [menuFrame]
  split
  case isFalse => exact ⟨main.state.decApples.2.incApples.2.framebuffer, rfl⟩
  case isTrue  =>
    have hp : main.state.decApples.2.incApples.2.renderMenu.present sys.enter13h =
        (true, main.state.decApples.2.incApples.2.renderMenu) := by
      rw [SnakeGameState.present, if_pos (by exact hb')]
    simp only [hp, if_true]
    exact ⟨_, rfl⟩

-- A frame in the menu counts a batch of presses.
theorem InMenu.step (h : main.InMenu target) (hd : sys.Delivers keys) : ∃ main',
    main.step sys = some main' ∧ main'.InMenu (countBatch target keys) := by
  obtain ⟨l, hl⟩ := h.turns
  obtain ⟨input, hp, hr⟩ := hl.poll sys.batch
  have hn : ¬(if sys.batch.failed then -1 else (sys.batch.events.length : Int)) < 0 := by
    rw [hd.polled]
    simp only [Bool.false_eq_true, if_false]
    omega
  have hkept (mask : BitVec 8) (hm : main.state.input.isPending mask = false)
      (h₁ : snakeInputActionMenuApplesDec &&& mask = 0)
      (h₂ : snakeInputActionMenuApplesInc &&& mask = 0) : input.isPending mask = false := by
    have ha : sys.batch.events.any (isPress mask) = false := by
      rw [Bool.eq_false_iff, ne_eq, any_isPress hd.events]
      simp [h₁, h₂]
    rw [hr.isPending_eq, hm, ha]
    rfl
  have hdec : input.isPending snakeInputActionMenuApplesDec = true ↔ .dec ∈ keys := by
    rw [hr.isPending_eq, h.dec, Bool.false_or, any_isPress hd.events]
    simp [snakeInputActionMenuApplesDec, snakeInputActionMenuApplesInc]
  have hinc : input.isPending snakeInputActionMenuApplesInc = true ↔ .inc ∈ keys := by
    rw [hr.isPending_eq, h.inc, Bool.false_or, any_isPress hd.events]
    simp [snakeInputActionMenuApplesDec, snakeInputActionMenuApplesInc]
  have hq := takeAction_of_not_pending (hkept _ h.quit (by decide) (by decide))
  obtain ⟨main₁, hm⟩ : ∃ main₁ : SnakeMain, main₁ = { main with
      state := { main.state with input }
      log := main.log ++ SnakeMain.keys sys } := ⟨_, rfl⟩
  have hf : main.step sys = main₁.menuFrame sys := by
    rw [SnakeMain.step, h.pc]
    simp only [frame, hp, hn, hq, h.phase, hm, SnakeGameState.takeAction, Option.bind_eq_bind,
      Option.bind_some, if_false, Bool.false_eq_true]
    rfl
  have hb : main₁.state.framebufferBound = 1 := by
    rw [hm]
    exact h.bound
  obtain ⟨framebuffer, he⟩ := menuFrame_eq hb sys
  -- The two actions are taken one after the other, and no other one is concerned.
  have hk (mask : BitVec 8) (h₁ : ~~~snakeInputActionMenuApplesDec &&& mask = mask)
      (h₂ : ~~~snakeInputActionMenuApplesInc &&& mask = mask) :
      ((input.takeAction snakeInputActionMenuApplesDec).2.takeAction
        snakeInputActionMenuApplesInc).2.isPending mask = input.isPending mask := by
    rw [isPending_takeAction_of_ne _ h₂, isPending_takeAction_of_ne _ h₁]
  have hr' := (hk snakeInputActionRestart (by decide) (by decide)).trans
    (hkept _ h.restart (by decide) (by decide))
  have hc' := (hk snakeInputActionConfirm (by decide) (by decide)).trans
    (hkept _ h.confirm (by decide) (by decide))
  rw [incApples_eq, decApples_eq, hm] at he
  rw [hf, hm, he, startOrSleep_of_not_pending hr' hc' hd.sleep]
  refine ⟨_, rfl, ?_⟩
  exact {
    pc := rfl
    phase := h.phase
    apples := by
      simp only [isPending_takeAction_of_ne input (show ~~~snakeInputActionMenuApplesDec &&&
        snakeInputActionMenuApplesInc = snakeInputActionMenuApplesInc by decide), hdec, hinc, h.apples]
      rfl
    range := countBatch_range h.range keys
    bound := h.bound
    turns := by
      obtain ⟨l, hl⟩ := hr.turns
      exact ⟨l, (hl.takeAction _).takeAction _⟩
    quit := (hk _ (by decide) (by decide)).trans (hkept _ h.quit (by decide) (by decide))
    dec := by
      rw [isPending_takeAction_of_ne _ (by decide)]
      exact isPending_takeAction_self _ _
    inc := isPending_takeAction_self _ _
    restart := hr'
    confirm := hc' }

theorem InMenu.run (h : main.InMenu target) {batches : List (List MenuKey)} {calls : List Syscalls}
    (hd : List.Forall₂ Syscalls.Delivers batches calls) : ∃ main',
    main.run calls = some main' ∧ main'.InMenu (batches.foldl countBatch target) := by
  induction hd generalizing main target
  case nil            => exact ⟨main, rfl, h⟩
  case cons hk _ hi =>
    have ⟨main₁, hs, h₁⟩ := h.step hk
    have ⟨main', hr, h'⟩ := hi h₁
    exact ⟨main', by rw [run_cons hs, hr], h'⟩

theorem Delivers.quiet (keys : List MenuKey) (ms : UInt64) :
    (Syscalls.quiet (keys.map event) ms).Delivers keys where
  events := List.forall₂_map_right_iff.mpr <| List.forall₂_same.mpr fun key _ => key.presses_event
  polled := rfl
  sleep := rfl

theorem init_inMenu (state : SnakeGameState) {target : Nat} (h : 1 ≤ target ∧ target ≤ snakeMaxApples) :
    InMenu { init state true with state := { (init state true).state with targetAppleCount := target } }
      target where
  pc := rfl
  phase := rfl
  apples := rfl
  range := h
  bound := rfl
  turns := ⟨[], .init _ (by decide)⟩
  quit := by simp [isPending, init, SnakeGameState.present, SnakeGameState.showMenu,
    SnakeGameState.renderMenu, SnakeInput.init]
  dec := by simp [isPending, init, SnakeGameState.present, SnakeGameState.showMenu,
    SnakeGameState.renderMenu, SnakeInput.init]
  inc := by simp [isPending, init, SnakeGameState.present, SnakeGameState.showMenu,
    SnakeGameState.renderMenu, SnakeInput.init]
  restart := by simp [isPending, init, SnakeGameState.present, SnakeGameState.showMenu,
    SnakeGameState.renderMenu, SnakeInput.init]
  confirm := by simp [isPending, init, SnakeGameState.present, SnakeGameState.showMenu,
    SnakeGameState.renderMenu, SnakeInput.init]

theorem foldl_countBatch {batches : List (List MenuKey)} (h : 1 ≤ target ∧ target ≤ snakeMaxApples)
    (hc : ∀ keys ∈ batches, Counted keys) :
    batches.foldl countBatch target = batches.flatten.foldl count target := by
  induction batches generalizing target
  case nil                  => rfl
  case cons keys batches hi =>
    rw [List.foldl_cons, hi (countBatch_range h keys) fun keys hk => hc keys (.tail _ hk),
      (hc keys (.head _)).countBatch_eq h, List.flatten_cons, List.foldl_append]

-- For any set of batches, each sequence of them counts all presses exactly when each of these batches
-- is counted.
theorem menu_counts_iff (allowed : Set (List MenuKey)) :
    (∀ (main : SnakeMain) (target : Nat) (batches : List (List MenuKey)) (calls : List Syscalls),
      main.InMenu target → (∀ keys ∈ batches, keys ∈ allowed) →
      List.Forall₂ Syscalls.Delivers batches calls → ∃ main', main.run calls = some main' ∧
        main'.InMenu (batches.flatten.foldl count target)) ↔ ∀ keys ∈ allowed, Counted keys := by
  constructor
  case mp  =>
    intro h keys hk
    refine counted_of_countBatch_eq fun target ht => ?_
    have h₀ := init_inMenu default ht
    have hd := Delivers.quiet keys 0
    have ⟨main₁, hr₁, h₁⟩ := h _ target [keys] _ h₀ (by simpa using hk) (.cons hd .nil)
    have ⟨main₂, hr₂, h₂⟩ := h₀.run (.cons hd .nil)
    cases hr₁.symm.trans hr₂
    have he := h₂.apples.symm.trans h₁.apples
    rwa [List.flatten_cons, List.flatten_nil, List.append_nil] at he
  case mpr =>
    intro hc main target batches calls h hb hd
    have ⟨main', hr, h'⟩ := h.run hd
    rw [foldl_countBatch h.range fun keys hk => hc keys (hb keys hk)] at h'
    exact ⟨main', hr, h'⟩

-- The key `D` is pressed twice, between two polls or in one poll each.
theorem two_presses_count_once : ∃ main main',
    (init default true).run [.quiet [0x12064, 0x12064] 0] = some main ∧
    (init default true).run [.quiet [0x12064] 0, .quiet [0x12064] 0] = some main' ∧
    main.state.phase = .menu ∧ main'.state.phase = .menu ∧
    main.state.targetAppleCount = 6 ∧ main'.state.targetAppleCount = 7 := by
  have h₀ := init_inMenu default (show 1 ≤ 5 ∧ 5 ≤ snakeMaxApples by decide)
  have ⟨main, hr, h⟩ := h₀.run (.cons (Delivers.quiet [.inc, .inc] 0) .nil)
  have ⟨main', hr', h'⟩ := h₀.run (.cons (Delivers.quiet [.inc] 0) (.cons (Delivers.quiet [.inc] 0) .nil))
  exact ⟨main, main', hr, hr', h.phase, h'.phase, h.apples, h'.apples⟩

end SnakeMain
