namespace EStateM

variable {ε σ α β : Type} {x : EStateM ε σ α} {f : α → EStateM ε σ β} {s s' : σ} {a : α} {e : ε}

theorem bind_ok (h : x.run s = .ok a s') : (x >>= f).run s = (f a).run s' := by
  have h : x s = .ok a s' := h
  simp only [run, bind, EStateM.bind, h]

theorem bind_error (h : x.run s = .error e s') : (x >>= f).run s = .error e s' := by
  have h : x s = .error e s' := h
  simp only [run, bind, EStateM.bind, h]

theorem get_bind (f : σ → EStateM ε σ β) : (get >>= f).run s = (f s).run s :=
  rfl

theorem bind_eq_ok {b : β} (h : (x >>= f).run s = .ok b s') :
    ∃ a s₁, x.run s = .ok a s₁ ∧ (f a).run s₁ = .ok b s' := by
  match hx : x.run s with
  | .ok a s₁    => exact ⟨a, s₁, rfl, by rwa [bind_ok hx] at h⟩
  | .error e s₁ => rw [bind_error hx] at h; cases h

-- A loop whose rounds all succeed.
theorem forM_range {P : Nat → σ → Prop} {f : Nat → EStateM ε σ Unit} {n : Nat} (h₀ : P 0 s)
    (hs : ∀ i s, i < n → P i s → ∃ s', (f i).run s = .ok () s' ∧ P (i + 1) s') :
    ∃ s', (forM (List.range n) f).run s = .ok () s' ∧ P n s' := by
  induction n
  case zero      => exact ⟨s, rfl, h₀⟩
  case succ n hi =>
    have ⟨s₁, h₁, hp₁⟩ := hi fun i s hi => hs i s <| Nat.lt_succ_of_lt hi
    have ⟨s', h', hp'⟩ := hs n s₁ (Nat.lt_succ_self n) hp₁
    refine ⟨s', ?_, hp'⟩
    rw [List.range_succ, List.forM_append, bind_ok h₁, List.forM_cons, bind_ok h']
    rfl

-- What the rounds of a loop preserve, if all of them succeed.
theorem forM_range_ok {P : Nat → σ → Prop} {f : Nat → EStateM ε σ Unit} {n : Nat}
    (hr : (forM (List.range n) f).run s = .ok () s') (h₀ : P 0 s)
    (hs : ∀ i s s', i < n → P i s → (f i).run s = .ok () s' → P (i + 1) s') : P n s' := by
  induction n generalizing s'
  case zero      => cases hr; exact h₀
  case succ n hi =>
    rw [List.range_succ, List.forM_append] at hr
    have ⟨_, s₁, hr₁, hr⟩ := bind_eq_ok hr
    rw [List.forM_cons] at hr
    have ⟨_, s₂, hr₂, hr⟩ := bind_eq_ok hr
    cases hr
    exact hs n s₁ s' (Nat.lt_succ_self n) (hi hr₁ fun i s s' hi => hs i s s' <| Nat.lt_succ_of_lt hi) hr₂

end EStateM
