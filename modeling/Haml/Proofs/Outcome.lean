/-! Computations that may fail: what a result of a composed one says of its parts, and how those
with a state run one after the other. -/

namespace Haml.Outcome

variable {ε α β : Type}

theorem exists_of_isOk {m : Except ε α} (h : m.isOk) : ∃ a, m = .ok a := by
  cases m with
  | error e => cases h
  | ok a => exact ⟨a, rfl⟩

theorem exists_of_map_eq_ok {f : α → β} {m : Except ε α} {b : β} (h : m.map f = .ok b) :
    ∃ a, m = .ok a ∧ f a = b := by
  cases m with
  | error e => cases h
  | ok a => exact ⟨a, rfl, Except.ok.inj h⟩

/-- A view of a result that is known shows that there is one, with all that holds of results. -/
theorem exists_viewed {f : α → β} {m : Except ε α} {b : β} {P : α → Prop} (h : m.map f = .ok b)
    (hP : ∀ a, m = .ok a → P a) : ∃ a, m = .ok a ∧ f a = b ∧ P a := by
  obtain ⟨a, ha, hb⟩ := exists_of_map_eq_ok h
  exact ⟨a, ha, hb, hP a ha⟩

theorem exists_of_bind_eq_ok {f : α → Except ε β} {m : Except ε α} {b : β}
    (h : m.bind f = .ok b) : ∃ a, m = .ok a ∧ f a = .ok b := by
  cases m with
  | error e => cases h
  | ok a => exact ⟨a, rfl, h⟩

theorem eq_error_of_map {f : α → β} {m : Except ε α} {e : ε} (h : m.map f = .error e) :
    m = .error e := by
  cases m with
  | error e' => exact congrArg Except.error (Except.error.inj h)
  | ok a => cases h

theorem error_of_bind_eq_error {f : α → Except ε β} {m : Except ε α} {e : ε}
    (h : m.bind f = .error e) : m = .error e ∨ ∃ a, m = .ok a ∧ f a = .error e := by
  cases m with
  | error e' => exact .inl (congrArg Except.error (Except.error.inj h))
  | ok a => exact .inr ⟨a, rfl, h⟩

theorem mapError_map {ε' : Type} (g : ε → ε') (f : α → β) (m : Except ε α) :
    (m.map f).mapError g = (m.mapError g).map f := by cases m <;> rfl

theorem mapError_bind {ε' : Type} (g : ε → ε') (f : α → Except ε β) (m : Except ε α) :
    (m.bind f).mapError g = (m.mapError g).bind fun a => (f a).mapError g := by cases m <;> rfl

theorem map_nil_append (m : Except ε (List α)) : m.map ([] ++ ·) = m := by cases m <;> rfl

/-- Lists that are put in front one after the other. -/
theorem map_append (first more : List α) (m : Except ε (List α)) :
    (m.map (more ++ ·)).map (first ++ ·) = m.map (first ++ more ++ ·) := by
  cases m with
  | error e => rfl
  | ok last => exact congrArg Except.ok (List.append_assoc first more last).symm

variable {σ τ : Type}

/-- Outcomes with one result are both failures or both values, whatever their states. -/
theorem error_or_ok {x : Except ε α × σ} {y : Except ε α × τ} (h : x.1 = y.1) :
    (∃ e s t, x = (.error e, s) ∧ y = (.error e, t)) ∨
      ∃ a s t, x = (.ok a, s) ∧ y = (.ok a, t) := by
  obtain ⟨result, s⟩ := x
  obtain ⟨result', t⟩ := y
  obtain rfl : result = result' := h
  cases result with
  | error e => exact .inl ⟨e, s, t, rfl, rfl⟩
  | ok a => exact .inr ⟨a, s, t, rfl, rfl⟩

theorem bind_apply (m : ExceptT ε (StateM σ) α) (f : α → ExceptT ε (StateM σ) β) (s : σ) :
    (m >>= f) s = match m s with
      | (.ok a, s) => f a s
      | (.error e, s) => (.error e, s) := by
  change (match m s with | (a, s) => ExceptT.bindCont f a s) = _
  rcases m s with ⟨_ | a, s⟩ <;> rfl

theorem exists_of_bind_apply {m : ExceptT ε (StateM σ) α} {f : α → ExceptT ε (StateM σ) β}
    {s t : σ} {b : β} (h : (m >>= f) s = (.ok b, t)) :
    ∃ a mid, m s = (.ok a, mid) ∧ f a mid = (.ok b, t) := by
  rw [bind_apply] at h
  rcases hm : m s with ⟨e | a, mid⟩
  · rw [hm] at h
    cases h
  · rw [hm] at h
    exact ⟨a, mid, rfl, h⟩

theorem map_apply (f : α → β) (m : ExceptT ε (StateM σ) α) (s : σ) :
    (f <$> m) s = match m s with
      | (.ok a, s) => (.ok (f a), s)
      | (.error e, s) => (.error e, s) := by
  rw [map_eq_pure_bind, bind_apply]
  rfl

end Haml.Outcome
