import Haml.Header.Basic
import Haml.Proofs.Position.Index

/-! Work that may have to be given up. Reading by offsets ends with a result or an error, as reading
does, or without either where a cut fails. Some errors stand for the latter. -/

namespace Haml

/-- Work that is given up where a cut fails, besides failing with an error. -/
abbrev Checked (ε α : Type) := ExceptT ε Option α

/-- Errors that stand for work that was given up. -/
class Breaking (ε : Type) where
  breaks : ε → Bool

instance : Breaking SyntaxFault where
  breaks fault := fault = .splitMark

instance : Breaking ReadError where
  breaks
    | .lex _ => false
    | .invalid fault _ => Breaking.breaks fault

instance : Breaking HeaderError where
  breaks
    | .unclosed => false
    | .invalid e => Breaking.breaks e

namespace Checked

variable {ε α β : Type}

/-- An outcome, given up where its error says so. -/
def whole [Breaking ε] : Except ε α → Checked ε α
  | .ok a => some (.ok a)
  | .error e => if Breaking.breaks e then none else some (.error e)

section Whole

variable [Breaking ε]

theorem whole_error {e : ε} (h : Breaking.breaks e = false) :
    whole (.error e : Except ε α) = throw e := by
  rw [whole, h]
  rfl

theorem whole_breaks {e : ε} (h : Breaking.breaks e = true) :
    whole (.error e : Except ε α) = none := by
  rw [whole, if_pos h]

theorem whole_eq_none_iff {m : Except ε α} :
    whole m = none ↔ ∃ e, m = .error e ∧ Breaking.breaks e = true := by
  cases m with
  | ok a => exact ⟨nofun, fun ⟨e, h, _⟩ => nomatch h⟩
  | error e =>
    constructor
    · intro h
      by_contra he
      rw [whole_error (by simpa using he)] at h
      cases h
    · rintro ⟨_, ⟨rfl⟩, he⟩
      exact whole_breaks he

theorem eq_ok_of_whole {m : Except ε α} {a : α} (h : whole m = some (.ok a)) : m = .ok a := by
  cases m with
  | ok b =>
    obtain rfl : b = a := Except.ok.inj (Option.some.inj h)
    rfl
  | error e =>
    rw [whole] at h
    split at h <;> cases h

theorem whole_bind (m : Except ε α) (f : α → Except ε β) :
    whole (m >>= f) = whole m >>= fun a => whole (f a) := by
  cases m with
  | ok a => rfl
  | error e =>
    change whole (.error e) = _
    rw [whole, whole]
    split <;> rfl

theorem whole_map (m : Except ε α) (f : α → β) : whole (m.map f) = f <$> whole m := by
  cases m with
  | ok a => rfl
  | error e =>
    change whole (.error e) = _
    rw [whole, whole]
    split <;> rfl

end Whole

/-- A cut that gives something is followed by what comes next. -/
theorem cut_bind (a : α) (f : α → Checked ε β) : (liftM (some a) : Checked ε α) >>= f = f a := rfl

theorem bind_eq_ok {m : Checked ε α} {f : α → Checked ε β} {b : β}
    (h : m >>= f = some (.ok b)) : ∃ a, m = some (.ok a) ∧ f a = some (.ok b) := by
  match m with
  | none => cases h
  | some (.error e) => cases h
  | some (.ok a) => exact ⟨a, rfl, h⟩

/-- What the scanner of text finds wrong is an error of reading. -/
theorem adapt_lex (m : Except LexError α) :
    ExceptT.adapt ReadError.lex (some m : Checked LexError α) =
      whole (m.mapError ReadError.lex) := by
  cases m <;> rfl

theorem adapt_whole {ε' : Type} [Breaking ε] [Breaking ε'] {f : ε → ε'}
    (hf : ∀ e, Breaking.breaks (f e) = Breaking.breaks e) (m : Except ε α) :
    ExceptT.adapt f (whole m) = whole (m.mapError f) := by
  cases m with
  | ok a => rfl
  | error e =>
    change ExceptT.adapt f (if Breaking.breaks e then none else some (.error e)) =
      if Breaking.breaks (f e) then none else some (.error (f e))
    rw [hf]
    split <;> rfl

end Checked

/-- Work along the indices of a text gives what reading gives, and an index within the text at which
the rest of it begins. -/
structure Tracks {ε α : Type} [Breaking ε] (chars : Text) (m : Checked ε (α × Nat))
    (r : Except ε (α × Text)) : Prop where
  resume : Text.resume chars <$> m = Checked.whole r
  within : ∀ found, m = some (.ok found) → found.2 ≤ chars.length

namespace Tracks

variable {ε ε' α β : Type} [Breaking ε] [Breaking ε'] {chars : Text} {m : Checked ε (α × Nat)}
  {r : Except ε (α × Text)}

theorem pure {pos : Nat} (a : α) (hpos : pos ≤ chars.length) :
    Tracks (ε := ε) chars (.pure (a, pos)) (.ok (a, chars.drop pos)) where
  resume := rfl
  within found h := by
    obtain rfl : (a, pos) = found := Except.ok.inj (Option.some.inj h)
    exact hpos

theorem error {e : ε} (he : Breaking.breaks e = false) :
    Tracks chars (throw e : Checked ε (α × Nat)) (.error e) where
  resume := by
    rw [Checked.whole_error he]
    rfl
  within found h := by cases h

theorem map (hm : Tracks chars m r) (f : α → β) :
    Tracks chars ((fun (a, pos) => (f a, pos)) <$> m) (r.map fun (a, t) => (f a, t)) where
  resume := by
    rw [Checked.whole_map, ← hm.resume, Functor.map_map, Functor.map_map]
    rfl
  within := by
    intro found h
    match m, hm.within, h with
    | some (.ok (a, pos)), hwithin, h =>
      obtain rfl : (f a, pos) = found := Except.ok.inj (Option.some.inj h)
      exact hwithin _ rfl

theorem adapt (hm : Tracks chars m r) {f : ε → ε'}
    (hf : ∀ e, Breaking.breaks (f e) = Breaking.breaks e) :
    Tracks chars (ExceptT.adapt f m) (r.mapError f) where
  resume := by
    rw [← Checked.adapt_whole hf, ← hm.resume]
    match m with
    | none | some (.error _) | some (.ok _) => rfl
  within := by
    intro found h
    match m, hm.within, h with
    | some (.ok reached), hwithin, h =>
      obtain rfl : reached = found := Except.ok.inj (Option.some.inj h)
      exact hwithin _ rfl

/-- Work that keeps no index may come first. -/
theorem after {s : Except ε β} {f : β → Checked ε (α × Nat)} {g : β → Except ε (α × Text)}
    (h : ∀ b, Tracks chars (f b) (g b)) : Tracks chars (Checked.whole s >>= f) (s >>= g) := by
  cases s with
  | ok b => exact h b
  | error e =>
    change Tracks chars ((if Breaking.breaks e then none else some (.error e)) >>= f) (.error e)
    constructor
    · rw [Checked.whole]
      split <;> rfl
    · intro found hfound
      split at hfound <;> cases hfound

theorem bind (hm : Tracks chars m r) {f : α × Nat → Checked ε β} {g : α × Text → Except ε β}
    (hf : ∀ a pos, pos ≤ chars.length → f (a, pos) = Checked.whole (g (a, chars.drop pos))) :
    m >>= f = Checked.whole (r >>= g) := by
  rw [Checked.whole_bind, ← hm.resume, bind_map_left]
  match m, hm.within with
  | none, _ => rfl
  | some (.error e), _ => rfl
  | some (.ok (a, pos)), hwithin => exact hf a pos (hwithin _ rfl)

end Tracks

end Haml
