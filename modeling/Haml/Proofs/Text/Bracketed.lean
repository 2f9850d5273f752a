import Haml.Proofs.Text.Closed
import Haml.Proofs.Text.Strings

/-! Bracketed texts, by a grammar instead of a counter. A reader counts brackets of all kinds
alike, so the texts it takes for the inside of a group are those in which a bracket of any kind
closes any other. Texts in which each bracket is closed by one of its own kind are among them, and
a reader does not tell them from the others. -/

namespace Haml

/-- Plain characters, strings, and brackets with a bracketed text inside, where `Closes` says which
bracket may close which. -/
inductive Bracketed (Closes : Char → Char → Prop) : Text → Prop
  | nil : Bracketed Closes []
  | plain {c : Char} {rest : Text} (hmark : Quote.isMark c = false)
      (hopens : Brackets.all.opens c = false) (hcloses : Brackets.all.closes c = false)
      (hrest : Bracketed Closes rest) : Bracketed Closes (c :: rest)
  | string {mark : Char} {body rest : Text} (hmark : Quote.isMark mark = true)
      (hbody : Quote.IsBody mark body) (hrest : Bracketed Closes rest) :
      Bracketed Closes (Quote.string mark body ++ rest)
  | group {opener closer : Char} {inside rest : Text} (hopens : Brackets.all.opens opener = true)
      (hcloses : Brackets.all.closes closer = true) (hpair : Closes opener closer)
      (hinside : Bracketed Closes inside) (hrest : Bracketed Closes rest) :
      Bracketed Closes (opener :: (inside ++ closer :: rest))

namespace Brackets

/-- Every closing bracket closes every opening one. -/
def Any (_ _ : Char) : Prop := True

/-- A bracket is closed by the other one of its kind. -/
def Own (opener closer : Char) : Prop :=
  (opener, closer) ∈ [('{', '}'), ('(', ')'), ('[', ']')]

instance (opener closer : Char) : Decidable (Own opener closer) :=
  inferInstanceAs (Decidable (_ ∈ _))

variable {c : Char} {depth d : Nat} {quote q : Quote} {t inner rest : Text}

theorem eq_of_opens (h : all.opens c = true) : c = '{' ∨ c = '(' ∨ c = '[' := by
  simpa [all] using h

theorem of_opens (h : all.opens c = true) : Quote.isMark c = false ∧ all.closes c = false := by
  obtain rfl | rfl | rfl := eq_of_opens h
  all_goals decide

theorem of_closes (h : all.closes c = true) : Quote.isMark c = false ∧ all.opens c = false := by
  obtain rfl | rfl | rfl : c = '}' ∨ c = ')' ∨ c = ']' := by simpa [all] using h
  all_goals decide

theorem of_isMark (h : Quote.isMark c = true) :
    all.opens c = false ∧ all.closes c = false := by
  obtain rfl | rfl := Quote.isMark_iff.mp h
  all_goals decide

section Step

variable (depth : Nat) (rest : Text)

theorem after?_open (h : all.opens c = true) :
    all.after? depth .outside (c :: rest) = all.after? (depth + 1) .outside rest := by
  obtain ⟨hmark, hcloses⟩ := of_opens h
  simp [after?, depthAfter, Quote.next, h, hmark, hcloses]

theorem after?_close (h : all.closes c = true) :
    all.after? (depth + 1) .outside (c :: rest) = all.after? depth .outside rest := by
  obtain ⟨hmark, hopens⟩ := of_closes h
  simp [after?, depthAfter, Quote.next, h, hmark, hopens]

theorem after?_plain (hmark : Quote.isMark c = false) (hopens : all.opens c = false)
    (hcloses : all.closes c = false) :
    all.after? depth .outside (c :: rest) = all.after? depth .outside rest := by
  simp [after?, depthAfter, Quote.next, hmark, hopens, hcloses]

theorem after?_mark (h : Quote.isMark c = true) :
    all.after? depth .outside (c :: rest) = all.after? depth (.inside c) rest := by
  obtain ⟨hopens, hcloses⟩ := of_isMark h
  simp [after?, depthAfter, Quote.next, h, hopens, hcloses]

theorem after?_quoted (c : Char) (h : quote ≠ .outside) :
    all.after? depth quote (c :: rest) = all.after? depth (quote.next c) rest := by
  simp [after?, depthAfter, h]

end Step

theorem after?_append_of (h : all.after? depth quote t = some (d, q)) (rest : Text) :
    all.after? depth quote (t ++ rest) = all.after? d q rest := by
  rw [after?_append, h, Option.bind_some]

/-- Within a string no bracket counts. -/
theorem after?_of_quoted (hquote : quote ≠ .outside) (h : quote.after? t = some q) (depth : Nat) :
    all.after? depth quote t = some (depth, q) := by
  induction t generalizing quote with
  | nil =>
    obtain rfl : quote = q := Option.some.inj h
    rfl
  | cons c t ih =>
    rw [Quote.after?] at h
    split at h
    · cases h
    · next hnext => rw [after?_quoted depth t c hquote, ih hnext h]

theorem after?_string {mark : Char} {body : Text} (hmark : Quote.isMark mark = true)
    (hbody : Quote.IsBody mark body) (depth : Nat) (rest : Text) :
    all.after? depth .outside (Quote.string mark body ++ rest) =
      all.after? depth .outside rest := by
  have hquote : Quote.inside mark ≠ .outside := nofun
  have hinside := after?_of_quoted hquote hbody depth
  have hclose : (Quote.inside mark).next mark = .outside := by
    simp [Quote.next, Quote.ne_slash_of_isMark hmark]
  rw [Quote.string, List.cons_append, after?_mark depth _ hmark, List.append_assoc,
    after?_append_of hinside, List.singleton_append, after?_quoted depth rest mark hquote, hclose]

/-- A string that does not end has its reader inside it. -/
theorem ne_outside_of_body (hquote : quote ≠ .outside) (hbody : quote.body t = none)
    (h : all.after? depth quote t = some (d, q)) : q ≠ .outside := by
  induction t generalizing quote with
  | nil =>
    obtain ⟨-, rfl⟩ : depth = d ∧ quote = q := by simpa [after?] using h
    exact hquote
  | cons c t ih =>
    rw [Quote.body] at hbody
    split at hbody
    · cases hbody
    · next hnext =>
      rw [after?_quoted depth t c hquote] at h
      exact ih hnext (Option.map_eq_none_iff.mp hbody) h

theorem depthAfter_succ (h : ¬(quote = .outside ∧ all.closes c = true ∧ depth = 0)) :
    all.depthAfter quote (depth + 1) c = all.depthAfter quote depth c + 1 := by
  by_cases hquote : quote = .outside
  · by_cases hcloses : all.closes c = true
    · have hpos : depth ≠ 0 := fun hzero => h ⟨hquote, hcloses, hzero⟩
      obtain ⟨-, hopens⟩ := of_closes hcloses
      simp [depthAfter, hquote, hcloses, hopens]
      omega
    · by_cases hopens : all.opens c = true <;> simp [depthAfter, hquote, hcloses, hopens]
  · simp [depthAfter, hquote]

theorem after?_succ (h : all.after? depth quote t = some (d, q)) :
    all.after? (depth + 1) quote t = some (d + 1, q) := by
  induction t generalizing depth quote with
  | nil =>
    obtain ⟨rfl, rfl⟩ : depth = d ∧ quote = q := by simpa [after?] using h
    rfl
  | cons c t ih =>
    rw [after?] at h
    split at h
    · cases h
    · next hopen =>
      rw [after?, if_neg (by simp), depthAfter_succ hopen]
      exact ih h

/-- Where no bracket closes the group, the group is open at the end. -/
theorem pos_of_body (hbody : all.body depth quote t = none)
    (h : all.after? (depth + 1) quote t = some (d, q)) : 0 < d := by
  induction t generalizing depth quote with
  | nil =>
    obtain ⟨rfl, -⟩ : depth + 1 = d ∧ quote = q := by simpa [after?] using h
    exact Nat.succ_pos depth
  | cons c t ih =>
    rw [body] at hbody
    split at hbody
    · cases hbody
    · next hopen =>
      rw [after?, if_neg (by simp), depthAfter_succ hopen] at h
      exact ih (Option.map_eq_none_iff.mp hbody) h

theorem exists_string_of_closed (hmark : Quote.isMark c = true) (h : all.Closed (c :: t)) :
    ∃ body rest, c :: t = Quote.string c body ++ rest ∧ Quote.IsBody c body ∧ all.Closed rest := by
  have hquote : Quote.inside c ≠ .outside := nofun
  rw [Closed, after?_mark 0 t hmark] at h
  rcases hbody : (Quote.inside c).body t with - | ⟨body, rest⟩
  · exact absurd rfl (ne_outside_of_body hquote hbody h)
  · obtain ⟨rfl, hinside⟩ := Quote.eq_of_body (.inl rfl) hbody
    have hstring : c :: (body ++ c :: rest) = Quote.string c body ++ rest := by
      simp [Quote.string]
    rw [← after?_mark 0 _ hmark, hstring, after?_string hmark hinside] at h
    exact ⟨body, rest, hstring, hinside, h⟩

theorem exists_group_of_closed (hopens : all.opens c = true) (h : all.Closed (c :: t)) :
    ∃ inside closer rest, t = inside ++ closer :: rest ∧ all.closes closer = true ∧
      all.Closed inside ∧ all.Closed rest := by
  rw [Closed, after?_open 0 t hopens] at h
  rcases hbody : all.body 0 .outside t with - | ⟨inside, rest⟩
  · exact absurd (pos_of_body hbody h) (lt_irrefl 0)
  · obtain ⟨closer, hcloses, rfl⟩ := eq_append_of_body hbody
    have hinside := closed_of_body hbody
    rw [after?_append_of (after?_succ hinside), after?_close 0 rest hcloses] at h
    exact ⟨inside, closer, rest, rfl, hcloses, hinside, h⟩

theorem not_closed_of_closes (hcloses : all.closes c = true) : ¬all.Closed (c :: t) := by
  simp [Closed, after?, hcloses]

end Brackets

namespace Bracketed

variable {Closes : Char → Char → Prop} {t inside after : Text}

theorem mono {Closes' : Char → Char → Prop} (hsub : ∀ a b, Closes a b → Closes' a b)
    (h : Bracketed Closes t) : Bracketed Closes' t := by
  induction h with
  | nil => exact .nil
  | plain hmark hopens hcloses _ ih => exact .plain hmark hopens hcloses ih
  | string hmark hbody _ ih => exact .string hmark hbody ih
  | group hopens hcloses hpair _ _ hinside hrest =>
    exact .group hopens hcloses (hsub _ _ hpair) hinside hrest

/-- A bracketed text leaves its reader as deep as it was. -/
theorem after? (h : Bracketed Closes t) (depth : Nat) :
    Brackets.all.after? depth .outside t = some (depth, .outside) := by
  induction h generalizing depth with
  | nil => rfl
  | plain hmark hopens hcloses _ ih =>
    rw [Brackets.after?_plain depth _ hmark hopens hcloses, ih]
  | string hmark hbody _ ih => rw [Brackets.after?_string hmark hbody, ih]
  | group hopens hcloses _ _ _ hinside hrest =>
    rw [Brackets.after?_open depth _ hopens, Brackets.after?_append_of (hinside _),
      Brackets.after?_close depth _ hcloses, hrest]

theorem closed (h : Bracketed Closes t) : Brackets.all.Closed t := h.after? 0

/-- All that a counter asks of a text is that it is bracketed, whichever brackets close which. -/
theorem of_closed (h : Brackets.all.Closed t) : Bracketed Brackets.Any t := by
  induction hlength : t.length using Nat.strong_induction_on generalizing t with
  | _ n ih =>
    subst hlength
    rcases t with - | ⟨c, t⟩
    · exact .nil
    by_cases hmark : Quote.isMark c = true
    · obtain ⟨body, rest, heq, hbody, hrest⟩ := Brackets.exists_string_of_closed hmark h
      have hshorter : rest.length < (Quote.string c body ++ rest).length := by
        simp only [Quote.string, List.length_append, List.length_cons]
        omega
      rw [heq] at ih ⊢
      exact .string hmark hbody (ih _ hshorter hrest rfl)
    by_cases hopens : Brackets.all.opens c = true
    · obtain ⟨inside, closer, rest, rfl, hcloses, hinside, hrest⟩ :=
        Brackets.exists_group_of_closed hopens h
      have hlength : (c :: (inside ++ closer :: rest)).length =
          inside.length + rest.length + 2 := by
        simp only [List.length_cons, List.length_append]
        omega
      exact .group hopens hcloses trivial (ih _ (by omega) hinside rfl)
        (ih _ (by omega) hrest rfl)
    have hcloses : ¬Brackets.all.closes c = true := fun hcloses =>
      Brackets.not_closed_of_closes hcloses h
    rw [Bool.not_eq_true] at hmark hopens hcloses
    rw [Brackets.Closed, Brackets.after?_plain 0 t hmark hopens hcloses] at h
    exact .plain hmark hopens hcloses (ih _ (Nat.lt_succ_self _) h rfl)

/-- What a reader finds inside a group, and where the group ends. -/
theorem body_eq_some_iff : Brackets.all.body 0 .outside t = some (inside, after) ↔
    ∃ closer, Brackets.all.closes closer = true ∧ Bracketed Brackets.Any inside ∧
      t = inside ++ closer :: after := by
  constructor
  · intro h
    obtain ⟨closer, hcloses, ht⟩ := Brackets.eq_append_of_body h
    exact ⟨closer, hcloses, of_closed (Brackets.closed_of_body h), ht⟩
  · rintro ⟨closer, hcloses, hinside, rfl⟩
    exact hinside.closed.body hcloses after

end Bracketed

end Haml
