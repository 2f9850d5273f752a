import Haml.Text.Quote
import Mathlib.Data.List.DropRight
import Mathlib.Data.List.Induction

/-! Bodies of strings. A text can stand between two marks if every mark in it is behind an odd
number of backslashes and the run of backslashes at its end is even; it is then what is read between
them. Undoing escapes halves the run at the end of a text and does not touch what is in front of
it. -/

namespace Haml

namespace Text

variable {t : Text}

/-- The length of the run of backslashes at the end of a text. -/
def slashes (t : Text) : Nat := (t.reverse.takeWhile (· == '\\')).length

theorem slashes_concat_slash (t : Text) : slashes (t ++ ['\\']) = slashes t + 1 := by
  rw [slashes, List.reverse_concat, List.takeWhile_cons_of_pos (by decide), List.length_cons,
    slashes]

theorem slashes_concat {c : Char} (h : c ≠ '\\') (t : Text) : slashes (t ++ [c]) = 0 := by
  rw [slashes, List.reverse_concat, List.takeWhile_cons_of_neg (by simpa using h), List.length_nil]

theorem exists_slashes (t : Text) :
    ∃ core, core.getLast? ≠ some '\\' ∧ t = core ++ List.replicate (slashes t) '\\' := by
  induction t using List.reverseRecOn with
  | nil => exact ⟨[], nofun, rfl⟩
  | append_singleton t c ih =>
    by_cases hc : c = '\\'
    · obtain ⟨core, hcore, ht⟩ := ih
      refine ⟨core, hcore, ?_⟩
      rw [hc, slashes_concat_slash, List.replicate_succ', ← List.append_assoc, ← ht]
    · refine ⟨t ++ [c], by simpa using hc, ?_⟩
      rw [slashes_concat hc, List.replicate_zero, List.append_nil]

end Text

namespace Quote

variable {mark c : Char} {quote q : Quote} {t u text inner rest : Text}

theorem isMark_iff : isMark c = true ↔ c = '"' ∨ c = '\'' := by simp [isMark]

theorem ne_slash_of_isMark (h : isMark mark = true) : mark ≠ '\\' := by
  rintro rfl
  cases h

/-- Where a text leaves a reader that is within a string. There is no such place if the string ends
in the text. -/
def after? : Quote → Text → Option Quote
  | quote, [] => some quote
  | quote, c :: rest => if quote.next c = outside then none else after? (quote.next c) rest

theorem after?_append (quote : Quote) (t u : Text) :
    quote.after? (t ++ u) = (quote.after? t).bind fun q => q.after? u := by
  induction t generalizing quote with
  | nil => rfl
  | cons c t ih =>
    rw [List.cons_append, after?, after?]
    split
    · rfl
    · exact ih _

theorem body_append (h : quote.after? t = some q) (rest : Text) :
    quote.body (t ++ rest) = (q.body rest).map fun (inner, rest) => (t ++ inner, rest) := by
  induction t generalizing quote with
  | nil =>
    obtain rfl : quote = q := Option.some.inj h
    simp
  | cons c t ih =>
    rw [after?] at h
    split at h
    · cases h
    · next hc =>
      rw [List.cons_append, body, if_neg hc, ih h, Option.map_map]
      rfl

/-- A text that is the body of the string it is put into. -/
def IsBody (mark : Char) (t : Text) : Prop := (inside mark).after? t = some (inside mark)

instance (mark : Char) (t : Text) : Decidable (IsBody mark t) :=
  inferInstanceAs (Decidable (_ = _))

/-- A text between two marks. -/
def string (mark : Char) (t : Text) : Text := mark :: (t ++ [mark])

theorem IsBody.read (hmark : mark ≠ '\\') (h : IsBody mark t) (rest : Text) :
    read (string mark t ++ rest) = some (mark, t, rest) := by
  have hclose : (inside mark).body (mark :: rest) = some ([], rest) := by
    simp [body, next, hmark]
  rw [string, List.cons_append, List.append_assoc, List.singleton_append, Quote.read,
    body_append h, hclose]
  simp

/-- Only its own mark ends a string. -/
theorem eq_of_body (hquote : quote = inside mark ∨ quote = escaped mark)
    (h : quote.body text = some (inner, rest)) :
    text = inner ++ mark :: rest ∧ quote.after? inner = some (inside mark) := by
  induction text generalizing quote inner with
  | nil => cases h
  | cons c text ih =>
    rw [body] at h
    split at h
    · next hclose =>
      obtain ⟨rfl, rfl⟩ : [] = inner ∧ text = rest := by simpa using h
      rcases hquote with rfl | rfl
      · rw [next] at hclose
        split at hclose
        · cases hclose
        · split at hclose
          · next hc => exact ⟨by rw [hc]; rfl, rfl⟩
          · cases hclose
      · cases hclose
    · next hopen =>
      obtain ⟨⟨inner', rest'⟩, hbody, heq⟩ := Option.map_eq_some_iff.mp h
      obtain ⟨rfl, rfl⟩ := Prod.mk.inj heq
      have hnext : quote.next c = inside mark ∨ quote.next c = escaped mark := by
        rcases hquote with rfl | rfl
        · rw [next] at hopen ⊢
          split
          · exact .inr rfl
          · split
            · simp_all
            · exact .inl rfl
        · exact .inl rfl
      obtain ⟨rfl, hafter⟩ := ih hnext hbody
      exact ⟨rfl, by rw [after?, if_neg hopen, hafter]⟩

theorem isMark_of_read {body : Text} (hopens : opensIn text = true)
    (h : read text = some (mark, body, rest)) : isMark mark = true := by
  cases text with
  | nil => cases h
  | cons c text =>
    obtain ⟨p, -, heq⟩ := Option.map_eq_some_iff.mp h
    obtain ⟨rfl, -⟩ := Prod.mk.inj heq
    exact hopens

theorem read_eq_some_iff (hmark : mark ≠ '\\') :
    read text = some (mark, t, rest) ↔ text = string mark t ++ rest ∧ IsBody mark t := by
  constructor
  · intro h
    cases text with
    | nil => cases h
    | cons c text =>
      obtain ⟨⟨inner, after⟩, hbody, heq⟩ := Option.map_eq_some_iff.mp h
      obtain ⟨rfl, rfl, rfl⟩ : c = mark ∧ inner = t ∧ after = rest := by simpa using heq
      obtain ⟨rfl, hafter⟩ := eq_of_body (.inl rfl) hbody
      exact ⟨by simp [string], hafter⟩
  · rintro ⟨rfl, h⟩
    exact h.read hmark rest

/-- Every mark in the text stands behind an odd number of backslashes. -/
def Escapes (mark : Char) (t : Text) : Prop :=
  ∀ before, before ++ [mark] <+: t → Text.slashes before % 2 = 1

theorem escapes_concat_iff : Escapes mark (t ++ [c]) ↔
    Escapes mark t ∧ (c = mark → Text.slashes t % 2 = 1) := by
  simp only [Escapes, List.prefix_concat_iff]
  constructor
  · intro h
    exact ⟨fun before hbefore => h before (.inr hbefore), fun hc => h t (.inl (by rw [hc]))⟩
  · rintro ⟨ht, hc⟩ before (heq | hbefore)
    · obtain ⟨rfl, hlast⟩ := List.append_inj' heq rfl
      exact hc (List.cons.inj hlast).1.symm
    · exact ht before hbefore

/-- Inside a string, the parity of the last backslashes tells the place. -/
theorem eq_of_after? (h : (inside mark).after? t = some q) :
    q = if Text.slashes t % 2 = 1 then escaped mark else inside mark := by
  induction t using List.reverseRecOn generalizing q with
  | nil => exact (Option.some.inj h).symm
  | append_singleton t c ih =>
    rw [after?_append] at h
    obtain ⟨p, hp, hc⟩ := Option.bind_eq_some_iff.mp h
    have hplace := ih hp
    rw [after?] at hc
    split at hc
    · cases hc
    · next hopen =>
      obtain rfl : p.next c = q := Option.some.inj hc
      by_cases hslash : c = '\\'
      · subst hslash
        rw [Text.slashes_concat_slash]
        split at hplace
        · rw [hplace, if_neg (by omega), next]
        · rw [hplace, if_pos (by omega), next, if_pos rfl]
      · rw [Text.slashes_concat hslash, if_neg (by decide)]
        split at hplace
        · rw [hplace, next]
        · rw [hplace, next, if_neg hslash] at hopen ⊢
          split at hopen
          · exact absurd rfl hopen
          · next hother => rw [if_neg hother]

/-- A reader within a string stays there exactly if all marks are escaped. -/
theorem escapes_iff (hmark : mark ≠ '\\') :
    Escapes mark t ↔ ∃ q, (inside mark).after? t = some q := by
  induction t using List.reverseRecOn with
  | nil => exact iff_of_true (fun before hbefore => by simp at hbefore) ⟨_, rfl⟩
  | append_singleton t c ih =>
    have hclose (p : Quote) (hp : (inside mark).after? t = some p) :
        p.next c = outside ↔ ¬(c = mark → Text.slashes t % 2 = 1) := by
      rw [eq_of_after? hp]
      split
      · next hodd => exact iff_of_false nofun (not_not.mpr fun _ => hodd)
      · next heven =>
        by_cases hc : c = mark
        · simp [next, hc, hmark, heven]
        · simp only [next, hc, if_false, false_imp_iff, not_true_eq_false, iff_false]
          split <;> nofun
    rw [escapes_concat_iff, ih]
    simp only [after?_append, Option.bind_eq_some_iff, after?]
    constructor
    · rintro ⟨⟨p, hp⟩, hodd⟩
      exact ⟨p.next c, p, hp, if_neg fun h => (hclose p hp).mp h hodd⟩
    · rintro ⟨q, p, hp, hnext⟩
      split at hnext
      · cases hnext
      · next hopen => exact ⟨⟨p, hp⟩, by_contra fun h => hopen ((hclose p hp).mpr h)⟩

theorem isBody_iff (hmark : mark ≠ '\\') :
    IsBody mark t ↔ Escapes mark t ∧ Text.slashes t % 2 = 0 := by
  rw [escapes_iff hmark, IsBody]
  constructor
  · intro h
    have hplace := eq_of_after? h
    split at hplace
    · cases hplace
    · exact ⟨⟨_, h⟩, by omega⟩
  · rintro ⟨⟨q, hq⟩, heven⟩
    rw [hq, eq_of_after? hq, if_neg (by omega)]

theorem unescape_pair (hc : c ≠ '\\') (rest : Text) : unescape mark ('\\' :: c :: rest) =
    if c = mark then c :: unescape mark rest
    else if c = 'n' && mark = '"' then '\n' :: unescape mark rest
    else if c = 't' && mark = '"' then '\t' :: unescape mark rest
    else '\\' :: unescape mark (c :: rest) := by
  rw [unescape]
  exact hc

/-- A text that does not end in a backslash keeps its escapes to itself. -/
theorem unescape_append (h : t.getLast? ≠ some '\\') (u : Text) :
    unescape mark (t ++ u) = unescape mark t ++ unescape mark u := by
  have hrest {c : Char} {rest : Text} (h : (c :: rest).getLast? ≠ some '\\') :
      rest.getLast? ≠ some '\\' := by
    cases rest with
    | nil => nofun
    | cons d rest => rwa [List.getLast?_cons_cons] at h
  fun_induction unescape mark t with
  | case1 => rfl
  | case2 rest ih =>
    rw [List.cons_append, List.cons_append, unescape, ih (hrest (hrest h)), List.cons_append]
  | case3 rest hback ih =>
    rw [List.cons_append, List.cons_append, unescape_pair hback, if_pos rfl,
      ih (hrest (hrest h)), List.cons_append]
  | case4 c rest hback hmark hfeed ih =>
    rw [List.cons_append, List.cons_append, unescape_pair hback, if_neg hmark, if_pos hfeed,
      ih (hrest (hrest h)), List.cons_append]
  | case5 c rest hback hmark hfeed htab ih =>
    rw [List.cons_append, List.cons_append, unescape_pair hback, if_neg hmark, if_neg hfeed,
      if_pos htab, ih (hrest (hrest h)), List.cons_append]
  | case6 c rest hback hmark hfeed htab ih =>
    rw [List.cons_append, List.cons_append, unescape_pair hback, if_neg hmark, if_neg hfeed,
      if_neg htab, ← List.cons_append, ih (hrest h), List.cons_append]
  | case7 c rest hpair hplain ih =>
    have hback : c ≠ '\\' := by
      rintro rfl
      cases rest with
      | nil => exact h rfl
      | cons d rest => exact hplain d rest rfl rfl
    rw [List.cons_append, unescape, ih (hrest h), List.cons_append]
    · exact fun _ hc _ => hback hc
    · exact fun _ _ hc _ => hback hc

theorem unescape_slashes (mark : Char) (n : Nat) : unescape mark (List.replicate n '\\') =
    List.replicate ((n + 1) / 2) '\\' := by
  induction n using Nat.twoStepInduction with
  | zero => rfl
  | one => rfl
  | more n ih _ =>
    have hhalf : (n + 2 + 1) / 2 = (n + 1) / 2 + 1 := by omega
    rw [hhalf, List.replicate_succ, List.replicate_succ, unescape, ih, List.replicate_succ]

end Quote

end Haml
