import Haml.Proofs.Text.Trim
import Haml.Text.Quote

/-! Closed texts, in which every bracket outside strings is closed by a later one and every string
ends. A reader that looks for the end of a group passes over a closed text, and what it finds inside
a group is closed. -/

namespace Haml

/-- A string is opened by a quotation mark. -/
def Quote.Proper : Quote → Prop
  | outside => True
  | inside mark => isMark mark = true
  | escaped mark => isMark mark = true

theorem Quote.Proper.next {quote : Quote} (h : quote.Proper) (c : Char) : (quote.next c).Proper := by
  cases quote with
  | outside =>
    by_cases hc : isMark c = true
    · rw [Quote.next, if_pos hc]
      exact hc
    · rw [Quote.next, if_neg hc]
      trivial
  | inside mark =>
    rw [Quote.next]
    split
    · exact h
    · split
      · trivial
      · exact h
  | escaped mark => exact h

theorem Unicode.ne_of_isBlank {c d : Char} (hc : isBlank c = true) (hd : isBlank d = false) :
    c ≠ d := by
  rintro rfl
  rw [hc] at hd
  cases hd

theorem Quote.isMark_eq_false_of_isBlank {c : Char} (h : Unicode.isBlank c = true) :
    isMark c = false := by
  have hdouble : c ≠ '"' := Unicode.ne_of_isBlank h (by decide)
  have hsingle : c ≠ '\'' := Unicode.ne_of_isBlank h (by decide)
  simp [isMark, hdouble, hsingle]

theorem Quote.eq_outside_of_next {quote : Quote} {c : Char} (h : quote.Proper)
    (hc : Unicode.isBlank c = true) (hnext : quote.next c = .outside) : quote = .outside := by
  cases quote with
  | outside => rfl
  | inside mark =>
    rw [Quote.next] at hnext
    split at hnext
    · cases hnext
    · split at hnext
      · next heq =>
        subst heq
        rw [Proper, isMark_eq_false_of_isBlank hc] at h
        cases h
      · cases hnext
  | escaped mark => cases hnext

namespace Brackets

/-- Where a text leaves its reader: how many brackets are open, and the place with regard to
strings. There is no such place if the text closes a bracket that is not open. -/
def after? (brackets : Brackets) : Nat → Quote → Text → Option (Nat × Quote)
  | depth, quote, [] => some (depth, quote)
  | depth, quote, c :: rest =>
    if quote = .outside ∧ brackets.closes c ∧ depth = 0 then none
    else after? brackets (brackets.depthAfter quote depth c) (quote.next c) rest

/-- The brackets of a text balance outside its strings and never go below zero, and no string is
left open. -/
def Closed (brackets : Brackets) (t : Text) : Prop :=
  brackets.after? 0 .outside t = some (0, .outside)

instance (brackets : Brackets) (t : Text) : Decidable (brackets.Closed t) :=
  inferInstanceAs (Decidable (_ = _))

variable {brackets : Brackets} {depth d : Nat} {quote q : Quote} {t u v : Text}

theorem after?_append (brackets : Brackets) (depth : Nat) (quote : Quote) (u v : Text) :
    brackets.after? depth quote (u ++ v) =
      (brackets.after? depth quote u).bind fun (d, q) => brackets.after? d q v := by
  induction u generalizing depth quote with
  | nil => rfl
  | cons c u ih =>
    rw [List.cons_append, after?, after?]
    split
    · rfl
    · exact ih _ _

theorem closed_nil : brackets.Closed [] := rfl

theorem Closed.of_append_left (hu : brackets.Closed u) (h : brackets.Closed (u ++ v)) :
    brackets.Closed v := by
  rwa [Closed, after?_append, hu] at h

/-- Reading the inside of a group passes over a text that closes no bracket of the group. -/
theorem body_append (h : brackets.after? depth quote t = some (d, q)) (rest : Text) :
    brackets.body depth quote (t ++ rest) =
      (brackets.body d q rest).map fun (inner, rest) => (t ++ inner, rest) := by
  induction t generalizing depth quote with
  | nil =>
    obtain ⟨rfl, rfl⟩ : depth = d ∧ quote = q := by simpa [after?] using h
    simp
  | cons c t ih =>
    rw [after?] at h
    split at h
    · cases h
    · next hc =>
      rw [List.cons_append, body, if_neg hc, ih h, Option.map_map]
      rfl

theorem Closed.body (h : brackets.Closed t) {close : Char} (hclose : brackets.closes close = true)
    (rest : Text) : brackets.body 0 .outside (t ++ close :: rest) = some (t, rest) := by
  rw [body_append h, Brackets.body, if_pos ⟨rfl, hclose, rfl⟩]
  simp

/-- What is inside a group leaves its reader where the group closes. -/
theorem after?_of_body {inner rest : Text} (h : brackets.body depth quote t = some (inner, rest)) :
    brackets.after? depth quote inner = some (0, .outside) := by
  induction t generalizing depth quote inner with
  | nil => cases h
  | cons c t ih =>
    rw [body] at h
    split at h
    · next hc =>
      obtain ⟨rfl, rfl⟩ : [] = inner ∧ t = rest := by simpa using h
      rw [after?, hc.1, hc.2.2]
    · next hc =>
      obtain ⟨⟨inner', rest'⟩, hbody, heq⟩ := Option.map_eq_some_iff.mp h
      obtain ⟨rfl, rfl⟩ := Prod.mk.inj heq
      rw [after?, if_neg hc]
      exact ih hbody

theorem closed_of_body {inner rest : Text} (h : brackets.body 0 .outside t = some (inner, rest)) :
    brackets.Closed inner := after?_of_body h

section Blank

variable (hblank : ∀ c, Unicode.isBlank c = true →
  brackets.opens c = false ∧ brackets.closes c = false)

include hblank

theorem depthAfter_of_isBlank {c : Char} (hc : Unicode.isBlank c = true) :
    brackets.depthAfter quote depth c = depth := by
  obtain ⟨hopens, hcloses⟩ := hblank c hc
  simp [depthAfter, hopens, hcloses]

theorem after?_of_blank (h : ∀ c ∈ t, Unicode.isBlank c = true) :
    brackets.after? depth .outside t = some (depth, .outside) := by
  induction t with
  | nil => rfl
  | cons c t ih =>
    have hc : Unicode.isBlank c = true := h c List.mem_cons_self
    have hnext : Quote.outside.next c = .outside := by
      simp [Quote.next, Quote.isMark_eq_false_of_isBlank hc]
    rw [after?, if_neg (by simp [(hblank c hc).2]), depthAfter_of_isBlank hblank hc, hnext]
    exact ih fun d hd => h d (List.mem_cons_of_mem _ hd)

/-- White space behind a place outside strings was reached outside strings. -/
theorem eq_of_after?_blank (hquote : quote.Proper) (ht : ∀ c ∈ t, Unicode.isBlank c = true)
    (h : brackets.after? depth quote t = some (d, .outside)) : depth = d ∧ quote = .outside := by
  induction t generalizing depth quote with
  | nil => simpa [after?] using h
  | cons c t ih =>
    have hc : Unicode.isBlank c = true := ht c List.mem_cons_self
    rw [after?, if_neg (by simp [(hblank c hc).2]), depthAfter_of_isBlank hblank hc] at h
    obtain ⟨hdepth, hnext⟩ := ih (hquote.next c) (fun d hd => ht d (List.mem_cons_of_mem _ hd)) h
    exact ⟨hdepth, Quote.eq_outside_of_next hquote hc hnext⟩

omit hblank in
theorem proper_of_after? (hquote : quote.Proper) (h : brackets.after? depth quote t = some (d, q)) :
    q.Proper := by
  induction t generalizing depth quote with
  | nil =>
    obtain ⟨-, rfl⟩ : depth = d ∧ quote = q := by simpa [after?] using h
    exact hquote
  | cons c t ih =>
    rw [after?] at h
    split at h
    · cases h
    · exact ih (hquote.next c) h

theorem Closed.trim (h : brackets.Closed t) : brackets.Closed (Text.trim t) := by
  obtain ⟨before, after, ht, hbefore, hafter⟩ := Text.exists_eq_trim t
  rw [ht, List.append_assoc] at h
  have hinner := Closed.of_append_left (after?_of_blank hblank hbefore) h
  rw [Closed, after?_append] at hinner
  obtain ⟨⟨d, q⟩, htrim, hrest⟩ := Option.bind_eq_some_iff.mp hinner
  have houtside : Quote.outside.Proper := trivial
  have hproper := proper_of_after? houtside htrim
  obtain ⟨rfl, rfl⟩ := eq_of_after?_blank hblank hproper hafter hrest
  exact htrim

end Blank

theorem braces_of_isBlank (c : Char) (h : Unicode.isBlank c = true) :
    braces.opens c = false ∧ braces.closes c = false := by
  have hopen : c ≠ '{' := Unicode.ne_of_isBlank h (by decide)
  have hclose : c ≠ '}' := Unicode.ne_of_isBlank h (by decide)
  simp [braces, hopen, hclose]

end Brackets

end Haml
