import Haml.Proofs.Text.Decode
import Haml.Proofs.Text.Solid

/-! The markup in a text: its angle brackets, in order. Escaped text has none, and a text keeps its
markup when its line breaks are preserved. -/

namespace Haml

namespace Text

/-- Is this a character that begins or ends a tag? -/
def isBracket (c : Char) : Bool := c == '<' || c == '>'

def markup (t : Text) : Text := t.filter isBracket

theorem markup_nil : markup [] = [] := rfl

theorem markup_append (s t : Text) : markup (s ++ t) = markup s ++ markup t :=
  List.filter_append s t

theorem markup_cons (c : Char) (t : Text) : markup (c :: t) = markup [c] ++ markup t :=
  markup_append [c] t

theorem markup_cons_of_not {c : Char} (hc : isBracket c = false) (t : Text) :
    markup (c :: t) = markup t :=
  List.filter_cons_of_neg (by simp [hc])

theorem markup_singleton_of_not {c : Char} (hc : isBracket c = false) : markup [c] = [] :=
  markup_cons_of_not hc []

theorem markup_flatMap {α : Type} (f : α → Text) (items : List α) :
    markup (items.flatMap f) = items.flatMap fun item => markup (f item) :=
  List.filter_flatMap ..

theorem markup_eq_nil {t : Text} (hopen : '<' ∉ t) (hclose : '>' ∉ t) : markup t = [] := by
  refine List.filter_eq_nil_iff.mpr fun c hc => ?_
  have hopen : c ≠ '<' := ne_of_mem_of_not_mem hc hopen
  have hclose : c ≠ '>' := ne_of_mem_of_not_mem hc hclose
  simp [isBracket, hopen, hclose]

end Text

namespace Entity

open Text

theorem markup_escape (t : Text) : markup (escape t) = [] :=
  markup_eq_nil (not_mem_escape (by decide) t) (not_mem_escape (by decide) t)

theorem markup_encodeBreaks (t : Text) : markup (encodeBreaks t) = markup t := by
  have hbreak (rest : Text) : markup (lineBreak ++ rest) = markup rest := by
    rw [markup_append]
    rfl
  fun_induction encodeBreaks t with
  | case1 => rfl
  | case2 rest ih =>
    rw [hbreak, ih, markup_cons_of_not (by decide), markup_cons_of_not (by decide)]
  | case3 rest ih => rw [hbreak, ih, markup_cons_of_not (by decide)]
  | case4 c rest _ _ ih => rw [markup_cons, ih, ← markup_cons]

theorem markup_dropFinal {c : Char} (hc : isBracket c = false) (t : Text) :
    markup (dropFinal c t) = markup t := by
  unfold dropFinal
  split
  · next hlast =>
    obtain ⟨init, rfl⟩ := List.getLast?_eq_some_iff.mp hlast
    rw [List.dropLast_concat, markup_append, markup_singleton_of_not hc, List.append_nil]
  · rfl

theorem markup_preserve (t : Text) : markup (preserve t) = markup t := by
  rw [preserve, markup_encodeBreaks, markup_dropFinal (by decide), markup_dropFinal (by decide)]

end Entity

end Haml
