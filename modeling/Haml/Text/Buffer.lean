import Haml.Text.Basic

/-! A text that grows at its end. It is kept in reverse, so that growing costs no more than what is
added; `text` is the view that everything else is said of. -/

namespace Haml

structure Buffer where
  reversed : Text := []
  deriving DecidableEq, Repr

namespace Buffer

def text (b : Buffer) : Text := b.reversed.reverse

def append (b : Buffer) (t : Text) : Buffer := ⟨t.reverseAux b.reversed⟩

def isEmpty (b : Buffer) : Bool := b.reversed.isEmpty

@[simp] theorem text_append (b : Buffer) (t : Text) : (b.append t).text = b.text ++ t := by
  simp [text, append, List.reverseAux_eq]

theorem isEmpty_eq (b : Buffer) : b.isEmpty = b.text.isEmpty := by
  simp [isEmpty, text]

theorem eq_of_text_eq {a b : Buffer} (h : a.text = b.text) : a = b := by
  cases a
  cases b
  simpa [text] using h

end Buffer

end Haml
