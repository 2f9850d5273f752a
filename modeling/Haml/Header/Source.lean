import Haml.Header.Basic
import Haml.Line.Marker

/-! Attribute sources from the text of a value: a quoted string is literal or interpolated, keywords
and numbers are literal, and everything else is code. -/

namespace Haml

/-- A number: digits, underscores and at most one point, begun by a digit and not ended by the
point, with an optional minus sign. -/
def isNumber (text : Text) : Bool :=
  let digits := match text with
    | '-' :: rest => rest
    | _ => text
  match digits with
  | [] => false
  | first :: _ =>
    first.isDigit && digits.all (fun c => c.isDigit || c == '.' || c == '_') &&
      digits.count '.' ≤ 1 && digits.getLast? != some '.'

theorem ne_of_isDigit {c d : Char} (hc : c.isDigit = true) (hd : d.isDigit = false) : c ≠ d := by
  rintro rfl
  rw [hc] at hd
  cases hd

/-- A number is a digit, and digits, underscores and points behind it, with a sign or without. -/
theorem exists_digits_of_isNumber {text : Text} (h : isNumber text = true) :
    ∃ first rest, first.isDigit = true ∧ (∀ c ∈ rest, c.isDigit = true ∨ c = '.' ∨ c = '_') ∧
      (text = first :: rest ∨ text = '-' :: first :: rest) := by
  unfold isNumber at h
  split at h
  · next tail =>
    cases tail with
    | nil => cases h
    | cons first rest =>
      simp only [Bool.and_eq_true, List.all_eq_true, Bool.or_eq_true, beq_iff_eq, or_assoc,
        List.forall_mem_cons] at h
      exact ⟨first, rest, h.1.1.1, h.1.1.2.2, .inr rfl⟩
  · cases text with
    | nil => cases h
    | cons first rest =>
      simp only [Bool.and_eq_true, List.all_eq_true, Bool.or_eq_true, beq_iff_eq, or_assoc,
        List.forall_mem_cons] at h
      exact ⟨first, rest, h.1.1.1, h.1.1.2.2, .inl rfl⟩

namespace Literal

/-- The literal that unquoted text stands for. -/
def ofWord? (word : Text) : Option Literal :=
  if word = "true".toList then some (bool true)
  else if word = "false".toList then some (bool false)
  else if word = "nil".toList then some nil
  else if isNumber word then some (number word)
  else none

end Literal

namespace AttributeSource

/-- The source for the body of a quoted string. Escapes are undone in its literal text only. -/
def ofQuoted (line : Nat) (name : Text) (mark : Char) (body : Text) :
    Except ReadError AttributeSource :=
  if Segment.opensIn body then
    match Segment.scan line body with
    | .error e => .error (.lex e)
    | .ok segments => .ok <| interpolated name <| segments.map fun
        | .literal text => .literal (Quote.unescape mark text)
        | .expression code => .expression code
  else .ok (fixed name (.str (Quote.unescape mark body)))

/-- The source for unquoted text. -/
def ofWord (name : Text) (word : Text) : AttributeSource :=
  match Literal.ofWord? word with
  | some value => fixed name value
  | none => dynamic name word

/-- The source for the text of a value, which has no white space around it. -/
def ofValue (line : Nat) (name : Text) (value : Text) : Except ReadError AttributeSource :=
  if value.isEmpty then .error (.invalid (.missingValue name) line)
  else if Quote.opensIn value then
    match Quote.read value with
    | some (mark, body, []) => ofQuoted line name mark body
    | _ => .ok (ofWord name value)
  else .ok (ofWord name value)

end AttributeSource

end Haml
