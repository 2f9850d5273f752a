import Haml.Text.Basic

/-! Entities. Escaping replaces the five characters that mean something in markup; preserving
replaces line breaks, so that indentation cannot reach them. -/

namespace Haml.Entity

/-- The entity of a character, or the character itself. -/
def ofChar (c : Char) : Text :=
  if c = '&' then "&amp;"
  else if c = '<' then "&lt;"
  else if c = '>' then "&gt;"
  else if c = '"' then "&quot;"
  else if c = '\'' then "&#x27;"
  else [c]

def escape (t : Text) : Text := t.flatMap ofChar

/-- What stands for a line break in preserved text. -/
def lineBreak : Text := "&#x000A;"

/-- Every line break replaced by its entity. -/
def encodeBreaks : Text → Text
  | [] => []
  | '\r' :: '\n' :: rest => lineBreak ++ encodeBreaks rest
  | '\n' :: rest => lineBreak ++ encodeBreaks rest
  | c :: rest => c :: encodeBreaks rest

/-- A text without the given character at its end, once. -/
def dropFinal (c : Char) (t : Text) : Text := if t.getLast? = some c then t.dropLast else t

/-- The text with a line ending at its end dropped and every other line break as an entity. -/
def preserve (t : Text) : Text := encodeBreaks (dropFinal '\r' (dropFinal '\n' t))

theorem escape_nil : escape [] = [] := rfl

theorem escape_cons (c : Char) (t : Text) : escape (c :: t) = ofChar c ++ escape t := rfl

theorem escape_append (s t : Text) : escape (s ++ t) = escape s ++ escape t :=
  List.flatMap_append

end Haml.Entity
