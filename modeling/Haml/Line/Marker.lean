import Haml.Text.Basic
import Haml.Unicode.Letter

/-! What a line is, told by its first characters, and the rest of the line that belongs to it. -/

namespace Haml

inductive Marker
  | element
  | div
  | script
  | escapedScript
  | unescapedScript
  | preservedScript
  | escapedText
  | unescapedText
  | silent
  | silentComment
  | comment
  | doctype
  | filter
  | plain
  deriving DecidableEq, Repr

/-- Characters of tag names, classes and ids. -/
def isNameChar (c : Char) : Bool := Unicode.isAlphanumeric c || c == '_' || c == '-'

namespace Marker

/-- The marker of a line and what follows it. A leading backslash makes the rest plain text; right
before an opening `#\x7b` it stays, so that the text reads as literal. -/
def classify : Text → Marker × Text
  | '\\' :: '#' :: '{' :: rest => (plain, '\\' :: '#' :: '{' :: rest)
  | '\\' :: rest => (plain, rest)
  | '%' :: rest => (element, rest)
  | '=' :: rest => (script, rest)
  | '~' :: rest => (preservedScript, rest)
  | '&' :: '=' :: rest => (escapedScript, rest)
  | '&' :: ' ' :: rest => (escapedText, rest)
  | '!' :: '!' :: '!' :: rest => (doctype, rest)
  | '!' :: '=' :: rest => (unescapedScript, rest)
  | '!' :: ' ' :: rest => (unescapedText, rest)
  | '-' :: '#' :: rest => (silentComment, rest)
  | '-' :: rest => (silent, rest)
  | '/' :: rest => (comment, rest)
  | first :: second :: rest =>
    if (first = '.' || first = '#') && isNameChar second then (div, first :: second :: rest)
    else if first = ':' && Unicode.isAlphabetic second then (filter, second :: rest)
    else (plain, first :: second :: rest)
  | text => (plain, text)

end Marker

end Haml
