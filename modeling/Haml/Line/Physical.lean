import Haml.Text.Basic

/-! The lines of a source as they stand in it, numbered from one. -/

namespace Haml

structure PhysicalLine where
  number : Nat
  text : Text
  deriving DecidableEq, Repr

namespace PhysicalLine

def isIndentMark (c : Char) : Bool := c == ' ' || c == '\t'

/-- The leading run of spaces and tabs. -/
def indent (raw : PhysicalLine) : Text := raw.text.takeWhile isIndentMark

/-- What follows the leading run, without white space at its end. -/
def content (raw : PhysicalLine) : Text := Text.trimEnd (raw.text.dropWhile isIndentMark)

def isBlank (raw : PhysicalLine) : Bool := Text.isBlank raw.text

/-- Texts as lines numbered from a given number on. -/
def numbered : Nat → List Text → List PhysicalLine
  | _, [] => []
  | n, text :: rest => ⟨n, text⟩ :: numbered (n + 1) rest

def ofSource (source : Text) : List PhysicalLine := numbered 1 (Text.lines source)

theorem length_numbered (n : Nat) (texts : List Text) :
    (numbered n texts).length = texts.length := by
  induction texts generalizing n with
  | nil => rfl
  | cons text rest ih => simp [numbered, ih]

end PhysicalLine

end Haml
