import Haml.Text.Basic

/-! What can be wrong with a source. Each cause has its own constructor and `message` gives its
wording; a `ReadError` adds the line where reading stopped. -/

namespace Haml

/-- Faults of lines and of the text in them. -/
inductive LexFault
  | mixedIndentation
  | inconsistentIndentation (unit found : Nat)
  | unterminatedMultiline
  | unterminatedInterpolation
  deriving DecidableEq, Repr

def LexFault.message : LexFault → Text
  | mixedIndentation => "indentation can't use both tabs and spaces"
  | inconsistentIndentation unit found =>
    "inconsistent indentation: " ++ Text.ofNat found ++ " is not a multiple of the " ++
      Text.ofNat unit ++ "-character indentation unit"
  | unterminatedMultiline => "multiline continuation starting here is never terminated"
  | unterminatedInterpolation => "unterminated interpolation: `#\x7b` has no closing `\x7d`"

structure LexError where
  fault : LexFault
  line : Nat
  deriving DecidableEq, Repr

def LexError.message (e : LexError) : Text :=
  "Lexer error at line " ++ Text.ofNat e.line ++ ": " ++ e.fault.message

/-- What a line was nested in that takes no children. -/
inductive Unnestable
  | selfClosingTag
  | inlineContent (tag : Text)
  | commentText
  | plainText
  | doctype
  | filter
  deriving DecidableEq, Repr

def Unnestable.message : Unnestable → Text
  | selfClosingTag => "nesting within a self-closing tag is illegal"
  | inlineContent tag =>
    "content can't be both given on the same line as %" ++ tag ++ " and nested within it"
  | commentText => "nesting within a comment that already has content is illegal"
  | plainText => "nesting within plain text is illegal"
  | doctype => "nesting within a header command is illegal"
  | filter => "nesting within a filter is illegal"

/-- Faults of lines that scan but have no place in a document. `splitMark` is one that nothing
reports: a text is cut inside a character, and reading breaks off. -/
inductive SyntaxFault
  | missingTagName
  | missingShorthandName
  | attributesAfterReference
  | duplicateHash
  | duplicateAttributeList
  | duplicateReference
  | malformedReference
  | splitMark
  | missingValue (name : Text)
  | unterminatedValue (name : Text)
  | strayListCharacter (c : Char)
  | groupAfterFlags
  | strayGroup
  | strayTail (tail : Text)
  | contentInSelfClosing
  | missingCode
  | missingStatement
  | unbalancedHeader
  | invalidFilterName (name : Text)
  | unterminatedCondition
  | indentedStart
  | indentedTooDeep (levels : Nat)
  | nestedIn (parent : Unnestable)
  deriving DecidableEq, Repr

def SyntaxFault.message : SyntaxFault → Text
  | missingTagName => "Invalid tag: a tag name must follow `%`"
  | missingShorthandName => "Illegal element: classes and ids must have values"
  | attributesAfterReference =>
    "Attribute expressions must come before the object reference"
  | duplicateHash => "Duplicate attribute hash"
  | duplicateAttributeList => "Duplicate HTML-style attribute list"
  | duplicateReference => "Duplicate object reference"
  | malformedReference => "Object reference takes an object and an optional prefix"
  | splitMark => "byte index 1 is not a char boundary"
  | missingValue name => "Attribute `" ++ name ++ "` has no value"
  | unterminatedValue name => "Unterminated value for attribute `" ++ name ++ "`"
  | strayListCharacter c => "Invalid attribute list: unexpected `" ++ [c] ++ "`"
  | groupAfterFlags =>
    "Illegal element: classes, ids and attributes must come before `<`, `>` and `/`"
  | strayGroup => "Illegal element: unexpected attribute group"
  | strayTail tail => "Illegal element: unexpected `" ++ tail ++ "` after tag header"
  | contentInSelfClosing => "Self-closing tags can't have content"
  | missingCode => "There's no code to evaluate"
  | missingStatement => "There's no code for `-` to run"
  | unbalancedHeader => "Unbalanced brackets in tag header"
  | invalidFilterName name => "Invalid filter name `:" ++ name ++ "`"
  | unterminatedCondition => "Unterminated conditional comment"
  | indentedStart => "Indenting at the beginning of the document is illegal"
  | indentedTooDeep levels =>
    "The line was indented " ++ Text.ofNat levels ++ " levels deeper than the previous line"
  | nestedIn parent => "Illegal nesting: " ++ parent.message

/-- Why a source could not be read, and the line it was noticed on. -/
inductive ReadError
  | lex (e : LexError)
  | invalid (fault : SyntaxFault) (line : Nat)
  deriving DecidableEq, Repr

namespace ReadError

def line : ReadError → Nat
  | lex e => e.line
  | invalid _ line => line

def message : ReadError → Text
  | lex e => e.message
  | invalid fault line => "Syntax error at line " ++ Text.ofNat line ++ ": " ++ fault.message

end ReadError

end Haml
