import Haml.Segment

/-! What a tag header declares: the tag, its classes and id, attribute sources, an object reference,
flags, and what follows on the line. -/

namespace Haml

/-- Whether evaluated output is escaped. -/
inductive Escape
  | configured
  | force
  | raw
  deriving DecidableEq, Repr

/-- Settles the choice where the configuration has its say. -/
def Escape.resolve (e : Escape) (configuration : Bool) : Bool :=
  match e with
  | configured => configuration
  | force => true
  | raw => false

/-- Code whose value is written out. A preserved value keeps its line breaks as entities. -/
structure Script where
  code : Text
  escape : Escape
  preserve : Bool
  deriving DecidableEq, Repr

/-- A literal attribute value. Numbers keep their spelling. -/
inductive Literal
  | str (text : Text)
  | number (spelling : Text)
  | bool (b : Bool)
  | nil
  deriving DecidableEq, Repr

/-- Where an attribute comes from: a literal, a quoted text with code in it, code for one value, or
code for a whole hash. -/
inductive AttributeSource
  | fixed (name : Text) (value : Literal)
  | interpolated (name : Text) (segments : List Segment)
  | dynamic (name : Text) (code : Text)
  | hash (code : Text)
  deriving DecidableEq, Repr

/-- The second part of an object reference. -/
inductive Qualifier
  | literal (text : Text)
  | code (code : Text)
  deriving DecidableEq, Repr

structure Reference where
  code : Text
  qualifier : Option Qualifier
  deriving DecidableEq, Repr

/-- What follows a header on its line. -/
inductive Tail
  | none
  | text (text : Text)
  | script (script : Script)
  deriving DecidableEq, Repr

/-- A tag header. `nukeOuter` takes the white space around the element, `nukeInner` the white space
inside it. -/
structure Header where
  tag : Text
  classes : List Text
  id : Option Text
  attributes : List AttributeSource
  reference : Option Reference
  nukeOuter : Bool
  nukeInner : Bool
  selfClosing : Bool
  tail : Tail
  deriving DecidableEq, Repr

/-- A header may stop inside a group, which further lines can close. -/
inductive HeaderError
  | unclosed
  | invalid (e : ReadError)
  deriving DecidableEq, Repr

end Haml
