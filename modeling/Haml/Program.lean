import Haml.Attribute.Resolve

/-! Compiled templates. A program is a list of operations: actions, which write output, and the two
ends of blocks, whose bodies the evaluator runs. -/

namespace Haml

/-- How a piece of output sits among the rest: right behind what is written, on a line of its own,
or on a line of its own that begins or ends an indented part. -/
inductive Flow
  | inline
  | line
  | opening
  | closing
  deriving DecidableEq, Repr

/-- How the value of a block is written. -/
structure BlockOutput where
  escape : Bool
  preserve : Bool
  deriving DecidableEq, Repr

/-- A statement with a block. It continues the block before where it starts with a word such as
`else`; it has an output where its value is written. -/
structure BlockStatement where
  code : Text
  continues : Bool
  output : Option BlockOutput
  line : Nat
  deriving DecidableEq, Repr

/-- What both tags of an element share. Content of an inline element stays on the line of the tag;
content of a preserved one keeps its white space. -/
structure TagFlags where
  nukeOuter : Bool
  nukeInner : Bool
  inline : Bool
  preserve : Bool
  deriving DecidableEq, Repr

inductive Action
  | literal (text : Text) (flow : Flow)
  | expr (code : Text) (escape preserve : Bool) (flow : Flow) (line : Nat)
  | openTag (name : Text) (attributes : Attributes) (flags : TagFlags) (line : Nat)
  | closeTag (name : Text) (flags : TagFlags)
  | selfClose (name : Text) (attributes : Attributes) (nukeOuter nukeInner : Bool) (line : Nat)
  | filter (name : Text) (segments : List Segment) (line : Nat)
  | doctype (text : Text)

inductive Op
  | act (action : Action)
  | enter (statement : BlockStatement)
  | exit

/-- Operations in document order, with the options they were compiled under. -/
structure Program where
  ops : List Op
  options : Options

end Haml
