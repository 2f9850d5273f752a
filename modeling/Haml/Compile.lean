import Haml.Document
import Haml.Doctype
import Haml.Filter
import Haml.Program

/-! Compiling documents. Each node becomes a run of operations, those of its children in between.
Where nothing is to be evaluated, code is left out of the program altogether, and a filter whose
text is literal is applied at once. -/

namespace Haml

inductive CompileError
  | read (e : ReadError)
  | unknownDoctype (word : Text) (line : Nat)
  | unregisteredFilter (name : Text) (line : Nat)
  | filter (name : Text) (message : Text) (line : Nat)
  deriving DecidableEq, Repr

namespace CompileError

def line : CompileError → Nat
  | read e => e.line
  | unknownDoctype _ line => line
  | unregisteredFilter _ line => line
  | filter _ _ line => line

def message : CompileError → Text
  | read e => e.message
  | unknownDoctype word line =>
    "Syntax error at line " ++ Text.ofNat line ++ ": unknown doctype `" ++ word ++ "`"
  | unregisteredFilter name line =>
    "Syntax error at line " ++ Text.ofNat line ++ ": unregistered filter `:" ++ name ++ "`"
  | filter name message line =>
    "Filter error at line " ++ Text.ofNat line ++ " in `:" ++ name ++ "`: " ++ message

end CompileError

namespace Compile

/-- The operations of scanned text. The first one takes the flow, the others follow inline. -/
def segments (o : Options) (escape : Escape) (line : Nat) (flow : Flow) : List Segment → List Op
  | [] => []
  | .literal text :: rest => .act (.literal text flow) :: segments o escape line .inline rest
  | .expression code :: rest =>
    if o.suppressEval then segments o escape line flow rest
    else
      .act (.expr code (escape.resolve o.escapeHtml) false flow line) ::
        segments o escape line .inline rest

/-- The operation of a script without a block. -/
def script (o : Options) (line : Nat) (flow : Flow) (s : Script) : Op :=
  if o.suppressEval then .act (.literal [] .inline)
  else .act (.expr s.code (s.escape.resolve o.escapeHtml) s.preserve flow line)

/-- A block around the operations of its body. Where nothing is evaluated the body goes with it. -/
def block (o : Options) (statement : BlockStatement) (body : Except CompileError (List Op)) :
    Except CompileError (List Op) :=
  if o.suppressEval then .ok []
  else body.map fun body => .enter statement :: body ++ [.exit]

/-- The operations of what a tag has on its own line. -/
def content (o : Options) (line : Nat) : Content → List Op
  | .none => []
  | .text written => segments o .configured line .inline written
  | .script s => [script o line .inline s]

/-- Does an element close itself? It does if it is written so, or if its tag may and it is empty. -/
def closesItself (o : Options) (e : Element) (childless : Bool) : Bool :=
  e.selfClosing || (e.content = .none && childless && o.isAutoclose e.tag)

/-- An element around the operations of its children. -/
def element (o : Options) (line : Nat) (e : Element) (childless : Bool)
    (body : Except CompileError (List Op)) : Except CompileError (List Op) :=
  let attributes := Attributes.resolve e o.suppressEval
  let preserve := o.isPreserve e.tag
  let flags : TagFlags := ⟨e.nukeOuter, e.nukeInner || preserve, childless, preserve⟩
  if closesItself o e childless then
    .ok [.act (.selfClose e.tag attributes flags.nukeOuter flags.nukeInner line)]
  else body.map fun body =>
    .act (.openTag e.tag attributes flags line) :: content o line e.content ++ body ++
      [.act (.closeTag e.tag flags)]

/-- What a comment is written between. -/
def commentMarks : Option Text → Text × Text
  | none => ("<!--", "-->")
  | some condition => ("<!--[" ++ condition ++ "]>", "<![endif]-->")

/-- A comment: its text, or the operations of its children, between its marks. -/
def comment (condition text : Option Text) (childless : Bool)
    (body : Except CompileError (List Op)) : Except CompileError (List Op) :=
  let (first, last) := commentMarks condition
  match text with
  | some text => .ok [.act (.literal (first ++ ' ' :: text ++ ' ' :: last) .line)]
  | none =>
    if childless then .ok [.act (.literal (first ++ last) .line)]
    else body.map fun body =>
      .act (.literal first .opening) :: body ++ [.act (.literal last .closing)]

/-- A filter: applied now if its text is literal, left to rendering if not. -/
def filter (o : Options) (r : Registry) (line : Nat) (name : Text) (written : List Segment) :
    Except CompileError (List Op) :=
  match r.get? name with
  | none => .error (.unregisteredFilter name line)
  | some apply =>
    let written := if o.suppressEval then written.filter Segment.isLiteral else written
    match Segment.literalText? written with
    | none => .ok [.act (.filter name written line)]
    | some text =>
      match apply text o with
      | .error message => .error (.filter name message line)
      | .ok [] => .ok []
      | .ok output => .ok [.act (.literal output .line)]

def doctype (o : Options) (line : Nat) (args : Text) : Except CompileError (List Op) :=
  match Doctype.resolve args o with
  | .error word => .error (.unknownDoctype word line)
  | .ok none => .ok []
  | .ok (some text) => .ok [.act (.doctype text)]

/-- The operations of an item, given those of its children. -/
def item (o : Options) (r : Registry) (line : Nat) (childless : Bool)
    (body : Except CompileError (List Op)) : Item → Except CompileError (List Op)
  | .element e => element o line e childless body
  | .text written escape => .ok (segments o escape line .line written)
  | .script s =>
    if childless then .ok [script o line .line s]
    else block o ⟨s.code, false, some ⟨s.escape.resolve o.escapeHtml, s.preserve⟩, line⟩ body
  | .silent code => block o ⟨code, continuesBlock code, none, line⟩ body
  | .comment condition text => comment condition text childless body
  | .filter name written => filter o r line name written
  | .doctype args => doctype o line args

mutual

def node (o : Options) (r : Registry) : Node → Except CompileError (List Op)
  | .mk line i children => item o r line children.isEmpty (nodes o r children) i

def nodes (o : Options) (r : Registry) : List Node → Except CompileError (List Op)
  | [] => .ok []
  | n :: rest => do
    let first ← node o r n
    let more ← nodes o r rest
    return first ++ more

end

end Compile

/-- Reads and compiles a source. -/
def Program.compile (source : Text) (o : Options) (r : Registry) : Except CompileError Program :=
  match Document.read source with
  | .error e => .error (.read e)
  | .ok forest => (Compile.nodes o r forest).map fun ops => ⟨ops, o⟩

end Haml
