import Haml.Header.Basic
import Haml.Unicode.Letter

/-! Documents as forests. An item is what one line declares; a node is an item with the nodes that
are indented below it. An outline lists the items of a forest in order, each with its depth, and
`forest` rebuilds the forest from it. -/

namespace Haml

/-- What a tag has on its own line. -/
inductive Content
  | none
  | text (segments : List Segment)
  | script (script : Script)
  deriving DecidableEq, Repr

structure Element where
  tag : Text
  classes : List Text
  id : Option Text
  attributes : List AttributeSource
  reference : Option Reference
  nukeOuter : Bool
  nukeInner : Bool
  selfClosing : Bool
  content : Content
  deriving DecidableEq, Repr

/-- What a line declares. A comment has a condition where it is meant for some readers only. -/
inductive Item
  | element (element : Element)
  | text (segments : List Segment) (escape : Escape)
  | script (script : Script)
  | silent (code : Text)
  | comment (condition : Option Text) (text : Option Text)
  | filter (name : Text) (segments : List Segment)
  | doctype (args : Text)
  deriving DecidableEq, Repr

namespace Item

/-- Why an item takes no children, if it takes none. -/
def refusal : Item → Option Unnestable
  | element e =>
    if e.selfClosing then some .selfClosingTag
    else if e.content ≠ .none then some (.inlineContent e.tag)
    else none
  | comment _ (some _) => some .commentText
  | text _ _ => some .plainText
  | doctype _ => some .doctype
  | filter _ _ => some .filter
  | _ => none

end Item

/-- Words that continue the block of the statement before. -/
def midBlockKeywords : List Text := ["else", "elsif", "when", "rescue", "ensure"]

/-- Does a statement start with a word that continues a block? -/
def continuesBlock (code : Text) : Bool :=
  midBlockKeywords.contains (code.takeWhile fun c => Unicode.isAlphanumeric c || c == '_')

/-- An item on a line, with its children. -/
inductive Node
  | mk (line : Nat) (item : Item) (children : List Node)

namespace Node

def line : Node → Nat
  | mk line _ _ => line

def item : Node → Item
  | mk _ item _ => item

def children : Node → List Node
  | mk _ _ children => children

end Node

/-- An item at a depth, on a line. -/
structure Entry where
  depth : Nat
  line : Nat
  item : Item
  deriving DecidableEq, Repr

namespace Entry

/-- Puts an item in front of nodes that follow it: those that are deeper become its children. -/
def attach (entry : Entry) (nodes : List (Nat × Node)) : List (Nat × Node) :=
  let deeper := fun (node : Nat × Node) => decide (entry.depth < node.1)
  (entry.depth, .mk entry.line entry.item ((nodes.takeWhile deeper).map Prod.snd)) ::
    nodes.dropWhile deeper

/-- The forest of an outline. -/
def forest (outline : List Entry) : List Node := (outline.foldr attach []).map Prod.snd

end Entry

end Haml
