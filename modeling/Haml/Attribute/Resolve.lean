import Haml.Attribute.Bag
import Haml.Node

/-! The attributes of an element, settled as far as no code has to run. Literal sources go into the
bag up to the first part that needs the evaluator; from there on they keep their place among the
parts, so that the order of writing stays as it is. -/

namespace Haml

/-- A contribution left for rendering. -/
inductive AttributePart
  | object (code : Text) (qualifier : Option Qualifier)
  | literal (name : Text) (value : Value)
  | interpolated (name : Text) (segments : List Segment)
  | expr (name : Text) (code : Text)
  | hash (code : Text)

/-- The attributes known beforehand, and the parts to apply on top of them in order. -/
structure Attributes where
  base : Bag := {}
  parts : List AttributePart := []

namespace AttributePart

def isLiteral : AttributePart → Bool
  | literal _ _ => true
  | _ => false

/-- The part of a source. Where nothing is evaluated, code contributes nothing. -/
def ofSource? (suppressEval : Bool) : AttributeSource → Option AttributePart
  | .fixed name value => some (literal name value.value)
  | .interpolated name segments =>
    if suppressEval then some (literal name (.str (Segment.literalText segments)))
    else some (interpolated name segments)
  | .dynamic name code => if suppressEval then none else some (expr name code)
  | .hash code => if suppressEval then none else some (hash code)

/-- Writes a literal part to a bag; other parts write nothing. -/
def fold (b : Bag) : AttributePart → Bag
  | literal name value => b.set name value
  | _ => b

end AttributePart

namespace Attributes

def isStatic (a : Attributes) : Bool := a.parts.isEmpty

/-- The bag of an element's classes and id. -/
def shorthand (e : Element) : Bag :=
  let classed := e.classes.foldl Bag.addClass {}
  match e.id with
  | none => classed
  | some id => classed.addId id

/-- All contributions of an element besides its classes and id, in order. -/
def contributions (e : Element) (suppressEval : Bool) : List AttributePart :=
  (match e.reference with
    | none => []
    | some r => if suppressEval then [] else [.object r.code r.qualifier]) ++
    e.attributes.filterMap (AttributePart.ofSource? suppressEval)

def resolve (e : Element) (suppressEval : Bool) : Attributes :=
  let parts := contributions e suppressEval
  { base := (parts.takeWhile AttributePart.isLiteral).foldl AttributePart.fold (shorthand e)
    parts := parts.dropWhile AttributePart.isLiteral }

end Attributes

end Haml
