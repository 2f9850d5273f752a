import Haml.Options
import Haml.Text.Entity
import Haml.Unicode.Case
import Haml.Unicode.Letter
import Haml.Value

/-! The attributes of one tag. Classes are united, ids are joined, and any other attribute has the
value written last; a map written to `data` becomes one attribute for each of its leaves. Rendering
sorts by name, so that the order of writing is not seen. -/

namespace Haml

/-- The name of a type in small letters, words joined by underscores. A capital behind a small
letter or a digit starts a word, and so does anything that is no letter or number. `before` is the
last character read, and `out` what is written, in reverse. -/
def normalizeFrom (before : Option Char) (out : Text) : Text → Text
  | [] => (out.dropWhile (· == '_')).reverse
  | c :: rest =>
    let out :=
      if Unicode.isUppercase c then
        let startsWord := before.any fun p => Unicode.isLowercase p || p.isDigit
        (Unicode.lower c).reverse ++ (if startsWord then '_' :: out else out)
      else if Unicode.isAlphanumeric c then c :: out
      else if out.isEmpty || out.head? == some '_' then out
      else '_' :: out
    normalizeFrom (some c) out rest

def normalizeTypeName (name : Text) : Text := normalizeFrom none [] name

namespace Value

mutual

/-- The class names in a value: the words of its text, item by item for a list. -/
def classNames : Value → List Text
  | nil => []
  | bool false => []
  | list items => itemClassNames items
  | other => Text.words other.text

def itemClassNames : List Value → List Text
  | [] => []
  | item :: rest => item.classNames ++ itemClassNames rest

end

/-- The id in a value: its text, or the texts of a list's true items joined. -/
def idText : Value → Text
  | nil => []
  | bool false => []
  | list items => Text.join ['_'] ((items.filter isTruthy).map text)
  | other => other.text

mutual

/-- A value under a name, or the leaves of a map under the names that lead to them. Underscores in
keys become hyphens. -/
def leaves (name : Text) : Value → List (Text × Value)
  | map entries => entryLeaves name entries
  | other => [(name, other)]

def entryLeaves (name : Text) : List (Text × Value) → List (Text × Value)
  | [] => []
  | (key, value) :: rest =>
    value.leaves (name ++ '-' :: Text.substitute '_' ['-'] key) ++ entryLeaves name rest

end

end Value

structure Bag where
  classes : List Text := []
  ids : List Text := []
  entries : List (Text × Value) := []

namespace Bag

def isEmpty (b : Bag) : Bool := b.classes.isEmpty && b.ids.isEmpty && b.entries.isEmpty

/-- The ids joined, if there is one. -/
def id? (b : Bag) : Option Text := if b.ids.isEmpty then none else some (Text.join ['_'] b.ids)

def get? (b : Bag) (name : Text) : Option Value := b.entries.lookup name

/-- Adds a class unless it is there. -/
def addClassName (b : Bag) (name : Text) : Bag :=
  if b.classes.contains name then b else { b with classes := b.classes ++ [name] }

def addClassNames (b : Bag) (names : List Text) : Bag := names.foldl addClassName b

/-- Adds the classes in a text. -/
def addClass (b : Bag) (classes : Text) : Bag := b.addClassNames (Text.words classes)

/-- Adds an id unless it is empty. -/
def addId (b : Bag) (id : Text) : Bag := if id.isEmpty then b else { b with ids := b.ids ++ [id] }

def insert (b : Bag) (name : Text) (value : Value) : Bag :=
  { b with entries := insertEntry name value b.entries }

def insertAll (b : Bag) (entries : List (Text × Value)) : Bag :=
  entries.foldl (fun b (name, value) => b.insert name value) b

/-- Writes one attribute. -/
def set (b : Bag) (name : Text) (value : Value) : Bag :=
  if name = "class".toList then b.addClassNames value.classNames
  else if name = "id".toList then b.addId value.idText
  else if name = "data".toList then b.insertAll (value.leaves name)
  else b.insert name value

/-- Writes every entry of a hash, in order. -/
def merge (b : Bag) (entries : List (Text × Value)) : Bag :=
  entries.foldl (fun b (name, value) => b.set name value) b

/-- Adds the class and the id of an object: its type's name, behind the qualifier if there is one,
and the same with the identity. -/
def addObject (b : Bag) (o : Object) (qualifier : Option Text) : Bag :=
  let typeName := normalizeTypeName o.typeName
  let name := match qualifier with
    | none => typeName
    | some [] => typeName
    | some qualifier => qualifier ++ '_' :: typeName
  (b.addClass name).addId (name ++ '_' :: o.identity.getD [])

/-- What the bag contributes to a tag, by name. -/
def pairs (b : Bag) : List (Text × Value) :=
  let classes := if b.classes.isEmpty then none else some (Text.join [' '] b.classes)
  (classes.map fun text => ("class".toList, Value.str text)).toList ++
    (b.id?.map fun id => ("id".toList, Value.str id)).toList ++ b.entries

/-- One attribute. True is the attribute's own name, alone where the format allows it; false and nil
are no attribute. -/
def renderPair (o : Options) (name : Text) : Value → Text
  | .nil => []
  | .bool false => []
  | .bool true =>
    if o.format.isHtml then ' ' :: name
    else ' ' :: name ++ '=' :: o.attrWrapper :: name ++ [o.attrWrapper]
  | value =>
    ' ' :: name ++ '=' :: o.attrWrapper :: Entity.escape value.text ++ [o.attrWrapper]

/-- The attributes as they stand in a tag, sorted by name. -/
def render (b : Bag) (o : Options) : Text :=
  (b.pairs.mergeSort fun p q => Text.le p.1 q.1).flatMap fun (name, value) =>
    renderPair o name value

end Bag

end Haml
