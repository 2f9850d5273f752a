import Haml.Decimal.Read
import Haml.Decimal.Shortest
import Haml.Entries
import Haml.Header.Basic

/-! Values of evaluated code. Text, truth and equality are what the rest of the library asks of
them; objects are opaque but for a type name and an identity. -/

namespace Haml

/-- An object, described by the name of its type and by what tells it from others of the type, if
anything does. The handle says which object it is. -/
structure Object where
  typeName : Text
  identity : Option Text
  handle : Nat
  deriving DecidableEq, Repr

def Object.text (o : Object) : Text :=
  match o.identity with
  | some id => o.typeName ++ ':' :: id
  | none => o.typeName

/-- A value. The entries of a map have distinct keys and stand in the order of their first
insertion. -/
inductive Value
  | nil
  | bool (b : Bool)
  | int (n : Int)
  | float (x : Float)
  | str (text : Text)
  | list (items : List Value)
  | map (entries : List (Text × Value))
  | object (o : Object)

namespace Value

/-- A map of entries written in order. -/
def ofEntries (entries : List (Text × Value)) : Value :=
  map (entries.foldl (fun done (key, value) => insertEntry key value done) [])

def isNil : Value → Bool
  | nil => true
  | _ => false

/-- All values but nil and false. -/
def isTruthy : Value → Bool
  | nil => false
  | bool b => b
  | _ => true

mutual

/-- The text of a value: nothing for nil, items with spaces between them, entries in braces. -/
def text : Value → Text
  | nil => []
  | bool b => Text.ofBool b
  | int n => Text.ofInt n
  | float x => Decimal.ofFloat x
  | str t => t
  | list items => Text.join [' '] (itemTexts items)
  | map entries => "\x7b" ++ Text.join [',', ' '] (entryTexts entries) ++ "\x7d"
  | object o => o.text

def itemTexts : List Value → List Text
  | [] => []
  | item :: rest => item.text :: itemTexts rest

def entryTexts : List (Text × Value) → List Text
  | [] => []
  | (key, value) :: rest => (key ++ ':' :: ' ' :: value.text) :: entryTexts rest

end

mutual

/-- Equality: floats by their numbers, maps whatever the order of their entries, objects by
handle. -/
def equals : Value → Value → Bool
  | nil, nil => true
  | bool a, bool b => a == b
  | int a, int b => a == b
  | float a, float b => a == b
  | str a, str b => a == b
  | list as, list bs => itemsEqual as bs
  | map as, map bs => as.length == bs.length && entriesFound as bs
  | object a, object b => a.handle == b.handle
  | _, _ => false

def itemsEqual : List Value → List Value → Bool
  | [], [] => true
  | a :: as, b :: bs => a.equals b && itemsEqual as bs
  | _, _ => false

/-- Is every entry equal to the one with its key on the other side? -/
def entriesFound : List (Text × Value) → List (Text × Value) → Bool
  | [], _ => true
  | (key, a) :: rest, bs =>
    (match bs.lookup key with
      | some b => a.equals b
      | none => false) && entriesFound rest bs

end

/-- The value of a number's spelling, underscores aside: a whole number, else a float, else the
spelling itself as text. -/
def ofSpelling (spelling : Text) : Value :=
  let digits := spelling.filter (· != '_')
  match Decimal.readInt? digits with
  | some n => int n
  | none =>
    match Decimal.readFloat? digits with
    | some x => float x
    | none => str spelling

end Value

def Literal.value : Literal → Value
  | str text => .str text
  | number spelling => .ofSpelling spelling
  | bool b => .bool b
  | nil => .nil

end Haml
