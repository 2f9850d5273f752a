import Haml.Json.Token

/-! JSON values and their reading. Tokens are taken one by one, with the arrays and objects that are
open held in a stack of frames; what may come next is part of the state. -/

namespace Haml

/-- A JSON value. Strings and keys whose escapes make no text are kept as such, for a reader may
never look at them. Fields stand in the order they are written, repeated ones included. -/
inductive Json
  | null
  | bool (b : Bool)
  | number (spelling : Text)
  | string (text : Option Text)
  | array (items : List Json)
  | object (fields : List (Option Text × Json))

namespace Json

/-- An open array or object: what it holds so far, in reverse, and for an object the key that waits
for its value. -/
inductive Frame
  | array (items : List Json)
  | object (fields : List (Option Text × Json)) (key : Option Text)

/-- What may come next. -/
inductive Awaits
  | value
  | firstItem
  | firstKey
  | key
  | colon
  | separator
  | nothing
  deriving DecidableEq, Repr

structure Reading where
  frames : List Frame
  awaits : Awaits
  result : Option Json

namespace Reading

def start : Reading := ⟨[], .value, none⟩

/-- Puts a finished value where it belongs. -/
def put (value : Json) : List Frame → Reading
  | [] => ⟨[], .nothing, some value⟩
  | .array items :: rest => ⟨.array (value :: items) :: rest, .separator, none⟩
  | .object fields key :: rest => ⟨.object ((key, value) :: fields) key :: rest, .separator, none⟩

/-- Starts a value. -/
def startValue (frames : List Frame) : Token → Option Reading
  | .openArray => some ⟨.array [] :: frames, .firstItem, none⟩
  | .openObject => some ⟨.object [] none :: frames, .firstKey, none⟩
  | .null => some (put .null frames)
  | .bool b => some (put (.bool b) frames)
  | .number spelling => some (put (.number spelling) frames)
  | .string text => some (put (.string text) frames)
  | _ => none

/-- Takes a token. -/
def step (r : Reading) (token : Token) : Option Reading :=
  match r.awaits, token, r.frames with
  | .value, token, frames => startValue frames token
  | .firstItem, .closeArray, .array _ :: rest => some (put (.array []) rest)
  | .firstItem, token, frames => startValue frames token
  | .firstKey, .closeObject, .object _ _ :: rest => some (put (.object []) rest)
  | .firstKey, .string key, .object fields _ :: rest =>
    some ⟨.object fields key :: rest, .colon, none⟩
  | .key, .string key, .object fields _ :: rest => some ⟨.object fields key :: rest, .colon, none⟩
  | .colon, .colon, frames => some ⟨frames, .value, none⟩
  | .separator, .comma, .array items :: rest => some ⟨.array items :: rest, .value, none⟩
  | .separator, .comma, .object fields key :: rest => some ⟨.object fields key :: rest, .key, none⟩
  | .separator, .closeArray, .array items :: rest => some (put (.array items.reverse) rest)
  | .separator, .closeObject, .object fields _ :: rest => some (put (.object fields.reverse) rest)
  | _, _, _ => none

def run (r : Reading) : List Token → Option Json
  | [] => r.result
  | token :: rest => (r.step token).bind (run · rest)

end Reading

/-- The value that a text writes. -/
def read? (t : Text) : Option Json := (Token.readAll t).bind Reading.start.run

end Json

end Haml
