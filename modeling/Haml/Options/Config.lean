import Haml.Json.Read
import Haml.Options

/-! Options from JSON. An object sets options by key, in any order and each at most once, and keys
that name no option are passed over; an array sets them by position. What is not set keeps its
default. -/

namespace Haml

/-- What a configuration can set. -/
inductive Setting
  | format
  | escapeHtml
  | suppressEval
  | attrWrapper
  | autoclose
  | preserve
  deriving DecidableEq, Repr

namespace Setting

/-- All settings, in the order of their positions. -/
def all : List Setting := [format, escapeHtml, suppressEval, attrWrapper, autoclose, preserve]

def key : Setting → Text
  | format => "format"
  | escapeHtml => "escapeHtml"
  | suppressEval => "suppressEval"
  | attrWrapper => "attrWrapper"
  | autoclose => "autoclose"
  | preserve => "preserve"

def ofKey? (key : Text) : Option Setting := all.find? (·.key == key)

/-- A format is its name, or an object that has the name as its only key, with null. -/
def format? : Json → Option Format
  | .string (some name) => Format.ofName? name
  | .object [(some name, .null)] => Format.ofName? name
  | _ => none

def tag? : Json → Option Text
  | .string text => text
  | _ => none

def tags? : Json → Option TagSet
  | .array items => (items.mapM tag?).map TagSet.ofList
  | _ => none

/-- The options with one of them set, unless the value is none for it. -/
def set? (o : Options) : Setting → Json → Option Options
  | format, value => (format? value).map fun f => { o with format := f }
  | escapeHtml, .bool b => some { o with escapeHtml := b }
  | suppressEval, .bool b => some { o with suppressEval := b }
  | attrWrapper, .string (some [c]) => some { o with attrWrapper := c }
  | autoclose, value => (tags? value).map fun tags => { o with autoclose := tags }
  | preserve, value => (tags? value).map fun tags => { o with preserve := tags }
  | _, _ => none

end Setting

namespace Options

/-- Sets options by key. `seen` are those set before. -/
def setFields? (o : Options) (seen : List Setting) : List (Option Text × Json) → Option Options
  | [] => some o
  | (none, _) :: _ => none
  | (some key, value) :: rest =>
    match Setting.ofKey? key with
    | none => setFields? o seen rest
    | some setting =>
      if seen.contains setting then none
      else (Setting.set? o setting value).bind (setFields? · (setting :: seen) rest)

/-- Sets options by position. -/
def setItems? (o : Options) : List Setting → List Json → Option Options
  | _, [] => some o
  | [], _ :: _ => none
  | setting :: settings, value :: rest =>
    (Setting.set? o setting value).bind (setItems? · settings rest)

def ofJson? : Json → Option Options
  | .object fields => setFields? {} [] fields
  | .array items => setItems? {} Setting.all items
  | _ => none

/-- The options that a configuration text sets. -/
def read? (t : Text) : Option Options := (Json.read? t).bind ofJson?

end Options

end Haml
