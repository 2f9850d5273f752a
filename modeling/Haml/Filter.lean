import Haml.Entries
import Haml.Options
import Haml.Text.Entity

/-! Filters, the named transforms of a block of text, and registries of them. A registry holds one
filter for a name, the one registered last. -/

namespace Haml

/-- A transform of text under options, which may fail with a message. -/
abbrev Filter := Text → Options → Except Text Text

structure Registry where
  filters : List (Text × Filter)

namespace Registry

def empty : Registry := ⟨[]⟩

def register (r : Registry) (name : Text) (filter : Filter) : Registry :=
  ⟨insertEntry name filter r.filters⟩

def get? (r : Registry) (name : Text) : Option Filter := r.filters.lookup name

def contains (r : Registry) (name : Text) : Bool := (r.get? name).isSome

/-- The registered names in alphabetical order. -/
def names (r : Registry) : List Text := Text.sort (r.filters.map Prod.fst)

end Registry

namespace Filter

/-- Every line that is not empty moved to the right by two spaces for each level. -/
def indent (levels : Nat) (text : Text) : Text :=
  Text.join ['\n'] <| (Text.lines text).map fun line =>
    if line.isEmpty then [] else List.replicate (2 * levels) ' ' ++ line

def plain : Filter := fun text _ => .ok text

def escaped : Filter := fun text _ => .ok (Entity.escape text)

def preserve : Filter := fun text _ => .ok (Entity.preserve text)

def cdata : Filter := fun text _ => .ok ("<![CDATA[\n" ++ indent 1 text ++ "\n]]>")

/-- Text within a tag that names its media type. XHTML hides it in a section of character data,
whose marks are put into comments; the newest format needs no media type. -/
def embedded (tag mediaType openMark closeMark : Text) : Filter := fun text o =>
  let typed := '<' :: tag ++ " type=" ++ o.attrWrapper :: mediaType ++ [o.attrWrapper, '>', '\n']
  let closing := "\n</" ++ tag ++ ['>']
  .ok <| match o.format with
    | .xhtml =>
      typed ++ "  " ++ openMark ++ '\n' :: indent 2 text ++ "\n  " ++ closeMark ++ closing
    | .html4 => typed ++ indent 1 text ++ closing
    | .html5 => '<' :: tag ++ ['>', '\n'] ++ indent 1 text ++ closing

def javascript : Filter := embedded "script" "text/javascript" "//<![CDATA[" "//]]>"

def css : Filter := embedded "style" "text/css" "/*<![CDATA[*/" "/*]]>*/"

end Filter

def Registry.builtin : Registry :=
  ⟨[("plain", Filter.plain), ("escaped", Filter.escaped), ("preserve", Filter.preserve),
    ("cdata", Filter.cdata), ("javascript", Filter.javascript), ("css", Filter.css)]⟩

end Haml
