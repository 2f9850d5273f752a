import Haml.Program
import Haml.Text.Buffer

/-! The page while it is written. Output of a line of its own asks for a line break first; there is
none at the start of the page or of a preserved region, nor where a tag has taken the white space
away. Text in a preserved region is held back until the region closes, when its line breaks become
entities. -/

namespace Haml

/-- What is written, the preserved regions that are open with the innermost first, how deep lines
are indented, and whether the next line break is left out. -/
structure Layout where
  out : Buffer := {}
  regions : List Buffer := []
  depth : Nat := 0
  suppressBreak : Bool := false
  deriving DecidableEq, Repr

namespace Layout

/-- Where output goes to. -/
def current (l : Layout) : Buffer := l.regions.head?.getD l.out

def append (l : Layout) (text : Text) : Layout :=
  match l.regions with
  | [] => { l with out := l.out.append text }
  | region :: rest => { l with regions := region.append text :: rest }

/-- The indentation of a line: two spaces for each level, none in a preserved region. -/
def padding (l : Layout) : Text :=
  if l.regions.isEmpty then List.replicate (2 * l.depth) ' ' else []

def breakLine (l : Layout) : Layout :=
  if l.suppressBreak then { l with suppressBreak := false }
  else if l.current.isEmpty then l
  else l.append ('\n' :: l.padding)

/-- Every line of a text but the first, and but empty ones, moved to the right. -/
def padLines (padding : Text) (text : Text) : Text :=
  match text.splitOn '\n' with
  | [] => []
  | first :: rest =>
    first ++ rest.flatMap fun line =>
      '\n' :: (if line.isEmpty then [] else padding ++ line)

def writeLines (l : Layout) (text : Text) : Layout := l.append (padLines l.padding text)

def indent (l : Layout) : Layout := { l with depth := l.depth + 1 }

def dedent (l : Layout) : Layout := { l with depth := l.depth - 1 }

def suppress (l : Layout) : Layout := { l with suppressBreak := true }

def write (l : Layout) (text : Text) : Flow → Layout
  | .inline => l.append text
  | .line => l.breakLine.writeLines text
  | .opening => (l.breakLine.writeLines text).indent
  | .closing => l.dedent.breakLine.writeLines text

def openRegion (l : Layout) : Layout := { l with regions := {} :: l.regions }

/-- Closes the innermost region: its text, line breaks preserved, goes to what is around it. -/
def closeRegion (l : Layout) : Layout :=
  match l.regions with
  | [] => l
  | region :: rest => { l with regions := rest }.append (Entity.preserve region.text)

def onlyIf (l : Layout) (condition : Bool) (change : Layout → Layout) : Layout :=
  if condition then change l else l

/-- An opening tag. What is inside it stands on lines of its own, indented, unless the element is
inline or the white space inside it is taken away. -/
def openTag (l : Layout) (name attributes : Text) (flags : TagFlags) : Layout :=
  let l := l.onlyIf flags.nukeOuter suppress
  let l := l.breakLine.append ('<' :: name ++ attributes ++ ['>'])
  let l := l.onlyIf flags.preserve openRegion
  l.onlyIf (!flags.inline) (if flags.nukeInner then suppress else indent)

/-- A closing tag. -/
def closeTag (l : Layout) (name : Text) (flags : TagFlags) : Layout :=
  let l := l.onlyIf flags.preserve closeRegion
  let l := l.onlyIf (!flags.inline) fun l =>
    (if flags.nukeInner then l.suppress else l.dedent).breakLine
  let l := l.append ('<' :: '/' :: name ++ ['>'])
  l.onlyIf flags.nukeOuter suppress

/-- A tag that closes itself. -/
def selfCloseTag (l : Layout) (name attributes : Text) (nukeOuter : Bool) (format : Format) :
    Layout :=
  let l := l.onlyIf nukeOuter suppress
  let l := l.breakLine.append ('<' :: name ++ attributes ++ format.selfCloseSuffix)
  l.onlyIf nukeOuter suppress

/-- The text with every open region closed. -/
def closed (l : Layout) : Text :=
  match l.regions with
  | [] => l.out.text
  | region :: rest =>
    l.out.text ++ Entity.preserve
      (rest.foldl (fun inner outer => outer.text ++ Entity.preserve inner) region.text)

/-- A text ended by a line feed, unless it is empty. -/
def endLine (text : Text) : Text :=
  if text.isEmpty || text.getLast? == some '\n' then text else text ++ ['\n']

/-- The finished page. -/
def finish (l : Layout) : Text := endLine l.closed

end Layout

end Haml
