import Haml.Text.Basic

/-! Options of a template: the output format, how evaluated output is treated, the quote around
attribute values, and the tags that close themselves or keep their white space. -/

namespace Haml

inductive Format
  | xhtml
  | html4
  | html5
  deriving DecidableEq, Repr

namespace Format

def name : Format → Text
  | xhtml => "xhtml"
  | html4 => "html4"
  | html5 => "html5"

/-- The format with a name exactly as written. -/
def ofName? (name : Text) : Option Format := [xhtml, html4, html5].find? (·.name == name)

/-- What is said of a name that no format has. -/
def unknownMessage (text : Text) : Text :=
  "unknown format `" ++ Text.lowerAscii text ++ "`, expected xhtml, html4 or html5"

/-- The format with a name in any case. -/
def read (text : Text) : Except Text Format :=
  match ofName? (Text.lowerAscii text) with
  | some f => .ok f
  | none => .error (unknownMessage text)

def read? (text : Text) : Option Format := (read text).toOption

def isHtml : Format → Bool
  | xhtml => false
  | _ => true

/-- The end of a tag that closes itself. -/
def selfCloseSuffix (f : Format) : Text := if f.isHtml then ">" else " />"

end Format

/-- A set of tag names, kept in alphabetical order without repetition. -/
structure TagSet where
  tags : List Text
  deriving DecidableEq, Repr

namespace TagSet

def ofList (tags : List Text) : TagSet := ⟨(Text.sort tags).eraseDups⟩

def contains (s : TagSet) (tag : Text) : Bool := s.tags.contains tag

end TagSet

structure Options where
  format : Format := .xhtml
  escapeHtml : Bool := false
  suppressEval : Bool := false
  attrWrapper : Char := '\''
  autoclose : TagSet :=
    .ofList ["meta", "img", "link", "br", "hr", "input", "area", "param", "col", "base"]
  preserve : TagSet := .ofList ["textarea", "pre"]
  deriving DecidableEq, Repr

namespace Options

def isAutoclose (o : Options) (tag : Text) : Bool := o.autoclose.contains tag

def isPreserve (o : Options) (tag : Text) : Bool := o.preserve.contains tag

end Options

end Haml
