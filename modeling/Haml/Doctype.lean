import Haml.Options

/-! Document type declarations. A directive names a version and a type, or `XML` and an encoding;
what it stands for depends on the output format. -/

namespace Haml.Doctype

def publicId (name location : Text) : Text :=
  "<!DOCTYPE html PUBLIC \"" ++ name ++ "\" \"" ++ location ++ "\">"

def xhtmlTransitional : Text :=
  publicId "-//W3C//DTD XHTML 1.0 Transitional//EN"
    "http://www.w3.org/TR/xhtml1/DTD/xhtml1-transitional.dtd"

def xhtmlStrict : Text :=
  publicId "-//W3C//DTD XHTML 1.0 Strict//EN"
    "http://www.w3.org/TR/xhtml1/DTD/xhtml1-strict.dtd"

def xhtmlFrameset : Text :=
  publicId "-//W3C//DTD XHTML 1.0 Frameset//EN"
    "http://www.w3.org/TR/xhtml1/DTD/xhtml1-frameset.dtd"

def xhtml11 : Text :=
  publicId "-//W3C//DTD XHTML 1.1//EN" "http://www.w3.org/TR/xhtml11/DTD/xhtml11.dtd"

def xhtmlBasic : Text :=
  publicId "-//W3C//DTD XHTML Basic 1.1//EN"
    "http://www.w3.org/TR/xhtml-basic/xhtml-basic11.dtd"

def xhtmlMobile : Text :=
  publicId "-//WAPFORUM//DTD XHTML Mobile 1.2//EN"
    "http://www.openmobilealliance.org/tech/DTD/xhtml-mobile12.dtd"

def xhtmlRdfa : Text :=
  publicId "-//W3C//DTD XHTML+RDFa 1.0//EN" "http://www.w3.org/MarkUp/DTD/xhtml-rdfa-1.dtd"

def html4Transitional : Text :=
  publicId "-//W3C//DTD HTML 4.01 Transitional//EN" "http://www.w3.org/TR/html4/loose.dtd"

def html4Strict : Text :=
  publicId "-//W3C//DTD HTML 4.01//EN" "http://www.w3.org/TR/html4/strict.dtd"

def html4Frameset : Text :=
  publicId "-//W3C//DTD HTML 4.01 Frameset//EN" "http://www.w3.org/TR/html4/frameset.dtd"

def html5 : Text := "<!DOCTYPE html>"

/-- The versions a directive can name. -/
inductive Version
  | v10
  | v11
  | v5
  deriving DecidableEq, Repr

namespace Version

def text : Version → Text
  | v10 => "1.0"
  | v11 => "1.1"
  | v5 => "5"

def ofText? (word : Text) : Option Version := [v10, v11, v5].find? (·.text == word)

end Version

/-- The types a directive can name. -/
inductive Kind
  | transitional
  | strict
  | frameset
  | basic
  | mobile
  | rdfa
  deriving DecidableEq, Repr

namespace Kind

def name : Kind → Text
  | transitional => "transitional"
  | strict => "strict"
  | frameset => "frameset"
  | basic => "basic"
  | mobile => "mobile"
  | rdfa => "rdfa"

/-- The type with a name in any case. -/
def ofText? (word : Text) : Option Kind :=
  [transitional, strict, frameset, basic, mobile, rdfa].find? (·.name == Text.lowerAscii word)

end Kind

/-- The declaration of a version and a type, if the format has it. -/
def declaration? : Format → Version → Option Kind → Option Text
  | .xhtml, .v10, none => some xhtmlTransitional
  | .xhtml, .v10, some .transitional => some xhtmlTransitional
  | .xhtml, .v10, some .strict => some xhtmlStrict
  | .xhtml, .v10, some .frameset => some xhtmlFrameset
  | .xhtml, .v10, some .rdfa => some xhtmlRdfa
  | .xhtml, .v10, some .basic => some xhtmlBasic
  | .xhtml, .v10, some .mobile => some xhtmlMobile
  | .xhtml, .v11, none => some xhtml11
  | .xhtml, .v11, some .basic => some xhtmlBasic
  | .xhtml, .v11, some .mobile => some xhtmlMobile
  | .xhtml, .v5, none => some html5
  | .html4, .v10, none => some html4Transitional
  | .html4, .v10, some .transitional => some html4Transitional
  | .html4, .v10, some .strict => some html4Strict
  | .html4, .v10, some .frameset => some html4Frameset
  | .html5, _, _ => some html5
  | _, _, _ => none

/-- The line that names the XML version and the encoding. -/
def xmlProlog (quote : Char) (encoding : Text) : Text :=
  "<?xml version=" ++ quote :: "1.0".toList ++ quote :: " encoding=".toList ++
    quote :: encoding ++ quote :: " ?>".toList

def isXml (word : Text) : Bool := Text.lowerAscii word == "xml".toList

/-- An XML directive with the given words after its first: an encoding and no more. HTML has no such
line. -/
def resolveXml (o : Options) : List Text → Except Text (Option Text)
  | _ :: extra :: _ => .error extra
  | words =>
    .ok (if o.format.isHtml then none
      else some (xmlProlog o.attrWrapper (words.head?.getD "utf-8")))

/-- A version with the words after it: a type and no more. The word that makes it unknown is the
type, or the version where no type is given. -/
def resolveVersion (o : Options) (version : Version) : List Text → Except Text (Option Text)
  | _ :: extra :: _ => .error extra
  | [word] =>
    match Kind.ofText? word with
    | none => .error word
    | some kind =>
      match declaration? o.format version kind with
      | none => .error word
      | some text => .ok (some text)
  | [] =>
    match declaration? o.format version none with
    | none => .error version.text
    | some text => .ok (some text)

/-- The line that a directive stands for, if it stands for one, or the word that is unknown. -/
def resolve (args : Text) (o : Options) : Except Text (Option Text) :=
  match Text.words args with
  | [] => resolveVersion o .v10 []
  | word :: rest =>
    if isXml word then resolveXml o rest
    else
      match Version.ofText? word with
      | some version => resolveVersion o version rest
      | none => resolveVersion o .v10 (word :: rest)

end Haml.Doctype
