import Haml.Header.AttributeList
import Haml.Header.Hash

/-! Reading a tag header. Its parts come in a fixed order: the tag name, classes and ids, groups,
flags, a closing slash, the tail. Each part has a reader that returns what it left. -/

namespace Haml

/-- A class or an id written behind the tag name. -/
inductive Shorthand
  | className (name : Text)
  | id (name : Text)
  deriving DecidableEq, Repr

namespace Shorthand

def className? : Shorthand → Option Text
  | className name => some name
  | id _ => none

def id? : Shorthand → Option Text
  | className _ => none
  | id name => some name

/-- Classes and ids up to the first character that opens neither. -/
def readAll (text : Text) : Except SyntaxFault (List Shorthand × Text) :=
  match text with
  | [] => .ok ([], [])
  | opener :: rest =>
    if opener = '.' ∨ opener = '#' then
      let name := rest.takeWhile isNameChar
      if name.isEmpty then .error .missingShorthandName
      else
        have : (rest.dropWhile isNameChar).length ≤ rest.length :=
          (List.dropWhile_suffix _).length_le
        (readAll (rest.dropWhile isNameChar)).map fun (more, rest) =>
          ((if opener = '.' then className name else id name) :: more, rest)
    else .ok ([], opener :: rest)
  termination_by text.length

end Shorthand

namespace Reference

/-- The second part of a reference: a symbol or a text between two equal characters is literal, all
else is code. -/
def readQualifier (text : Text) : Qualifier :=
  match text with
  | ':' :: name => if name.all isNameChar then .literal name else ofQuoted text
  | _ => ofQuoted text
where
  ofQuoted (text : Text) : Qualifier :=
    match Hash.readString text with
    | some (body, []) => .literal body
    | _ => .code text

/-- Does a text begin with a character of several bytes that closes it as a quotation mark does?
The inside of such a text is cut out one byte behind its start, within that character. -/
def splitsMark (text : Text) : Bool :=
  (Quote.read text).any fun (mark, _, _) => 1 < mark.utf8Size

/-- The reference with the given inside: an object's code and at most one qualifier. -/
def read (line : Nat) (body : Text) : Except ReadError Reference :=
  match (splitCommas 0 .outside body).map Text.trim with
  | [[]] => .error (.invalid .malformedReference line)
  | [code] => .ok ⟨code, none⟩
  | [[], _] => .error (.invalid .malformedReference line)
  | [code, qualifier] =>
    if splitsMark qualifier then .error (.invalid .splitMark line)
    else .ok ⟨code, some (readQualifier qualifier)⟩
  | _ => .error (.invalid .malformedReference line)

end Reference

/-- The groups of a header read so far. There is at most one of each kind, and the reference is the
last. -/
structure Groups where
  attributes : List AttributeSource := []
  reference : Option Reference := none
  hash : Bool := false
  list : Bool := false
  deriving DecidableEq, Repr

namespace Groups

/-- Takes in the group with the given opening bracket and inside. -/
def add (line : Nat) (groups : Groups) (opener : Char) (body : Text) : Except ReadError Groups :=
  if opener = '[' then
    if groups.reference.isSome then .error (.invalid .duplicateReference line)
    else (Reference.read line body).map fun reference =>
      { groups with reference := some reference }
  else if groups.reference.isSome then .error (.invalid .attributesAfterReference line)
  else if opener = '{' then
    if groups.hash then .error (.invalid .duplicateHash line)
    else (Hash.read line body).map fun sources =>
      { groups with attributes := groups.attributes ++ sources, hash := true }
  else
    if groups.list then .error (.invalid .duplicateAttributeList line)
    else (AttributeList.read line body).map fun sources =>
      { groups with attributes := groups.attributes ++ sources, list := true }

/-- Reads groups up to the first character that opens none. -/
def readAll (line : Nat) (groups : Groups) (text : Text) : Except HeaderError (Groups × Text) :=
  match text with
  | [] => .ok (groups, [])
  | opener :: rest =>
    if Brackets.all.opens opener then
      match h : Brackets.all.body 0 .outside rest with
      | none => .error .unclosed
      | some (body, after) =>
        match groups.add line opener body with
        | .error e => .error (.invalid e)
        | .ok groups =>
          have : after.length ≤ rest.length := Nat.le_of_lt (Brackets.length_lt_of_body h)
          readAll line groups after
    else .ok (groups, opener :: rest)
  termination_by text.length

section ReadAll

variable {line : Nat} {groups : Groups} {opener : Char} {rest body after : Text}

theorem readAll_unclosed (hopens : Brackets.all.opens opener = true)
    (hbody : Brackets.all.body 0 .outside rest = none) :
    readAll line groups (opener :: rest) = .error .unclosed := by
  rw [readAll, if_pos hopens]
  split
  · rfl
  · simp_all

theorem readAll_cons (hopens : Brackets.all.opens opener = true)
    (hbody : Brackets.all.body 0 .outside rest = some (body, after)) :
    readAll line groups (opener :: rest) =
      ((groups.add line opener body).mapError HeaderError.invalid).bind fun groups =>
        readAll line groups after := by
  rw [readAll, if_pos hopens]
  split
  · simp_all
  · next body' after' hbody' =>
    obtain ⟨rfl, rfl⟩ := Prod.mk.inj (Option.some.inj (hbody.symm.trans hbody'))
    cases groups.add line opener body <;> rfl

end ReadAll

end Groups

namespace Tail

/-- A tail of code, which must not be blank. -/
def ofCode (code : Text) (escape : Escape) (preserve : Bool) : Except SyntaxFault Tail :=
  let code := Text.trim code
  if code.isEmpty then .error .missingCode else .ok (script ⟨code, escape, preserve⟩)

def read : Text → Except SyntaxFault Tail
  | [] => .ok none
  | '&' :: '=' :: code => ofCode code .force false
  | '!' :: '=' :: code => ofCode code .raw false
  | '=' :: code => ofCode code .configured false
  | '~' :: code => ofCode code .configured true
  | first :: rest =>
    if first = ' ' ∨ first = '\t' then
      let content := Text.trim rest
      .ok (if content.isEmpty then none else text content)
    else .error (.strayTail (first :: rest))

end Tail

namespace Header

def isTagChar (c : Char) : Bool := isNameChar c || c == ':'

def isFlag (c : Char) : Bool := c == '<' || c == '>'

/-- The tag name: written out, or `div` where a class or an id comes first. -/
def readTag (implicitDiv : Bool) (text : Text) : Except SyntaxFault (Text × Text) :=
  if implicitDiv then .ok ("div", text)
  else if (text.takeWhile isTagChar).isEmpty then .error .missingTagName
  else .ok (text.takeWhile isTagChar, text.dropWhile isTagChar)

/-- A closing slash, if there is one. -/
def readSlash : Text → Bool × Text
  | '/' :: rest => (true, rest)
  | rest => (false, rest)

/-- What follows flags and slash. Classes, ids and groups are out of place there, and a closed tag
has no tail. -/
def readTail (flagged selfClosing : Bool) (text : Text) : Except SyntaxFault Tail :=
  if text.head?.any fun c => c == '.' || c == '#' || Brackets.all.opens c then
    .error (if flagged || selfClosing then .groupAfterFlags else .strayGroup)
  else do
    let tail ← Tail.read text
    if selfClosing && tail ≠ .none then .error .contentInSelfClosing
    else .ok tail

/-- A fault of this line as the error of a header. -/
def atLine {α : Type} (line : Nat) : Except SyntaxFault α → Except HeaderError α
  | .ok a => .ok a
  | .error fault => .error (.invalid (.invalid fault line))

/-- Reads a header from the text behind the percent sign, or from the first class or id where the
tag is left out. -/
def read (implicitDiv : Bool) (line : Nat) (text : Text) : Except HeaderError Header := do
  let (tag, text) ← atLine line (readTag implicitDiv text)
  let (shorthands, text) ← atLine line (Shorthand.readAll text)
  let (groups, text) ← Groups.readAll line {} text
  let flags := text.takeWhile isFlag
  let (selfClosing, text) := readSlash (text.dropWhile isFlag)
  let tail ← atLine line (readTail (!flags.isEmpty) selfClosing text)
  return {
    tag
    classes := shorthands.filterMap Shorthand.className?
    id := (shorthands.filterMap Shorthand.id?).getLast?
    attributes := groups.attributes
    reference := groups.reference
    nukeOuter := flags.contains '>'
    nukeInner := flags.contains '<'
    selfClosing
    tail }

end Header

end Haml
