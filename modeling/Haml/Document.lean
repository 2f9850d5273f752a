import Haml.Header.Read
import Haml.Indentation
import Haml.Line.Logical
import Haml.Node

/-! Reading a document. Each logical line is measured, checked against the items that are open above
it and read as an item; headers, filters and silent comments take further physical lines with them.
What is read is an outline, and the document is its forest. -/

namespace Haml

/-- Reads a header, adding lines to it while a group is open. -/
def Header.readLines (implicitDiv : Bool) (line : Nat) (text : Text) (raws : List PhysicalLine) :
    Except ReadError (Header × List PhysicalLine) :=
  match Header.read implicitDiv line text, raws with
  | .ok header, raws => .ok (header, raws)
  | .error (.invalid e), _ => .error e
  | .error .unclosed, [] => .error (.invalid .unbalancedHeader line)
  | .error .unclosed, raw :: rest =>
    Header.readLines implicitDiv line (text ++ ' ' :: Text.trim raw.text) rest

theorem Header.suffix_of_readLines {implicitDiv : Bool} {line : Nat} {text : Text}
    {raws rest : List PhysicalLine} {header : Header}
    (h : Header.readLines implicitDiv line text raws = .ok (header, rest)) : rest <:+ raws := by
  induction raws generalizing text with
  | nil =>
    unfold readLines at h
    split at h <;> simp_all
  | cons raw raws ih =>
    unfold readLines at h
    split at h
    · simp_all
    · cases h
    · cases h
    · next heq =>
      obtain ⟨rfl, rfl⟩ := List.cons.inj heq
      exact (ih h).trans (List.suffix_cons _ _)

namespace PhysicalLine

/-- Does a line belong to the block below a line with the given indentation? -/
def isBelow (indent : Text) (raw : PhysicalLine) : Bool :=
  raw.isBlank || indent.length < raw.indent.length

/-- The lines of a block without the blank ones at its end. -/
def dropBlankEnd (block : List PhysicalLine) : List PhysicalLine :=
  (block.reverse.dropWhile isBlank).reverse

/-- The indentation of the first line with content. -/
def base (block : List PhysicalLine) : Text :=
  ((block.find? fun raw => !raw.isBlank).map indent).getD []

/-- A line without the indentation of its block; one that lacks it loses all leading blanks. -/
def unindent (base : Text) (raw : PhysicalLine) : Text :=
  (base.isPrefixOf? raw.text).getD (Text.trimStart raw.text)

end PhysicalLine

namespace Item

def ofScript (line : Nat) (payload : Text) (escape : Escape) (preserve : Bool) :
    Except ReadError Item :=
  let code := Text.trim payload
  if code.isEmpty then .error (.invalid .missingCode line)
  else .ok (script ⟨code, escape, preserve⟩)

def ofText (line : Nat) (payload : Text) (escape : Escape) : Except ReadError Item :=
  match Segment.scan line payload with
  | .error e => .error (.lex e)
  | .ok segments => .ok (text segments escape)

def ofSilent (line : Nat) (payload : Text) : Except ReadError Item :=
  let code := Text.trim payload
  if code.isEmpty then .error (.invalid .missingStatement line) else .ok (silent code)

/-- The text of a comment, if it has any. -/
def commentText? (text : Text) : Option Text :=
  if (Text.trim text).isEmpty then none else some (Text.trim text)

def ofComment (line : Nat) : Text → Except ReadError Item
  | '[' :: rest =>
    match rest.dropWhile (· != ']') with
    | [] => .error (.invalid .unterminatedCondition line)
    | _ :: after =>
      .ok (comment (some (Text.trim (rest.takeWhile (· != ']')))) (commentText? after))
  | payload => .ok (comment none (commentText? payload))

def ofHeader (line : Nat) (header : Header) : Except ReadError Item := do
  let content ← match header.tail with
    | .none => pure Content.none
    | .script output => pure (Content.script output)
    | .text written =>
      match Segment.scan line written with
      | .error e => throw (.lex e)
      | .ok segments => pure (Content.text segments)
  return element {
    tag := header.tag
    classes := header.classes
    id := header.id
    attributes := header.attributes
    reference := header.reference
    nukeOuter := header.nukeOuter
    nukeInner := header.nukeInner
    selfClosing := header.selfClosing
    content }

def readElement (implicitDiv : Bool) (line : Nat) (payload : Text) (raws : List PhysicalLine) :
    Except ReadError (Option Item × List PhysicalLine) := do
  let (header, raws) ← Header.readLines implicitDiv line payload raws
  return (some (← ofHeader line header), raws)

/-- The segments of a filter's lines, joined by line feeds. Blank lines are empty. -/
def filterSegments (base : Text) : List PhysicalLine → Except LexError (List Segment)
  | [] => .ok []
  | raw :: rest => do
    let first ← if raw.isBlank then .ok [] else Segment.scan raw.number (raw.unindent base)
    let more ← filterSegments base rest
    return first ++ (if rest.isEmpty then more else .literal ['\n'] :: more)

def readFilter (line : Line) (payload : Text) (raws : List PhysicalLine) :
    Except ReadError (Option Item × List PhysicalLine) :=
  let name := Text.trim payload
  if name.isEmpty || !name.all isNameChar then
    .error (.invalid (.invalidFilterName name) line.number)
  else
    let below := PhysicalLine.isBelow line.indent
    let block := PhysicalLine.dropBlankEnd (raws.takeWhile below)
    match filterSegments (PhysicalLine.base block) block with
    | .error e => .error (.lex e)
    | .ok segments => .ok (some (filter name (Segment.merge segments)), raws.dropWhile below)

/-- The item that a line declares, if it declares one, and the physical lines it leaves. A silent
comment declares nothing and takes the block below it. -/
def read (line : Line) (raws : List PhysicalLine) :
    Except ReadError (Option Item × List PhysicalLine) :=
  let alone := fun (item : Except ReadError Item) => item.map fun item => (some item, raws)
  match Marker.classify line.text with
  | (.element, payload) => readElement false line.number payload raws
  | (.div, payload) => readElement true line.number payload raws
  | (.script, payload) => alone (ofScript line.number payload .configured false)
  | (.escapedScript, payload) => alone (ofScript line.number payload .force false)
  | (.unescapedScript, payload) => alone (ofScript line.number payload .raw false)
  | (.preservedScript, payload) => alone (ofScript line.number payload .configured true)
  | (.plain, payload) => alone (ofText line.number payload .configured)
  | (.escapedText, payload) => alone (ofText line.number payload .force)
  | (.unescapedText, payload) => alone (ofText line.number payload .raw)
  | (.silent, payload) => alone (ofSilent line.number payload)
  | (.silentComment, _) => .ok (none, raws.dropWhile (PhysicalLine.isBelow line.indent))
  | (.comment, payload) => alone (ofComment line.number payload)
  | (.doctype, payload) => alone (.ok (doctype (Text.trim payload)))
  | (.filter, payload) => readFilter line payload raws

theorem suffix_of_readElement {implicitDiv : Bool} {line : Nat} {payload : Text}
    {raws rest : List PhysicalLine} {item : Option Item}
    (h : readElement implicitDiv line payload raws = .ok (item, rest)) : rest <:+ raws := by
  unfold readElement at h
  cases hlines : Header.readLines implicitDiv line payload raws with
  | error e => simp [hlines, bind, Except.bind] at h
  | ok read =>
    cases hitem : ofHeader line read.1 with
    | error e => simp [hlines, hitem, bind, Except.bind] at h
    | ok element =>
      simp only [hlines, hitem, bind, Except.bind, pure, Except.pure, Except.ok.injEq,
        Prod.mk.injEq] at h
      exact h.2 ▸ Header.suffix_of_readLines hlines

theorem suffix_of_readFilter {line : Line} {payload : Text} {raws rest : List PhysicalLine}
    {item : Option Item} (h : readFilter line payload raws = .ok (item, rest)) : rest <:+ raws := by
  unfold readFilter at h
  dsimp only at h
  split at h
  · cases h
  · split at h
    · cases h
    · simp only [Except.ok.injEq, Prod.mk.injEq] at h
      exact h.2 ▸ List.dropWhile_suffix _

theorem suffix_of_read {line : Line} {raws rest : List PhysicalLine} {item : Option Item}
    (h : read line raws = .ok (item, rest)) : rest <:+ raws := by
  have alone {i : Except ReadError Item}
      (h : i.map (fun item => (some item, raws)) = .ok (item, rest)) : rest <:+ raws := by
    cases i with
    | error e => cases h
    | ok i =>
      simp only [Except.map, Except.ok.injEq, Prod.mk.injEq] at h
      exact h.2 ▸ List.suffix_rfl
  unfold read at h
  dsimp only at h
  split at h
  case h_1 => exact suffix_of_readElement h
  case h_2 => exact suffix_of_readElement h
  case h_11 =>
    simp only [Except.ok.injEq, Prod.mk.injEq] at h
    exact h.2 ▸ List.dropWhile_suffix _
  case h_14 => exact suffix_of_readFilter h
  all_goals exact alone h

end Item

/-- The items that are open where a line starts, the innermost first. -/
abbrev Path := List Item

/-- Closes items until a line of the given depth fits below the rest, the innermost of which must
take children. -/
def Path.enter (depth : Nat) (path : Path) : Except SyntaxFault Path :=
  if path.length < depth then
    .error (if path.isEmpty then .indentedStart else .indentedTooDeep (depth + 1 - path.length))
  else
    let path := path.drop (path.length - depth)
    match path.head?.bind Item.refusal with
    | some parent => .error (.nestedIn parent)
    | none => .ok path

namespace Outline

/-- Reads the outline of physical lines, with what is known of the unit of indentation and the items
that are open. -/
def readFrom (known : Indentation) (path : Path) (raws : List PhysicalLine) :
    Except ReadError (List Entry) :=
  match hline : Line.next? raws with
  | none => .ok []
  | some (.error e, _) => .error (.lex e)
  | some (.ok line, rest) =>
    match known.depth line.indent with
    | (.error fault, _) => .error (.lex ⟨fault, line.number⟩)
    | (.ok depth, known) =>
      match path.enter depth with
      | .error fault => .error (.invalid fault line.number)
      | .ok path =>
        match hitem : Item.read line rest with
        | .error e => .error e
        | .ok (none, left) =>
          have : left.length < raws.length :=
            Nat.lt_of_le_of_lt (Item.suffix_of_read hitem).length_le (Line.length_lt_of_next? hline)
          readFrom known path left
        | .ok (some item, left) =>
          have : left.length < raws.length :=
            Nat.lt_of_le_of_lt (Item.suffix_of_read hitem).length_le (Line.length_lt_of_next? hline)
          (readFrom known (item :: path) left).map (⟨depth, line.number, item⟩ :: ·)
  termination_by raws.length

def read (source : Text) : Except ReadError (List Entry) :=
  readFrom none [] (PhysicalLine.ofSource source)

end Outline

namespace Document

/-- The forest that a source declares. -/
def read (source : Text) : Except ReadError (List Node) := (Outline.read source).map Entry.forest

end Document

end Haml
