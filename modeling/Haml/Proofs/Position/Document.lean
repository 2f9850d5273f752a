import Haml.Proofs.Line.Joined
import Haml.Proofs.Outline.Run
import Haml.Proofs.Position.Header
import Haml.Proofs.Position.Line

/-! Documents under offsets and indices. Everything that is cut out of a source is cut between two
characters of it, with one exception: the inside of a reference's second part, where that begins
with a wide character and closes with it. So reading by offsets gives up on exactly the sources
whose reading breaks off. -/

namespace Haml

namespace Header

/-- Reads a header, adding lines to it while a group is open. -/
def readLinesAt? (implicitDiv : Bool) (line : Nat) (text : Text) (raws : List PhysicalLine) :
    Checked ReadError (Header × List PhysicalLine) :=
  match readAt? implicitDiv line text, raws with
  | none, _ => none
  | some (.ok header), raws => pure (header, raws)
  | some (.error (.invalid e)), _ => throw e
  | some (.error .unclosed), [] => throw (.invalid .unbalancedHeader line)
  | some (.error .unclosed), raw :: rest =>
    readLinesAt? implicitDiv line (text ++ ' ' :: Text.trim raw.text) rest

theorem readLinesAt?_eq (implicitDiv : Bool) (line : Nat) (text : Text) (raws : List PhysicalLine) :
    readLinesAt? implicitDiv line text raws =
      Checked.whole (readLines implicitDiv line text raws) := by
  fun_induction readLines implicitDiv line text raws with
  | case1 text raws header hread =>
    rw [readLinesAt?.eq_def, readAt?_eq, hread]
    rfl
  | case2 text raws e hread =>
    rw [readLinesAt?.eq_def, readAt?_eq, hread]
    cases he : Breaking.breaks e with
    | true =>
      rw [Checked.whole_breaks (e := HeaderError.invalid e) he, Checked.whole_breaks he]
    | false =>
      rw [Checked.whole_error (e := HeaderError.invalid e) he, Checked.whole_error he]
      rfl
  | case3 text hread =>
    rw [readLinesAt?.eq_def, readAt?_eq, hread]
    rfl
  | case4 text raw rest hread ih =>
    rw [readLinesAt?.eq_def, readAt?_eq, hread]
    exact ih

end Header

namespace PhysicalLine

/-- The indentation of the first line with content. -/
def baseAt? (block : List PhysicalLine) : Option Text :=
  match block.find? fun raw => !raw.isBlank with
  | some raw => raw.indentAt?
  | none => some []

theorem baseAt?_eq (block : List PhysicalLine) : baseAt? block = some (base block) := by
  rw [baseAt?, base]
  cases block.find? fun raw => !raw.isBlank with
  | none => rfl
  | some raw => exact raw.indentAt?_eq

end PhysicalLine

namespace Item

variable {line : Nat} {raws : List PhysicalLine}

def ofTextAt? (line : Nat) (payload : Text) (escape : Escape) : Checked ReadError Item := do
  let segments ← ExceptT.adapt .lex (Segment.scanAt? line payload 0 [])
  return text segments escape

/-- A condition is cut at its closing bracket, the text of the comment one byte behind it. -/
def ofCommentAt? (line : Nat) : Text → Checked ReadError Item
  | '[' :: rest =>
    match Text.firstOffset? (· == ']') rest with
    | none => throw (.invalid .unterminatedCondition line)
    | some stop => do
      let condition ← Text.takeBytes? stop rest
      let after ← Text.dropBytes? (stop + 1) rest
      return comment (some (Text.trim condition)) (commentText? after)
  | payload => return comment none (commentText? payload)

def ofHeaderAt? (line : Nat) (header : Header) : Checked ReadError Item := do
  let content ← match header.tail with
    | .none => pure Content.none
    | .script output => pure (Content.script output)
    | .text written => Content.text <$> ExceptT.adapt .lex (Segment.scanAt? line written 0 [])
  return element {
    tag := header.tag
    classes := header.classes
    id := header.id
    attributes := header.attributes
    reference := header.reference
    nukeOuter := header.nukeOuter
    nukeInner := header.nukeInner
    selfClosing := header.selfClosing
    content }

def readElementAt? (implicitDiv : Bool) (line : Nat) (payload : Text) (raws : List PhysicalLine) :
    Checked ReadError (Option Item × List PhysicalLine) := do
  let (header, raws) ← Header.readLinesAt? implicitDiv line payload raws
  return (some (← ofHeaderAt? line header), raws)

/-- The segments of a filter's lines, joined by line feeds. Blank lines are empty. -/
def filterSegmentsAt? (base : Text) : List PhysicalLine → Checked ReadError (List Segment)
  | [] => return []
  | raw :: rest => do
    let first ← if raw.isBlank then pure []
      else ExceptT.adapt .lex (Segment.scanAt? raw.number (raw.unindent base) 0 [])
    let more ← filterSegmentsAt? base rest
    return first ++ (if rest.isEmpty then more else .literal ['\n'] :: more)

def readFilterAt? (line : Line) (payload : Text) (raws : List PhysicalLine) :
    Checked ReadError (Option Item × List PhysicalLine) :=
  let name := Text.trim payload
  if name.isEmpty || !name.all isNameChar then
    throw (.invalid (.invalidFilterName name) line.number)
  else do
    let (block, left) ← PhysicalLine.takeBlockAt? line.indent raws
    let block := PhysicalLine.dropBlankEnd block
    let segments ← filterSegmentsAt? (← PhysicalLine.baseAt? block) block
    return (some (filter name (Segment.merge segments)), left)

/-- The item that a line declares, if it declares one, and the physical lines it leaves. Code that
stands behind a marker is not cut any further. -/
def readAt? (line : Line) (raws : List PhysicalLine) :
    Checked ReadError (Option Item × List PhysicalLine) :=
  let alone := fun (item : Checked ReadError Item) => (fun item => (some item, raws)) <$> item
  liftM (Marker.classifyAt? line.text) >>= fun
    | (.element, payload) => readElementAt? false line.number payload raws
    | (.div, payload) => readElementAt? true line.number payload raws
    | (.script, payload) => alone (Checked.whole (ofScript line.number payload .configured false))
    | (.escapedScript, payload) => alone (Checked.whole (ofScript line.number payload .force false))
    | (.unescapedScript, payload) => alone (Checked.whole (ofScript line.number payload .raw false))
    | (.preservedScript, payload) =>
      alone (Checked.whole (ofScript line.number payload .configured true))
    | (.plain, payload) => alone (ofTextAt? line.number payload .configured)
    | (.escapedText, payload) => alone (ofTextAt? line.number payload .force)
    | (.unescapedText, payload) => alone (ofTextAt? line.number payload .raw)
    | (.silent, payload) => alone (Checked.whole (ofSilent line.number payload))
    | (.silentComment, _) =>
      liftM (PhysicalLine.takeBlockAt? line.indent raws) >>= fun (_, left) => return (none, left)
    | (.comment, payload) => alone (ofCommentAt? line.number payload)
    | (.doctype, payload) => alone (return doctype (Text.trim payload))
    | (.filter, payload) => readFilterAt? line payload raws

theorem ofTextAt?_eq (line : Nat) (payload : Text) (escape : Escape) :
    ofTextAt? line payload escape = Checked.whole (ofText line payload escape) := by
  rw [ofTextAt?, Segment.scanAt?_zero, ofText]
  cases Segment.scan line payload <;> rfl

theorem ofCommentAt?_eq (line : Nat) (payload : Text) :
    ofCommentAt? line payload = Checked.whole (ofComment line payload) := by
  rw [ofCommentAt?.eq_def]
  split
  · next rest =>
    rw [ofComment]
    cases hbehind : rest.dropWhile (· != ']') with
    | nil =>
      rw [Text.firstOffset?_eq_none hbehind]
      rfl
    | cons bracket after =>
      have hfirst := Text.firstOffset?_eq_some (p := (· == ']')) (t := rest)
        (by change rest.dropWhile (· != ']') ≠ []; rw [hbehind]; exact List.cons_ne_nil _ _)
      obtain rfl : bracket = ']' := by
        have hhead := List.head?_dropWhile_not (· != ']') rest
        rw [hbehind] at hhead
        simpa using hhead
      have hafter : Text.dropBytes? (Text.bytes (rest.takeWhile (· != ']')) + 1) rest =
          some after := Text.dropBytes?_past hbehind
      rw [hfirst]
      change (liftM (Text.takeBytes? (Text.bytes (rest.takeWhile (· != ']'))) rest) >>= _) = _
      rw [Text.takeBytes?_takeWhile, Checked.cut_bind]
      change (liftM (Text.dropBytes? (Text.bytes (rest.takeWhile (· != ']')) + 1) rest) >>= _) = _
      rw [hafter]
      rfl
  · next hcondition =>
    rw [ofComment]
    · rfl
    · exact hcondition

theorem ofHeaderAt?_eq (line : Nat) (header : Header) :
    ofHeaderAt? line header = Checked.whole (ofHeader line header) := by
  rw [ofHeaderAt?, ofHeader]
  cases header.tail with
  | none => rfl
  | script output => rfl
  | text written =>
    dsimp only
    rw [Segment.scanAt?_zero]
    cases Segment.scan line written <;> rfl

theorem readElementAt?_eq (implicitDiv : Bool) (line : Nat) (payload : Text)
    (raws : List PhysicalLine) : readElementAt? implicitDiv line payload raws =
      Checked.whole (readElement implicitDiv line payload raws) := by
  rw [readElementAt?, readElement, Header.readLinesAt?_eq, Checked.whole_bind]
  congr 1
  funext (header, left)
  dsimp only
  rw [ofHeaderAt?_eq, Checked.whole_bind]
  rfl

theorem filterSegmentsAt?_eq (base : Text) (block : List PhysicalLine) :
    filterSegmentsAt? base block =
      Checked.whole ((filterSegments base block).mapError ReadError.lex) := by
  induction block with
  | nil => rfl
  | cons raw rest ih =>
    rw [filterSegmentsAt?, filterSegments, ih, Segment.scanAt?_zero]
    cases raw.isBlank with
    | true => cases filterSegments base rest <;> rfl
    | false =>
      cases Segment.scan raw.number (raw.unindent base) with
      | error e => rfl
      | ok first => cases filterSegments base rest <;> rfl

theorem readFilterAt?_eq {line : Line}
    (hindent : ∀ c ∈ line.indent, PhysicalLine.isIndentMark c = true) (payload : Text)
    (raws : List PhysicalLine) :
    readFilterAt? line payload raws = Checked.whole (readFilter line payload raws) := by
  rw [readFilterAt?, readFilter]
  dsimp only
  split
  · rfl
  · rw [PhysicalLine.takeBlockAt?_eq hindent, Checked.cut_bind]
    dsimp only
    rw [PhysicalLine.baseAt?_eq, Checked.cut_bind, filterSegmentsAt?_eq]
    cases filterSegments _ _ <;> rfl

theorem readAt?_eq {line : Line} (hindent : ∀ c ∈ line.indent, PhysicalLine.isIndentMark c = true)
    (raws : List PhysicalLine) : readAt? line raws = Checked.whole (read line raws) := by
  rw [readAt?, read, Marker.classifyAt?_eq, Checked.cut_bind]
  rcases Marker.classify line.text with ⟨marker, payload⟩
  cases marker with
  | element => exact readElementAt?_eq false line.number payload raws
  | div => exact readElementAt?_eq true line.number payload raws
  | script | escapedScript | unescapedScript | preservedScript | silent =>
    exact (Checked.whole_map _ _).symm
  | plain | escapedText | unescapedText =>
    dsimp only
    rw [ofTextAt?_eq, Checked.whole_map]
  | comment =>
    dsimp only
    rw [ofCommentAt?_eq, Checked.whole_map]
  | doctype => rfl
  | silentComment =>
    dsimp only
    rw [PhysicalLine.takeBlockAt?_eq hindent]
    rfl
  | filter => exact readFilterAt?_eq hindent payload raws

end Item

namespace Line

variable {raws rest : List PhysicalLine} {line : Line}

theorem next?_of_nextAt? {found : Option (Except LexError Line × List PhysicalLine)}
    (h : nextAt? raws = some found) : next? raws = found := by
  rw [nextAt?_eq] at h
  exact Option.some.inj h

theorem isIndentMark_of_next? (h : next? raws = some (.ok line, rest)) :
    ∀ c ∈ line.indent, PhysicalLine.isIndentMark c = true := by
  obtain ⟨blanks, first, joined, -, -, -, rfl⟩ := exists_of_next? h
  rw [indent_ofJoined]
  exact first.isIndentMark_of_mem_indent

end Line

namespace Outline

/-- An item leaves fewer lines than there were in front of its own. -/
theorem length_lt_of_readAt? {raws rest left : List PhysicalLine} {line : Line} {item : Option Item}
    (hline : Line.nextAt? raws = some (some (.ok line, rest)))
    (hitem : Item.readAt? line rest = some (.ok (item, left))) : left.length < raws.length := by
  have hnext := Line.next?_of_nextAt? hline
  rw [Item.readAt?_eq (Line.isIndentMark_of_next? hnext)] at hitem
  exact Nat.lt_of_le_of_lt (Item.suffix_of_read (Checked.eq_ok_of_whole hitem)).length_le
    (Line.length_lt_of_next? hnext)

/-- Reads the outline of physical lines. -/
def readFromAt? (known : Indentation) (path : Path) (raws : List PhysicalLine) :
    Checked ReadError (List Entry) :=
  match hline : Line.nextAt? raws with
  | none => none
  | some none => pure []
  | some (some (.error e, _)) => throw (.lex e)
  | some (some (.ok line, rest)) =>
    match known.depth line.indent with
    | (.error fault, _) => throw (.lex ⟨fault, line.number⟩)
    | (.ok depth, known) =>
      match path.enter depth with
      | .error fault => throw (.invalid fault line.number)
      | .ok path =>
        match hitem : Item.readAt? line rest with
        | none => none
        | some (.error e) => throw e
        | some (.ok (none, left)) =>
          have := length_lt_of_readAt? hline hitem
          readFromAt? known path left
        | some (.ok (some item, left)) =>
          have := length_lt_of_readAt? hline hitem
          (⟨depth, line.number, item⟩ :: ·) <$> readFromAt? known (item :: path) left
  termination_by raws.length

/-- A line that does not fit is reported. -/
theorem breaks_of_enter {depth : Nat} {path : Path} {fault : SyntaxFault}
    (h : path.enter depth = .error fault) : Breaking.breaks fault = false := by
  rw [Path.enter] at h
  split at h
  · cases h
    split <;> rfl
  · dsimp only at h
    split at h
    · cases h
      rfl
    · cases h

/-- Where a line fits below the items above it, its item is read in both ways before the rest is. -/
theorem whole_readFrom {known after : Indentation} {path inner : Path}
    {raws rest : List PhysicalLine} {line : Line} {depth : Nat}
    (hline : Line.next? raws = some (.ok line, rest))
    (hdepth : known.depth line.indent = (.ok depth, after))
    (henter : path.enter depth = .ok inner) :
    Checked.whole (readFrom known path raws) =
      (Item.readAt? line rest >>= fun (item?, left) =>
        match item? with
        | none => Checked.whole (readFrom after inner left)
        | some item =>
          (⟨depth, line.number, item⟩ :: ·) <$>
            Checked.whole (readFrom after (item :: inner) left)) := by
  rw [readFrom_step hline hdepth, henter, Item.readAt?_eq (Line.isIndentMark_of_next? hline)]
  change Checked.whole (Item.read line rest >>= _) = _
  rw [Checked.whole_bind]
  congr 1
  funext (item?, left)
  cases item? with
  | none => rfl
  | some item => exact Checked.whole_map _ _

theorem readFromAt?_eq (known : Indentation) (path : Path) (raws : List PhysicalLine) :
    readFromAt? known path raws = Checked.whole (readFrom known path raws) := by
  fun_induction readFromAt? known path raws with
  | case1 known path raws hline =>
    rw [Line.nextAt?_eq] at hline
    cases hline
  | case2 known path raws hline =>
    rw [readFrom_done (Line.next?_of_nextAt? hline)]
    rfl
  | case3 known path raws e rest hline =>
    rw [readFrom_unread (Line.next?_of_nextAt? hline)]
    rfl
  | case4 known path raws line rest hline fault after hdepth =>
    rw [readFrom_unmeasured (Line.next?_of_nextAt? hline) hdepth]
    rfl
  | case5 known path raws line rest hline depth after hdepth fault henter =>
    rw [readFrom_refused (Line.next?_of_nextAt? hline) hdepth henter]
    exact (Checked.whole_error (e := ReadError.invalid fault line.number)
      (breaks_of_enter henter)).symm
  | case6 known path raws line rest hline depth after hdepth inner henter hitem =>
    rw [whole_readFrom (Line.next?_of_nextAt? hline) hdepth henter, hitem]
    rfl
  | case7 known path raws line rest hline depth after hdepth inner henter e hitem =>
    rw [whole_readFrom (Line.next?_of_nextAt? hline) hdepth henter, hitem]
    rfl
  | case8 known path raws line rest hline depth after hdepth inner henter left hitem hlt ih =>
    rw [whole_readFrom (Line.next?_of_nextAt? hline) hdepth henter, hitem]
    exact ih
  | case9 known path raws line rest hline depth after hdepth inner henter item left hitem hlt ih =>
    rw [whole_readFrom (Line.next?_of_nextAt? hline) hdepth henter, hitem, ih]
    rfl

def readAt? (source : Text) : Checked ReadError (List Entry) :=
  readFromAt? none [] (PhysicalLine.ofSource source)

end Outline

namespace Document

/-- The forest that a source declares, read by offsets and indices. -/
def readAt? (source : Text) : Checked ReadError (List Node) :=
  Entry.forest <$> Outline.readAt? source

theorem breaks_iff {e : ReadError} :
    Breaking.breaks e = true ↔ ∃ line, e = .invalid .splitMark line := by
  cases e with
  | lex e => exact ⟨nofun, nofun⟩
  | invalid fault line =>
    change decide (fault = .splitMark) = true ↔ _
    simp

theorem whole_read (source : Text) : readAt? source = Checked.whole (read source) := by
  rw [readAt?, Outline.readAt?, Outline.readFromAt?_eq, read, Checked.whole_map]
  rfl

/-- Every source is read by offsets and indices as it is read without them, each cut within the text
and between two characters and no bracket counted below zero, unless a reference in it has a second
part that begins with a wide character and closes with it. There the cut behind the mark is within
the character. -/
theorem readAt?_eq_none_iff_splitMark (source : Text) :
    readAt? source = Checked.whole (read source) ∧
    (readAt? source = none ↔ ∃ line, read source = .error (.invalid .splitMark line)) ∧
    ∀ line body, Reference.readAt? line body = none ↔ ∃ code qualifier,
      (splitCommas 0 .outside body).map Text.trim = [code, qualifier] ∧ code ≠ [] ∧
        ∃ mark inner rest, Quote.read qualifier = some (mark, inner, rest) ∧ 1 < mark.utf8Size := by
  refine ⟨whole_read source, ?_, fun line body => ?_⟩
  · rw [whole_read, Checked.whole_eq_none_iff]
    constructor
    · rintro ⟨e, hread, he⟩
      obtain ⟨line, rfl⟩ := breaks_iff.mp he
      exact ⟨line, hread⟩
    · rintro ⟨line, hread⟩
      exact ⟨_, hread, rfl⟩
  · rw [Reference.readAt?_eq_none_iff]
    simp [Reference.splitsMark, Option.any_eq_true]

/-- A reference whose second part stands between two equal letters of two bytes. -/
theorem readAt?_eq_none : ¬∀ source, readAt? source ≠ none := by
  intro h
  have hread : Outline.read "%p[@user, éaé]" = .error (.invalid .splitMark 1) := by
    decide +kernel
  apply h "%p[@user, éaé]"
  rw [whole_read, read, hread]
  rfl

end Document

end Haml
