import Haml.Proofs.Line.Moved

/-! Lines further down. If the numbers of all lines are raised, then so are the lines in whatever is
read of them, in faults too, and nothing else changes. -/

namespace Haml

variable (k : Nat)

def LexError.raised (e : LexError) : LexError := { e with line := e.line + k }

def ReadError.raised : ReadError → ReadError
  | lex e => lex (e.raised k)
  | invalid fault line => invalid fault (line + k)

def HeaderError.raised : HeaderError → HeaderError
  | unclosed => unclosed
  | invalid e => invalid (e.raised k)

def PhysicalLine.raised (raw : PhysicalLine) : PhysicalLine := { raw with number := raw.number + k }

/-- Raises the lines that are left after something was read. -/
def PhysicalLine.raisedAfter {α : Type} (read : α × List PhysicalLine) : α × List PhysicalLine :=
  (read.1, read.2.map (raised k))

def Line.raised (line : Line) : Line :=
  { line with number := line.number + k, last := line.last + k }

theorem PhysicalLine.numbered_raised (n : Nat) (texts : List Text) :
    numbered (n + k) texts = (numbered n texts).map (raised k) := by
  induction texts generalizing n with
  | nil => rfl
  | cons text rest ih =>
    rw [numbered, numbered, List.map_cons, ← ih, Nat.add_right_comm]
    rfl

/-- What depends on a line in its faults only depends on it by raising them. -/
theorem Outcome.raised_of_moved {ε α : Type} {moved : Nat → ε → ε} {raise : ε → ε}
    {f : Nat → Except ε α} (h : ∀ number line, f line = (f number).mapError (moved line))
    {k line : Nat} (hraise : ∀ e, raise (moved line e) = moved (line + k) e) :
    f (line + k) = (f line).mapError raise := by
  rw [h line (line + k)]
  have hline := h line line
  cases hf : f line with
  | ok a => rfl
  | error e =>
    rw [hf] at hline
    have he : e = moved line e := Except.error.inj hline
    change Except.error (moved (line + k) e) = Except.error (raise e)
    rw [← hraise e, ← he]

variable (line : Nat)

theorem ReadError.raised_moved (e : ReadError) : (e.moved line).raised k = e.moved (line + k) := by
  cases e <;> rfl

theorem HeaderError.raised_moved (e : HeaderError) :
    (e.moved line).raised k = e.moved (line + k) := by
  cases e with
  | unclosed => rfl
  | invalid e => exact congrArg invalid (ReadError.raised_moved k line e)

theorem Segment.scan_raised (text : Text) :
    scan (line + k) text = (scan line text).mapError (LexError.raised k) :=
  Outcome.raised_of_moved (f := fun line => scan line text)
    (fun number line => scan_moved number line text) fun _ => rfl

theorem Header.read_raised (implicitDiv : Bool) (text : Text) :
    Header.read implicitDiv (line + k) text =
      (Header.read implicitDiv line text).mapError (HeaderError.raised k) :=
  Outcome.raised_of_moved (f := fun line => Header.read implicitDiv line text)
    (fun number line => read_moved number line implicitDiv text) (HeaderError.raised_moved k line)

theorem Header.readLines_raised (implicitDiv : Bool) (text : Text) (raws : List PhysicalLine) :
    readLines implicitDiv (line + k) text (raws.map (PhysicalLine.raised k)) =
      ((readLines implicitDiv line text raws).mapError (ReadError.raised k)).map
        (PhysicalLine.raisedAfter k) := by
  induction raws generalizing text with
  | nil =>
    rw [readLines.eq_def, readLines.eq_def, read_raised]
    rcases Header.read implicitDiv line text with (_ | e) | header <;> rfl
  | cons raw raws ih =>
    rw [readLines.eq_def, readLines.eq_def, read_raised]
    rcases Header.read implicitDiv line text with (_ | e) | header
    · exact ih _
    · rfl
    · rfl

namespace Line

theorem joinContinued_raised (line : Line) (raws : List PhysicalLine) :
    joinContinued (line.raised k) (raws.map (PhysicalLine.raised k)) =
      Prod.map (fun read => (read.mapError (LexError.raised k)).map (raised k))
        (List.map (PhysicalLine.raised k)) (joinContinued line raws) := by
  induction raws generalizing line with
  | nil => rfl
  | cons raw raws ih =>
    have hblank : ((raw :: raws).map (PhysicalLine.raised k)).all PhysicalLine.isBlank =
        (raw :: raws).all PhysicalLine.isBlank := List.all_map
    have htext : (raw.raised k).text = raw.text := rfl
    rw [List.map_cons, joinContinued, joinContinued, ← List.map_cons, hblank, htext]
    split
    · rfl
    · by_cases hcontinued : isContinued (Text.trim raw.text) = true
      · rw [if_pos hcontinued, if_pos hcontinued]
        exact ih (line.extend raw.number (stripMarker (Text.trim raw.text)))
      · rw [if_neg hcontinued, if_neg hcontinued]
        rfl

theorem next?_raised (raws : List PhysicalLine) :
    next? (raws.map (PhysicalLine.raised k)) = (next? raws).map
      (Prod.map (fun read => (read.mapError (LexError.raised k)).map (raised k))
        (List.map (PhysicalLine.raised k))) := by
  induction raws with
  | nil => rfl
  | cons raw raws ih =>
    have hblank : (raw.raised k).isBlank = raw.isBlank := rfl
    have hcontent : (raw.raised k).content = raw.content := rfl
    rw [List.map_cons, next?, next?, hblank, hcontent]
    split
    · exact ih
    · split
      · exact congrArg some (joinContinued_raised k
        ⟨raw.number, raw.number, raw.indent, stripMarker raw.content⟩ raws)
      · rfl

end Line

namespace PhysicalLine

theorem dropBlankEnd_raised (block : List PhysicalLine) :
    dropBlankEnd (block.map (raised k)) = (dropBlankEnd block).map (raised k) := by
  have hblank : isBlank ∘ raised k = isBlank := rfl
  rw [dropBlankEnd, dropBlankEnd, ← List.map_reverse, List.dropWhile_map, hblank, List.map_reverse]

theorem base_raised (block : List PhysicalLine) : base (block.map (raised k)) = base block := by
  have hblank : (fun raw => !isBlank raw) ∘ raised k = fun raw => !isBlank raw := rfl
  have hindent : indent ∘ raised k = indent := rfl
  rw [base, base, List.find?_map, Option.map_map, hblank, hindent]

end PhysicalLine

namespace Item

theorem filterSegments_raised (base : Text) (block : List PhysicalLine) :
    filterSegments base (block.map (PhysicalLine.raised k)) =
      (filterSegments base block).mapError (LexError.raised k) := by
  induction block with
  | nil => rfl
  | cons raw rest ih =>
    have hscan : Segment.scan (raw.raised k).number ((raw.raised k).unindent base) =
        (Segment.scan raw.number (raw.unindent base)).mapError (LexError.raised k) :=
      Segment.scan_raised k raw.number _
    have hblank : (raw.raised k).isBlank = raw.isBlank := rfl
    rw [List.map_cons, filterSegments, filterSegments, ih, hscan, hblank, List.isEmpty_map]
    cases raw.isBlank <;> cases Segment.scan raw.number (raw.unindent base) <;>
      cases filterSegments base rest <;> rfl

variable (first : Line) (payload : Text) (raws : List PhysicalLine)

theorem readFilter_raised :
    readFilter (first.raised k) payload (raws.map (PhysicalLine.raised k)) =
      ((readFilter first payload raws).mapError (ReadError.raised k)).map
        (PhysicalLine.raisedAfter k) := by
  have hbelow : PhysicalLine.isBelow first.indent ∘ PhysicalLine.raised k =
      PhysicalLine.isBelow first.indent := rfl
  have hindent : (first.raised k).indent = first.indent := rfl
  unfold readFilter
  dsimp only
  split
  · rfl
  · rw [hindent, List.takeWhile_map, List.dropWhile_map, hbelow, PhysicalLine.dropBlankEnd_raised,
      PhysicalLine.base_raised, filterSegments_raised]
    cases filterSegments (PhysicalLine.base (PhysicalLine.dropBlankEnd
      (raws.takeWhile (PhysicalLine.isBelow first.indent)))) (PhysicalLine.dropBlankEnd
        (raws.takeWhile (PhysicalLine.isBelow first.indent))) <;> rfl

theorem readElement_raised (implicitDiv : Bool) :
    readElement implicitDiv (line + k) payload (raws.map (PhysicalLine.raised k)) =
      ((readElement implicitDiv line payload raws).mapError (ReadError.raised k)).map
        (PhysicalLine.raisedAfter k) := by
  have hheader (header : Header) : ofHeader (line + k) header =
      (ofHeader line header).mapError (ReadError.raised k) :=
    Outcome.raised_of_moved (f := fun line => ofHeader line header)
      (fun number line => ofHeader_moved number line header) (ReadError.raised_moved k line)
  rw [readElement, readElement, Header.readLines_raised]
  rcases Header.readLines implicitDiv line payload raws with e | ⟨header, left⟩
  · rfl
  · simp only [bind, Except.bind, Except.map, Except.mapError, PhysicalLine.raisedAfter, hheader]
    cases ofHeader line header <;> rfl

theorem read_raised : Item.read (first.raised k) (raws.map (PhysicalLine.raised k)) =
    ((Item.read first raws).mapError (ReadError.raised k)).map
      (PhysicalLine.raisedAfter k) := by
  have halone {f : Nat → Except ReadError Item}
      (hmoved : ∀ number line, f line = (f number).mapError (ReadError.moved line)) :
      (f (first.number + k)).map (fun i => (some i, raws.map (PhysicalLine.raised k))) =
        (((f first.number).map fun i => (some i, raws)).mapError (ReadError.raised k)).map
          (PhysicalLine.raisedAfter k) := by
    rw [Outcome.raised_of_moved hmoved (ReadError.raised_moved k first.number)]
    cases f first.number <;> rfl
  have htext : (first.raised k).text = first.text := rfl
  rw [Item.read, Item.read, htext]
  generalize Marker.classify first.text = classified
  obtain ⟨marker, payload⟩ := classified
  cases marker with
  | element => exact readElement_raised k first.number payload raws false
  | div => exact readElement_raised k first.number payload raws true
  | script => exact halone fun _ _ => ofScript_moved _ _ _ _ _
  | escapedScript => exact halone fun _ _ => ofScript_moved _ _ _ _ _
  | unescapedScript => exact halone fun _ _ => ofScript_moved _ _ _ _ _
  | preservedScript => exact halone fun _ _ => ofScript_moved _ _ _ _ _
  | plain => exact halone fun _ _ => ofText_moved _ _ _ _
  | escapedText => exact halone fun _ _ => ofText_moved _ _ _ _
  | unescapedText => exact halone fun _ _ => ofText_moved _ _ _ _
  | silent => exact halone fun _ _ => ofSilent_moved _ _ _
  | silentComment =>
    have hbelow : PhysicalLine.isBelow first.indent ∘ PhysicalLine.raised k =
        PhysicalLine.isBelow first.indent := rfl
    have hdrop : (raws.map (PhysicalLine.raised k)).dropWhile (PhysicalLine.isBelow first.indent) =
        (raws.dropWhile (PhysicalLine.isBelow first.indent)).map (PhysicalLine.raised k) := by
      rw [List.dropWhile_map, hbelow]
    exact congrArg (fun left => Except.ok (none, left)) hdrop
  | comment => exact halone fun _ _ => ofComment_moved _ _ _
  | doctype => exact halone (f := fun _ => .ok (doctype (Text.trim payload))) fun _ _ => rfl
  | filter => exact readFilter_raised k first payload raws

end Item

end Haml
