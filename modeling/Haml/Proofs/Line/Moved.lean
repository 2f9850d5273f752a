import Haml.Document
import Haml.Proofs.Outcome
import Haml.Proofs.Segment.RoundTrip

/-! Reading depends on the number of a line in its errors only. On another line the same text gives
the same result, or the same fault on that line. -/

namespace Haml

namespace LexError

def moved (line : Nat) (e : LexError) : LexError := { e with line }

end LexError

namespace ReadError

def moved (line : Nat) : ReadError → ReadError
  | lex e => lex (e.moved line)
  | invalid fault _ => invalid fault line

end ReadError

namespace HeaderError

def moved (line : Nat) : HeaderError → HeaderError
  | unclosed => unclosed
  | invalid e => invalid (e.moved line)

end HeaderError

variable (number line : Nat)

theorem Segment.scanAfter_moved (read text : Text) :
    scanAfter line read text = (scanAfter number read text).mapError (LexError.moved line) := by
  fun_induction scanAfter number read text with
  | case1 => rw [scanAfter]; rfl
  | case2 read rest slashes halved hodd ih => rw [scanAfter, if_pos hodd, ih]
  | case3 read rest slashes heven hbody => rw [scanAfter_unterminated heven hbody]; rfl
  | case4 read rest slashes halved heven code after hbody ih =>
    rw [scanAfter_expression heven hbody, ih, Outcome.mapError_map]
  | case5 read c rest hopen ih => rw [scanAfter, ih]; exact hopen

theorem Segment.scan_moved (text : Text) :
    scan line text = (scan number text).mapError (LexError.moved line) :=
  scanAfter_moved number line [] text

theorem AttributeSource.ofQuoted_moved (name : Text) (mark : Char) (body : Text) :
    ofQuoted line name mark body =
      (ofQuoted number name mark body).mapError (ReadError.moved line) := by
  rw [ofQuoted, ofQuoted]
  split
  · rw [Segment.scan_moved number line]
    cases Segment.scan number body <;> rfl
  · rfl

theorem AttributeSource.ofValue_moved (name value : Text) :
    ofValue line name value = (ofValue number name value).mapError (ReadError.moved line) := by
  rw [ofValue, ofValue]
  split
  · rfl
  · split
    · split
      · exact ofQuoted_moved number line _ _ _
      · rfl
    · rfl

theorem Hash.ofEntries_moved (entries : List Text) :
    ofEntries line entries = (ofEntries number entries).mapError (ReadError.moved line) := by
  induction entries with
  | nil => rfl
  | cons entry rest ih =>
    rw [ofEntries, ofEntries]
    split
    · exact ih
    · split
      · rfl
      · rw [AttributeSource.ofValue_moved number line, ih]
        simp only [bind, Outcome.mapError_bind]
        rfl

theorem Hash.read_moved (body : Text) :
    Hash.read line body = (Hash.read number body).mapError (ReadError.moved line) := by
  rw [Hash.read, Hash.read, ofEntries_moved number line]
  cases ofEntries number (splitCommas 0 .outside body) with
  | error e => rfl
  | ok sources => cases sources <;> rfl

theorem AttributeList.readValue_moved (name text : Text) :
    readValue line name text = (readValue number name text).mapError (ReadError.moved line) := by
  rw [readValue, readValue]
  split
  · rfl
  · split
    · split
      · rfl
      · rw [AttributeSource.ofQuoted_moved number line, Outcome.mapError_map]
    · rfl

theorem AttributeList.readAttribute_moved (first : Char) (text : Text) :
    readAttribute line first text =
      (readAttribute number first text).mapError (ReadError.moved line) := by
  rw [readAttribute, readAttribute]
  split
  · dsimp only
    split
    · exact readValue_moved number line _ _
    · rfl
  · rfl

theorem AttributeList.read_moved (text : Text) :
    AttributeList.read line text =
      (AttributeList.read number text).mapError (ReadError.moved line) := by
  fun_induction AttributeList.read number text with
  | case1 text htrim => rw [read_nil htrim]; rfl
  | case2 text first rest htrim e hread =>
    rw [read_cons htrim, readAttribute_moved number line, hread]
    rfl
  | case3 text first rest htrim source left hread hlength ih =>
    rw [read_cons htrim, readAttribute_moved number line, hread]
    change (read line left).map (source :: ·) = _
    rw [ih, Outcome.mapError_map]

theorem Reference.read_moved (body : Text) :
    Reference.read line body = (Reference.read number body).mapError (ReadError.moved line) := by
  rw [Reference.read, Reference.read]
  split
  case h_4 => split <;> rfl
  all_goals rfl

theorem Groups.add_moved (groups : Groups) (opener : Char) (body : Text) :
    groups.add line opener body =
      (groups.add number opener body).mapError (ReadError.moved line) := by
  rw [Groups.add, Groups.add]
  split
  · split
    · rfl
    · rw [Reference.read_moved number line, Outcome.mapError_map]
  · split
    · rfl
    · split
      · split
        · rfl
        · rw [Hash.read_moved number line, Outcome.mapError_map]
      · split
        · rfl
        · rw [AttributeList.read_moved number line, Outcome.mapError_map]

theorem Groups.readAll_moved (groups : Groups) (text : Text) :
    Groups.readAll line groups text =
      (Groups.readAll number groups text).mapError (HeaderError.moved line) := by
  fun_induction Groups.readAll number groups text with
  | case1 => rw [Groups.readAll]; rfl
  | case2 groups opener rest hopens hbody => rw [readAll_unclosed hopens hbody]; rfl
  | case3 groups opener rest hopens body after hbody e hadd =>
    rw [readAll_cons hopens hbody, add_moved number line, hadd]
    rfl
  | case4 groups opener rest hopens body after hbody more hadd hlength ih =>
    rw [readAll_cons hopens hbody, add_moved number line, hadd]
    exact ih
  | case5 groups opener rest hopens => rw [Groups.readAll, if_neg hopens]; rfl

theorem Header.atLine_moved {α : Type} (m : Except SyntaxFault α) :
    atLine line m = (atLine number m).mapError (HeaderError.moved line) := by cases m <;> rfl

theorem Header.read_moved (implicitDiv : Bool) (text : Text) :
    Header.read implicitDiv line text =
      (Header.read implicitDiv number text).mapError (HeaderError.moved line) := by
  simp only [Header.read, bind, Outcome.mapError_bind, atLine_moved number line,
    Groups.readAll_moved number line]
  rfl

namespace Item

theorem ofScript_moved (payload : Text) (escape : Escape) (preserve : Bool) :
    ofScript line payload escape preserve =
      (ofScript number payload escape preserve).mapError (ReadError.moved line) := by
  rw [ofScript, ofScript]
  split <;> rfl

theorem ofText_moved (payload : Text) (escape : Escape) :
    ofText line payload escape =
      (ofText number payload escape).mapError (ReadError.moved line) := by
  rw [ofText, ofText, Segment.scan_moved number line]
  cases Segment.scan number payload <;> rfl

theorem ofSilent_moved (payload : Text) :
    ofSilent line payload = (ofSilent number payload).mapError (ReadError.moved line) := by
  rw [ofSilent, ofSilent]
  split <;> rfl

theorem ofComment_moved (payload : Text) :
    ofComment line payload = (ofComment number payload).mapError (ReadError.moved line) := by
  rw [ofComment.eq_def, ofComment.eq_def]
  split
  · split <;> rfl
  · rfl

theorem ofHeader_moved (header : Header) :
    ofHeader line header = (ofHeader number header).mapError (ReadError.moved line) := by
  rw [ofHeader, ofHeader]
  cases header.tail with
  | none => rfl
  | script output => rfl
  | text written =>
    dsimp only
    rw [Segment.scan_moved number line]
    cases Segment.scan number written <;> rfl

variable {number line} {implicitDiv : Bool} {payload : Text} {item : Item}

theorem readElement_elsewhere {left : List PhysicalLine}
    (h : readElement implicitDiv number payload [] = .ok (some item, left))
    (raws : List PhysicalLine) :
    readElement implicitDiv line payload raws = .ok (some item, raws) := by
  obtain ⟨⟨header, rest⟩, hlines, h⟩ := Outcome.exists_of_bind_eq_ok h
  obtain ⟨element, helement, h⟩ := Outcome.exists_of_bind_eq_ok h
  obtain ⟨hitem, -⟩ := Prod.mk.inj (Except.ok.inj h)
  -- No line follows, so the header was closed at the end of the payload.
  have hread : Header.read implicitDiv number payload = .ok header := by
    rw [Header.readLines.eq_def] at hlines
    split at hlines
    · next hread =>
      obtain ⟨rfl, -⟩ := Prod.mk.inj (Except.ok.inj hlines)
      exact hread
    · cases hlines
    · cases hlines
    · next hcons => cases hcons
  have hmoved := Header.read_moved number line implicitDiv payload
  rw [hread] at hmoved
  have hheader := ofHeader_moved number line header
  rw [helement] at hheader
  rw [readElement, Header.readLines.eq_def, hmoved]
  simp only [Except.mapError, bind, Except.bind, hheader, pure, Except.pure, hitem]

/-- A line that is an item without further lines is that item anywhere. -/
theorem read_elsewhere {first other : Line} {left : List PhysicalLine}
    (htext : other.text = first.text) (h : Item.read first [] = .ok (some item, left))
    (hfilter : ∀ name segments, item ≠ filter name segments) (raws : List PhysicalLine) :
    Item.read other raws = .ok (some item, raws) := by
  have halone {i j : Except ReadError Item} (hmoved : j = i.mapError (ReadError.moved other.number))
      (hi : i.map (fun i => (some i, ([] : List PhysicalLine))) = .ok (some item, left)) :
      j.map (fun i => (some i, raws)) = .ok (some item, raws) := by
    obtain ⟨i, rfl, hread⟩ := Outcome.exists_of_map_eq_ok hi
    obtain ⟨heq, -⟩ := Prod.mk.inj hread
    rw [hmoved, ← heq]
    rfl
  -- Both lines have one text, so that they are read by the same case.
  rw [Item.read] at h ⊢
  rw [htext]
  generalize Marker.classify first.text = classified at h ⊢
  obtain ⟨marker, payload⟩ := classified
  cases marker with
  | element => exact readElement_elsewhere h raws
  | div => exact readElement_elsewhere h raws
  | script => exact halone (ofScript_moved _ _ _ _ _) h
  | escapedScript => exact halone (ofScript_moved _ _ _ _ _) h
  | unescapedScript => exact halone (ofScript_moved _ _ _ _ _) h
  | preservedScript => exact halone (ofScript_moved _ _ _ _ _) h
  | plain => exact halone (ofText_moved _ _ _ _) h
  | escapedText => exact halone (ofText_moved _ _ _ _) h
  | unescapedText => exact halone (ofText_moved _ _ _ _) h
  | silent => exact halone (ofSilent_moved _ _ _) h
  | silentComment => cases h
  | comment => exact halone (ofComment_moved _ _ _) h
  | doctype => exact halone rfl h
  | filter =>
    change readFilter first payload [] = _ at h
    rw [readFilter] at h
    dsimp only at h
    split at h
    · cases h
    · split at h
      · cases h
      · next segments _ =>
        obtain ⟨heq, -⟩ := Prod.mk.inj (Except.ok.inj h)
        exact absurd (Option.some.inj heq).symm (hfilter _ _)

end Item

end Haml
