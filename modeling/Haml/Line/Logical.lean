import Haml.Error
import Haml.Line.Physical

/-! Logical lines. Blank lines are skipped, and lines that end in a blank and a pipe are joined with
the lines after them that end so too. Scanning a source reads logical lines until none is left;
each reading step leaves a shorter list of physical lines. -/

namespace Haml

/-- One physical line, or several joined: its first and last numbers, the indentation of the first
and the content of all. -/
structure Line where
  number : Nat
  last : Nat
  indent : Text
  text : Text
  deriving DecidableEq, Repr

namespace Line

/-- A body that ends in the opening of a block's argument list: after its last `do` comes a pipe,
and none after that. -/
def opensArguments (body : Text) : Bool :=
  match (Text.afterLast "do" body).map Text.trimStart with
  | some ('|' :: rest) => !rest.contains '|'
  | _ => false

/-- Does the text end in the continuation marker, a blank and a pipe? The pipe that closes a block's
argument list is not one. -/
def isContinued (text : Text) : Bool :=
  match (Text.trimEnd text).reverse with
  | '|' :: mark :: body =>
    PhysicalLine.isIndentMark mark && !opensArguments (mark :: body).reverse
  | _ => false

/-- The text without its marker. -/
def stripMarker (text : Text) : Text := Text.trim (Text.dropTrailing '|' (Text.trimEnd text))

/-- The line with the content of one more physical line behind a space. -/
def extend (line : Line) (number : Nat) (content : Text) : Line :=
  { line with last := number, text := line.text ++ ' ' :: content }

/-- Joins the lines that carry the marker to a line that carried it. The first line without it ends
the group and stays unread; it is a fault if nothing but blank lines is left. -/
def joinContinued (line : Line) : List PhysicalLine → Except LexError Line × List PhysicalLine
  | [] => (.error ⟨.unterminatedMultiline, line.number⟩, [])
  | raw :: rest =>
    let text := Text.trim raw.text
    if (raw :: rest).all PhysicalLine.isBlank then
      (.error ⟨.unterminatedMultiline, line.number⟩, raw :: rest)
    else if isContinued text then
      joinContinued (line.extend raw.number (stripMarker text)) rest
    else (.ok line, raw :: rest)

/-- The logical line that starts at the first line with content, and the lines after it. -/
def next? : List PhysicalLine → Option (Except LexError Line × List PhysicalLine)
  | [] => none
  | raw :: rest =>
    if raw.isBlank then next? rest
    else if isContinued raw.content then
      some (joinContinued ⟨raw.number, raw.number, raw.indent, stripMarker raw.content⟩ rest)
    else some (.ok ⟨raw.number, raw.number, raw.indent, raw.content⟩, rest)

theorem joinContinued_suffix (line : Line) (raws : List PhysicalLine) :
    (joinContinued line raws).2 <:+ raws := by
  fun_induction joinContinued line raws with
  | case1 => exact List.suffix_rfl
  | case2 => exact List.suffix_rfl
  | case3 line raw rest text _ _ ih => exact ih.trans (List.suffix_cons raw rest)
  | case4 => exact List.suffix_rfl

theorem length_lt_of_next? {raws rest : List PhysicalLine} {line : Except LexError Line}
    (h : next? raws = some (line, rest)) : rest.length < raws.length := by
  induction raws with
  | nil => simp [next?] at h
  | cons raw raws ih =>
    rw [next?] at h
    split at h
    · exact Nat.lt_succ_of_lt (ih h)
    · split at h
      · have := (joinContinued_suffix ⟨raw.number, raw.number, raw.indent, stripMarker raw.content⟩
          raws).length_le
        simp_all only [Option.some.injEq, List.length_cons]
        omega
      · simp_all

/-- All logical lines. -/
def all (raws : List PhysicalLine) : Except LexError (List Line) :=
  match h : next? raws with
  | none => .ok []
  | some (.error e, _) => .error e
  | some (.ok line, rest) =>
    have : rest.length < raws.length := length_lt_of_next? h
    (all rest).map (line :: ·)
  termination_by raws.length

def scan (source : Text) : Except LexError (List Line) := all (PhysicalLine.ofSource source)

end Line

end Haml
