import Haml.Error
import Haml.Text.Quote

/-! Text with code in it. Code stands between `#\x7b` and the brace that closes it, quoted strings
and nested braces left alone. Backslashes right before the opening pair are halved, and an odd one
takes away its meaning; backslashes elsewhere stand for themselves. -/

namespace Haml

/-- A piece of scanned text: text as it stands, or code for the evaluator. -/
inductive Segment
  | literal (text : Text)
  | expression (code : Text)
  deriving DecidableEq, Repr

namespace Segment

def isLiteral : Segment → Bool
  | literal _ => true
  | expression _ => false

/-- The text of a list of segments that holds no code. -/
def literalText? : List Segment → Option Text
  | [] => some []
  | literal text :: rest => (literalText? rest).map (text ++ ·)
  | expression _ :: _ => none

/-- The literal text of a list of segments, code left out. -/
def literalText (segments : List Segment) : Text :=
  segments.flatMap fun
    | literal text => text
    | expression _ => []

/-- A text as segments: none if it is empty. -/
def ofLiteral (text : Text) : List Segment := if text.isEmpty then [] else [literal text]

/-- Puts a segment in front of others; a literal is joined to a literal that stands first. -/
def attach : Segment → List Segment → List Segment
  | literal text, literal first :: rest => literal (text ++ first) :: rest
  | segment, rest => segment :: rest

/-- Neighbouring literals joined into one. -/
def merge (segments : List Segment) : List Segment := segments.foldr attach []

/-- Does code open anywhere, escaped or not? -/
def opensIn : Text → Bool
  | '#' :: '{' :: _ => true
  | _ :: rest => opensIn rest
  | [] => false

/-- Scans `text` behind literal text already read, which is held in reverse. -/
def scanAfter (line : Nat) (literal : Text) (text : Text) : Except LexError (List Segment) :=
  match text with
  | [] => .ok (ofLiteral literal.reverse)
  | '#' :: '{' :: rest =>
    let slashes := (literal.takeWhile (· == '\\')).length
    let halved := List.replicate (slashes / 2) '\\' ++ literal.drop slashes
    if slashes % 2 = 1 then scanAfter line ('{' :: '#' :: halved) rest
    else
      match h : Brackets.braces.body 0 .outside rest with
      | none => .error ⟨.unterminatedInterpolation, line⟩
      | some (code, rest) =>
        (scanAfter line [] rest).map fun segments =>
          ofLiteral halved.reverse ++ .expression code.trim :: segments
  | c :: rest => scanAfter line (c :: literal) rest
  termination_by text.length
  decreasing_by
    · simp only [List.length_cons]
      omega
    · have := Brackets.length_lt_of_body h
      simp only [List.length_cons]
      omega
    · simp

section ScanAfter

variable {line : Nat} {literal rest code after : Text}

theorem scanAfter_unterminated (heven : ¬(literal.takeWhile (· == '\\')).length % 2 = 1)
    (hbody : Brackets.braces.body 0 .outside rest = none) :
    scanAfter line literal ('#' :: '{' :: rest) = .error ⟨.unterminatedInterpolation, line⟩ := by
  rw [scanAfter, if_neg heven]
  split <;> simp_all

theorem scanAfter_expression (heven : ¬(literal.takeWhile (· == '\\')).length % 2 = 1)
    (hbody : Brackets.braces.body 0 .outside rest = some (code, after)) :
    scanAfter line literal ('#' :: '{' :: rest) =
      (scanAfter line [] after).map fun segments =>
        ofLiteral (List.replicate ((literal.takeWhile (· == '\\')).length / 2) '\\' ++
          literal.drop (literal.takeWhile (· == '\\')).length).reverse ++
            .expression code.trim :: segments := by
  rw [scanAfter, if_neg heven]
  split <;> simp_all

end ScanAfter

/-- The segments of a text that stands on a line. -/
def scan (line : Nat) (text : Text) : Except LexError (List Segment) := scanAfter line [] text

end Segment

end Haml
