import Haml.Unicode.Blank

/-! Texts are lists of characters. A text can be trimmed, cut into words or lines and compared by
code points; `lines` is the reading of a source that every later module starts from. -/

namespace Haml

abbrev Text := List Char

instance : Coe String Text := ⟨String.toList⟩

namespace Text

/-- Nothing but white space. -/
def isBlank (t : Text) : Bool := t.all Unicode.isBlank

def trimStart (t : Text) : Text := t.dropWhile Unicode.isBlank

def trimEnd (t : Text) : Text := (t.reverse.dropWhile Unicode.isBlank).reverse

def trim (t : Text) : Text := trimEnd (trimStart t)

/-- The text without the run of `c` at its end. -/
def dropTrailing (c : Char) (t : Text) : Text := (t.reverse.dropWhile (· == c)).reverse

/-- The pieces between runs of white space. -/
def words (t : Text) : List Text := (t.splitOnP Unicode.isBlank).filter (!·.isEmpty)

/-- The lines of a text. A line ends at a line feed or at a carriage return and a line feed; text
after the last ending is a line of its own, unless there is none. -/
def lines : Text → List Text
  | [] => []
  | '\n' :: rest => [] :: lines rest
  | '\r' :: '\n' :: rest => [] :: lines rest
  | c :: rest =>
    match lines rest with
    | [] => [[c]]
    | line :: more => (c :: line) :: more

/-- What follows the last place where a word stands in a text. -/
def afterLast (word : Text) : Text → Option Text
  | [] => none
  | c :: rest => (afterLast word rest).or (word.isPrefixOf? (c :: rest))

def join (separator : Text) (pieces : List Text) : Text := separator.intercalate pieces

/-- Every `old` replaced by a text. -/
def substitute (old : Char) (new : Text) (t : Text) : Text :=
  t.flatMap fun c => if c = old then new else [c]

/-- Alphabetical order by code points. -/
def le : Text → Text → Bool
  | [], _ => true
  | _ :: _, [] => false
  | a :: s, b :: t => a.toNat < b.toNat || (a == b && le s t)

def sort (ts : List Text) : List Text := ts.mergeSort le

def lowerAscii (t : Text) : Text := t.map Char.toLower

def ofNat (n : Nat) : Text := Nat.toDigits 10 n

def ofInt : Int → Text
  | .ofNat n => ofNat n
  | .negSucc n => '-' :: ofNat (n + 1)

def ofBool (b : Bool) : Text := if b then "true" else "false"

theorem length_trimStart_le (t : Text) : (trimStart t).length ≤ t.length :=
  (List.dropWhile_suffix _).length_le

end Text

end Haml
