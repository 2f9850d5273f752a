import Haml.Text.Basic

/-! Where quoted strings begin and end in a piece of code. A string opens at a single or double
quote and closes at the next one of its kind; inside it a backslash takes away the meaning of the
character after it. Brackets count outside strings only. -/

namespace Haml

/-- The place of a character with regard to quoted strings. -/
inductive Quote
  | outside
  | inside (mark : Char)
  | escaped (mark : Char)
  deriving DecidableEq, Repr

namespace Quote

def isMark (c : Char) : Bool := c == '"' || c == '\''

def opensIn : Text → Bool
  | [] => false
  | c :: _ => isMark c

/-- The place after a character. -/
def next : Quote → Char → Quote
  | outside, c => if isMark c then inside c else outside
  | inside mark, c =>
    if c = '\\' then escaped mark else if c = mark then outside else inside mark
  | escaped mark, _ => inside mark

/-- Reads up to the character that closes the string one is in: the string's body and what follows
its closing mark. -/
def body : Quote → Text → Option (Text × Text)
  | _, [] => none
  | quote, c :: rest =>
    if quote.next c = outside then some ([], rest)
    else (body (quote.next c) rest).map fun (text, rest) => (c :: text, rest)

/-- A text opened and closed by its first character: that character, the body in between and the
rest. -/
def read : Text → Option (Char × Text × Text)
  | [] => none
  | mark :: text => (body (inside mark) text).map fun (body, rest) => (mark, body, rest)

/-- Reading a string's body loses the closing mark and nothing else. -/
theorem eq_append_of_body {quote : Quote} {text inner rest : Text}
    (h : quote.body text = some (inner, rest)) : ∃ close, text = inner ++ close :: rest := by
  induction text generalizing quote inner with
  | nil => simp [body] at h
  | cons c text ih =>
    rw [body] at h
    split at h
    · exact ⟨c, by simp_all⟩
    · obtain ⟨⟨inner', rest'⟩, hbody, heq⟩ := Option.map_eq_some_iff.1 h
      obtain ⟨rfl, rfl⟩ := Prod.mk.inj heq
      obtain ⟨close, rfl⟩ := ih hbody
      exact ⟨close, rfl⟩

theorem length_lt_of_read {text inner rest : Text} {mark : Char}
    (h : read text = some (mark, inner, rest)) : rest.length < text.length := by
  cases text with
  | nil => simp [read] at h
  | cons c text =>
    obtain ⟨⟨inner', rest'⟩, hbody, heq⟩ := Option.map_eq_some_iff.1 h
    simp only [Prod.mk.injEq] at heq
    obtain ⟨_, _, rfl⟩ := heq
    obtain ⟨close, rfl⟩ := eq_append_of_body hbody
    simp only [List.length_cons, List.length_append]
    omega

/-- Undoes the escapes of a string's body. A backslash hides itself and the string's mark; in double
quotes `\n` and `\t` stand for a line feed and a tab; before anything else it stands for itself. -/
def unescape (mark : Char) : Text → Text
  | [] => []
  | '\\' :: '\\' :: rest => '\\' :: unescape mark rest
  | '\\' :: c :: rest =>
    if c = mark then c :: unescape mark rest
    else if c = 'n' && mark = '"' then '\n' :: unescape mark rest
    else if c = 't' && mark = '"' then '\t' :: unescape mark rest
    else '\\' :: unescape mark (c :: rest)
  | c :: rest => c :: unescape mark rest

end Quote

/-- The kinds of brackets that a reader counts. -/
structure Brackets where
  opens : Char → Bool
  closes : Char → Bool

namespace Brackets

/-- Braces alone. -/
def braces : Brackets := ⟨(· == '{'), (· == '}')⟩

/-- Braces, parentheses and square brackets, counted alike. -/
def all : Brackets := ⟨(['{', '(', '['].contains ·), (['}', ')', ']'].contains ·)⟩

/-- How deep the character leaves one, where `depth` brackets are open before it. -/
def depthAfter (brackets : Brackets) (quote : Quote) (depth : Nat) (c : Char) : Nat :=
  if quote ≠ .outside then depth
  else if brackets.opens c then depth + 1
  else if brackets.closes c then depth - 1
  else depth

/-- Reads the inside of an open bracket: the text before the bracket that closes it, and what
follows that bracket. `depth` counts the brackets opened and not closed since. -/
def body (brackets : Brackets) : Nat → Quote → Text → Option (Text × Text)
  | _, _, [] => none
  | depth, quote, c :: rest =>
    if quote = .outside ∧ brackets.closes c ∧ depth = 0 then some ([], rest)
    else (body brackets (brackets.depthAfter quote depth c) (quote.next c) rest).map
      fun (text, rest) => (c :: text, rest)

/-- Reading a bracket's inside loses the closing bracket and nothing else. -/
theorem eq_append_of_body {brackets : Brackets} {depth : Nat} {quote : Quote}
    {text inner rest : Text} (h : brackets.body depth quote text = some (inner, rest)) :
    ∃ close, brackets.closes close ∧ text = inner ++ close :: rest := by
  induction text generalizing depth quote inner with
  | nil => simp [body] at h
  | cons c text ih =>
    rw [body] at h
    split at h
    · next hc => exact ⟨c, hc.2.1, by simp_all⟩
    · obtain ⟨⟨inner', rest'⟩, hbody, heq⟩ := Option.map_eq_some_iff.1 h
      obtain ⟨rfl, rfl⟩ := Prod.mk.inj heq
      obtain ⟨close, hclose, rfl⟩ := ih hbody
      exact ⟨close, hclose, rfl⟩

theorem length_lt_of_body {brackets : Brackets} {depth : Nat} {quote : Quote}
    {text inner rest : Text} (h : brackets.body depth quote text = some (inner, rest)) : rest.length < text.length := by
  obtain ⟨close, _, rfl⟩ := eq_append_of_body h
  simp only [List.length_append, List.length_cons]
  omega

end Brackets

end Haml
