import Haml.Text.Basic

/-! The tokens of a JSON text: punctuation, words, numbers and strings, with white space between
them left out. -/

namespace Haml.Json

/-- A token. A string whose escapes name half of a surrogate pair has no text. -/
inductive Token
  | openArray
  | closeArray
  | openObject
  | closeObject
  | comma
  | colon
  | null
  | bool (b : Bool)
  | number (spelling : Text)
  | string (text : Option Text)
  deriving DecidableEq, Repr

def isSpace (c : Char) : Bool := c == ' ' || c == '\n' || c == '\t' || c == '\r'

/-- The value of a hexadecimal digit. -/
def hexDigit? (c : Char) : Option Nat :=
  if c.isDigit then some (c.toNat - '0'.toNat)
  else if 'a' ≤ c ∧ c ≤ 'f' then some (c.toNat - 'a'.toNat + 10)
  else if 'A' ≤ c ∧ c ≤ 'F' then some (c.toNat - 'A'.toNat + 10)
  else none

def hex? (digits : Text) : Option Nat :=
  digits.foldl (fun n c => do return 16 * (← n) + (← hexDigit? c)) (some 0)

/-- The character that a letter after a backslash stands for. -/
def escaped? (c : Char) : Option Char :=
  [('"', '"'), ('\\', '\\'), ('/', '/'), ('b', '\x08'), ('f', '\x0c'), ('n', '\n'), ('r', '\r'),
    ('t', '\t')].lookup c

/-- The code units of a string up to its closing quote, and what follows it. -/
def readUnits : Text → Option (List Nat × Text)
  | [] => none
  | '"' :: rest => some ([], rest)
  | '\\' :: 'u' :: a :: b :: c :: d :: rest => do
    let unit ← hex? [a, b, c, d]
    let (units, rest) ← readUnits rest
    return (unit :: units, rest)
  | '\\' :: c :: rest => do
    let c ← escaped? c
    let (units, rest) ← readUnits rest
    return (c.toNat :: units, rest)
  | c :: rest =>
    if c.toNat < 0x20 ∨ c = '\\' then none
    else do
      let (units, rest) ← readUnits rest
      return (c.toNat :: units, rest)

def isHighSurrogate (n : Nat) : Bool := 0xD800 ≤ n && n < 0xDC00

def isLowSurrogate (n : Nat) : Bool := 0xDC00 ≤ n && n < 0xE000

/-- The text of code units, if all surrogates stand in pairs. -/
def decode? : List Nat → Option Text
  | [] => some []
  | [n] => if isHighSurrogate n || isLowSurrogate n then none else some [Char.ofNat n]
  | n :: m :: rest =>
    if isHighSurrogate n then
      if isLowSurrogate m then
        (decode? rest).map (Char.ofNat (0x10000 + (n - 0xD800) * 0x400 + (m - 0xDC00)) :: ·)
      else none
    else if isLowSurrogate n then none
    else (decode? (m :: rest)).map (Char.ofNat n :: ·)

/-- Digits, one at least, at the start of a text. -/
def readDigits (t : Text) : Option (Text × Text) :=
  if (t.takeWhile Char.isDigit).isEmpty then none
  else some (t.takeWhile Char.isDigit, t.dropWhile Char.isDigit)

/-- The whole part of a number: a zero, or digits that begin with another. -/
def readWhole : Text → Option (Text × Text)
  | '0' :: rest => if rest.head?.any Char.isDigit then none else some (['0'], rest)
  | t => readDigits t

def readFraction : Text → Option (Text × Text)
  | '.' :: rest => (readDigits rest).map fun (digits, rest) => ('.' :: digits, rest)
  | t => some ([], t)

def readExponent : Text → Option (Text × Text)
  | mark :: rest =>
    if mark = 'e' ∨ mark = 'E' then
      match rest with
      | '+' :: rest => (readDigits rest).map fun (digits, rest) => (mark :: '+' :: digits, rest)
      | '-' :: rest => (readDigits rest).map fun (digits, rest) => (mark :: '-' :: digits, rest)
      | rest => (readDigits rest).map fun (digits, rest) => (mark :: digits, rest)
    else some ([], mark :: rest)
  | [] => some ([], [])

def readNumber (t : Text) : Option (Text × Text) := do
  let (sign, t) : Text × Text := match t with
    | '-' :: rest => (['-'], rest)
    | _ => ([], t)
  let (whole, t) ← readWhole t
  let (fraction, t) ← readFraction t
  let (exponent, t) ← readExponent t
  return (sign ++ whole ++ fraction ++ exponent, t)

/-- The token at the start of a text without leading white space, and what follows it. -/
def Token.read : Text → Option (Token × Text)
  | '[' :: rest => some (openArray, rest)
  | ']' :: rest => some (closeArray, rest)
  | '{' :: rest => some (openObject, rest)
  | '}' :: rest => some (closeObject, rest)
  | ',' :: rest => some (comma, rest)
  | ':' :: rest => some (colon, rest)
  | 'n' :: 'u' :: 'l' :: 'l' :: rest => some (null, rest)
  | 't' :: 'r' :: 'u' :: 'e' :: rest => some (bool true, rest)
  | 'f' :: 'a' :: 'l' :: 's' :: 'e' :: rest => some (bool false, rest)
  | '"' :: rest => (readUnits rest).map fun (units, rest) => (string (decode? units), rest)
  | t => (readNumber t).map fun (spelling, rest) => (number spelling, rest)

theorem length_lt_of_readUnits {t rest : Text} {units : List Nat}
    (h : readUnits t = some (units, rest)) : rest.length < t.length := by
  fun_induction readUnits t generalizing units with
  | case1 => cases h
  | case2 => simp_all
  | case3 a b c d t ih =>
    simp only [bind, Option.bind_eq_some_iff, pure, Option.some.injEq, Prod.mk.injEq] at h
    obtain ⟨_, _, ⟨units', rest'⟩, hread, _, rfl⟩ := h
    have := ih hread
    simp only [List.length_cons] at this ⊢
    omega
  | case4 c t _ ih =>
    simp only [bind, Option.bind_eq_some_iff, pure, Option.some.injEq, Prod.mk.injEq] at h
    obtain ⟨_, _, ⟨units', rest'⟩, hread, _, rfl⟩ := h
    have := ih hread
    simp only [List.length_cons] at this ⊢
    omega
  | case5 => cases h
  | case6 c t _ _ _ _ ih =>
    simp only [bind, Option.bind_eq_some_iff, pure, Option.some.injEq, Prod.mk.injEq] at h
    obtain ⟨⟨units', rest'⟩, hread, _, rfl⟩ := h
    have := ih hread
    simp only [List.length_cons] at this ⊢
    omega

theorem length_lt_of_readDigits {t digits rest : Text} (h : readDigits t = some (digits, rest)) :
    rest.length < t.length := by
  unfold readDigits at h
  split at h
  · cases h
  · next hdigits =>
    simp only [Option.some.injEq, Prod.mk.injEq] at h
    have happend :=
      congrArg List.length (List.takeWhile_append_dropWhile (p := Char.isDigit) (l := t))
    have hpos : 0 < (t.takeWhile Char.isDigit).length := by
      simpa [List.length_pos_iff, List.isEmpty_iff] using hdigits
    rw [← h.2]
    simp only [List.length_append] at happend
    omega

theorem length_lt_of_readWhole {t digits rest : Text} (h : readWhole t = some (digits, rest)) :
    rest.length < t.length := by
  unfold readWhole at h
  split at h
  · split at h
    · cases h
    · simp only [Option.some.injEq, Prod.mk.injEq] at h
      simp [← h.2]
  · exact length_lt_of_readDigits h

theorem length_le_of_readFraction {t digits rest : Text}
    (h : readFraction t = some (digits, rest)) : rest.length ≤ t.length := by
  unfold readFraction at h
  split at h
  · obtain ⟨⟨digits', rest'⟩, hread, heq⟩ := Option.map_eq_some_iff.1 h
    have := length_lt_of_readDigits hread
    simp only [Prod.mk.injEq] at heq
    simp only [← heq.2, List.length_cons]
    omega
  · simp_all

theorem length_le_of_readExponent {t digits rest : Text}
    (h : readExponent t = some (digits, rest)) : rest.length ≤ t.length := by
  unfold readExponent at h
  split at h
  · split at h
    · split at h <;>
      · obtain ⟨⟨digits', rest'⟩, hread, heq⟩ := Option.map_eq_some_iff.1 h
        have := length_lt_of_readDigits hread
        simp only [Prod.mk.injEq] at heq
        simp only [← heq.2, List.length_cons]
        omega
    · simp_all
  · simp_all

theorem length_lt_of_readNumber {t spelling rest : Text}
    (h : readNumber t = some (spelling, rest)) : rest.length < t.length := by
  unfold readNumber at h
  simp only [bind, Option.bind_eq_some_iff, pure, Option.some.injEq, Prod.mk.injEq] at h
  obtain ⟨⟨_, _⟩, hwhole, ⟨_, _⟩, hfraction, ⟨_, _⟩, hexponent, _, rfl⟩ := h
  have h₁ := length_lt_of_readWhole hwhole
  have h₂ := length_le_of_readFraction hfraction
  have h₃ := length_le_of_readExponent hexponent
  split at h₁ <;> simp_all only [List.length_cons] <;> omega

theorem Token.length_lt_of_read {t rest : Text} {token : Token}
    (h : Token.read t = some (token, rest)) : rest.length < t.length := by
  unfold Token.read at h
  split at h
  case h_10 =>
    obtain ⟨⟨units, rest'⟩, hread, heq⟩ := Option.map_eq_some_iff.1 h
    have := length_lt_of_readUnits hread
    simp only [Prod.mk.injEq] at heq
    simp only [← heq.2, List.length_cons]
    omega
  case h_11 =>
    obtain ⟨⟨spelling, rest'⟩, hread, heq⟩ := Option.map_eq_some_iff.1 h
    have := length_lt_of_readNumber hread
    simp only [Prod.mk.injEq] at heq
    simp only [← heq.2]
    omega
  all_goals
    simp only [Option.some.injEq, Prod.mk.injEq] at h
    simp only [← h.2, List.length_cons]
    omega

/-- All tokens of a text, if nothing else stands in it. -/
def Token.readAll (t : Text) : Option (List Token) :=
  match hspace : t.dropWhile isSpace with
  | [] => some []
  | first :: rest =>
    match hread : Token.read (first :: rest) with
    | none => none
    | some (token, left) =>
      have : left.length < t.length := by
        have hlt := Token.length_lt_of_read hread
        have hle := (List.dropWhile_suffix (l := t) isSpace).length_le
        rw [hspace] at hle
        omega
      (Token.readAll left).map (token :: ·)
  termination_by t.length

end Haml.Json
