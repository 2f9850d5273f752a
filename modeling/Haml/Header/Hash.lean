import Haml.Header.Source

/-! Attribute hashes, the groups in braces. A hash is cut at its commas; each entry pairs a key with
the text of a value. One entry whose key is not literal makes the whole hash code. -/

namespace Haml

/-- The pieces of a text between the commas that stand outside strings and brackets. -/
def splitCommas : Int → Quote → Text → List Text
  | _, _, [] => [[]]
  | depth, quote, c :: rest =>
    if quote = .outside ∧ c = ',' ∧ depth = 0 then [] :: splitCommas 0 .outside rest
    else
      let deeper :=
        if quote ≠ .outside then depth
        else if Brackets.all.opens c then depth + 1
        else if Brackets.all.closes c then depth - 1
        else depth
      match splitCommas deeper (quote.next c) rest with
      | [] => [[c]]
      | piece :: more => (c :: piece) :: more

namespace Hash

/-- The value behind the arrow of an entry. -/
def afterArrow? (text : Text) : Option Text :=
  ("=>".toList.isPrefixOf? (Text.trimStart text)).map Text.trim

/-- A string at the start of a text, its escapes undone, and what follows it. -/
def readString (text : Text) : Option (Text × Text) :=
  (Quote.read text).map fun (mark, body, rest) => (Quote.unescape mark body, rest)

/-- The key and the value's text of an entry. A key is a symbol, which an arrow follows, a string,
which an arrow or a colon follows, or a bare name with a single colon. -/
def splitEntry (entry : Text) : Option (Text × Text) :=
  match entry with
  | ':' :: rest =>
    if Quote.opensIn rest then do
      let (key, rest) ← readString rest
      return (key, ← afterArrow? rest)
    else
      let key := rest.takeWhile isNameChar
      if key.isEmpty then none
      else (afterArrow? (rest.dropWhile isNameChar)).map (key, ·)
  | _ =>
    if Quote.opensIn entry then do
      let (key, rest) ← readString entry
      match Text.trimStart rest with
      | '=' :: '>' :: value => some (key, Text.trim value)
      | ':' :: value => some (key, Text.trim value)
      | _ => none
    else
      let key := entry.takeWhile isNameChar
      if key.isEmpty then none
      else
        match entry.dropWhile isNameChar with
        | ':' :: ':' :: _ => none
        | ':' :: value => some (key, Text.trim value)
        | _ => none

/-- The sources of entries, or none as soon as an entry has no literal key. -/
def ofEntries (line : Nat) : List Text → Except ReadError (Option (List AttributeSource))
  | [] => .ok (some [])
  | entry :: rest =>
    let entry := Text.trim entry
    if entry.isEmpty then ofEntries line rest
    else
      match splitEntry entry with
      | none => .ok none
      | some (name, value) => do
        let source ← AttributeSource.ofValue line name value
        return (← ofEntries line rest).map (source :: ·)

/-- The sources of a hash with the given inside. -/
def read (line : Nat) (body : Text) : Except ReadError (List AttributeSource) := do
  match ← ofEntries line (splitCommas 0 .outside body) with
  | some sources => return sources
  | none => return [.hash ('{' :: body ++ ['}'])]

end Hash

end Haml
