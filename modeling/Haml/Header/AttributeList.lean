import Haml.Header.Source

/-! Attribute lists, the groups in parentheses: names, each alone or with an equals sign and a
value, with white space between them. -/

namespace Haml.AttributeList

def isListName (c : Char) : Bool := isNameChar c || c == ':'

/-- The text of a value: its source and what follows. -/
def readValue (line : Nat) (name text : Text) : Except ReadError (AttributeSource × Text) :=
  if text.isEmpty then .error (.invalid (.missingValue name) line)
  else if Quote.opensIn text then
    match Quote.read text with
    | none => .error (.invalid (.unterminatedValue name) line)
    | some (mark, body, rest) =>
      (AttributeSource.ofQuoted line name mark body).map fun source => (source, rest)
  else
    .ok (.ofWord name (text.takeWhile (!Unicode.isBlank ·)), text.dropWhile (!Unicode.isBlank ·))

/-- The attribute at the start of a text, and what follows it. A name alone is true. -/
def readAttribute (line : Nat) (first : Char) (text : Text) :
    Except ReadError (AttributeSource × Text) :=
  if isListName first then
    let name := first :: text.takeWhile isListName
    let rest := text.dropWhile isListName
    match Text.trimStart rest with
    | '=' :: value => readValue line name (Text.trimStart value)
    | _ => .ok (.fixed name (.bool true), rest)
  else .error (.invalid (.strayListCharacter first) line)

theorem length_le_of_readValue {line : Nat} {name text rest : Text} {source : AttributeSource}
    (h : readValue line name text = .ok (source, rest)) : rest.length ≤ text.length := by
  unfold readValue at h
  split at h
  · cases h
  split at h
  · split at h
    · cases h
    · next mark body rest' hread =>
      cases hq : AttributeSource.ofQuoted line name mark body with
      | error e => simp [hq, Except.map] at h
      | ok value =>
        simp only [hq, Except.map, Except.ok.injEq, Prod.mk.injEq] at h
        exact h.2 ▸ Nat.le_of_lt (Quote.length_lt_of_read hread)
  · simp only [Except.ok.injEq, Prod.mk.injEq] at h
    exact h.2 ▸ (List.dropWhile_suffix _).length_le

theorem length_le_of_readAttribute {line : Nat} {first : Char} {text rest : Text}
    {source : AttributeSource} (h : readAttribute line first text = .ok (source, rest)) :
    rest.length ≤ text.length := by
  have hname : (text.dropWhile isListName).length ≤ text.length :=
    (List.dropWhile_suffix _).length_le
  unfold readAttribute at h
  split at h
  · dsimp only at h
    split at h
    · next value heq =>
      have htrim := Text.length_trimStart_le (text.dropWhile isListName)
      have hvalue := Text.length_trimStart_le value
      have := length_le_of_readValue h
      simp only [heq, List.length_cons] at htrim
      omega
    · simp only [Except.ok.injEq, Prod.mk.injEq] at h
      exact h.2 ▸ hname
  · cases h

/-- The sources of a list with the given inside. -/
def read (line : Nat) (text : Text) : Except ReadError (List AttributeSource) :=
  match htrim : Text.trimStart text with
  | [] => .ok []
  | first :: rest =>
    match hread : readAttribute line first rest with
    | .error e => .error e
    | .ok (source, rest) =>
      have : rest.length < text.length := by
        have h₁ := length_le_of_readAttribute hread
        have h₂ := Text.length_trimStart_le text
        simp only [htrim, List.length_cons] at h₂
        omega
      (read line rest).map (source :: ·)
  termination_by text.length

variable {line : Nat} {text rest : Text} {first : Char}

theorem read_nil (htrim : Text.trimStart text = []) : read line text = .ok [] := by
  rw [read]
  split
  · rfl
  · simp_all

theorem read_cons (htrim : Text.trimStart text = first :: rest) :
    read line text = (readAttribute line first rest).bind fun (source, rest) =>
      (read line rest).map (source :: ·) := by
  rw [read]
  split
  · simp_all
  · next first' rest' htrim' =>
    obtain ⟨rfl, rfl⟩ := List.cons.inj (htrim.symm.trans htrim')
    split <;> simp_all [Except.bind]

end Haml.AttributeList
