import Haml.Document
import Haml.Proofs.Line.Marked
import Haml.Proofs.Position.Bytes

/-! Lines under byte offsets. Indentation, content, the continuation marker and the marker at the
start of a line are all cut out at offsets that were found by looking for a character, or lie one or
two bytes behind one. Every such cut is within the text and between two characters. -/

namespace Haml

namespace PhysicalLine

/-- The leading run, cut where what is left of the text without it begins. -/
def indentAt? (raw : PhysicalLine) : Option Text := do
  let rest := raw.text.dropWhile isIndentMark
  Text.takeBytes? (← Text.sub? (Text.bytes raw.text) (Text.bytes rest)) raw.text

/-- What follows an indentation, without white space at its end. -/
def contentAt? (raw : PhysicalLine) (indent : Text) : Option Text :=
  (Text.dropBytes? (Text.bytes indent) raw.text).map Text.trimEnd

theorem indentAt?_eq (raw : PhysicalLine) : raw.indentAt? = some raw.indent := by
  have hsplit := List.takeWhile_append_dropWhile (p := isIndentMark) (l := raw.text)
  have hwidth : Text.bytes raw.text =
      Text.bytes raw.indent + Text.bytes (raw.text.dropWhile isIndentMark) := by
    rw [← Text.bytes_append, indent, hsplit]
  rw [indentAt?, hwidth, Text.sub?_add]
  exact Text.takeBytes?_takeWhile isIndentMark raw.text

theorem contentAt?_eq (raw : PhysicalLine) : raw.contentAt? raw.indent = some raw.content := by
  rw [contentAt?, indent, Text.dropBytes?_takeWhile]
  rfl

/-- Does a line belong to the block below an indentation of the given width? -/
def isBelowAt? (indent : Text) (raw : PhysicalLine) : Option Bool :=
  if raw.isBlank then some true
  else raw.indentAt?.map fun own => Text.bytes indent < Text.bytes own

theorem bytes_of_isIndentMark {indent : Text} (h : ∀ c ∈ indent, isIndentMark c = true) :
    Text.bytes indent = indent.length := by
  refine Text.bytes_eq_length fun c hc => ?_
  rcases eq_of_isIndentMark (h c hc) with rfl | rfl <;> rfl

theorem isIndentMark_of_mem_indent (raw : PhysicalLine) :
    ∀ c ∈ raw.indent, isIndentMark c = true := fun _ hc => List.mem_takeWhile_imp hc

/-- Runs of spaces and tabs are as wide as they are long. -/
theorem isBelowAt?_eq {indent : Text} (h : ∀ c ∈ indent, isIndentMark c = true)
    (raw : PhysicalLine) : isBelowAt? indent raw = some (isBelow indent raw) := by
  rw [isBelowAt?, isBelow, raw.indentAt?_eq, bytes_of_isIndentMark h]
  cases raw.isBlank with
  | true => rfl
  | false =>
    rw [Option.map_some, bytes_of_isIndentMark raw.isIndentMark_of_mem_indent]
    rfl

/-- The lines of the block below an indentation, and the lines behind it. -/
def takeBlockAt? (indent : Text) :
    List PhysicalLine → Option (List PhysicalLine × List PhysicalLine)
  | [] => some ([], [])
  | raw :: rest => do
    if ← isBelowAt? indent raw then
      let (block, left) ← takeBlockAt? indent rest
      return (raw :: block, left)
    else return ([], raw :: rest)

theorem takeBlockAt?_eq {indent : Text} (h : ∀ c ∈ indent, isIndentMark c = true)
    (raws : List PhysicalLine) : takeBlockAt? indent raws =
      some (raws.takeWhile (isBelow indent), raws.dropWhile (isBelow indent)) := by
  induction raws with
  | nil => rfl
  | cons raw rest ih =>
    rw [takeBlockAt?, isBelowAt?_eq h, ih]
    cases hbelow : isBelow indent raw <;> simp [hbelow]

end PhysicalLine

namespace Line

/-- Does an argument list of a block open at the end of a body? -/
def opensArgumentsAt? (body : Text) : Option Bool :=
  match Text.lastOffset? "do" body with
  | none => some false
  | some pos => do
    let after := Text.trimStart (← Text.dropBytes? (pos + 2) body)
    if after.head? = some '|' then return !(← Text.dropBytes? 1 after).contains '|'
    else return false

/-- Does the text end in the continuation marker? -/
def isContinuedAt? (text : Text) : Option Bool := do
  let text := Text.trimEnd text
  if Text.bytes text < 2 ∨ text.getLast? ≠ some '|' then return false
  else
    let body ← Text.takeBytes? (← Text.sub? (Text.bytes text) 1) text
    if body.getLast?.any PhysicalLine.isIndentMark then return !(← opensArgumentsAt? body)
    else return false

theorem opensArgumentsAt?_eq (body : Text) :
    opensArgumentsAt? body = some (opensArguments body) := by
  rw [opensArgumentsAt?, opensArguments]
  rcases Text.lastOffset?_cases "do" body with ⟨hoffset, hafter⟩ | ⟨front, after, hbody, hoffset,
    hafter⟩
  · rw [hoffset, hafter]
    rfl
  · have hdrop : Text.dropBytes? (Text.bytes front + 2) body = some after := by
      have h := Text.dropBytes?_append (front ++ "do") after
      rwa [← hbody, Text.bytes_append] at h
    rw [hoffset, hafter]
    dsimp only
    rw [hdrop, Option.map_some]
    change (if (Text.trimStart after).head? = some '|' then _ else _) = _
    cases htrim : Text.trimStart after with
    | nil => rfl
    | cons c rest =>
      by_cases hc : c = '|'
      · subst hc
        have hone : Text.dropBytes? 1 ('|' :: rest) = some rest :=
          Text.dropBytes?_append ['|'] rest
        rw [List.head?_cons, if_pos rfl, hone]
        rfl
      · rw [List.head?_cons, if_neg (by simpa using hc)]
        split
        · next heq => exact absurd (List.cons.inj (Option.some.inj heq)).1 hc
        · rfl

theorem isContinuedAt?_eq (text : Text) : isContinuedAt? text = some (isContinued text) := by
  rw [isContinuedAt?, isContinued]
  rcases List.eq_nil_or_concat' (Text.trimEnd text) with htext | ⟨body, last, htext⟩
  · rw [htext]
    rfl
  rw [htext, List.getLast?_concat, List.reverse_concat]
  by_cases hlast : last = '|'
  · subst hlast
    have hwidth : Text.bytes (body ++ ['|']) = Text.bytes body + 1 := Text.bytes_concat body '|'
    rw [hwidth, Text.sub?_add]
    rcases List.eq_nil_or_concat' body with rfl | ⟨front, mark, rfl⟩
    · rfl
    · have hpos := mark.utf8Size_pos
      have hwide : ¬(Text.bytes (front ++ [mark]) + 1 < 2 ∨ some '|' ≠ some '|') := by
        simp only [Text.bytes_concat, ne_eq, not_true_eq_false, or_false]
        omega
      rw [if_neg hwide]
      change (Text.takeBytes? _ _).bind _ = _
      rw [Text.takeBytes?_append, Option.bind_some, List.getLast?_concat, List.reverse_concat,
        opensArgumentsAt?_eq, Option.any_some]
      change _ = some (_ && !opensArguments (mark :: front.reverse).reverse)
      rw [List.reverse_cons, List.reverse_reverse]
      cases PhysicalLine.isIndentMark mark <;> rfl
  · rw [if_pos (.inr (by simpa using hlast))]
    split
    · next heq => exact absurd (List.cons.inj heq).1 hlast
    · rfl

/-- Joins the lines that carry the marker. -/
def joinContinuedAt? (line : Line) :
    List PhysicalLine → Option (Except LexError Line × List PhysicalLine)
  | [] => some (.error ⟨.unterminatedMultiline, line.number⟩, [])
  | raw :: rest =>
    if (raw :: rest).all PhysicalLine.isBlank then
      some (.error ⟨.unterminatedMultiline, line.number⟩, raw :: rest)
    else do
      let text := Text.trim raw.text
      if ← isContinuedAt? text then
        joinContinuedAt? (line.extend raw.number (stripMarker text)) rest
      else return (.ok line, raw :: rest)

/-- The logical line that starts at the first line with content. -/
def nextAt? : List PhysicalLine → Option (Option (Except LexError Line × List PhysicalLine))
  | [] => some none
  | raw :: rest =>
    if raw.isBlank then nextAt? rest
    else do
      let indent ← raw.indentAt?
      let content ← raw.contentAt? indent
      if ← isContinuedAt? content then
        return some (← joinContinuedAt? ⟨raw.number, raw.number, indent, stripMarker content⟩ rest)
      else return some (.ok ⟨raw.number, raw.number, indent, content⟩, rest)

theorem joinContinuedAt?_eq (line : Line) (raws : List PhysicalLine) :
    joinContinuedAt? line raws = some (joinContinued line raws) := by
  induction raws generalizing line with
  | nil => rfl
  | cons raw rest ih =>
    rw [joinContinuedAt?, joinContinued]
    split
    · rfl
    · dsimp only
      rw [isContinuedAt?_eq]
      cases isContinued (Text.trim raw.text)
      · rfl
      · exact ih _

theorem nextAt?_eq (raws : List PhysicalLine) : nextAt? raws = some (next? raws) := by
  induction raws with
  | nil => rfl
  | cons raw rest ih =>
    rw [nextAt?, next?, ih, raw.indentAt?_eq]
    split
    · rfl
    · change (raw.contentAt? raw.indent).bind _ = _
      rw [raw.contentAt?_eq, Option.bind_some, isContinuedAt?_eq]
      cases isContinued raw.content
      · rfl
      · change (joinContinuedAt? _ rest).bind _ = _
        rw [joinContinuedAt?_eq]
        rfl

end Line

namespace Marker

/-- The marker of a line and what follows it, cut one to three bytes behind the start. A leading
backslash is cut off before it is seen whether it stays. -/
def classifyAt? (text : Text) : Option (Marker × Text) :=
  match text with
  | '\\' :: '#' :: '{' :: _ => (Text.dropBytes? 1 text).map fun _ => (plain, text)
  | '\\' :: _ => (Text.dropBytes? 1 text).map (plain, ·)
  | '%' :: _ => (Text.dropBytes? 1 text).map (element, ·)
  | '=' :: _ => (Text.dropBytes? 1 text).map (script, ·)
  | '~' :: _ => (Text.dropBytes? 1 text).map (preservedScript, ·)
  | '&' :: '=' :: _ => (Text.dropBytes? 2 text).map (escapedScript, ·)
  | '&' :: ' ' :: _ => (Text.dropBytes? 2 text).map (escapedText, ·)
  | '!' :: '!' :: '!' :: _ => (Text.dropBytes? 3 text).map (doctype, ·)
  | '!' :: '=' :: _ => (Text.dropBytes? 2 text).map (unescapedScript, ·)
  | '!' :: ' ' :: _ => (Text.dropBytes? 2 text).map (unescapedText, ·)
  | '-' :: '#' :: _ => (Text.dropBytes? 2 text).map (silentComment, ·)
  | '-' :: _ => (Text.dropBytes? 1 text).map (silent, ·)
  | '/' :: _ => (Text.dropBytes? 1 text).map (comment, ·)
  | first :: second :: _ =>
    if (first = '.' || first = '#') && isNameChar second then some (div, text)
    else if first = ':' && Unicode.isAlphabetic second then
      (Text.dropBytes? 1 text).map (filter, ·)
    else some (plain, text)
  | _ => some (plain, text)

theorem classifyAt?_eq (text : Text) : classifyAt? text = some (classify text) := by
  have behind {α : Type} (f : Text → α) (u rest : Text) :
      (Text.dropBytes? (Text.bytes u) (u ++ rest)).map f = some (f rest) := by
    rw [Text.dropBytes?_append]
    rfl
  unfold classify
  split
  case h_1 rest =>
    exact behind (fun _ => (plain, '\\' :: '#' :: '{' :: rest)) ['\\'] ('#' :: '{' :: rest)
  case h_2 rest h =>
    rw [classifyAt?]
    · exact behind _ ['\\'] rest
    · exact h
  case h_3 rest => exact behind _ ['%'] rest
  case h_4 rest => exact behind _ ['='] rest
  case h_5 rest => exact behind _ ['~'] rest
  case h_6 rest => exact behind _ "&=" rest
  case h_7 rest => exact behind _ "& " rest
  case h_8 rest => exact behind _ "!!!" rest
  case h_9 rest => exact behind _ "!=" rest
  case h_10 rest => exact behind _ "! " rest
  case h_11 rest => exact behind _ "-#" rest
  case h_12 rest h =>
    rw [classifyAt?]
    · exact behind _ ['-'] rest
    · exact h
  case h_13 rest => exact behind _ ['/'] rest
  case h_14 first second rest _ _ _ _ _ _ _ _ _ _ _ _ _ =>
    rw [classifyAt?]
    all_goals try assumption
    split
    · rfl
    · split
      · next hfilter =>
        obtain ⟨rfl, -⟩ : first = ':' ∧ Unicode.isAlphabetic second = true := by
          simpa using hfilter
        exact behind _ [':'] (second :: rest)
      · rfl
  case h_15 =>
    rw [classifyAt?]
    all_goals assumption

end Marker

end Haml
