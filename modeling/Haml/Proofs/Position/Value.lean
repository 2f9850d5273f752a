import Haml.Header.Read
import Haml.Proofs.Position.Checked
import Haml.Proofs.Position.Segment
import Haml.Proofs.Text.Strings

/-! Values under byte offsets. A string is cut one byte behind its start and one byte behind its
end, which is right for quotation marks; a text that begins with a wider character and closes like a
string is cut within that character, and there is no result. -/

namespace Haml

namespace Quote

variable {quote : Quote} {offset : Nat} {t : Text} {mark : Char}

/-- The offset of the mark that closes the string one is in, counted from an offset. -/
def closeOffset? : Quote → Nat → Text → Option Nat
  | _, _, [] => none
  | quote, offset, c :: rest =>
    if quote.next c = outside then some offset
    else closeOffset? (quote.next c) (offset + c.utf8Size) rest

theorem closeOffset?_eq : closeOffset? quote offset t =
    (quote.body t).map fun (inner, _) => offset + Text.bytes inner := by
  induction t generalizing quote offset with
  | nil => rfl
  | cons c t ih =>
    rw [closeOffset?, body]
    split
    · rfl
    · rw [ih, Option.map_map]
      congr 1
      funext p
      simp only [Function.comp_apply, Text.bytes_cons]
      omega

theorem utf8Size_of_isMark (h : isMark mark = true) : mark.utf8Size = 1 := by
  rcases isMark_iff.mp h with rfl | rfl <;> rfl

/-- Between its marks, each one byte wide, a string has its body. -/
theorem slice?_string (hone : mark.utf8Size = 1) (body rest : Text) :
    Text.slice? 1 (1 + Text.bytes body) (string mark body ++ rest) = some body := by
  have hslice := Text.slice?_append [mark] body (mark :: rest)
  rw [Text.bytes_append, Text.bytes_cons, Text.bytes_nil, hone] at hslice
  rw [string, List.cons_append, List.append_assoc]
  exact hslice

end Quote

theorem Reference.splitsMark_cons {mark : Char} (h : mark.utf8Size = 1) (rest : Text) :
    splitsMark (mark :: rest) = false := by
  rw [splitsMark, Quote.read]
  cases (Quote.inside mark).body rest with
  | none => rfl
  | some p => simp [h]

namespace Hash

/-- A string at the start of a text and what follows it, cut by offsets that count one byte for each
of its marks. -/
def readStringAt? (text : Text) : Option (Option (Text × Text)) :=
  match text with
  | [] => some none
  | mark :: rest =>
    match Quote.closeOffset? (.inside mark) mark.utf8Size rest with
    | none => some none
    | some index => do
      let body ← Text.slice? 1 index text
      let after ← Text.dropBytes? (index + 1) text
      return some (Quote.unescape mark body, after)

theorem readStringAt?_eq (text : Text) : readStringAt? text =
    if Reference.splitsMark text then none else some (readString text) := by
  cases text with
  | nil => rfl
  | cons mark rest =>
    rw [readStringAt?, Quote.closeOffset?_eq, Reference.splitsMark, readString, Quote.read]
    cases hbody : (Quote.inside mark).body rest with
    | none => rfl
    | some p =>
      obtain ⟨inner, after⟩ := p
      obtain ⟨rfl, -⟩ := Quote.eq_of_body (.inl rfl) hbody
      have hpos := mark.utf8Size_pos
      simp only [Option.map_some, Option.any_some, decide_eq_true_eq]
      by_cases hwide : 1 < mark.utf8Size
      · have htake := Text.takeBytes?_append (mark :: inner) (mark :: after)
        rw [Text.bytes_cons, List.cons_append] at htake
        rw [if_pos hwide, Text.slice?, htake, Option.bind_some,
          Text.dropBytes?_inside Nat.one_pos hwide]
        rfl
      · have hone : mark.utf8Size = 1 := by omega
        have hslice := Quote.slice?_string hone inner after
        rw [Quote.string, List.cons_append, List.append_assoc, List.singleton_append] at hslice
        have hdrop : Text.dropBytes? (1 + Text.bytes inner + 1) (mark :: (inner ++ mark :: after)) =
            some after := by
          have h := Text.dropBytes?_append (mark :: inner ++ [mark]) after
          rwa [Text.bytes_concat, Text.bytes_cons, hone, List.append_assoc] at h
        rw [if_neg hwide, hone, hslice]
        change (Text.dropBytes? _ _).bind _ = _
        rw [hdrop]
        rfl

theorem readStringAt?_of_opensIn {text : Text} (h : Quote.opensIn text = true) :
    readStringAt? text = some (readString text) := by
  cases text with
  | nil => cases h
  | cons mark rest =>
    rw [readStringAt?_eq, Reference.splitsMark_cons (Quote.utf8Size_of_isMark h)]
    rfl

end Hash

namespace AttributeSource

variable {line : Nat} {name value : Text}

/-- The source for the text of a value. The inside of a string is cut again, between the first byte
and the last. -/
def ofValueAt? (line : Nat) (name value : Text) : Checked ReadError AttributeSource :=
  if value.isEmpty then throw (.invalid (.missingValue name) line)
  else if Quote.opensIn value then do
    let mark ← value.head?
    match ← Hash.readStringAt? value with
    | none => return ofWord name value
    | some (text, rest) =>
      if (Text.trim rest).isEmpty then
        let inner ← Text.slice? 1 (← Text.sub? (Text.bytes value) 1) value
        if Segment.opensIn inner then
          let segments ← ExceptT.adapt .lex (Segment.scanAt? line inner 0 [])
          return interpolated name <| segments.map fun
            | .literal text => .literal (Quote.unescape mark text)
            | .expression code => .expression code
        else return fixed name (.str text)
      else return ofWord name value
  else return ofWord name value

/-- Behind a string at the end of a trimmed value nothing is left. -/
theorem eq_nil_of_trim_eq_nil {u v : Text} (h : Text.trimEnd (u ++ v) = u ++ v)
    (hv : Text.trim v = []) : v = [] := by
  obtain ⟨before, after, hsplit, hbefore, hafter⟩ := Text.exists_eq_trim v
  rw [hv, List.append_nil] at hsplit
  rcases List.eq_nil_or_concat' v with rfl | ⟨front, c, rfl⟩
  · rfl
  · have hblank : Unicode.isBlank c = true := by
      have hmem : c ∈ before ++ after := hsplit ▸ List.mem_append_right front List.mem_cons_self
      exact (List.mem_append.mp hmem).elim (hbefore c) (hafter c)
    have hlast := Text.trimEnd_eq_self_iff.mp h c (by simp)
    rw [hblank] at hlast
    cases hlast

theorem ofValueAt?_eq (h : Text.trimEnd value = value) :
    ofValueAt? line name value = Checked.whole (ofValue line name value) := by
  rw [ofValueAt?, ofValue]
  split
  · rfl
  split
  case isFalse => rfl
  next hopens =>
  rw [Hash.readStringAt?_of_opensIn hopens, Hash.readString]
  rcases hread : Quote.read value with _ | ⟨mark, body, rest⟩
  · obtain ⟨c, t, rfl⟩ := List.exists_cons_of_ne_nil (l := value) (by simp_all)
    rfl
  · have hmark := Quote.isMark_of_read hopens hread
    have hone := Quote.utf8Size_of_isMark hmark
    obtain ⟨rfl, -⟩ := (Quote.read_eq_some_iff (Quote.ne_slash_of_isMark hmark)).mp hread
    cases rest with
    | nil =>
      have hslice := Quote.slice?_string hone body []
      have hwidth : Text.bytes (Quote.string mark body ++ []) = 1 + Text.bytes body + 1 := by
        rw [List.append_nil, Quote.string, Text.bytes_cons, Text.bytes_concat, hone, Nat.add_assoc]
      change _ = Checked.whole (ofQuoted line name mark body)
      have hnothing : (Text.trim []).isEmpty = true := rfl
      have hhead : (Quote.string mark body ++ []).head? = some mark := rfl
      rw [hwidth, Text.sub?_add, Option.map_some, hhead, Checked.cut_bind, Checked.cut_bind]
      dsimp only
      rw [if_pos hnothing, Checked.cut_bind, hslice, Checked.cut_bind, ofQuoted]
      split
      · rw [Segment.scanAt?_zero, Checked.adapt_lex]
        cases Segment.scan line body <;> rfl
      · rfl
    | cons c rest =>
      have hrest : ¬(Text.trim (c :: rest)).isEmpty = true := by
        intro hempty
        cases eq_nil_of_trim_eq_nil h (List.isEmpty_iff.mp hempty)
      change (if (Text.trim (c :: rest)).isEmpty then _ else _) = _
      rw [if_neg hrest]
      rfl

end AttributeSource

end Haml
