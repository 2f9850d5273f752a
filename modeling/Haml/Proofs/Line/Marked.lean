import Haml.Proofs.Line.Joined
import Haml.Proofs.Outline.Solid

/-! Physical lines that carry the continuation marker. A line is tested for it where it starts a
logical line and again where it may be joined to one, and the two tests trim it differently. They
agree on lines whose white space is made of spaces and tabs. -/

namespace Haml

namespace PhysicalLine

/-- Does the line carry the continuation marker behind its leading run? -/
def isMarked (raw : PhysicalLine) : Bool := Line.isContinued (raw.text.dropWhile isIndentMark)

/-- What the line gives to a logical one: its text without the marker, trimmed. -/
def piece (raw : PhysicalLine) : Text :=
  if raw.isMarked then Text.trim (Text.trim raw.text).dropLast else Text.trim raw.text

theorem eq_of_isIndentMark {c : Char} (h : isIndentMark c = true) : c = ' ' ∨ c = '\t' := by
  simpa [isIndentMark] using h

/-- All white space within the lines is spaces and tabs. -/
def Spaced (raws : List PhysicalLine) : Prop :=
  ∀ raw ∈ raws, ∀ c ∈ raw.text, Unicode.isBlank c = true → isIndentMark c = true

end PhysicalLine

namespace Text

/-- All white space is spaces, tabs and line feeds. -/
def PlainlySpaced (source : Text) : Prop :=
  ∀ c ∈ source, Unicode.isBlank c = true → c = ' ' ∨ c = '\t' ∨ c = '\n'

instance : DecidablePred PlainlySpaced := fun _ => List.decidableBAll _ _

variable {t source : Text} {c : Char}

theorem trimEnd_trimEnd (t : Text) : trimEnd (trimEnd t) = trimEnd t :=
  List.rdropWhile_idempotent Unicode.isBlank t

theorem mem_of_mem_lines (ht : t ∈ lines source) (hc : c ∈ t) : c ∈ source := by
  fun_induction lines source generalizing t with
  | case1 => cases ht
  | case2 rest ih =>
    rcases List.mem_cons.mp ht with rfl | ht
    · cases hc
    · exact List.mem_cons_of_mem _ (ih ht hc)
  | case3 rest ih =>
    rcases List.mem_cons.mp ht with rfl | ht
    · cases hc
    · exact List.mem_cons_of_mem _ (List.mem_cons_of_mem _ (ih ht hc))
  | case4 d rest hfeed hreturn hlines ih =>
    obtain rfl := List.mem_singleton.mp ht
    exact List.mem_singleton.mp hc ▸ List.mem_cons_self
  | case5 d rest hfeed hreturn line more hlines ih =>
    rw [hlines] at ih
    rcases List.mem_cons.mp ht with rfl | ht
    · rcases List.mem_cons.mp hc with rfl | hc
      · exact List.mem_cons_self
      · exact List.mem_cons_of_mem _ (ih List.mem_cons_self hc)
    · exact List.mem_cons_of_mem _ (ih (List.mem_cons_of_mem line ht) hc)

/-- Where all white space is spaces and tabs, leading white space is a leading run of these. -/
theorem dropWhile_isIndentMark
    (h : ∀ c ∈ t, Unicode.isBlank c = true → PhysicalLine.isIndentMark c = true) :
    t.dropWhile PhysicalLine.isIndentMark = trimStart t := by
  rw [trimStart]
  induction t with
  | nil => rfl
  | cons c t ih =>
    obtain ⟨hc, ht⟩ := List.forall_mem_cons.mp h
    by_cases hblank : Unicode.isBlank c = true
    · rw [List.dropWhile_cons_of_pos (hc hblank), List.dropWhile_cons_of_pos hblank, ih ht]
    · have hmark : ¬PhysicalLine.isIndentMark c = true := by
        intro hmark
        rcases PhysicalLine.eq_of_isIndentMark hmark with rfl | rfl <;> exact hblank (by decide)
      rw [List.dropWhile_cons_of_neg hmark, List.dropWhile_cons_of_neg hblank]

end Text

namespace Line

theorem isContinued_trimEnd (t : Text) : isContinued (Text.trimEnd t) = isContinued t := by
  rw [isContinued, isContinued, Text.trimEnd_trimEnd]

/-- The one pipe of the marker is all that is stripped in front of the white space. -/
theorem stripMarker_of_isContinued {t : Text} (h : isContinued t = true) :
    stripMarker t = Text.trim (Text.trimEnd t).dropLast := by
  rw [stripMarker, Text.dropTrailing]
  unfold isContinued at h
  split at h
  · next mark body hreverse =>
    have hmark : (mark == '|') = false := by
      rw [Bool.and_eq_true] at h
      rcases PhysicalLine.eq_of_isIndentMark h.1 with rfl | rfl <;> rfl
    rw [hreverse, List.dropWhile_cons_of_pos rfl, List.dropWhile_cons_of_neg (by simp [hmark]),
      ← List.reverse_reverse (Text.trimEnd t), hreverse, List.dropLast_reverse, List.tail_cons]
  · cases h

end Line

namespace PhysicalLine

variable {raw : PhysicalLine} {raws rest : List PhysicalLine} {source : Text}

theorem isContinued_content (raw : PhysicalLine) : Line.isContinued raw.content = raw.isMarked :=
  Line.isContinued_trimEnd _

theorem isMarked_of_isBlank (h : raw.isBlank = true) : raw.isMarked = false := by
  have hblank : ∀ c ∈ (raw.text.dropWhile isIndentMark).reverse, Unicode.isBlank c = true := by
    intro c hc
    have hmem := (List.dropWhile_suffix isIndentMark).subset (List.mem_reverse.mp hc)
    exact List.all_eq_true.mp h c hmem
  have hnil : Text.trimEnd (raw.text.dropWhile isIndentMark) = [] := by
    rw [Text.trimEnd, List.dropWhile_eq_nil_iff.mpr hblank, List.reverse_nil]
  rw [isMarked, Line.isContinued, hnil]
  rfl

theorem Spaced.suffix (h : Spaced raws) (hrest : rest <:+ raws) : Spaced rest :=
  fun raw hraw => h raw (hrest.subset hraw)

theorem spaced_numbered {n : Nat} {texts : List Text}
    (h : ∀ t ∈ texts, ∀ c ∈ t, Unicode.isBlank c = true → isIndentMark c = true) :
    Spaced (numbered n texts) := by
  induction texts generalizing n with
  | nil => exact nofun
  | cons t texts ih =>
    obtain ⟨ht, htexts⟩ := List.forall_mem_cons.mp h
    exact List.forall_mem_cons.mpr ⟨ht, ih htexts⟩

theorem spaced_ofSource (h : source.PlainlySpaced) : Spaced (ofSource source) := by
  refine spaced_numbered fun t ht c hc hblank => ?_
  rcases h c (Text.mem_of_mem_lines ht hc) hblank with rfl | rfl | rfl
  · rfl
  · rfl
  · exact absurd hc (Text.not_mem_of_mem_lines ht)

section Spaced

variable (h : ∀ c ∈ raw.text, Unicode.isBlank c = true → isIndentMark c = true)

include h

theorem content_eq_trim : raw.content = Text.trim raw.text := by
  rw [content, Text.dropWhile_isIndentMark h]
  rfl

theorem isContinued_trim : Line.isContinued (Text.trim raw.text) = raw.isMarked := by
  rw [← content_eq_trim h, isContinued_content]

theorem stripMarker_trim (hmarked : raw.isMarked = true) :
    Line.stripMarker (Text.trim raw.text) = raw.piece := by
  have htrim : Text.trimEnd (Text.trim raw.text) = Text.trim raw.text := Text.trimEnd_trimEnd _
  rw [Line.stripMarker_of_isContinued ((isContinued_trim h).trans hmarked), htrim, piece,
    if_pos hmarked]

end Spaced

/-- The parts of a line: an indentation, and a text whose first character is not a blank. -/
structure Indented (raw : PhysicalLine) (indent text : Text) : Prop where
  indent : raw.indent = indent
  filled : raw.isBlank = false
  content : raw.content = Text.trimEnd text
  trim : Text.trim raw.text = Text.trimEnd text

theorem indented {indent : Text} (hindent : ∀ c ∈ indent, isIndentMark c = true) {first : Char}
    (hfirst : Unicode.isBlank first = false) (n : Nat) (rest : Text) :
    Indented ⟨n, indent ++ first :: rest⟩ indent (first :: rest) := by
  have hmark : ¬isIndentMark first = true := by
    intro hmark
    rcases eq_of_isIndentMark hmark with rfl | rfl <;> cases hfirst
  have hblank : ∀ c ∈ indent, Unicode.isBlank c = true := by
    intro c hc
    rcases eq_of_isIndentMark (hindent c hc) with rfl | rfl <;> decide
  have hstart : Text.trimStart (indent ++ first :: rest) = first :: rest := by
    rw [Text.trimStart, List.dropWhile_append_of_pos hblank,
      List.dropWhile_cons_of_neg (by simp [hfirst])]
  refine ⟨?_, ?_, ?_, ?_⟩
  · rw [PhysicalLine.indent, List.takeWhile_append_of_pos hindent,
      List.takeWhile_cons_of_neg hmark, List.append_nil]
  · simp [isBlank, Text.isBlank, hfirst]
  · rw [content, List.dropWhile_append_of_pos hindent, List.dropWhile_cons_of_neg hmark]
  · rw [Text.trim, hstart]

/-- A line that is not continued is a logical line of its own. -/
theorem Indented.next?_eq {indent text : Text} (h : Indented raw indent text)
    (hcontinued : Line.isContinued text = false) (raws : List PhysicalLine) :
    Line.next? (raw :: raws) =
      some (.ok ⟨raw.number, raw.number, indent, Text.trimEnd text⟩, raws) := by
  have hcontent : Line.isContinued raw.content = false := by
    rw [h.content, Line.isContinued_trimEnd, hcontinued]
  rw [Line.next?_cons h.filled hcontent, h.indent, h.content]

end PhysicalLine

end Haml
