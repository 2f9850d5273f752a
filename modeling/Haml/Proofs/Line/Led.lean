import Haml.Proofs.Line.Marked
import Haml.Proofs.Line.Source

/-! The first logical line of a source, split into a text in front and what is behind it. A text
that has no white space at its ends and no pipe at the last one stays as it is when the line is
trimmed, loses its marker and is joined with others. So what is read behind it does not depend on
it, but for the question whether the line carries the marker at all. -/

namespace Haml

/-- A text that a line can start with, and that ends in nothing that could be taken from it. -/
structure Text.Leads (a : Text) : Prop where
  ne_nil : a ≠ []
  start : ∀ c ∈ a.head?, Unicode.isBlank c = false
  last : ∀ c ∈ a.getLast?, Unicode.isBlank c = false ∧ c ≠ '|'
  unbroken : '\n' ∉ a

namespace Text

variable {a t u : Text} {p : Char → Bool}

/-- What is taken from the end of a text does not reach a character that stops it. -/
theorem rdropWhile_append (hne : a ≠ []) (hlast : ∀ c ∈ a.getLast?, p c = false) (u : Text) :
    (a ++ u).rdropWhile p = a ++ u.rdropWhile p := by
  have hstop : a.reverse.dropWhile p = a.reverse := by
    rw [List.getLast?_eq_head?_reverse] at hlast
    obtain ⟨c, rest, hreverse⟩ := List.exists_cons_of_ne_nil (List.reverse_ne_nil_iff.mpr hne)
    rw [hreverse] at hlast ⊢
    exact List.dropWhile_cons_of_neg (by simp [hlast c rfl])
  rw [List.rdropWhile, List.reverse_append, List.dropWhile_append, hstop]
  split
  · next hempty =>
    rw [List.rdropWhile, List.isEmpty_iff.mp hempty, List.reverse_reverse, List.reverse_nil,
      List.append_nil]
  · rw [List.reverse_append, List.reverse_reverse, List.rdropWhile]

theorem Leads.trimEnd (ha : Leads a) (u : Text) : Text.trimEnd (a ++ u) = a ++ Text.trimEnd u :=
  rdropWhile_append ha.ne_nil (fun c hc => (ha.last c hc).1) u

theorem Leads.trim (ha : Leads a) (u : Text) : Text.trim (a ++ u) = a ++ Text.trimEnd u := by
  have hstart : trimStart (a ++ u) = a ++ u := by
    obtain ⟨c, rest, rfl⟩ := List.exists_cons_of_ne_nil ha.ne_nil
    exact trimStart_eq_self_iff.mpr ha.start
  rw [Text.trim, hstart, ha.trimEnd]

theorem Leads.dropTrailing (ha : Leads a) (u : Text) :
    Text.dropTrailing '|' (a ++ u) = a ++ Text.dropTrailing '|' u :=
  rdropWhile_append ha.ne_nil (fun c hc => by simpa using (ha.last c hc).2) u

theorem lines_lead (hne : a ≠ []) (hfree : '\n' ∉ a) (hlast : a.getLast? ≠ some '\r') (t : Text) :
    lines (a ++ t) = (a ++ (lines t).headD []) :: (lines t).tail := by
  induction a with
  | nil => exact absurd rfl hne
  | cons c a ih =>
    obtain ⟨hc, hfree⟩ := List.ne_and_not_mem_of_not_mem_cons hfree
    cases a with
    | nil =>
      have hreturn : c ≠ '\r' := fun heq => hlast (by rw [heq]; rfl)
      rw [List.singleton_append, lines_cons ⟨hc.symm, hreturn⟩]
      cases lines t <;> rfl
    | cons d a =>
      have hfeed : d ≠ '\n' := (List.ne_of_not_mem_cons hfree).symm
      rw [List.cons_append, lines_cons_of_head? hc.symm fun _ => by simpa using hfeed,
        ih (List.cons_ne_nil d a) hfree (by rwa [List.getLast?_cons_cons] at hlast)]
      rfl

end Text

open Text (Leads)

namespace Line

variable {a t : Text}

/-- The line with a text in front of its own. -/
def led (a : Text) (line : Line) : Line := { line with text := a ++ line.text }

/-- The first physical line of a source whose first characters are cut off. -/
def firstBehind (t : Text) : Text := (Text.lines t).headD []

/-- The first logical line of a source, without the text that it starts with, and the lines that it
leaves. The line may carry the continuation marker. -/
def behind (continued : Bool) (t : Text) : Except LexError Line × List PhysicalLine :=
  let raws := PhysicalLine.numbered 2 (Text.lines t).tail
  if continued then
    joinContinued
      ⟨1, 1, [], Text.trimEnd (Text.dropTrailing '|' (Text.trimEnd (firstBehind t)))⟩ raws
  else (.ok ⟨1, 1, [], Text.trimEnd (firstBehind t)⟩, raws)

theorem joinContinued_led (a : Text) (line : Line) (raws : List PhysicalLine) :
    joinContinued (line.led a) raws =
      ((joinContinued line raws).1.map (led a), (joinContinued line raws).2) := by
  fun_induction joinContinued line raws with
  | case1 => rfl
  | case2 line raw rest hblank => rw [joinContinued, if_pos hblank]; rfl
  | case3 line raw rest text hblank hcontinued ih =>
    have hextend : (line.led a).extend raw.number (stripMarker text) =
        (line.extend raw.number (stripMarker text)).led a := by
      simp [led, extend]
    rw [joinContinued, if_neg hblank, if_pos hcontinued, hextend, ih]
  | case4 line raw rest text hblank hcontinued =>
    rw [joinContinued, if_neg hblank, if_neg hcontinued]
    rfl

theorem stripMarker_lead (ha : Leads a) (u : Text) : stripMarker (Text.trimEnd (a ++ u)) =
    a ++ Text.trimEnd (Text.dropTrailing '|' (Text.trimEnd u)) := by
  rw [stripMarker, Text.trimEnd_trimEnd, ha.trimEnd, ha.dropTrailing, ha.trim]

/-- The first logical line of a source is the text that it starts with and what is behind. -/
theorem next?_lead (ha : Leads a) (t : Text) :
    next? (PhysicalLine.ofSource (a ++ t)) =
      some ((behind (isContinued (a ++ firstBehind t)) t).1.map (led a),
        (behind (isContinued (a ++ firstBehind t)) t).2) := by
  have hreturn : a.getLast? ≠ some '\r' := fun h => absurd (ha.last _ h).1 (by decide)
  have hsource : PhysicalLine.ofSource (a ++ t) =
      ⟨1, a ++ firstBehind t⟩ :: PhysicalLine.numbered 2 (Text.lines t).tail := by
    rw [PhysicalLine.ofSource, Text.lines_lead ha.ne_nil ha.unbroken hreturn]
    rfl
  obtain ⟨c, rest, hcons⟩ := List.exists_cons_of_ne_nil ha.ne_nil
  have hc : Unicode.isBlank c = false := ha.start c (by rw [hcons]; rfl)
  have hmark : PhysicalLine.isIndentMark c = false := by
    by_contra hmark
    rcases PhysicalLine.eq_of_isIndentMark (by simpa using hmark) with rfl | rfl <;> cases hc
  have hblank : (⟨1, a ++ firstBehind t⟩ : PhysicalLine).isBlank = false := by
    simp [PhysicalLine.isBlank, Text.isBlank, hcons, hc]
  have hindent : (⟨1, a ++ firstBehind t⟩ : PhysicalLine).indent = [] := by
    rw [PhysicalLine.indent, hcons, List.cons_append, List.takeWhile_cons_of_neg (by simp [hmark])]
  have hcontent : (⟨1, a ++ firstBehind t⟩ : PhysicalLine).content =
      Text.trimEnd (a ++ firstBehind t) := by
    rw [PhysicalLine.content, hcons, List.cons_append,
      List.dropWhile_cons_of_neg (by simp [hmark])]
  rw [hsource, next?, if_neg (by simp [hblank]), hindent, hcontent, isContinued_trimEnd,
    stripMarker_lead ha, behind]
  split
  · exact congrArg some (joinContinued_led a ⟨1, 1, [], _⟩ _)
  · rw [ha.trimEnd]
    rfl

/-- A line without a pipe at its end does not carry the marker. -/
theorem isContinued_lead (ha : Leads a) {u : Text} (hu : (Text.trimEnd u).getLast? ≠ some '|') :
    isContinued (a ++ u) = false := by
  rw [← isContinued_trimEnd]
  refine isContinued_of_getLast? (Text.trimEnd_trimEnd _) ?_
  rw [ha.trimEnd, List.getLast?_append]
  cases hlast : (Text.trimEnd u).getLast? with
  | none => exact fun h => (ha.last '|' h).2 rfl
  | some c => exact fun h => hu (hlast.trans h)

section Behind

variable {continued : Bool} {line : Line} {left : List PhysicalLine} {c : Char}

theorem head?_firstBehind (h : c ∈ (firstBehind t).head?) : c ∈ t.head? := by
  rw [firstBehind] at h
  fun_cases Text.lines t with
  | case1 => cases h
  | case2 => cases h
  | case3 => cases h
  | case4 d rest hfeed hreturn hlines => simp_all [Text.lines]
  | case5 d rest hfeed hreturn line more hlines => simp_all [Text.lines]

theorem head?_of_isPrefix {u v : Text} (h : u <+: v) (hc : c ∈ u.head?) : c ∈ v.head? := by
  obtain ⟨rest, rfl⟩ := h
  rw [List.head?_append, Option.mem_def.mp hc]
  rfl

/-- What is joined to a line stands behind a space. -/
theorem head?_foldl_join (line : Line) (joined : List PhysicalLine)
    (h : c ∈ (joined.foldl join line).text.head?) : c = ' ' ∨ c ∈ line.text.head? := by
  induction joined generalizing line with
  | nil => exact .inr h
  | cons raw joined ih =>
    rcases ih (line.join raw) h with hspace | hc
    · exact .inl hspace
    · have htext : (line.join raw).text =
          line.text ++ ' ' :: stripMarker (Text.trim raw.text) := rfl
      rw [htext, List.head?_append] at hc
      cases htext : line.text.head? with
      | none =>
        rw [htext] at hc
        exact .inl (Option.some.inj hc).symm
      | some d =>
        rw [htext] at hc
        exact .inr hc

/-- What is behind is a line without indentation, which goes on like the source unless nothing of
its first physical line is left. -/
theorem of_behind (h : behind continued t = (.ok line, left)) :
    line.number = 1 ∧ line.indent = [] ∧ ∀ c ∈ line.text.head?, c = ' ' ∨ c ∈ t.head? := by
  have hend (u : Text) : Text.trimEnd u <+: u := Text.isPrefix_trimEnd u
  have hpipes (u : Text) : Text.dropTrailing '|' u <+: u := List.rdropWhile_prefix _ u
  rw [behind] at h
  split at h
  · obtain ⟨joined, -, -, rfl⟩ := exists_of_joinContinued h
    obtain ⟨hnumber, hindent⟩ := foldl_join (⟨1, 1, [], _⟩ : Line) joined
    refine ⟨hnumber, hindent, fun c hc => ?_⟩
    refine (head?_foldl_join _ joined hc).imp_right fun hc => head?_firstBehind ?_
    exact head?_of_isPrefix ((hend _).trans ((hpipes _).trans (hend _))) hc
  · obtain ⟨hline, -⟩ := Prod.mk.inj h
    obtain rfl := Except.ok.inj hline
    exact ⟨rfl, rfl, fun c hc => .inr (head?_firstBehind (head?_of_isPrefix (hend _) hc))⟩

end Behind

end Line

end Haml
