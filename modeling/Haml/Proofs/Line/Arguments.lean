import Haml.Proofs.Line.Marked
import Mathlib.Data.List.Infix

/-! Lines that end in the arguments of a block: `do`, blanks or none, and a list between two pipes.
The pipe at their end is no continuation marker, unless the list ends in a blank and has the letters
`do` in it. The opening of the arguments is then looked for behind these letters and not found. -/

namespace Haml

namespace Text

variable {word t u after : Text}

/-- The last place of a word does not depend on what stands in front of it. -/
theorem afterLast_append (t : Text) (h : afterLast word u = some after) :
    afterLast word (t ++ u) = some after := by
  induction t with
  | nil => exact h
  | cons c t ih =>
    rw [List.cons_append, afterLast, ih]
    rfl

theorem eq_append_of_afterLast (h : afterLast word t = some after) :
    ∃ before, t = before ++ (word ++ after) := by
  induction t with
  | nil => cases h
  | cons c t ih =>
    rw [afterLast, Option.or_eq_some_iff] at h
    rcases h with h | ⟨-, h⟩
    · obtain ⟨before, rfl⟩ := ih h
      exact ⟨c :: before, rfl⟩
    · exact ⟨[], (List.isPrefixOf?_eq_some_iff_append_eq.mp h).symm⟩

theorem afterLast_eq_none (h : ¬word <:+: t) : afterLast word t = none := by
  rw [Option.eq_none_iff_forall_ne_some]
  intro after hafter
  obtain ⟨before, rfl⟩ := eq_append_of_afterLast hafter
  exact h ⟨before, after, List.append_assoc ..⟩

theorem exists_afterLast (hword : word ≠ []) (h : word <:+: t) :
    ∃ after, afterLast word t = some after := by
  obtain ⟨before, after, rfl⟩ := h
  rw [List.append_assoc]
  suffices hlast : ∃ last, afterLast word (word ++ after) = some last from
    hlast.imp fun _ => afterLast_append before
  obtain ⟨c, rest, rfl⟩ := List.exists_cons_of_ne_nil hword
  have hprefix : (c :: rest).isPrefixOf? (c :: rest ++ after) = some after :=
    List.isPrefixOf?_eq_some_iff_append_eq.mpr rfl
  rw [List.cons_append] at hprefix ⊢
  rw [afterLast, hprefix, Option.or_some]
  exact ⟨_, rfl⟩

/-- The letters `do` stand last where no others follow. -/
theorem afterLast_do (h : ¬"do".toList <:+: t) : afterLast "do" ("do" ++ t) = some t := by
  have hnone := afterLast_eq_none h
  change afterLast ['d', 'o'] ('d' :: 'o' :: t) = some t
  rw [afterLast, afterLast, show afterLast ['d', 'o'] t = none from hnone]
  simp [List.isPrefixOf?]

end Text

namespace Line

open PhysicalLine (isIndentMark)

/-- A text that ends in the arguments of a block: `do`, blanks, and a list between two pipes. -/
def withArguments (before blanks arguments : Text) : Text :=
  before ++ ("do" ++ (blanks ++ '|' :: arguments)) ++ ['|']

/-- A list of arguments with a blank at its end and the letters `do` in it. -/
def Misleads (arguments : Text) : Prop :=
  (∃ c ∈ arguments.getLast?, isIndentMark c = true) ∧ "do".toList <:+: arguments

variable {before blanks arguments : Text}

theorem misleads_iff : Misleads arguments ↔
    arguments.getLast?.any isIndentMark = true ∧ "do".toList <:+: arguments := by
  rw [Misleads, Option.any_eq_true]
  rfl

instance (arguments : Text) : Decidable (Misleads arguments) := decidable_of_iff' _ misleads_iff

theorem not_infix_do (hblanks : ∀ c ∈ blanks, isIndentMark c = true)
    (h : ¬"do".toList <:+: arguments) : ¬"do".toList <:+: blanks ++ '|' :: arguments := by
  have hcons {c : Char} {t : Text} (hc : c ≠ 'd') (ht : ¬"do".toList <:+: t) :
      ¬"do".toList <:+: c :: t := by
    rw [List.infix_cons_iff]
    rintro (⟨rest, hrest⟩ | hinfix)
    · exact hc (List.cons.inj hrest).1.symm
    · exact ht hinfix
  induction blanks with
  | nil => exact hcons (by decide) h
  | cons c blanks ih =>
    obtain ⟨hc, hmore⟩ := List.forall_mem_cons.mp hblanks
    refine hcons ?_ (ih hmore)
    rcases PhysicalLine.eq_of_isIndentMark hc with rfl | rfl <;> decide

theorem trimStart_blanks (hblanks : ∀ c ∈ blanks, isIndentMark c = true) (arguments : Text) :
    Text.trimStart (blanks ++ '|' :: arguments) = '|' :: arguments := by
  refine Text.trimStart_eq_cons_iff.mpr ⟨blanks, rfl, fun c hc => ?_, by decide⟩
  rcases PhysicalLine.eq_of_isIndentMark (hblanks c hc) with rfl | rfl <;> decide

/-- The opening of the arguments is found exactly if its `do` is the last one. -/
theorem opensArguments_iff (before : Text) (hblanks : ∀ c ∈ blanks, isIndentMark c = true)
    (harguments : '|' ∉ arguments) :
    opensArguments (before ++ ("do" ++ (blanks ++ '|' :: arguments))) = true ↔
      ¬"do".toList <:+: arguments := by
  rw [opensArguments]
  by_cases hdo : "do".toList <:+: arguments
  · obtain ⟨after, hafter⟩ := Text.exists_afterLast (by decide) hdo
    have hlast := Text.afterLast_append (before ++ ("do" ++ (blanks ++ ['|']))) hafter
    have hsplit : before ++ ("do" ++ (blanks ++ ['|'])) ++ arguments =
        before ++ ("do" ++ (blanks ++ '|' :: arguments)) := by simp
    -- What is left behind the last `do` is part of the list, which has no pipe.
    have hpipe : '|' ∉ Text.trimStart after := by
      obtain ⟨inner, rfl⟩ := Text.eq_append_of_afterLast hafter
      intro hmem
      have hrest := (List.dropWhile_suffix Unicode.isBlank).subset hmem
      exact harguments (List.mem_append_right _ (List.mem_append_right _ hrest))
    rw [← hsplit, hlast, Option.map_some]
    refine iff_of_false ?_ (not_not.mpr hdo)
    split
    · next rest hrest =>
      rw [Option.some.inj hrest] at hpipe
      exact absurd List.mem_cons_self hpipe
    · exact Bool.false_ne_true
  · have hlast := Text.afterLast_append before (Text.afterLast_do (not_infix_do hblanks hdo))
    rw [hlast, Option.map_some, trimStart_blanks hblanks]
    exact iff_of_true (by simpa using harguments) hdo

theorem trimEnd_withArguments (before blanks arguments : Text) :
    Text.trimEnd (withArguments before blanks arguments) =
      withArguments before blanks arguments := by
  rw [Text.trimEnd_eq_self_iff, withArguments]
  intro c hc
  rw [List.getLast?_concat] at hc
  obtain rfl := Option.some.inj hc
  decide

theorem isContinued_withArguments (hblanks : ∀ c ∈ blanks, isIndentMark c = true)
    (harguments : '|' ∉ arguments) :
    isContinued (withArguments before blanks arguments) = true ↔ Misleads arguments := by
  have hopens := opensArguments_iff before hblanks harguments
  have hreverse : (withArguments before blanks arguments).reverse =
      '|' :: (before ++ ("do" ++ (blanks ++ '|' :: arguments))).reverse := List.reverse_concat ..
  rw [isContinued, trimEnd_withArguments, hreverse, Misleads]
  rcases List.eq_nil_or_concat' arguments with rfl | ⟨inner, c, rfl⟩
  · -- Two pipes side by side have no blank between them.
    simp [isIndentMark]
  · have hmark : (before ++ ("do" ++ (blanks ++ '|' :: (inner ++ [c])))).reverse =
        c :: (before ++ ("do" ++ (blanks ++ '|' :: inner))).reverse := by simp
    rw [hmark]
    change (isIndentMark c && !opensArguments (c :: _).reverse) = true ↔ _
    rw [← hmark, List.reverse_reverse, Bool.and_eq_true, Bool.not_eq_true',
      ← Bool.not_eq_true, hopens, not_not]
    simp

/-- Taking characters other than letters from the start leaves the end as it is. -/
theorem dropWhile_withArguments {p : Char → Bool} (hp : p 'd' = false) :
    (withArguments before blanks arguments).dropWhile p =
      withArguments (before.dropWhile p) blanks arguments := by
  have hstop (t : Text) : ("do".toList ++ t).dropWhile p = "do".toList ++ t := by
    change ('d' :: 'o' :: t).dropWhile p = 'd' :: 'o' :: t
    rw [List.dropWhile_cons_of_neg (by simp [hp])]
  simp only [withArguments, List.append_assoc]
  rw [List.dropWhile_append, hstop]
  split
  · next hnil => rw [List.isEmpty_iff.mp hnil, List.nil_append]
  · rfl

section Read

variable {raw : PhysicalLine} (hfilled : raw.isBlank = false)

theorem length_stripMarker_lt {t : Text} (h : isContinued t = true) :
    (stripMarker t).length < t.length := by
  have hne : Text.trimEnd t ≠ [] := by
    intro hnil
    rw [isContinued, hnil] at h
    cases h
  have htrim := (Text.isPrefix_trimEnd (Text.trimStart (Text.trimEnd t).dropLast)).length_le
  have hstart := Text.length_trimStart_le (Text.trimEnd t).dropLast
  have hend := (Text.isPrefix_trimEnd t).length_le
  have hpos := List.length_pos_iff.mpr hne
  rw [List.length_dropLast] at hstart
  rw [stripMarker_of_isContinued h, Text.trim]
  omega

include hfilled

/-- A line is read as it stands, whatever follows, exactly if it does not carry the marker. -/
theorem next?_eq_self_iff (raws : List PhysicalLine) :
    next? (raw :: raws) = some (.ok ⟨raw.number, raw.number, raw.indent, raw.content⟩, raws) ↔
      ¬isContinued raw.content = true := by
  refine ⟨fun hnext hcontinued => ?_, fun h => next?_cons hfilled (by simpa using h) raws⟩
  rw [next?, if_neg (by simp [hfilled]), if_pos hcontinued] at hnext
  obtain ⟨joined, hraws, -, hline⟩ := exists_of_joinContinued (Option.some.inj hnext)
  obtain rfl : joined = [] := List.self_eq_append_left.mp hraws
  have hlength := length_stripMarker_lt hcontinued
  have htext : raw.content = stripMarker raw.content := congrArg Line.text hline
  rw [← htext] at hlength
  exact Nat.lt_irrefl _ hlength

/-- A run ends in front of a line exactly if that line does not carry the marker. -/
theorem joinContinued_eq_self_iff (line : Line) (raws : List PhysicalLine) :
    joinContinued line (raw :: raws) = (.ok line, raw :: raws) ↔
      ¬isContinued (Text.trim raw.text) = true := by
  have hall : ¬(raw :: raws).all PhysicalLine.isBlank = true := by simp [hfilled]
  rw [joinContinued, if_neg hall]
  constructor
  · intro hline hcontinued
    rw [if_pos hcontinued] at hline
    have hsuffix := joinContinued_suffix (line.extend raw.number (stripMarker (Text.trim raw.text)))
      raws
    rw [hline] at hsuffix
    exact absurd hsuffix.length_le (by simp)
  · intro hcontinued
    rw [if_neg hcontinued]

end Read

/-- A line that ends in the arguments of a block is not taken for one that goes on, neither in front
of other lines nor behind a run of lines that do, unless its arguments mislead. -/
theorem arguments_stand_alone (before : Text)
    (hblanks : ∀ c ∈ blanks, isIndentMark c = true) (harguments : '|' ∉ arguments) :
    (isContinued (withArguments before blanks arguments) = true ↔ Misleads arguments) ∧
    ∀ raw raws, raw.text = withArguments before blanks arguments →
      (next? (raw :: raws) = some (.ok ⟨raw.number, raw.number, raw.indent, raw.content⟩, raws) ↔
        ¬Misleads arguments) ∧
      ∀ line, joinContinued line (raw :: raws) = (.ok line, raw :: raws) ↔
        ¬Misleads arguments := by
  refine ⟨isContinued_withArguments hblanks harguments, fun raw raws htext => ?_⟩
  have hfilled : raw.isBlank = false := by
    rw [PhysicalLine.isBlank, htext, Text.isBlank, withArguments, List.all_append]
    simp [show Unicode.isBlank '|' = false by decide]
  have hcontent : isContinued raw.content = true ↔ Misleads arguments := by
    rw [PhysicalLine.isContinued_content, PhysicalLine.isMarked, htext,
      dropWhile_withArguments (by decide), isContinued_withArguments hblanks harguments]
  have htrim : isContinued (Text.trim raw.text) = true ↔ Misleads arguments := by
    rw [Text.trim, isContinued_trimEnd, Text.trimStart, htext,
      dropWhile_withArguments (by decide), isContinued_withArguments hblanks harguments]
  exact ⟨(next?_eq_self_iff hfilled raws).trans (not_congr hcontent),
    fun line => (joinContinued_eq_self_iff hfilled line raws).trans (not_congr htrim)⟩

/-- Spaced arguments, read alone, and spaced arguments with the letters `do` in them, which are
not. -/
theorem arguments_stand_alone_spaced :
    (∀ c ∈ " ".toList, isIndentMark c = true) ∧ '|' ∉ " item ".toList ∧ '|' ∉ " dog ".toList ∧
    next? [⟨1, "  - items.each do | item |"⟩, ⟨2, "a |"⟩] =
      some (.ok ⟨1, 1, "  ", "- items.each do | item |"⟩, [⟨2, "a |"⟩]) ∧
    isContinued "- dogs.each do | dog |" = true := by
  have hblanks : ∀ c ∈ " ".toList, isIndentMark c = true := List.all_eq_true.mp (by decide)
  have hitem : '|' ∉ " item ".toList := by decide
  have hdog : '|' ∉ " dog ".toList := by decide
  obtain ⟨-, hread⟩ := arguments_stand_alone "  - items.each " hblanks hitem
  obtain ⟨hcontinued, -⟩ := arguments_stand_alone "- dogs.each " hblanks hdog
  obtain ⟨hnext, -⟩ := hread ⟨1, "  - items.each do | item |"⟩ [⟨2, "a |"⟩] (by decide)
  exact ⟨hblanks, hitem, hdog, hnext.mpr (by decide), hcontinued.mpr (by decide)⟩

/-- The letters `do` in a list of arguments hide its opening, and the line is read as one that goes
on. -/
theorem scan_arguments_unterminated :
    (¬∀ before blanks arguments : Text, (∀ c ∈ blanks, isIndentMark c = true) →
      '|' ∉ arguments → '\n' ∉ arguments →
        isContinued (withArguments before blanks arguments) = false) ∧
    scan "- dogs.each do | dog |" = .error ⟨.unterminatedMultiline, 1⟩ := by
  refine ⟨fun hall => ?_, by decide +kernel⟩
  have hcontinued : isContinued (withArguments "- dogs.each " " " " dog ") = true := by decide
  have hblanks : ∀ c ∈ " ".toList, isIndentMark c = true := List.all_eq_true.mp (by decide)
  have hnot := hall "- dogs.each " " " " dog " hblanks (by decide) (by decide)
  rw [hcontinued] at hnot
  cases hnot

end Line

end Haml
