import Haml.Proofs.Line.Source
import Haml.Proofs.Text.Solid
import Haml.Proofs.Text.Words

/-! Preserved text by its lines. A line ends at a line feed, with a carriage return in front of it
or without, and preserving writes an entity for every ending but one at the end of the text. A
carriage return at the end of a text ends no line and is dropped all the same, so that preserving a
text again can drop another one. -/

namespace Haml

inductive Ending
  | feed
  | returnFeed
  deriving DecidableEq, Repr

namespace Ending

def text : Ending → Text
  | feed => ['\n']
  | returnFeed => ['\r', '\n']

/-- A line that ends so. A carriage return in front of a line feed is part of the ending. -/
structure Ends (e : Ending) (line : Text) : Prop where
  unbroken : '\n' ∉ line
  bare : e = feed → line.getLast? ≠ some '\r'

variable {e : Ending} {c : Char} {line : Text}

theorem ends_nil (e : Ending) : e.Ends [] := ⟨List.not_mem_nil, fun _ => by decide⟩

theorem Ends.tail (h : e.Ends (c :: line)) : e.Ends line where
  unbroken := fun hmem => h.unbroken (List.mem_cons_of_mem c hmem)
  bare := by
    intro he hlast
    apply h.bare he
    rw [List.getLast?_cons, hlast]
    rfl

theorem Ends.cons (h : e.Ends line) (hc : '\n' ≠ c)
    (hreturn : e = feed → line = [] → c ≠ '\r') : e.Ends (c :: line) where
  unbroken := List.not_mem_cons_of_ne_of_not_mem hc h.unbroken
  bare := by
    intro he hlast
    cases line with
    | nil => exact hreturn he rfl (Option.some.inj hlast)
    | cons d line => exact h.bare he hlast

theorem Ends.head (h : e.Ends (c :: line)) (rest : Text) :
    c ≠ '\n' ∧ (c = '\r' → (line ++ (e.text ++ rest)).head? ≠ some '\n') := by
  obtain ⟨hc, hline⟩ := List.ne_and_not_mem_of_not_mem_cons h.unbroken
  refine ⟨Ne.symm hc, ?_⟩
  rintro rfl hhead
  cases line with
  | cons d line =>
    have hd : d = '\n' := by simpa using hhead
    exact hline (hd ▸ List.mem_cons_self)
  | nil =>
    cases e with
    | feed => exact h.bare rfl rfl
    | returnFeed => simp [text] at hhead

end Ending

namespace Text

/-- Lines with their endings, and what stands behind the last of them. -/
def ruled (rows : List (Text × Ending)) (last : Text) : Text :=
  rows.flatMap (fun row => row.1 ++ row.2.text) ++ last

structure IsRuled (rows : List (Text × Ending)) (last : Text) : Prop where
  ends : ∀ row ∈ rows, row.2.Ends row.1
  last : '\n' ∉ last

variable {rows : List (Text × Ending)} {row : Text × Ending} {last u : Text}

theorem ruled_cons : ruled (row :: rows) last = row.1 ++ (row.2.text ++ ruled rows last) := by
  simp [ruled]

theorem ruled_concat : ruled (rows ++ [row]) [] = ruled rows (row.1 ++ row.2.text) := by
  simp [ruled]

theorem ruled_append : ruled rows (last ++ u) = ruled rows last ++ u := by simp [ruled]

/-- A line feed ends every line, so that only a text behind them can end in something else. -/
theorem getLast?_ruled : (ruled rows last).getLast? = some '\r' ↔ last.getLast? = some '\r' := by
  by_cases hlast : last = []
  · subst hlast
    rcases List.eq_nil_or_concat' rows with rfl | ⟨rows, row, rfl⟩
    · rfl
    · have hfeed : (ruled (rows ++ [row]) []).getLast? = some '\n' := by
        cases hrow : row.2 <;> simp [ruled, hrow, Ending.text]
      simp [hfeed]
  · rw [ruled, List.getLast?_append_of_ne_nil _ hlast]

theorem IsRuled.cons (hrow : row.2.Ends row.1) (h : IsRuled rows last) :
    IsRuled (row :: rows) last :=
  ⟨List.forall_mem_cons.mpr ⟨hrow, h.ends⟩, h.last⟩

theorem exists_ruled (t : Text) : ∃ rows last, IsRuled rows last ∧ t = ruled rows last := by
  fun_induction Entity.encodeBreaks t with
  | case1 => exact ⟨[], [], ⟨List.forall_mem_nil _, List.not_mem_nil⟩, rfl⟩
  | case2 rest ih =>
    obtain ⟨rows, last, hruled, rfl⟩ := ih
    have hrow := Ending.ends_nil .returnFeed
    exact ⟨([], .returnFeed) :: rows, last, hruled.cons hrow, by simp [ruled_cons, Ending.text]⟩
  | case3 rest ih =>
    obtain ⟨rows, last, hruled, rfl⟩ := ih
    have hrow := Ending.ends_nil .feed
    exact ⟨([], .feed) :: rows, last, hruled.cons hrow, by simp [ruled_cons, Ending.text]⟩
  | case4 c rest hreturn hfeed ih =>
    obtain ⟨rows, last, hruled, rfl⟩ := ih
    have hc : '\n' ≠ c := fun h => hfeed h.symm
    cases rows with
    | nil =>
      have hlast : '\n' ∉ c :: last := List.not_mem_cons_of_ne_of_not_mem hc hruled.last
      exact ⟨[], c :: last, ⟨List.forall_mem_nil _, hlast⟩, rfl⟩
    | cons row rows =>
      obtain ⟨hrow, hrows⟩ := List.forall_mem_cons.mp hruled.ends
      have hends : row.2.Ends (c :: row.1) := hrow.cons hc fun hbare hempty heq => by
        apply hreturn (ruled rows last) heq
        simp [ruled_cons, Ending.text, hbare, hempty]
      exact ⟨(c :: row.1, row.2) :: rows, last, ⟨List.forall_mem_cons.mpr ⟨hends, hrows⟩,
        hruled.last⟩, by simp [ruled_cons]⟩

theorem lines_line {row : Text × Ending} (h : row.2.Ends row.1) (rest : Text) :
    lines (row.1 ++ (row.2.text ++ rest)) = row.1 :: lines rest := by
  obtain ⟨line, e⟩ := row
  induction line with
  | nil => cases e <;> simp [Ending.text, lines]
  | cons c line ih =>
    obtain ⟨hfeed, hreturn⟩ := h.head rest
    rw [List.cons_append, lines_cons_of_head? hfeed hreturn, ih h.tail]

theorem lines_ruled (h : IsRuled rows last) :
    lines (ruled rows last) = rows.map Prod.fst ++ if last = [] then [] else [last] := by
  induction rows with
  | nil =>
    split
    · next hlast => simp [ruled, hlast, lines]
    · next hlast => simp [ruled, lines_of_not_mem h.last hlast]
  | cons row rows ih =>
    obtain ⟨hrow, hrows⟩ := List.forall_mem_cons.mp h.ends
    rw [ruled_cons, lines_line hrow, ih ⟨hrows, h.last⟩]
    rfl

end Text

namespace Entity

open Text (ruled IsRuled)

variable {rows : List (Text × Ending)} {last line : Text} {e : Ending}

theorem encodeBreaks_cons {c : Char} {rest : Text} (hfeed : c ≠ '\n')
    (hreturn : c = '\r' → rest.head? ≠ some '\n') :
    encodeBreaks (c :: rest) = c :: encodeBreaks rest := by
  rw [encodeBreaks.eq_def]
  split
  · next hnil => cases hnil
  · next heq =>
    obtain ⟨rfl, rfl⟩ := List.cons.inj heq
    exact absurd rfl (hreturn rfl)
  · next heq => exact absurd (List.cons.inj heq).1 hfeed
  · next heq =>
    obtain ⟨rfl, rfl⟩ := List.cons.inj heq
    rfl

theorem encodeBreaks_of_not_mem {t : Text} (h : '\n' ∉ t) : encodeBreaks t = t := by
  induction t with
  | nil => rfl
  | cons c t ih =>
    obtain ⟨hc, ht⟩ := List.ne_and_not_mem_of_not_mem_cons h
    have hhead : c = '\r' → t.head? ≠ some '\n' := fun _ hmem =>
      ht (List.mem_of_mem_head? hmem)
    rw [encodeBreaks_cons (Ne.symm hc) hhead, ih ht]

theorem encodeBreaks_line (h : e.Ends line) (rest : Text) :
    encodeBreaks (line ++ (e.text ++ rest)) = line ++ (lineBreak ++ encodeBreaks rest) := by
  induction line with
  | nil => cases e <;> simp [Ending.text, encodeBreaks]
  | cons c line ih =>
    obtain ⟨hfeed, hreturn⟩ := h.head rest
    rw [List.cons_append, encodeBreaks_cons hfeed hreturn, ih h.tail]
    rfl

theorem encodeBreaks_ruled (h : IsRuled rows last) :
    encodeBreaks (ruled rows last) = Text.join lineBreak (rows.map Prod.fst ++ [last]) := by
  rw [Text.join_concat]
  induction rows with
  | nil => simp [ruled, encodeBreaks_of_not_mem h.last]
  | cons row rows ih =>
    obtain ⟨hrow, hrows⟩ := List.forall_mem_cons.mp h.ends
    rw [Text.ruled_cons, encodeBreaks_line hrow, ih ⟨hrows, h.last⟩]
    simp

theorem dropFinal_concat (c : Char) (t : Text) : dropFinal c (t ++ [c]) = t := by
  simp [dropFinal]

theorem dropFinal_of_getLast? {c : Char} {t : Text} (h : t.getLast? ≠ some c) :
    dropFinal c t = t := if_neg h

theorem dropFinal_append {c : Char} {t u : Text} (hu : u ≠ []) :
    dropFinal c (t ++ u) = t ++ dropFinal c u := by
  have hlast : (t ++ u).getLast? = u.getLast? := List.getLast?_append_of_ne_nil t hu
  rw [dropFinal, dropFinal, hlast]
  split
  · exact List.dropLast_append_of_ne_nil hu
  · rfl

theorem not_mem_dropFinal {c d : Char} {t : Text} (h : d ∉ t) : d ∉ dropFinal c t := by
  unfold dropFinal
  split
  · exact fun hmem => h ((List.dropLast_subset t) hmem)
  · exact h

/-- An ending at the end of a text is dropped as a whole. -/
theorem preserve_ended (rows : List (Text × Ending)) (h : e.Ends line) :
    preserve (ruled rows (line ++ e.text)) = encodeBreaks (ruled rows line) := by
  have hfeed : e = .feed → (ruled rows line).getLast? ≠ some '\r' := fun he hlast =>
    h.bare he (Text.getLast?_ruled.mp hlast)
  cases e with
  | feed =>
    rw [Text.ruled_append, Ending.text, preserve, dropFinal_concat,
      dropFinal_of_getLast? (hfeed rfl)]
  | returnFeed =>
    have happend : ruled rows (line ++ Ending.returnFeed.text) =
        ruled rows line ++ ['\r'] ++ ['\n'] := by
      simp [ruled, Ending.text]
    rw [happend, preserve, dropFinal_concat, dropFinal_concat]

theorem preserve_ruled (h : IsRuled rows last) : preserve (ruled rows last) =
    Text.join lineBreak (rows.map Prod.fst ++ if last = [] then [] else [dropFinal '\r' last]) := by
  by_cases hlast : last = []
  · subst hlast
    rcases List.eq_nil_or_concat' rows with rfl | ⟨rows, row, rfl⟩
    · rfl
    · obtain ⟨hrows, hrow⟩ := List.forall_mem_append.mp h.ends
      have hends := hrow row (List.mem_singleton_self row)
      have hrest : IsRuled rows row.1 := ⟨hrows, hends.unbroken⟩
      rw [Text.ruled_concat, preserve_ended rows hends, encodeBreaks_ruled hrest]
      simp
  · have hfeed : (ruled rows last).getLast? ≠ some '\n' := by
      rw [ruled, List.getLast?_append_of_ne_nil _ hlast]
      exact fun hmem => h.last (List.mem_of_getLast? hmem)
    have hdrop : IsRuled rows (dropFinal '\r' last) := ⟨h.ends, not_mem_dropFinal h.last⟩
    have hreturn : dropFinal '\r' (ruled rows last) = ruled rows (dropFinal '\r' last) :=
      dropFinal_append hlast
    rw [preserve, dropFinal_of_getLast? hfeed, hreturn, encodeBreaks_ruled hdrop, if_neg hlast]

theorem dropFinal_eq_self_iff {c : Char} {t : Text} :
    dropFinal c t = t ↔ t.getLast? ≠ some c := by
  refine ⟨fun h hlast => ?_, dropFinal_of_getLast?⟩
  have hlength := congrArg List.length h
  have hpos : 0 < t.length := List.length_pos_of_mem (List.mem_of_getLast? hlast)
  rw [dropFinal, if_pos hlast, List.length_dropLast] at hlength
  omega

theorem getLast?_dropFinal {c : Char} {t : Text} :
    (dropFinal c t).getLast? = some c ↔ [c, c] <:+ t := by
  by_cases hlast : t.getLast? = some c
  · obtain ⟨init, rfl⟩ := List.getLast?_eq_some_iff.mp hlast
    have hsuffix : [c] ++ [c] <:+ init ++ [c] ↔ [c] <:+ init := List.suffix_append_self_iff
    rw [dropFinal_concat, ← List.singleton_suffix_iff_getLast?_eq_some]
    exact hsuffix.symm
  · rw [dropFinal_of_getLast? hlast]
    refine iff_of_false hlast ?_
    rintro ⟨init, rfl⟩
    simp at hlast

theorem suffix_dropFinal {c d : Char} (hcd : c ≠ d) {t : Text} :
    [c, c] <:+ dropFinal d t ↔ [c, c] <:+ t ∨ [c, c, d] <:+ t := by
  by_cases hlast : t.getLast? = some d
  · obtain ⟨init, rfl⟩ := List.getLast?_eq_some_iff.mp hlast
    have hsuffix : [c, c] ++ [d] <:+ init ++ [d] ↔ [c, c] <:+ init := List.suffix_append_self_iff
    have hother : ¬[c, c] <:+ init ++ [d] := by
      rintro ⟨before, heq⟩
      have hend := congrArg List.getLast? heq
      simp [hcd] at hend
    rw [dropFinal_concat, or_iff_right hother]
    exact hsuffix.symm
  · rw [dropFinal_of_getLast? hlast]
    refine (or_iff_left ?_).symm
    rintro ⟨init, rfl⟩
    simp at hlast

theorem preserve_of_not_mem {t : Text} (h : '\n' ∉ t) : preserve t = dropFinal '\r' t := by
  have hfeed : t.getLast? ≠ some '\n' := fun hlast => h (List.mem_of_getLast? hlast)
  rw [preserve, dropFinal_of_getLast? hfeed, encodeBreaks_of_not_mem (not_mem_dropFinal h)]

theorem preserve_eq_self_iff {t : Text} :
    preserve t = t ↔ '\n' ∉ t ∧ t.getLast? ≠ some '\r' := by
  constructor
  · intro h
    have hfree : '\n' ∉ t := by
      rw [← h]
      exact not_mem_encodeBreaks _
    refine ⟨hfree, ?_⟩
    rwa [preserve_of_not_mem hfree, dropFinal_eq_self_iff] at h
  · rintro ⟨hfree, hlast⟩
    rw [preserve_of_not_mem hfree, dropFinal_of_getLast? hlast]

theorem getLast?_encodeBreaks (t : Text) :
    (encodeBreaks t).getLast? = some '\r' ↔ t.getLast? = some '\r' := by
  obtain ⟨rows, last, hruled, rfl⟩ := Text.exists_ruled t
  rw [encodeBreaks_ruled hruled, Text.getLast?_ruled]
  rw [Text.join_concat]
  by_cases hlast : last = []
  · subst hlast
    rcases List.eq_nil_or_concat' rows with rfl | ⟨rows, row, rfl⟩
    · rfl
    · -- Behind the last line stands the entity of its ending.
      have hend : lineBreak.getLast? = some ';' := by decide
      have hother : (some ';' : Option Char) ≠ some '\r' := by decide
      have hbreak : lineBreak ≠ [] := by decide
      have hpiece : row.1 ++ lineBreak ≠ [] := List.append_ne_nil_of_right_ne_nil _ hbreak
      rw [List.map_append, List.flatMap_append, List.append_nil, List.map_singleton,
        List.flatMap_singleton, List.getLast?_append_of_ne_nil _ hpiece,
        List.getLast?_append_of_ne_nil _ hbreak, hend]
      exact iff_of_false hother nofun
  · rw [List.getLast?_append_of_ne_nil _ hlast]

theorem preserve_preserve_iff {t : Text} : preserve (preserve t) = preserve t ↔
    ¬['\r', '\r'] <:+ t ∧ ¬['\r', '\r', '\n'] <:+ t := by
  have hfree : '\n' ∉ preserve t := not_mem_encodeBreaks _
  rw [preserve_of_not_mem hfree, dropFinal_eq_self_iff, ← not_or,
    ← suffix_dropFinal (show '\r' ≠ '\n' by decide), ← getLast?_dropFinal, not_iff_not]
  exact getLast?_encodeBreaks _

/-- Preserved text has the lines of the text, but for a carriage return at its end. -/
theorem preserve_lines (t : Text) :
    (∃ rows last, IsRuled rows last ∧ t = ruled rows last ∧
      Text.lines t = rows.map Prod.fst ++ (if last = [] then [] else [last]) ∧
      preserve t = Text.join lineBreak
        (rows.map Prod.fst ++ if last = [] then [] else [dropFinal '\r' last])) ∧
    (preserve t = Text.join lineBreak (Text.lines t) ↔ t.getLast? ≠ some '\r') ∧
    (preserve t = t ↔ '\n' ∉ t ∧ t.getLast? ≠ some '\r') ∧
    (preserve (preserve t) = preserve t ↔
      ¬['\r', '\r'] <:+ t ∧ ¬['\r', '\r', '\n'] <:+ t) := by
  obtain ⟨rows, last, hruled, rfl⟩ := Text.exists_ruled t
  have hlines := Text.lines_ruled hruled
  have hpreserve := preserve_ruled hruled
  refine ⟨⟨rows, last, hruled, rfl, hlines, hpreserve⟩, ?_, preserve_eq_self_iff,
    preserve_preserve_iff⟩
  rw [hlines, hpreserve, ne_eq, Text.getLast?_ruled]
  by_cases hlast : last.getLast? = some '\r'
  · obtain ⟨init, rfl⟩ := List.getLast?_eq_some_iff.mp hlast
    refine iff_of_false (fun heq => ?_) (not_not_intro hlast)
    have hlength := congrArg List.length heq
    simp [dropFinal_concat, Text.join_concat] at hlength
  · rw [dropFinal_of_getLast? hlast]
    exact iff_of_true rfl hlast

/-- A carriage return that ends no line is lost, one more of them each time. -/
theorem preserve_return :
    ('\n' ∉ ("a\r" : Text) ∧ Text.lines "a\r" = ["a\r"] ∧ preserve "a\r" = "a") ∧
    preserve "a\r\r" = "a\r" ∧ preserve (preserve "a\r\r") = "a" := by decide

end Entity

end Haml
