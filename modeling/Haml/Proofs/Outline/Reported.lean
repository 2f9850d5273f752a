import Haml.Proofs.Line.Moved
import Haml.Proofs.Line.Source
import Haml.Proofs.Outline.Portion

/-! The lines that reading tells of. A fault is reported on a line with content, which is the first
one of a logical line or one in the block of a filter. Entries have the numbers of such lines, in
the order in which these stand in the source. -/

namespace Haml

/-- The number of a line of a source that is not blank. -/
structure Text.IsLine (source : Text) (n : Nat) : Prop where
  first : 1 ≤ n
  last : n ≤ (lines source).length
  filled : ∀ text ∈ (lines source)[n - 1]?, isBlank text = false

namespace PhysicalLine

/-- Is there a line with content under a number? -/
def Reported (raws : List PhysicalLine) (n : Nat) : Prop :=
  ∃ raw ∈ raws, raw.isBlank = false ∧ raw.number = n

theorem Reported.mono {raws rest : List PhysicalLine} {n : Nat} (h : Reported rest n)
    (hrest : rest ⊆ raws) : Reported raws n := by
  obtain ⟨raw, hraw, hfilled, hnumber⟩ := h
  exact ⟨raw, hrest hraw, hfilled, hnumber⟩

theorem getElem?_of_mem_numbered {n : Nat} {texts : List Text} {raw : PhysicalLine}
    (h : raw ∈ numbered n texts) : n ≤ raw.number ∧ texts[raw.number - n]? = some raw.text := by
  induction texts generalizing n with
  | nil => cases h
  | cons text rest ih =>
    rcases List.mem_cons.mp h with rfl | h
    · exact ⟨le_rfl, by simp⟩
    · obtain ⟨hfirst, hrest⟩ := ih h
      have hsucc : raw.number - n = raw.number - (n + 1) + 1 := by omega
      exact ⟨by omega, by rw [hsucc, List.getElem?_cons_succ, hrest]⟩

theorem Reported.isLine {source : Text} {n : Nat} (h : Reported (ofSource source) n) :
    Text.IsLine source n := by
  obtain ⟨raw, hraw, hfilled, rfl⟩ := h
  obtain ⟨hfirst, htext⟩ := getElem?_of_mem_numbered hraw
  obtain ⟨hlast, -⟩ := List.getElem?_eq_some_iff.mp htext
  refine ⟨hfirst, by omega, fun text hmem => ?_⟩
  rw [htext] at hmem
  exact Option.some.inj hmem ▸ hfilled

end PhysicalLine

open PhysicalLine (Reported)

namespace ReadError

variable {α : Type} {line : Nat} {e : ReadError}

theorem line_moved (line : Nat) (e : ReadError) : (e.moved line).line = line := by
  cases e <;> rfl

/-- What differs in the line of its faults only has them on the line that it is read on. -/
theorem line_of_moved {m : Except ReadError α} (hmoved : m = m.mapError (moved line))
    (h : m = .error e) : e.line = line := by
  rw [h] at hmoved
  rw [Except.error.inj hmoved]
  exact line_moved line e

end ReadError

namespace Line

variable {line : Line} {raws rest : List PhysicalLine} {e : LexError}

theorem line_of_joinContinued (h : (joinContinued line raws).1 = .error e) :
    e.line = line.number := by
  fun_induction joinContinued line raws with
  | case1 => rw [← Except.error.inj h]
  | case2 => rw [← Except.error.inj h]
  | case3 line raw rest text hfilled hcontinued ih => exact ih h
  | case4 => cases h

theorem reported_of_next?_error (h : next? raws = some (.error e, rest)) :
    Reported raws e.line := by
  induction raws with
  | nil => cases h
  | cons raw raws ih =>
    rw [next?] at h
    split at h
    · exact (ih h).mono (List.subset_cons_self raw raws)
    · next hfilled =>
      split at h
      · have hfirst := congrArg Prod.fst (Option.some.inj h)
        exact ⟨raw, List.mem_cons_self, by simpa using hfilled, (line_of_joinContinued hfirst).symm⟩
      · cases h

theorem reported_of_next? (h : next? raws = some (.ok line, rest)) :
    Reported raws line.number ∧ rest <:+ raws := by
  obtain ⟨blanks, first, joined, rfl, -, hjoins, rfl⟩ := exists_of_next? h
  refine ⟨⟨first, by simp, hjoins.filled, ?_⟩, List.suffix_append _ rest⟩
  exact (number_ofJoined first joined).symm

end Line

theorem Header.line_of_readLines {implicitDiv : Bool} {line : Nat} {text : Text}
    {raws : List PhysicalLine} {e : ReadError}
    (h : readLines implicitDiv line text raws = .error e) : e.line = line := by
  fun_induction readLines implicitDiv line text raws with
  | case1 => cases h
  | case2 raws text e' hread =>
    have hmoved := read_moved line line implicitDiv text
    rw [hread] at hmoved
    have hline := HeaderError.invalid.inj (Except.error.inj hmoved)
    rw [← Except.error.inj h, hline]
    exact ReadError.line_moved line e'
  | case3 => rw [← Except.error.inj h]; rfl
  | case4 text raw raws hread ih => exact ih h

namespace Item

variable {line : Line} {raws left : List PhysicalLine} {e : ReadError}

theorem line_of_readElement {implicitDiv : Bool} {number : Nat} {payload : Text}
    (h : readElement implicitDiv number payload raws = .error e) : e.line = number := by
  rcases Outcome.error_of_bind_eq_error h with hlines | ⟨⟨header, rest⟩, -, h⟩
  · exact Header.line_of_readLines hlines
  · rcases Outcome.error_of_bind_eq_error h with hheader | ⟨item, -, h⟩
    · exact ReadError.line_of_moved (ofHeader_moved _ _ _) hheader
    · cases h

theorem reported_of_filterSegments {base : Text} {block : List PhysicalLine} {e : LexError}
    (h : filterSegments base block = .error e) : Reported block e.line := by
  induction block with
  | nil => cases h
  | cons raw rest ih =>
    have hrest {f : List Segment → List Segment}
        (h : (filterSegments base rest).bind (fun more => .ok (f more)) = .error e) :
        Reported (raw :: rest) e.line := by
      rcases Outcome.error_of_bind_eq_error h with h | ⟨more, -, h⟩
      · exact (ih h).mono (List.subset_cons_self raw rest)
      · cases h
    rw [filterSegments] at h
    split at h
    · exact hrest h
    · next hfilled =>
      rcases Outcome.error_of_bind_eq_error h with hfirst | ⟨first, -, h⟩
      · have hmoved := Segment.scan_moved raw.number raw.number (raw.unindent base)
        rw [hfirst] at hmoved
        rw [Except.error.inj hmoved]
        exact ⟨raw, List.mem_cons_self, by simpa using hfilled, rfl⟩
      · exact hrest h

theorem reported_of_readFilter {payload : Text} (h : readFilter line payload raws = .error e) :
    e.line = line.number ∨ Reported raws e.line := by
  rw [readFilter] at h
  dsimp only at h
  split at h
  · exact .inl (by rw [← Except.error.inj h]; rfl)
  · split at h
    · next e' hsegments =>
      rw [← Except.error.inj h]
      refine .inr ((reported_of_filterSegments hsegments).mono fun raw hraw => ?_)
      have hblock := (List.dropWhile_suffix PhysicalLine.isBlank).subset (List.mem_reverse.mp hraw)
      exact (List.takeWhile_prefix _).subset (List.mem_reverse.mp hblock)
    · cases h

/-- An item that cannot be read is faulty on its own line or in the lines that it takes. -/
theorem reported_of_read (h : read line raws = .error e) :
    e.line = line.number ∨ Reported raws e.line := by
  have halone {i : Except ReadError Item} (hmoved : i = i.mapError (ReadError.moved line.number))
      (hi : i.map (fun i => (some i, raws)) = .error e) : e.line = line.number := by
    exact ReadError.line_of_moved hmoved (Outcome.eq_error_of_map hi)
  rw [read] at h
  generalize Marker.classify line.text = classified at h
  obtain ⟨marker, payload⟩ := classified
  cases marker with
  | element => exact .inl (line_of_readElement h)
  | div => exact .inl (line_of_readElement h)
  | script => exact .inl (halone (ofScript_moved _ _ _ _ _) h)
  | escapedScript => exact .inl (halone (ofScript_moved _ _ _ _ _) h)
  | unescapedScript => exact .inl (halone (ofScript_moved _ _ _ _ _) h)
  | preservedScript => exact .inl (halone (ofScript_moved _ _ _ _ _) h)
  | plain => exact .inl (halone (ofText_moved _ _ _ _) h)
  | escapedText => exact .inl (halone (ofText_moved _ _ _ _) h)
  | unescapedText => exact .inl (halone (ofText_moved _ _ _ _) h)
  | silent => exact .inl (halone (ofSilent_moved _ _ _) h)
  | silentComment => cases h
  | comment => exact .inl (halone (ofComment_moved _ _ _) h)
  | doctype => cases h
  | filter => exact reported_of_readFilter h

end Item

namespace Outline

variable {known : Indentation} {path : Path} {raws : List PhysicalLine} {e : ReadError}
  {entries : List Entry}

/-- Reading fails on a line with content. -/
theorem reported_of_readFrom (h : readFrom known path raws = .error e) : Reported raws e.line := by
  fun_induction readFrom known path raws with
  | case1 => cases h
  | case2 known path raws e' left hline =>
    rw [← Except.error.inj h]
    exact Line.reported_of_next?_error hline
  | case3 known path raws line rest hline fault after hdepth =>
    rw [← Except.error.inj h]
    exact (Line.reported_of_next? hline).1
  | case4 known path raws line rest hline depth after hdepth fault henter =>
    rw [← Except.error.inj h]
    exact (Line.reported_of_next? hline).1
  | case5 known path raws line rest hline depth after hdepth inner henter e' hread =>
    obtain rfl : e' = e := Except.error.inj h
    obtain ⟨hfirst, hrest⟩ := Line.reported_of_next? hline
    rcases Item.reported_of_read hread with hown | hbelow
    · exact hown ▸ hfirst
    · exact hbelow.mono hrest.subset
  | case6 known path raws line rest hline depth after hdepth inner henter left hread hlength ih =>
    have hrest := (Line.reported_of_next? hline).2
    exact (ih h).mono ((Item.suffix_of_read hread).trans hrest).subset
  | case7 known path raws line rest hline depth after hdepth inner henter item left hread hlength
      ih =>
    have hrest := (Line.reported_of_next? hline).2
    exact (ih (Outcome.eq_error_of_map h)).mono ((Item.suffix_of_read hread).trans hrest).subset

/-- The entries that are read have the numbers of lines with content, in order. -/
theorem Run.sublist (h : Run known path raws entries) :
    (entries.map Entry.line).Sublist
      ((raws.filter (!·.isBlank)).map PhysicalLine.number) := by
  induction h with
  | done hline => exact List.nil_sublist _
  | comment hline hdepth henter hread hrest ih =>
    have hsuffix := (Item.suffix_of_read hread).trans (Line.reported_of_next? hline).2
    exact ih.trans ((hsuffix.sublist.filter _).map _)
  | item hline hdepth henter hread hrest ih =>
    obtain ⟨blanks, first, joined, taken, rfl, -, hreads, rfl, -⟩ :=
      Portion.exists_of_step hline hread
    rw [List.map_cons, Line.number_ofJoined, List.filter_append, List.cons_append,
      List.filter_cons_of_pos (by simp [hreads.joins.filled]), List.filter_append, List.map_append,
      List.map_cons, List.map_append]
    -- The entry has the number of the first line; the lines joined to it and those taken are passed.
    refine List.Sublist.trans (.cons_cons _ ?_) (List.sublist_append_right _ _)
    exact ih.trans (List.sublist_append_right _ _)

end Outline

end Haml
