import Haml.Proofs.Line.Indent
import Haml.Proofs.Line.Joined
import Haml.Proofs.Line.Source
import Haml.Proofs.Outline.Run
import Haml.Proofs.Outline.Stack
import Haml.Proofs.Outline.Taken

/-! What becomes of the lines of a source. A source that is read falls into portions: blank lines,
and lines with content, each with the lines that are joined to it and those that it takes. The
portions that declare items are the nodes of the document, in order; the others are blank lines and
silent comments. -/

namespace Haml

/-- Consecutive lines of a source that are read together. -/
inductive Portion
  | blank (raw : PhysicalLine)
  | item (entry : Entry) (first : PhysicalLine) (joined taken : List PhysicalLine)
  | comment (first : PhysicalLine) (joined taken : List PhysicalLine)

namespace Portion

def lines : Portion → List PhysicalLine
  | blank raw => [raw]
  | item _ first joined taken => first :: (joined ++ taken)
  | comment first joined taken => first :: (joined ++ taken)

def entry? : Portion → Option Entry
  | blank _ => none
  | item entry _ _ _ => some entry
  | comment _ _ _ => none

/-- A first line, those joined to it and those that it takes are read as an item, or as none. -/
structure Reads (first : PhysicalLine) (joined taken : List PhysicalLine) (item? : Option Item) :
    Prop where
  joins : Line.Joins first joined
  takes : (Line.ofJoined first joined).Takes taken
  read : Item.read (Line.ofJoined first joined) taken = .ok (item?, [])

/-- A portion is what it says. The first line of an item has the number of its entry and is indented
by one unit for each level. -/
def Sound (u : IndentUnit) : Portion → Prop
  | blank raw => raw.isBlank = true
  | item entry first joined taken => Reads first joined taken (some entry.item) ∧
    first.number = entry.line ∧ first.indent = u.indent entry.depth
  | comment first joined taken => Reads first joined taken none ∧
    (Marker.classify (Line.ofJoined first joined).text).1 = .silentComment

/-- Portions make up the given lines and hold the given entries. -/
structure Covers (u : IndentUnit) (raws : List PhysicalLine) (entries : List Entry)
    (portions : List Portion) : Prop where
  lines : portions.flatMap Portion.lines = raws
  entries : portions.filterMap entry? = entries
  sound : ∀ p ∈ portions, p.Sound u

variable {u : IndentUnit} {raws : List PhysicalLine} {entries : List Entry}
  {portions : List Portion}

theorem Covers.nil (u : IndentUnit) : Covers u [] [] [] := ⟨rfl, rfl, nofun⟩

theorem Covers.cons (h : Covers u raws entries portions) {p : Portion} (hp : p.Sound u) :
    Covers u (p.lines ++ raws) (p.entry?.toList ++ entries) (p :: portions) where
  lines := by rw [List.flatMap_cons, h.lines]
  entries := by
    rw [← h.entries]
    cases hentry : p.entry? with
    | none => rw [List.filterMap_cons_none hentry]; rfl
    | some entry => rw [List.filterMap_cons_some hentry]; rfl
  sound := List.forall_mem_cons.mpr ⟨hp, h.sound⟩

theorem Covers.blanks (h : Covers u raws entries portions) {blanks : List PhysicalLine}
    (hblanks : ∀ raw ∈ blanks, raw.isBlank = true) :
    Covers u (blanks ++ raws) entries (blanks.map blank ++ portions) := by
  induction blanks with
  | nil => exact h
  | cons raw blanks ih =>
    obtain ⟨hraw, hrest⟩ := List.forall_mem_cons.mp hblanks
    exact (ih hrest).cons (p := blank raw) hraw

theorem exists_of_step {line : Line} {rest left : List PhysicalLine} {item? : Option Item}
    (hline : Line.next? raws = some (.ok line, rest))
    (hread : Item.read line rest = .ok (item?, left)) :
    ∃ blanks first joined taken, raws = blanks ++ (first :: (joined ++ taken) ++ left) ∧
      (∀ raw ∈ blanks, raw.isBlank = true) ∧ Reads first joined taken item? ∧
      line = Line.ofJoined first joined ∧
      (item? = none → (Marker.classify line.text).1 = .silentComment) := by
  obtain ⟨blanks, first, joined, rfl, hblanks, hjoins, rfl⟩ := Line.exists_of_next? hline
  obtain ⟨taken, rfl, htakes, hread, hnone⟩ := Item.exists_of_read hread
  exact ⟨blanks, first, joined, taken, by simp, hblanks, ⟨hjoins, htakes, hread⟩, rfl, hnone⟩

def Marked (known : Indentation) : Prop := ∀ u ∈ known, PhysicalLine.isIndentMark u.mark = true

/-- Once a line is measured, the unit is what it was, if it was known, and a number of copies of it
indent the line. -/
theorem indent_of_depth {known after : Indentation} {depth : Nat} {raw : PhysicalLine}
    (h : known.depth raw.indent = (.ok depth, after)) (hknown : Marked known) :
    Marked after ∧ (∀ u ∈ known, u ∈ after) ∧
      ∀ u, (∀ v ∈ after, v = u) → raw.indent = u.indent depth := by
  rcases Indentation.depth_eq_ok h with ⟨hempty, rfl, rfl⟩ | ⟨v, rfl, hv, hindent, hmark⟩
  · exact ⟨hknown, fun u hu => hu, fun u _ => hempty⟩
  · refine ⟨?_, ?_, fun u hu => hu v rfl ▸ hindent⟩
    · intro u hu
      obtain rfl : v = u := Option.some.inj hu
      exact List.mem_takeWhile_imp hmark
    · intro u hu
      rcases hv with rfl | rfl
      · cases hu
      · exact hu

theorem Covers.sublist (h : Covers u raws entries portions) :
    (entries.map Entry.line).Sublist (raws.map PhysicalLine.number) := by
  obtain ⟨rfl, rfl, hsound⟩ := h
  induction portions with
  | nil => exact .slnil
  | cons p rest ih =>
    obtain ⟨hp, hrest⟩ := List.forall_mem_cons.mp hsound
    rw [List.flatMap_cons, List.map_append]
    cases p with
    | blank raw => exact (ih hrest).trans (List.sublist_append_right _ _)
    | comment first joined taken => exact (ih hrest).trans (List.sublist_append_right _ _)
    | item entry first joined taken =>
      obtain ⟨-, hnumber, -⟩ := hp
      have hfirst : [entry.line].Sublist ((item entry first joined taken).lines.map
          PhysicalLine.number) := by
        rw [← hnumber]
        exact (List.nil_sublist _).cons_cons first.number
      exact hfirst.append (ih hrest)

end Portion

open Portion

/-- The lines of a run fall into portions, all of them indented by one unit. -/
theorem Outline.Run.exists_covers {known : Indentation} {path : Path} {raws : List PhysicalLine}
    {entries : List Entry} (h : Run known path raws entries) (hknown : Marked known) :
    ∃ u portions, PhysicalLine.isIndentMark u.mark = true ∧ (∀ v ∈ known, v = u) ∧
      Covers u raws entries portions := by
  induction h with
  | @done known path raws hline =>
    have hblanks := Line.isBlank_of_next?_eq_none hline
    have hcovers (u : IndentUnit) := (Covers.nil u).blanks hblanks
    simp only [List.append_nil] at hcovers
    cases known with
    -- Nothing is indented, so that any unit will do.
    | none => exact ⟨⟨' ', 1, Nat.one_pos⟩, _, rfl, nofun, hcovers _⟩
    | some u => exact ⟨u, _, hknown u rfl, fun v hv => (Option.some.inj hv).symm, hcovers u⟩
  | comment hline hdepth henter hread hrest ih =>
    obtain ⟨blanks, first, joined, taken, rfl, hblanks, hreads, rfl, hnone⟩ :=
      exists_of_step hline hread
    rw [Line.indent_ofJoined] at hdepth
    obtain ⟨hafter, hextends, -⟩ := indent_of_depth hdepth hknown
    obtain ⟨u, portions, hmark, hu, hcovers⟩ := ih hafter
    have hsound : (Portion.comment first joined taken).Sound u := ⟨hreads, hnone rfl⟩
    exact ⟨u, _, hmark, fun v hv => hu v (hextends v hv), (hcovers.cons hsound).blanks hblanks⟩
  | @item known after path inner raws rest left line depth entries item hline hdepth henter hread
      hrest ih =>
    obtain ⟨blanks, first, joined, taken, rfl, hblanks, hreads, rfl, -⟩ :=
      exists_of_step hline hread
    rw [Line.indent_ofJoined] at hdepth
    obtain ⟨hafter, hextends, hindent⟩ := indent_of_depth hdepth hknown
    obtain ⟨u, portions, hmark, hu, hcovers⟩ := ih hafter
    have hsound : (Portion.item ⟨depth, first.number, item⟩ first joined taken).Sound u :=
      ⟨hreads, rfl, hindent u hu⟩
    rw [Line.number_ofJoined]
    exact ⟨u, _, hmark, fun v hv => hu v (hextends v hv), (hcovers.cons hsound).blanks hblanks⟩

/-- Where a source is read, every line of it belongs to one portion. The nodes of the document are
those portions that declare an item, in order, each on a line of its own that is indented to its
depth. Children stand below items that take some, so that a stack of open nodes builds the same
document. -/
theorem Document.exists_portions {source : Text} {forest : List Node}
    (h : Document.read source = .ok forest) :
    ∃ u portions, PhysicalLine.isIndentMark u.mark = true ∧
      Covers u (PhysicalLine.ofSource source) ((Node.walkAll 0 forest).map Node.entry) portions ∧
      ((Node.walkAll 0 forest).map fun p => p.2.line).Pairwise (· < ·) ∧
      (∀ p ∈ Node.walkAll 0 forest, p.2.Lawful) ∧
      Stack.build ((Node.walkAll 0 forest).map Node.entry) = forest := by
  obtain ⟨entries, hread, rfl⟩ := Outcome.exists_of_map_eq_ok h
  have houtline := Outline.isOutline_of_read hread
  obtain ⟨hwalk, hlawful⟩ := Node.walkAll_forest houtline
  have hrun := Outline.readFrom_eq_ok_iff.mp hread
  obtain ⟨u, portions, hmark, -, hcovers⟩ := hrun.exists_covers nofun
  refine ⟨u, portions, hmark, ?_, ?_, hlawful, ?_⟩
  · rw [hwalk]
    exact hcovers
  · have hlines : (Node.walkAll 0 (Entry.forest entries)).map (fun p => p.2.line) =
        entries.map Entry.line := by
      conv_rhs => rw [← hwalk]
      rw [List.map_map]
      rfl
    have hnumbers := PhysicalLine.map_number_numbered 1 (Text.lines source)
    have hsublist := hcovers.sublist
    rw [PhysicalLine.ofSource, hnumbers] at hsublist
    rw [hlines]
    exact (List.pairwise_lt_range' 1).sublist hsublist
  · rw [hwalk, Stack.build_eq_forest houtline]

theorem Document.exists_portions_list : ∃ forest,
    Document.read "%ul\x7b:a =>\n1\x7d\n  %li b |\n  c |\n  -# d\n    e\n%p\n  :plain\n    f\n" =
      .ok forest ∧
    (Node.walkAll 0 forest).map (fun p => (p.1, p.2.line)) = [(0, 1), (1, 3), (0, 7), (1, 8)] ∧
    ∃ u portions, PhysicalLine.isIndentMark u.mark = true ∧
      Covers u (PhysicalLine.ofSource
          "%ul\x7b:a =>\n1\x7d\n  %li b |\n  c |\n  -# d\n    e\n%p\n  :plain\n    f\n")
        ((Node.walkAll 0 forest).map Node.entry) portions ∧
      ((Node.walkAll 0 forest).map fun p => p.2.line).Pairwise (· < ·) ∧
      (∀ p ∈ Node.walkAll 0 forest, p.2.Lawful) ∧
      Stack.build ((Node.walkAll 0 forest).map Node.entry) = forest := by
  refine Outcome.exists_viewed ?_ fun forest hforest => exists_portions hforest
  decide +kernel

section Comment

variable {u : IndentUnit} {raw : PhysicalLine} {raws : List PhysicalLine} {entries : List Entry}
  {portions : List Portion}

/-- A line with content that comes before every entry starts a silent comment. -/
theorem Portion.Covers.comment_of_cons (h : Covers u (raw :: raws) entries portions)
    (hfilled : raw.isBlank = false) (hentries : ∀ e ∈ entries, e.line ≠ raw.number) :
    ∃ joined taken left rest, portions = comment raw joined taken :: rest ∧
      raws = joined ++ taken ++ left ∧ (comment raw joined taken).Sound u ∧
      Covers u left entries rest := by
  obtain ⟨hlines, rfl, hsound⟩ := h
  cases portions with
  | nil => cases hlines
  | cons p rest =>
    obtain ⟨hp, hrest⟩ := List.forall_mem_cons.mp hsound
    rw [List.flatMap_cons] at hlines
    cases p with
    | blank first =>
      obtain ⟨rfl, -⟩ := List.cons.inj hlines
      exact absurd (hp.symm.trans hfilled) (by decide)
    | item entry first joined taken =>
      obtain ⟨rfl, -⟩ := List.cons.inj hlines
      exact absurd hp.2.1.symm (hentries entry List.mem_cons_self)
    | comment first joined taken =>
      obtain ⟨rfl, rfl⟩ := List.cons.inj hlines
      exact ⟨joined, taken, _, rest, rfl, rfl, hp, rfl, rfl, hrest⟩

/-- Lines that are joined to the line of a silent comment belong to no node and are not below it, so
that no portions without them make up the lines of this source. -/
theorem Document.comment_joins_lines : ∃ forest,
    Document.read "-# a |\nb |\n%p" = .ok forest ∧
    ¬∃ u portions, Covers u (PhysicalLine.ofSource "-# a |\nb |\n%p")
        ((Node.walkAll 0 forest).map Node.entry) portions ∧
      ∀ first joined taken, comment first joined taken ∈ portions → joined = [] := by
  have hread : ∃ forest, Document.read "-# a |\nb |\n%p" = .ok forest ∧
      ((Node.walkAll 0 forest).map Node.entry).map Entry.line = [3] ∧ True := by
    refine Outcome.exists_viewed ?_ fun _ _ => trivial
    decide +kernel
  obtain ⟨forest, hforest, hline, -⟩ := hread
  refine ⟨forest, hforest, ?_⟩
  rintro ⟨u, portions, hcovers, hnone⟩
  have hentries : ∀ e ∈ (Node.walkAll 0 forest).map Node.entry, e.line = 3 := by
    intro e he
    have hmem := List.mem_map_of_mem (f := Entry.line) he
    rw [hline] at hmem
    exact List.mem_singleton.mp hmem
  have hsource : PhysicalLine.ofSource "-# a |\nb |\n%p" =
      [⟨1, "-# a |"⟩, ⟨2, "b |"⟩, ⟨3, "%p"⟩] := by decide
  rw [hsource] at hcovers
  obtain ⟨joined, taken, left, rest, rfl, hraws, ⟨hreads, -⟩, hrest⟩ :=
    hcovers.comment_of_cons (by decide) fun e he => by rw [hentries e he]; decide
  obtain rfl : joined = [] := hnone _ _ _ List.mem_cons_self
  -- Without the second line the comment takes no block, and the second line starts no comment.
  cases taken with
  | cons raw taken =>
    obtain ⟨rfl, -⟩ := List.cons.inj hraws
    have hclassify : Marker.classify (Line.ofJoined ⟨1, "-# a |"⟩ []).text =
        (.silentComment, " a".toList) := by decide
    have htakes := hreads.takes
    rw [Line.Takes, hclassify] at htakes
    have hbelow := htakes _ List.mem_cons_self
    revert hbelow
    decide
  | nil =>
    obtain rfl : [_, _] = left := hraws
    obtain ⟨joined, taken, left, rest, rfl, -, ⟨-, hmarker⟩, -⟩ :=
      hrest.comment_of_cons (by decide) fun e he => by rw [hentries e he]; decide
    obtain rfl : joined = [] :=
      hnone ⟨2, "b |"⟩ joined taken (List.mem_cons_of_mem _ List.mem_cons_self)
    revert hmarker
    decide

end Comment

end Haml
