import Haml.Proofs.Line.Indent
import Haml.Proofs.Line.Joined
import Haml.Proofs.Line.Moved
import Haml.Proofs.Line.Source
import Haml.Proofs.Outline.Run

/-! Statements that are written one to a line, each behind one unit of indentation for each level of
its depth. A text that is one node alone is that node on any line and at any depth, so that the
lines are read as the entries that they were written for. -/

namespace Haml

/-- A text of one line that is read, alone, as one node, which is not a filter. -/
structure Statement where
  text : Text
  node : Node
  oneLine : Text.OneLine text
  reads : Document.read text = .ok [node]
  notFilter : ∀ name segments, node.item ≠ .filter name segments

namespace Statement

/-- What reading a text of one line as one node says of the text. -/
structure Alone (t : Text) (node : Node) : Prop where
  eq : node = .mk 1 node.item []
  filled : Text.isBlank t = false
  indent : t.takeWhile PhysicalLine.isIndentMark = []
  continued : Line.isContinued (Text.trimEnd t) = false
  read : Item.read ⟨1, 1, [], Text.trimEnd t⟩ [] = .ok (some node.item, [])

theorem content_of_indent {t : Text} (h : t.takeWhile PhysicalLine.isIndentMark = []) :
    t.dropWhile PhysicalLine.isIndentMark = t := by
  have happend := List.takeWhile_append_dropWhile (p := PhysicalLine.isIndentMark) (l := t)
  rwa [h] at happend

theorem ofSource_text (s : Statement) : PhysicalLine.ofSource s.text = [⟨1, s.text⟩] := by
  have hne : s.text ≠ [] := by
    intro hnil
    have hread := s.reads
    rw [hnil, Document.read, Outline.read, Outline.readFrom_done rfl] at hread
    cases hread
  rw [PhysicalLine.ofSource, Text.lines_of_oneLine s.oneLine hne]
  rfl

theorem alone (s : Statement) : Alone s.text s.node := by
  obtain ⟨entries, hread, hforest⟩ := Outcome.exists_of_map_eq_ok s.reads
  rw [Outline.read, ofSource_text] at hread
  -- A comment leaves no entry, so that the one step of the run is an item.
  cases Outline.readFrom_eq_ok_iff.mp hread with
  | done => cases hforest
  | comment hline hdepth henter hitem hrest =>
    obtain ⟨-, -, -, rfl⟩ := Line.eq_of_next?_singleton hline
    obtain rfl := List.suffix_nil.mp (Item.suffix_of_read hitem)
    obtain rfl := hrest.eq_nil
    cases hforest
  | @item _ after _ inner _ rest left line depth more item hline hdepth henter hitem hrest =>
    obtain ⟨hfilled, hcontinued, rfl, rfl⟩ := Line.eq_of_next?_singleton hline
    obtain rfl := List.suffix_nil.mp (Item.suffix_of_read hitem)
    obtain rfl := hrest.eq_nil
    obtain rfl : depth = 0 := Nat.le_zero.mp (Outline.enter_eq_ok henter).1
    obtain hnode : Node.mk 1 item [] = s.node := (List.cons.inj hforest).1
    have hindent : s.text.takeWhile PhysicalLine.isIndentMark = [] := by
      rcases Indentation.depth_eq_ok hdepth with ⟨hnil, -⟩ | ⟨u, -, -, hcopies, hmark⟩
      · exact hnil
      · exact hcopies
    have hcontent : PhysicalLine.content ⟨1, s.text⟩ = Text.trimEnd s.text := by
      rw [PhysicalLine.content, content_of_indent hindent]
    rw [hcontent] at hcontinued hitem
    rw [PhysicalLine.indent, hindent] at hitem
    rw [← hnode]
    exact ⟨rfl, hfilled, hindent, hcontinued, hitem⟩

end Statement

abbrev Row := Nat × Statement

namespace Row

def print (u : IndentUnit) (row : Row) : Text := u.indent row.1 ++ row.2.text

/-- The entries of rows on lines that are numbered from a given number on. -/
def entriesFrom : Nat → List Row → List Entry
  | _, [] => []
  | line, (depth, s) :: rest => ⟨depth, line, s.node.item⟩ :: entriesFrom (line + 1) rest

theorem entriesFrom_append (line : Nat) (rows more : List Row) :
    entriesFrom line (rows ++ more) =
      entriesFrom line rows ++ entriesFrom (line + rows.length) more := by
  induction rows generalizing line with
  | nil => rfl
  | cons row rest ih =>
    rw [List.cons_append, entriesFrom, entriesFrom, ih, List.length_cons, Nat.add_right_comm]
    rfl

theorem map_line_entriesFrom (line : Nat) (rows : List Row) :
    (entriesFrom line rows).map Entry.line = List.range' line rows.length := by
  induction rows generalizing line with
  | nil => rfl
  | cons row rest ih => rw [entriesFrom, List.map_cons, ih, List.length_cons, List.range'_succ]

theorem exists_of_entriesFrom_eq_append {line : Nat} {rows : List Row} {first last : List Entry}
    (h : entriesFrom line rows = first ++ last) : ∃ before after, rows = before ++ after ∧
      entriesFrom line before = first ∧ entriesFrom (line + before.length) after = last := by
  induction first generalizing line rows with
  | nil => exact ⟨[], rows, rfl, rfl, h⟩
  | cons e first ih =>
    cases rows with
    | nil => cases h
    | cons row rest =>
      obtain ⟨rfl, hrest⟩ := List.cons.inj h
      obtain ⟨before, after, rfl, hbefore, hafter⟩ := ih hrest
      refine ⟨row :: before, after, rfl, ?_, ?_⟩
      · rw [entriesFrom, hbefore]
      · rw [List.length_cons, ← Nat.add_assoc, Nat.add_right_comm]
        exact hafter

theorem exists_of_entriesFrom_eq_cons {line : Nat} {rows : List Row} {e : Entry}
    {more : List Entry} (h : entriesFrom line rows = e :: more) : ∃ row rest, rows = row :: rest ∧
      e = ⟨row.1, line, row.2.node.item⟩ ∧ entriesFrom (line + 1) rest = more := by
  cases rows with
  | nil => cases h
  | cons row rest =>
    obtain ⟨rfl, hrest⟩ := List.cons.inj h
    exact ⟨row, rest, rfl, rfl, hrest⟩

variable {u : IndentUnit} {known : Indentation} {path : Path} {line : Nat} {row : Row}

/-- Where rows are read, the unit is known as soon as it was used, and the open items with open ones
inside take children. -/
structure Ready (u : IndentUnit) (known : Indentation) (path : Path) : Prop where
  known : known = some u ∨ known = none ∧ path.length ≤ 1
  tail : ∀ item ∈ path.tail, item.refusal = none

theorem all_indent (hmark : PhysicalLine.isIndentMark u.mark = true) (depth : Nat) :
    ∀ c ∈ u.indent depth, PhysicalLine.isIndentMark c = true := by
  intro c hc
  rw [IndentUnit.indent_eq] at hc
  rw [List.eq_of_mem_replicate hc]
  exact hmark

theorem next?_print (hmark : PhysicalLine.isIndentMark u.mark = true) (row : Row) (line : Nat)
    (raws : List PhysicalLine) : Line.next? (⟨line, row.print u⟩ :: raws) =
      some (.ok ⟨line, line, u.indent row.1, Text.trimEnd row.2.text⟩, raws) := by
  have halone := row.2.alone
  have hall := all_indent hmark row.1
  have hindent : PhysicalLine.indent ⟨line, row.print u⟩ = u.indent row.1 := by
    rw [PhysicalLine.indent, print, List.takeWhile_append_of_pos hall, halone.indent,
      List.append_nil]
  have hcontent : PhysicalLine.content ⟨line, row.print u⟩ = Text.trimEnd row.2.text := by
    rw [PhysicalLine.content, print, List.dropWhile_append_of_pos hall,
      Statement.content_of_indent halone.indent]
  have hfilled : PhysicalLine.isBlank ⟨line, row.print u⟩ = false := by
    have hblank := halone.filled
    rw [Text.isBlank, List.all_eq_false] at hblank
    obtain ⟨c, hc, hfilled⟩ := hblank
    rw [PhysicalLine.isBlank, Text.isBlank, List.all_eq_false]
    exact ⟨c, List.mem_append_right _ hc, hfilled⟩
  have hcontinued : Line.isContinued (PhysicalLine.content ⟨line, row.print u⟩) = false := by
    rw [hcontent]
    exact halone.continued
  rw [Line.next?_cons hfilled hcontinued, hindent, hcontent]

theorem refusal_of_fits {e : Entry} (htail : ∀ item ∈ path.tail, item.refusal = none)
    (hfits : Outline.Fits path e) :
    ∀ item ∈ path.drop (path.length - e.depth), item.refusal = none := by
  rcases hfits with hlt | ⟨heq, htop⟩
  · obtain ⟨k, hk⟩ : ∃ k, path.length - e.depth = k + 1 := ⟨path.length - e.depth - 1, by omega⟩
    intro item hitem
    rw [hk, ← List.drop_tail] at hitem
    exact htail item (List.mem_of_mem_drop hitem)
  · rw [heq, Nat.sub_self, List.drop_zero]
    cases path with
    | nil => exact nofun
    | cons top rest => exact List.forall_mem_cons.mpr ⟨htop top rfl, htail⟩

theorem enter_of_fits {e : Entry} (htail : ∀ item ∈ path.tail, item.refusal = none)
    (hfits : Outline.Fits path e) :
    path.enter e.depth = .ok (path.drop (path.length - e.depth)) := by
  have hdepth : ¬path.length < e.depth := by
    rcases hfits with hlt | ⟨heq, -⟩ <;> omega
  have hrefusal := refusal_of_fits htail hfits
  rw [Path.enter, if_neg hdepth]
  dsimp only
  cases hhead : (path.drop (path.length - e.depth)).head? with
  | none => rfl
  | some top => rw [Option.bind_some, hrefusal top (List.mem_of_mem_head? hhead)]

/-- What a row is measured as. The first row below another one fixes the unit. -/
theorem exists_depth {depth : Nat} (hready : Ready u known path) (hdepth : depth ≤ path.length) :
    ∃ after, known.depth (u.indent depth) = (.ok depth, after) ∧
      (after = some u ∨ after = none ∧ depth = 0) := by
  rcases hready.known with rfl | ⟨rfl, hlength⟩
  · exact ⟨some u, Indentation.depth_indent u depth, .inl rfl⟩
  · obtain rfl | rfl : depth = 0 ∨ depth = 1 := by omega
    · exact ⟨none, rfl, .inr ⟨rfl, rfl⟩⟩
    · exact ⟨some u, Indentation.depth_indent_one u, .inl rfl⟩

theorem readFrom_cons (hmark : PhysicalLine.isIndentMark u.mark = true)
    (hready : Ready u known path) (hfits : Outline.Fits path ⟨row.1, line, row.2.node.item⟩)
    (raws : List PhysicalLine) : ∃ after inner, Ready u after (row.2.node.item :: inner) ∧
      inner.length = row.1 ∧ Outline.readFrom known path (⟨line, row.print u⟩ :: raws) =
        (Outline.readFrom after (row.2.node.item :: inner) raws).map
          (⟨row.1, line, row.2.node.item⟩ :: ·) := by
  have henter := enter_of_fits hready.tail hfits
  have hdepth : row.1 ≤ path.length := (Outline.enter_eq_ok henter).1
  obtain ⟨after, hmeasured, hafter⟩ := exists_depth hready hdepth
  have hlength : (path.drop (path.length - row.1)).length = row.1 := by
    rw [List.length_drop]
    omega
  have hitem : Item.read ⟨line, line, u.indent row.1, Text.trimEnd row.2.text⟩ raws =
      .ok (some row.2.node.item, raws) := by
    refine Item.read_elsewhere ?_ row.2.alone.read row.2.notFilter raws
    rfl
  refine ⟨after, _, ⟨?_, refusal_of_fits hready.tail hfits⟩, hlength, ?_⟩
  · rcases hafter with rfl | ⟨rfl, hzero⟩
    · exact .inl rfl
    · refine .inr ⟨rfl, ?_⟩
      rw [List.length_cons, hlength, hzero]
  · exact Outline.readFrom_item (next?_print hmark row line raws) hmeasured henter hitem

theorem readFrom_refused {top : Item} {reason : Unnestable}
    (hmark : PhysicalLine.isIndentMark u.mark = true) (hready : Ready u known (top :: path))
    (hdepth : row.1 = path.length + 1) (htop : top.refusal = some reason)
    (raws : List PhysicalLine) :
    Outline.readFrom known (top :: path) (⟨line, row.print u⟩ :: raws) =
      .error (.invalid (.nestedIn reason) line) := by
  have hle : row.1 ≤ (top :: path).length := by rw [List.length_cons, hdepth]
  obtain ⟨after, hmeasured, -⟩ := exists_depth hready hle
  have henter : Path.enter row.1 (top :: path) = .error (.nestedIn reason) := by
    rw [Path.enter, if_neg (by simp [hdepth])]
    simp [hdepth, htop]
  exact Outline.readFrom_refused (next?_print hmark row line raws) hmeasured henter

/-- What is open behind rows: what was open before if there are none, and the last one on top of as
many items as its depth says otherwise. -/
def Leaves (path : Path) (rows : List Row) (inner : Path) : Prop :=
  match rows.getLast? with
  | none => inner = path
  | some row => ∃ outer, inner = row.2.node.item :: outer ∧ outer.length = row.1

/-- Rows are read as their entries, if these fit one after the other. -/
theorem readFrom_rows {rows : List Row} (hmark : PhysicalLine.isIndentMark u.mark = true)
    (hready : Ready u known path)
    (hfirst : ∀ e ∈ (entriesFrom line rows).head?, Outline.Fits path e)
    (hchain : (entriesFrom line rows).IsChain Entry.Follows) (raws : List PhysicalLine) :
    ∃ after inner, Ready u after inner ∧ Leaves path rows inner ∧
      Outline.readFrom known path (PhysicalLine.numbered line (rows.map (print u)) ++ raws) =
        (Outline.readFrom after inner raws).map (entriesFrom line rows ++ ·) := by
  -- What is open changes with each row; `Ready` is what every row leaves to the next one.
  induction rows generalizing known path line with
  | nil =>
    refine ⟨known, path, hready, rfl, ?_⟩
    change Outline.readFrom known path raws = (Outline.readFrom known path raws).map id
    cases Outline.readFrom known path raws <;> rfl
  | cons row rest ih =>
    obtain ⟨hnext, hrest⟩ := List.isChain_cons.mp hchain
    obtain ⟨after, inner, hready', hlength, hread⟩ := readFrom_cons hmark hready
      (hfirst _ rfl) (PhysicalLine.numbered (line + 1) (rest.map (print u)) ++ raws)
    have hfirst' : ∀ e ∈ (entriesFrom (line + 1) rest).head?,
        Outline.Fits (row.2.node.item :: inner) e := by
      intro e he
      rcases hnext e he with hle | ⟨heq, hnone⟩
      · exact .inl (by rw [List.length_cons, hlength]; exact Nat.lt_succ_of_le hle)
      · refine .inr ⟨by rw [List.length_cons, hlength]; exact heq, ?_⟩
        intro top htop
        obtain rfl := Option.some.inj htop
        exact hnone
    obtain ⟨last, innermost, hready'', hlast, hrows⟩ := ih hready' hfirst' hrest
    refine ⟨last, innermost, hready'', ?_, ?_⟩
    · cases rest with
      | nil => exact ⟨inner, hlast, hlength⟩
      | cons second rest =>
        rw [Leaves, List.getLast?_cons_cons]
        exact hlast
    · rw [List.map_cons, PhysicalLine.numbered, List.cons_append, hread, hrows]
      cases Outline.readFrom last innermost raws <;> rfl

end Row

end Haml
