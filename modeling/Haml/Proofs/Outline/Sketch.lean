import Haml.Proofs.Outline.Order
import Haml.Proofs.Outline.Row

/-! Forests of statements, written out by indentation. What is written is read as the same forest, if
no statement with children refuses them, and up to the first such child otherwise. -/

namespace Haml

/-- A statement with others below it. -/
inductive Sketch
  | mk (statement : Statement) (children : List Sketch)

namespace Sketch

mutual

/-- The statements of a sketch in order, each at its depth. -/
def rows (depth : Nat) : Sketch → List Row
  | mk statement children => (depth, statement) :: rowsAll (depth + 1) children

def rowsAll (depth : Nat) : List Sketch → List Row
  | [] => []
  | s :: rest => rows depth s ++ rowsAll depth rest

end

def print (u : IndentUnit) (forest : List Sketch) : Text :=
  (rowsAll 0 forest).flatMap fun row => row.print u ++ ['\n']

mutual

def size : Sketch → Nat
  | mk _ children => sizeAll children + 1

def sizeAll : List Sketch → Nat
  | [] => 0
  | s :: rest => size s + sizeAll rest

end

mutual

/-- The nodes of the statements, each on its line, where the first one stands on the given line. -/
def node (line : Nat) : Sketch → Node
  | mk statement children => .mk line statement.node.item (nodes (line + 1) children)

def nodes (line : Nat) : List Sketch → List Node
  | [] => []
  | s :: rest => node line s :: nodes (line + size s) rest

end

mutual

theorem length_rows (s : Sketch) (depth : Nat) : (rows depth s).length = size s := by
  cases s with
  | mk statement children =>
    rw [rows, size, List.length_cons, length_rowsAll children]

theorem length_rowsAll (forest : List Sketch) (depth : Nat) :
    (rowsAll depth forest).length = sizeAll forest := by
  cases forest with
  | nil => rfl
  | cons s rest => rw [rowsAll, sizeAll, List.length_append, length_rows s, length_rowsAll rest]

end

mutual

theorem entriesFrom_rows (s : Sketch) (depth line : Nat) :
    Row.entriesFrom line (rows depth s) = (Node.walk depth (node line s)).map Node.entry := by
  cases s with
  | mk statement children =>
    rw [rows, node, Node.walk, Row.entriesFrom, entriesFrom_rowsAll children]
    rfl

theorem entriesFrom_rowsAll (forest : List Sketch) (depth line : Nat) :
    Row.entriesFrom line (rowsAll depth forest) =
      (Node.walkAll depth (nodes line forest)).map Node.entry := by
  cases forest with
  | nil => rfl
  | cons s rest =>
    rw [rowsAll, nodes, Node.walkAll, Row.entriesFrom_append, List.map_append, entriesFrom_rows s,
      length_rows, entriesFrom_rowsAll rest]

end

variable {u : IndentUnit} {forest : List Sketch}

theorem oneLine_print (hmark : PhysicalLine.isIndentMark u.mark = true) (row : Row) :
    Text.OneLine (row.print u) := by
  have hne : u.mark ≠ '\n' ∧ u.mark ≠ '\r' := by
    constructor <;> rintro heq <;> rw [heq] at hmark <;> cases hmark
  intro c hc
  rcases List.mem_append.mp hc with hc | hc
  · rw [IndentUnit.indent_eq] at hc
    rw [List.eq_of_mem_replicate hc]
    exact hne
  · exact row.2.oneLine c hc

theorem ofSource_print (hmark : PhysicalLine.isIndentMark u.mark = true) (forest : List Sketch) :
    PhysicalLine.ofSource (print u forest) =
      PhysicalLine.numbered 1 ((rowsAll 0 forest).map (Row.print u)) := by
  have hprint : print u forest =
      ((rowsAll 0 forest).map (Row.print u)).flatMap (· ++ ['\n']) := by
    rw [print, List.flatMap_map]
  rw [PhysicalLine.ofSource, hprint, Text.lines_flatMap]
  intro t ht
  obtain ⟨row, -, rfl⟩ := List.mem_map.mp ht
  exact oneLine_print hmark row

theorem ready_nil (u : IndentUnit) : Row.Ready u none [] := ⟨.inr ⟨rfl, Nat.zero_le 1⟩, nofun⟩

theorem entries_rowsAll (forest : List Sketch) : Row.entriesFrom 1 (rowsAll 0 forest) =
    (Node.walkAll 0 (nodes 1 forest)).map Node.entry := entriesFrom_rowsAll forest 0 1

theorem fits_root {before after : List Row} (h : rowsAll 0 forest = before ++ after) :
    ∀ e ∈ (Row.entriesFrom 1 before).head?, Outline.Fits [] e := by
  intro e he
  have hentries := entries_rowsAll forest
  rw [h, Row.entriesFrom_append] at hentries
  have hhead : ((Node.walkAll 0 (nodes 1 forest)).map Node.entry).head? = some e := by
    rw [← hentries, List.head?_append, he]
    rfl
  rw [List.head?_map] at hhead
  obtain ⟨p, hp, rfl⟩ := Option.map_eq_some_iff.mp hhead
  exact .inr ⟨Node.root_walkAll _ p hp, nofun⟩

theorem read_of_lawful (hmark : PhysicalLine.isIndentMark u.mark = true)
    (hlawful : ∀ p ∈ Node.walkAll 0 (nodes 1 forest), p.2.Lawful) :
    Document.read (print u forest) = .ok (nodes 1 forest) := by
  have hchain := Node.chain_follows (Node.chain_walkAll (nodes 1 forest) 0).1 fun p hp =>
    hlawful p (List.dropLast_subset _ hp)
  rw [← entries_rowsAll] at hchain
  obtain ⟨after, inner, -, -, hread⟩ := Row.readFrom_rows hmark (ready_nil u)
    (fits_root (List.append_nil _).symm) hchain []
  have hdone : Outline.readFrom after inner [] = .ok [] := Outline.readFrom_done rfl
  rw [List.append_nil, hdone] at hread
  rw [Document.read, Outline.read, ofSource_print hmark, hread, entries_rowsAll]
  simp only [Except.map, List.append_nil, Node.forest_walkAll]

/-- The first child of the first node that takes none is refused. -/
theorem read_of_not_lawful (hmark : PhysicalLine.isIndentMark u.mark = true)
    {before after : List (Nat × Node)} {p : Nat × Node} {child : Node} {rest : List Node}
    {reason : Unnestable} (h : Node.walkAll 0 (nodes 1 forest) = before ++ p :: after)
    (hbefore : ∀ q ∈ before, q.2.Lawful) (hchildren : p.2.children = child :: rest)
    (hreason : p.2.item.refusal = some reason) :
    ∃ more, after = (p.1 + 1, child) :: more ∧
      Document.read (print u forest) = .error (.invalid (.nestedIn reason) child.line) := by
  obtain ⟨more, rfl⟩ : ∃ more, after = (p.1 + 1, child) :: more := by
    have hbelow := Node.below_of_walkAll _ h
    have hhead := Node.head?_walkAll (p.1 + 1) p.2.children
    rw [hchildren] at hbelow hhead
    obtain ⟨below, hbelow'⟩ := List.head?_eq_some_iff.mp hhead
    rw [hbelow'] at hbelow
    obtain ⟨last, rfl⟩ := hbelow
    exact ⟨below ++ last, rfl⟩
  refine ⟨more, rfl, ?_⟩
  -- The rows up to the node are read; the row behind them is its first child.
  have hentries : Row.entriesFrom 1 (rowsAll 0 forest) =
      (before.map Node.entry ++ [Node.entry p]) ++
        (Node.entry (p.1 + 1, child) :: more.map Node.entry) := by
    rw [entries_rowsAll, h]
    simp
  obtain ⟨first, behind, hrows, hfirst, hbehind⟩ := Row.exists_of_entriesFrom_eq_append hentries
  obtain ⟨row, rest, rfl, hrow, -⟩ := Row.exists_of_entriesFrom_eq_cons hbehind
  obtain ⟨initial, final, rfl, -, hfinal⟩ := Row.exists_of_entriesFrom_eq_append hfirst
  obtain ⟨last, nothing, rfl, hlast, hnothing⟩ := Row.exists_of_entriesFrom_eq_cons hfinal
  obtain rfl : nothing = [] := by
    cases nothing with
    | nil => rfl
    | cons row rest => cases hnothing
  have hchain : (Row.entriesFrom 1 (initial ++ [last])).IsChain Entry.Follows := by
    have hnext := (Node.chain_walkAll (nodes 1 forest) 0).1
    rw [h] at hnext
    have hfollows := Node.chain_follows (List.isChain_split.mp hnext).1
    rw [List.dropLast_concat, List.map_append] at hfollows
    rw [hfirst]
    exact hfollows hbefore
  obtain ⟨after, inner, hready, hleaves, hread⟩ := Row.readFrom_rows hmark (ready_nil u)
    (fits_root hrows) hchain
    (PhysicalLine.numbered (1 + (initial ++ [last]).length) ((row :: rest).map (Row.print u)))
  rw [Row.Leaves, List.getLast?_concat] at hleaves
  obtain ⟨outer, rfl, hlength⟩ := hleaves
  have hdepth : row.1 = outer.length + 1 := by
    have hp : p.1 = last.1 := congrArg Entry.depth hlast
    have hchild : p.1 + 1 = row.1 := congrArg Entry.depth hrow
    omega
  have htop : last.2.node.item.refusal = some reason := by
    have hitem : p.2.item = last.2.node.item := congrArg Entry.item hlast
    rw [← hitem, hreason]
  have hline : child.line = 1 + (initial ++ [last]).length := congrArg Entry.line hrow
  rw [List.map_cons, PhysicalLine.numbered, Row.readFrom_refused hmark hready hdepth htop] at hread
  rw [Document.read, Outline.read, ofSource_print hmark, hrows, List.map_append,
    PhysicalLine.numbered_append, List.length_map, List.map_cons, PhysicalLine.numbered, hread,
    hline]
  rfl

theorem pairwise_line (forest : List Sketch) :
    (Node.walkAll 0 (nodes 1 forest)).Pairwise fun p q => p.2.line < q.2.line := by
  have hlines := Row.map_line_entriesFrom 1 (rowsAll 0 forest)
  rw [entries_rowsAll, List.map_map] at hlines
  have hpairwise : (List.range' 1 (rowsAll 0 forest).length).Pairwise (· < ·) :=
    List.pairwise_lt_range' 1
  rw [← hlines, List.pairwise_map] at hpairwise
  exact hpairwise

/-- A child of a node that is no earlier than another node is no earlier than what is listed right
behind that one. -/
theorem line_le_of_child {before more : List (Nat × Node)} {p next q : Nat × Node} {c : Node}
    (h : Node.walkAll 0 (nodes 1 forest) = before ++ p :: next :: more) (hq : q ∈ p :: next :: more)
    (hc : c ∈ q.2.children) : next.2.line ≤ c.line := by
  have hmem : (q.1 + 1, c) ∈ next :: more := by
    obtain ⟨middle, after, hsplit⟩ := List.append_of_mem hq
    have hcut : Node.walkAll 0 (nodes 1 forest) = (before ++ middle) ++ q :: after := by
      rw [h, hsplit, List.append_assoc]
    have hchild := Node.mem_after_of_mem_children hcut hc
    -- The parent is the node itself, or it stands behind that one as the child does.
    cases middle with
    | nil =>
      obtain ⟨-, rfl⟩ := List.cons.inj hsplit
      exact hchild
    | cons first middle =>
      obtain ⟨-, hrest⟩ := List.cons.inj hsplit
      rw [hrest]
      exact List.mem_append_right _ (List.mem_cons_of_mem _ hchild)
  have hpairwise := pairwise_line forest
  rw [h] at hpairwise
  have hlater := (List.pairwise_append.mp hpairwise).2.1
  rcases List.mem_cons.mp hmem with heq | hmore
  · rw [← heq]
  · exact (List.rel_of_pairwise_cons hlater.tail hmore).le

/-- A forest that is written out is read back with each node on its line, if every item with children
takes some. If not, the first child of such an item is refused. -/
theorem read_print (hmark : PhysicalLine.isIndentMark u.mark = true) (forest : List Sketch) :
    ((∀ p ∈ Node.walkAll 0 (nodes 1 forest), p.2.Lawful) →
      Document.read (print u forest) = .ok (nodes 1 forest)) ∧
    ((∃ p ∈ Node.walkAll 0 (nodes 1 forest), ¬p.2.Lawful) →
      ∃ p ∈ Node.walkAll 0 (nodes 1 forest), ∃ child rest reason,
        p.2.children = child :: rest ∧ p.2.item.refusal = some reason ∧
        Document.read (print u forest) = .error (.invalid (.nestedIn reason) child.line) ∧
        ∀ q ∈ Node.walkAll 0 (nodes 1 forest), ¬q.2.Lawful →
          ∀ c ∈ q.2.children, child.line ≤ c.line) := by
  refine ⟨read_of_lawful hmark, fun hunlawful => ?_⟩
  obtain ⟨before, p, after, hwalk, hbefore, hp⟩ := Node.exists_first_unlawful hunlawful
  obtain ⟨hchildren, hrefusal⟩ : p.2.children ≠ [] ∧ p.2.item.refusal ≠ none := by
    simpa [Node.Lawful] using hp
  obtain ⟨child, rest, hchild⟩ := List.exists_cons_of_ne_nil hchildren
  obtain ⟨reason, hreason⟩ := Option.ne_none_iff_exists'.mp hrefusal
  obtain ⟨more, rfl, hread⟩ := read_of_not_lawful hmark hwalk hbefore hchild hreason
  refine ⟨p, by simp [hwalk], child, rest, reason, hchild, hreason, hread, ?_⟩
  intro q hq hunlawful' c hc
  rw [hwalk] at hq
  rcases List.mem_append.mp hq with hq | hq
  · exact absurd (hbefore q hq) hunlawful'
  · exact line_le_of_child hwalk hq hc

section Example

def listStatement : Statement where
  text := "%ul.nav"
  node := .mk 1 (.element ⟨"ul", ["nav"], none, [], none, false, false, false, .none⟩) []
  oneLine := by decide
  reads := by
    have hread : Outline.read "%ul.nav" =
        .ok [⟨0, 1, .element ⟨"ul", ["nav"], none, [], none, false, false, false, .none⟩⟩] := by
      decide +kernel
    rw [Document.read, hread]
    rfl
  notFilter := nofun

def textStatement : Statement where
  text := "plain \\ text "
  node := .mk 1 (.text [.literal "plain \\ text"] .configured) []
  oneLine := by decide
  reads := by
    have hread : Outline.read "plain \\ text " =
        .ok [⟨0, 1, .text [.literal "plain \\ text"] .configured⟩] := by decide +kernel
    rw [Document.read, hread]
    rfl
  notFilter := nofun

theorem read_print_list :
    Document.read (print ⟨' ', 3, by decide⟩
        [.mk listStatement [.mk listStatement [.mk textStatement []], .mk textStatement []],
          .mk listStatement []]) =
      .ok (nodes 1 [.mk listStatement [.mk listStatement [.mk textStatement []], .mk textStatement []],
        .mk listStatement []]) ∧
    ∃ line reason, Document.read (print ⟨'\t', 1, by decide⟩
        [.mk listStatement [.mk textStatement [.mk listStatement []]]]) =
      .error (.invalid (.nestedIn reason) line) := by
  refine ⟨(read_print (by decide) _).1 (by decide), ?_⟩
  have hunlawful : ∃ p ∈ Node.walkAll 0 (nodes 1
      [.mk listStatement [.mk textStatement [.mk listStatement []]]]), ¬p.2.Lawful := by decide
  obtain ⟨p, -, child, rest, reason, -, -, hread, -⟩ :=
    (read_print (u := ⟨'\t', 1, by decide⟩) (by decide) _).2 hunlawful
  exact ⟨child.line, reason, hread⟩

end Example

end Sketch

end Haml
