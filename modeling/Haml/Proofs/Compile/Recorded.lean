import Haml.Proofs.Compile.Forest
import Haml.Proofs.Outline.Reported

/-! The lines that compiling tells of. An operation that can fail when it runs records the line of
its node, and a fault of an item is one of its line. A document is compiled in order, so that the
recorded lines never decrease. -/

namespace Haml

/-- The line that an operation records for what may go wrong in it. -/
def Op.line? : Op → Option Nat
  | act (.expr _ _ _ _ line) => some line
  | act (.openTag _ _ _ line) => some line
  | act (.selfClose _ _ _ _ line) => some line
  | act (.filter _ _ line) => some line
  | enter statement => some statement.line
  | _ => none

def Op.lines (ops : List Op) : List Nat := ops.filterMap line?

theorem Op.lines_append (u v : List Op) : lines (u ++ v) = lines u ++ lines v :=
  List.filterMap_append

/-- All that the operations record is one line. -/
def Op.OnLine (line : Nat) (ops : List Op) : Prop := ∀ n ∈ lines ops, n = line

theorem Op.onLine_nil (line : Nat) : OnLine line [] := nofun

theorem Op.onLine_iff {line : Nat} {ops : List Op} :
    OnLine line ops ↔ ∀ op ∈ ops, ∀ n ∈ op.line?, n = line := by
  simp only [OnLine, lines, List.mem_filterMap, Option.mem_def]
  exact ⟨fun h op hop n hn => h n ⟨op, hop, hn⟩, fun h n ⟨op, hop, hn⟩ => h op hop n hn⟩

theorem Op.onLine_cons {line : Nat} {op : Op} {ops : List Op} (hop : ∀ n ∈ op.line?, n = line)
    (h : OnLine line ops) : OnLine line (op :: ops) :=
  onLine_iff.mpr (List.forall_mem_cons.mpr ⟨hop, onLine_iff.mp h⟩)

namespace Compile

variable {o : Options} {r : Registry} {line : Nat} {childless : Bool}
  {body : Except CompileError (List Op)} {ops : List Op} {e : CompileError}

/-- An item records its own line, and then those of its children if it has been compiled with
them. -/
def Records (line : Nat) (body : Except CompileError (List Op)) (ops : List Op) : Prop :=
  Op.OnLine line ops ∨
    ∃ b own, body = .ok b ∧ Op.lines ops = own ++ Op.lines b ∧ ∀ n ∈ own, n = line

theorem records_around {b : List Op} (hbody : body = .ok b) (first last : List Op)
    (hfirst : Op.OnLine line first) (hlast : Op.lines last = []) :
    Records line body (first ++ b ++ last) := by
  refine .inr ⟨b, Op.lines first, hbody, ?_, hfirst⟩
  rw [Op.lines_append, Op.lines_append, hlast, List.append_nil]

theorem segments_onLine (escape : Escape) (flow : Flow) (written : List Segment) :
    Op.OnLine line (segments o escape line flow written) :=
  Op.onLine_iff.mpr (forall_segments (fun _ _ => nofun)
    (fun _ _ _ _ hn => (Option.some.inj hn).symm) flow written)

theorem script_onLine (flow : Flow) (s : Script) : Op.OnLine line [script o line flow s] := by
  refine Op.onLine_cons ?_ (Op.onLine_nil line)
  rw [script]
  split
  · exact nofun
  · exact fun n hn => (Option.some.inj hn).symm

theorem content_onLine (c : Content) : Op.OnLine line (content o line c) := by
  cases c with
  | none => exact Op.onLine_nil line
  | text written => exact segments_onLine .configured .inline written
  | script s => exact script_onLine .inline s

theorem element_records {el : Element} (h : element o line el childless body = .ok ops) :
    Records line body ops := by
  rcases element_eq_ok h with ⟨-, rfl⟩ | ⟨-, b, hb, rfl⟩
  · exact .inl (Op.onLine_cons (fun n hn => (Option.some.inj hn).symm) (Op.onLine_nil line))
  · rw [← List.cons_append]
    refine records_around hb _ [_] (Op.onLine_cons ?_ (content_onLine el.content)) rfl
    exact fun n hn => (Option.some.inj hn).symm

theorem block_records {statement : BlockStatement} (hline : statement.line = line)
    (h : block o statement body = .ok ops) : Records line body ops := by
  rcases block_eq_ok h with ⟨-, rfl⟩ | ⟨-, b, hb, rfl⟩
  · exact .inl (Op.onLine_nil line)
  · have henter : Op.OnLine line [.enter statement] :=
      Op.onLine_cons (fun n hn => (Option.some.inj hn).symm.trans hline) (Op.onLine_nil line)
    exact records_around hb [.enter statement] [.exit] henter rfl

theorem comment_records {condition text : Option Text}
    (h : comment condition text childless body = .ok ops) : Records line body ops := by
  rcases comment_eq_ok h with ⟨written, rfl⟩ | ⟨b, hb, rfl⟩
  · exact .inl nofun
  · exact records_around hb [_] [_] nofun rfl

theorem filter_onLine {name : Text} {written : List Segment}
    (h : filter o r line name written = .ok ops) : Op.OnLine line ops := by
  rcases filter_eq_ok h with rfl | ⟨output, rfl⟩ | ⟨segments, rfl, -⟩
  · exact Op.onLine_nil line
  · exact nofun
  · exact Op.onLine_cons (fun n hn => (Option.some.inj hn).symm) (Op.onLine_nil line)

theorem item_records {i : Item} (h : item o r line childless body i = .ok ops) :
    Records line body ops := by
  cases i with
  | element el => exact element_records h
  | text written escape => exact .inl (Except.ok.inj h ▸ segments_onLine escape .line written)
  | script s =>
    rw [item] at h
    split at h
    · exact .inl (Except.ok.inj h ▸ script_onLine .line s)
    · exact block_records rfl h
  | silent code => exact block_records rfl h
  | comment condition text => exact comment_records h
  | filter name written => exact .inl (filter_onLine h)
  | doctype args =>
    exact .inl (Op.onLine_iff.mpr (forall_doctype (fun _ => nofun) h))

/-- An item fails on its own line, or where its children do. -/
theorem item_eq_error {i : Item} (h : item o r line childless body i = .error e) :
    e.line = line ∨ body = .error e := by
  have hblock {statement : BlockStatement} (h : block o statement body = .error e) :
      body = .error e := by
    unfold block at h
    split at h
    · cases h
    · exact Outcome.eq_error_of_map h
  cases i with
  | element el =>
    change element o line el childless body = _ at h
    unfold element at h
    dsimp only at h
    split at h
    · cases h
    · exact .inr (Outcome.eq_error_of_map h)
  | text written escape => cases h
  | script s =>
    rw [item] at h
    split at h
    · cases h
    · exact .inr (hblock h)
  | silent code => exact .inr (hblock h)
  | comment condition text =>
    change comment condition text childless body = _ at h
    unfold comment at h
    dsimp only at h
    split at h
    · cases h
    · split at h
      · cases h
      · exact .inr (Outcome.eq_error_of_map h)
  | filter name written =>
    change filter o r line name written = _ at h
    unfold filter at h
    split at h
    · exact .inl (by rw [← Except.error.inj h]; rfl)
    · dsimp only at h
      split at h
      · cases h
      · split at h
        · exact .inl (by rw [← Except.error.inj h]; rfl)
        · cases h
        · cases h
  | doctype args =>
    change doctype o line args = _ at h
    unfold doctype at h
    split at h
    · exact .inl (by rw [← Except.error.inj h]; rfl)
    · cases h
    · cases h

/-- The lines of nodes in the order of a walk. -/
def walkLines (walk : List (Nat × Node)) : List Nat := walk.map fun p => p.2.line

/-- Operations that are in step with a walk: they record lines of nodes in it and never go back. -/
structure InStep (ops : List Op) (walk : List (Nat × Node)) : Prop where
  subset : Op.lines ops ⊆ walkLines walk
  sorted : (Op.lines ops).Pairwise (· ≤ ·)

theorem Records.inStep (n : Node) (depth : Nat) {below : List (Nat × Node)}
    (h : Records n.line body ops) (hbelow : ∀ m ∈ walkLines below, n.line < m)
    (hbody : ∀ b, body = .ok b → InStep b below) : InStep ops ((depth, n) :: below) := by
  have hpairwise {own : List Nat} (hown : ∀ m ∈ own, m = n.line) : own.Pairwise (· ≤ ·) :=
    List.pairwise_of_forall_mem_list fun a ha b hb => by rw [hown a ha, hown b hb]
  have hfirst {own : List Nat} (hown : ∀ m ∈ own, m = n.line) :
      own ⊆ walkLines ((depth, n) :: below) := fun m hm => hown m hm ▸ List.mem_cons_self
  rcases h with hown | ⟨b, own, hb, hlines, hown⟩
  · exact ⟨hfirst hown, hpairwise hown⟩
  · obtain ⟨hsubset, hsorted⟩ := hbody b hb
    refine ⟨?_, ?_⟩
    · rw [hlines]
      refine List.append_subset.mpr ⟨hfirst hown, ?_⟩
      exact fun m hm => List.mem_cons_of_mem _ (hsubset hm)
    · rw [hlines, List.pairwise_append]
      refine ⟨hpairwise hown, hsorted, fun a ha m hm => ?_⟩
      rw [hown a ha]
      exact (hbelow m (hsubset hm)).le

theorem InStep.append {u v : List Op} {walk rest : List (Nat × Node)} (hu : InStep u walk)
    (hv : InStep v rest) (h : ∀ a ∈ walkLines walk, ∀ b ∈ walkLines rest, a < b) :
    InStep (u ++ v) (walk ++ rest) where
  subset := by
    rw [Op.lines_append, walkLines, List.map_append]
    exact List.append_subset.mpr ⟨fun m hm => List.mem_append_left _ (hu.subset hm),
      fun m hm => List.mem_append_right _ (hv.subset hm)⟩
  sorted := by
    rw [Op.lines_append, List.pairwise_append]
    exact ⟨hu.sorted, hv.sorted, fun a ha b hb => (h a (hu.subset ha) b (hv.subset hb)).le⟩

mutual

theorem node_inStep (n : Node) (depth : Nat)
    (hsorted : (walkLines (n.walk depth)).Pairwise (· < ·)) {ops : List Op}
    (h : node o r n = .ok ops) : InStep ops (n.walk depth) := by
  cases n with
  | mk line i children =>
    rw [Node.walk] at hsorted ⊢
    obtain ⟨hbelow, hchildren⟩ := List.pairwise_cons.mp hsorted
    rw [node] at h
    exact Records.inStep (.mk line i children) depth (item_records h) hbelow fun b hb =>
      nodes_inStep children (depth + 1) hchildren hb

theorem nodes_inStep (forest : List Node) (depth : Nat)
    (hsorted : (walkLines (Node.walkAll depth forest)).Pairwise (· < ·)) {ops : List Op}
    (h : nodes o r forest = .ok ops) : InStep ops (Node.walkAll depth forest) := by
  cases forest with
  | nil =>
    rw [nodes] at h
    exact Except.ok.inj h ▸ ⟨List.nil_subset _, .nil⟩
  | cons n rest =>
    rw [Node.walkAll] at hsorted ⊢
    rw [walkLines, List.map_append, List.pairwise_append] at hsorted
    obtain ⟨hn, hrest, hbetween⟩ := hsorted
    obtain ⟨first, more, hfirst, hmore, rfl⟩ := nodes_cons_eq_ok h
    exact (node_inStep n depth hn hfirst).append (nodes_inStep rest depth hrest hmore) hbetween

end

mutual

/-- Compiling fails on the line of a node. -/
theorem node_eq_error (n : Node) (depth : Nat) (h : node o r n = .error e) :
    e.line ∈ walkLines (n.walk depth) := by
  cases n with
  | mk line i children =>
    rw [Node.walk]
    rw [node] at h
    rcases item_eq_error h with hown | hbody
    · exact hown ▸ List.mem_cons_self
    · exact List.mem_cons_of_mem _ (nodes_eq_error children (depth + 1) hbody)

theorem nodes_eq_error (forest : List Node) (depth : Nat) (h : nodes o r forest = .error e) :
    e.line ∈ walkLines (Node.walkAll depth forest) := by
  cases forest with
  | nil =>
    rw [nodes] at h
    cases h
  | cons n rest =>
    rw [nodes] at h
    rw [Node.walkAll, walkLines, List.map_append]
    rcases Outcome.error_of_bind_eq_error h with hn | ⟨first, -, h⟩
    · exact List.mem_append_left _ (node_eq_error n depth hn)
    · rcases Outcome.error_of_bind_eq_error h with hrest | ⟨more, -, h⟩
      · exact List.mem_append_right _ (nodes_eq_error rest depth hrest)
      · cases h

end

variable {source : Text} {entries : List Entry}

theorem walkLines_forest (hentries : Entry.IsOutline entries) :
    walkLines (Node.walkAll 0 (Entry.forest entries)) = entries.map Entry.line := by
  conv_rhs => rw [← (Node.walkAll_forest hentries).1]
  rw [List.map_map]
  rfl

/-- The nodes of a document are on lines with content, each further down than the one before. -/
theorem walkLines_read (h : Outline.read source = .ok entries) :
    (∀ n ∈ walkLines (Node.walkAll 0 (Entry.forest entries)), Text.IsLine source n) ∧
      (walkLines (Node.walkAll 0 (Entry.forest entries))).Pairwise (· < ·) := by
  have hsublist := (Outline.readFrom_eq_ok_iff.mp h).sublist
  rw [walkLines_forest (Outline.isOutline_of_read h)]
  constructor
  · intro n hn
    obtain ⟨raw, hraw, rfl⟩ := List.mem_map.mp (hsublist.subset hn)
    obtain ⟨hmem, hfilled⟩ := List.mem_filter.mp hraw
    exact PhysicalLine.Reported.isLine ⟨raw, hmem, by simpa using hfilled, rfl⟩
  · have hnumbers : ((PhysicalLine.ofSource source).map PhysicalLine.number).Pairwise (· < ·) := by
      rw [PhysicalLine.ofSource, PhysicalLine.map_number_numbered]
      exact List.pairwise_lt_range' 1
    exact (hnumbers.sublist (List.filter_sublist.map _)).sublist hsublist

end Compile

theorem Program.compile_lines (source : Text) (o : Options) (r : Registry) :
    (∀ e, compile source o r = .error e → Text.IsLine source e.line) ∧
    ∀ p, compile source o r = .ok p →
      (∀ n ∈ Op.lines p.ops, Text.IsLine source n) ∧ (Op.lines p.ops).Pairwise (· ≤ ·) := by
  constructor
  · intro e h
    rw [compile, Document.read] at h
    cases hread : Outline.read source with
    | error e' =>
      rw [hread] at h
      rw [← Except.error.inj h]
      exact (Outline.reported_of_readFrom hread).isLine
    | ok entries =>
      rw [hread] at h
      have hnode := Compile.nodes_eq_error _ 0 (Outcome.eq_error_of_map h)
      exact (Compile.walkLines_read hread).1 _ hnode
  · intro p h
    obtain ⟨-, entries, hread, hops⟩ := compile_eq_ok h
    obtain ⟨hlines, hsorted⟩ := Compile.walkLines_read hread
    obtain ⟨hsubset, hpairwise⟩ := Compile.nodes_inStep _ 0 hsorted hops
    exact ⟨fun n hn => hlines n (hsubset hn), hpairwise⟩

/-- A header and a statement of several lines, and a fault in the lines of a filter. -/
theorem Program.compile_lines_several :
    let o : Options := { autoclose := ⟨[]⟩, preserve := ⟨[]⟩ }
    let source : Text := "%ul\x7b:a =>\n  b\x7d\n\n  %li= c\n  - d |\n    e |\n  = f\n    %i g\n"
    let faulty : Text := "%p\n  :plain\n    a\n\n    #\x7bb\n"
    (∃ p, compile source o .builtin = .ok p ∧ Op.lines p.ops = [1, 4, 4, 5, 7, 8] ∧
      (∀ n ∈ Op.lines p.ops, Text.IsLine source n) ∧ (Op.lines p.ops).Pairwise (· ≤ ·)) ∧
    compile faulty o .builtin = .error (.read (.lex ⟨.unterminatedInterpolation, 5⟩)) ∧
    Text.IsLine faulty 5 := by
  intro o source faulty
  have hfaulty : (compile faulty o .builtin).map (fun p => Op.lines p.ops) =
      .error (.read (.lex ⟨.unterminatedInterpolation, 5⟩)) := by decide +kernel
  refine ⟨Outcome.exists_viewed (by decide +kernel) fun p hp => ?_, ?_⟩
  · exact (compile_lines source o .builtin).2 p hp
  · have hcompile := Outcome.eq_error_of_map hfaulty
    exact ⟨hcompile, (compile_lines faulty o .builtin).1 _ hcompile⟩

end Haml
