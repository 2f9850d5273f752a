import Haml.Compile
import Haml.Proofs.Outline.Run
import Haml.Proofs.Segment.Solid

/-! What the operations of an item are, where there are any. A property of them that holds of every
item, given that it holds of the children, holds of the operations of a whole document. -/

namespace Haml

theorem Program.compile_eq_ok {source : Text} {o : Options} {r : Registry} {p : Program}
    (h : compile source o r = .ok p) : p.options = o ∧ ∃ entries,
      Outline.read source = .ok entries ∧
        Compile.nodes o r (Entry.forest entries) = .ok p.ops := by
  unfold compile Document.read at h
  cases hread : Outline.read source with
  | error e =>
    rw [hread] at h
    cases h
  | ok entries =>
    rw [hread] at h
    obtain ⟨ops, hops, rfl⟩ := Outcome.exists_of_map_eq_ok h
    exact ⟨rfl, entries, rfl, hops⟩

namespace Compile

variable {o : Options} {r : Registry} {line : Nat} {childless : Bool}
  {body : Except CompileError (List Op)} {ops : List Op}

theorem block_eq_ok {statement : BlockStatement} (h : block o statement body = .ok ops) :
    (o.suppressEval = true ∧ ops = []) ∨
      (o.suppressEval = false ∧ ∃ b, body = .ok b ∧ ops = .enter statement :: b ++ [.exit]) := by
  unfold block at h
  split at h
  · next hs => exact .inl ⟨hs, (Except.ok.inj h).symm⟩
  · next hs =>
    obtain ⟨b, hb, hops⟩ := Outcome.exists_of_map_eq_ok h
    exact .inr ⟨eq_false_of_ne_true hs, b, hb, hops.symm⟩

/-- The flags on both tags of an element. -/
def elementFlags (o : Options) (e : Element) (childless : Bool) : TagFlags :=
  ⟨e.nukeOuter, e.nukeInner || o.isPreserve e.tag, childless, o.isPreserve e.tag⟩

theorem element_eq_ok {e : Element} (h : element o line e childless body = .ok ops) :
    (closesItself o e childless = true ∧
      ops = [.act (.selfClose e.tag (Attributes.resolve e o.suppressEval) e.nukeOuter
        (e.nukeInner || o.isPreserve e.tag) line)]) ∨
    (closesItself o e childless = false ∧ ∃ b, body = .ok b ∧
      ops = .act (.openTag e.tag (Attributes.resolve e o.suppressEval)
        (elementFlags o e childless) line) :: (content o line e.content ++ b) ++
        [.act (.closeTag e.tag (elementFlags o e childless))]) := by
  unfold element at h
  dsimp only at h
  split at h
  · next hself => exact .inl ⟨hself, (Except.ok.inj h).symm⟩
  · next hself =>
    obtain ⟨b, hb, hops⟩ := Outcome.exists_of_map_eq_ok h
    exact .inr ⟨eq_false_of_ne_true hself, b, hb, hops.symm⟩

/-- A comment is one literal, or stands around the operations of its children. -/
theorem comment_eq_ok {condition text : Option Text}
    (h : comment condition text childless body = .ok ops) :
    (∃ written, ops = [.act (.literal written .line)]) ∨
      ∃ b, body = .ok b ∧ ops = .act (.literal (commentMarks condition).1 .opening) :: b ++
        [.act (.literal (commentMarks condition).2 .closing)] := by
  unfold comment at h
  dsimp only at h
  split at h
  · exact .inl ⟨_, (Except.ok.inj h).symm⟩
  · split at h
    · exact .inl ⟨_, (Except.ok.inj h).symm⟩
    · obtain ⟨b, hb, hops⟩ := Outcome.exists_of_map_eq_ok h
      exact .inr ⟨b, hb, hops.symm⟩

theorem doctype_eq_ok {args : Text} (h : doctype o line args = .ok ops) :
    ops = [] ∨ ∃ text, ops = [.act (.doctype text)] := by
  unfold doctype at h
  split at h
  · cases h
  · exact .inl (Except.ok.inj h).symm
  · exact .inr ⟨_, (Except.ok.inj h).symm⟩

/-- A filter gives nothing, its output, or, where its text has code in it, itself. -/
theorem filter_eq_ok {name : Text} {written : List Segment}
    (h : filter o r line name written = .ok ops) :
    ops = [] ∨ (∃ output, ops = [.act (.literal output .line)]) ∨
      ∃ segments, ops = [.act (.filter name segments line)] ∧
        Segment.literalText? segments = none ∧
        segments = if o.suppressEval then written.filter Segment.isLiteral else written := by
  unfold filter at h
  cases hget : r.get? name with
  | none =>
    rw [hget] at h
    cases h
  | some apply =>
    rw [hget] at h
    dsimp only at h
    split at h
    · next hnone => exact .inr (.inr ⟨_, (Except.ok.inj h).symm, hnone, rfl⟩)
    · split at h
      · cases h
      · exact .inl (Except.ok.inj h).symm
      · exact .inr (.inl ⟨_, (Except.ok.inj h).symm⟩)

/-- A filter whose text has no code is applied at once, whether or not code is evaluated. -/
theorem filter_of_literal {name text output : Text} {written : List Segment} {apply : Filter}
    (hget : r.get? name = some apply) (htext : Segment.literalText? written = some text)
    (happly : apply text o = .ok output) : filter o r line name written =
      .ok (if output.isEmpty then [] else [.act (.literal output .line)]) := by
  have hkept : written.filter Segment.isLiteral = written :=
    List.filter_eq_self.mpr (Segment.isLiteral_of_literalText? htext)
  have hwritten : (if o.suppressEval then written.filter Segment.isLiteral else written) =
      written := by rw [hkept, ite_self]
  rw [filter, hget]
  dsimp only
  rw [hwritten]
  split
  · next hnone => cases htext.symm.trans hnone
  · next found hfound =>
    obtain rfl := Option.some.inj (htext.symm.trans hfound)
    rw [happly]
    cases output <;> rfl

/-- Where code is evaluated, a filter is applied to its text or, if that has code in it, left to
rendering with all of it. -/
theorem filter_eq_ok_of_evaluated {name : Text} {written : List Segment}
    (heval : o.suppressEval = false) (h : filter o r line name written = .ok ops) :
    ∃ apply, r.get? name = some apply ∧
      ((Segment.literalText? written = none ∧ ops = [.act (.filter name written line)]) ∨
        ∃ text output, Segment.literalText? written = some text ∧ apply text o = .ok output ∧
          ops = if output.isEmpty then [] else [.act (.literal output .line)]) := by
  cases hget : r.get? name with
  | none =>
    rw [filter, hget] at h
    cases h
  | some apply =>
    rw [filter, hget] at h
    dsimp only at h
    rw [heval, if_neg Bool.false_ne_true] at h
    refine ⟨apply, rfl, ?_⟩
    cases htext : Segment.literalText? written with
    | none =>
      rw [htext] at h
      exact .inl ⟨rfl, (Except.ok.inj h).symm⟩
    | some text =>
      rw [htext] at h
      dsimp only at h
      cases happly : apply text o with
      | error message =>
        rw [happly] at h
        cases h
      | ok output =>
        rw [happly] at h
        refine .inr ⟨text, output, rfl, happly, ?_⟩
        cases output <;> exact (Except.ok.inj h).symm

section Each

variable {P : Op → Prop}

/-- What holds of every literal, and of expressions where they are evaluated. -/
theorem forall_segments {escape : Escape} (hliteral : ∀ text flow, P (.act (.literal text flow)))
    (hexpr : o.suppressEval = false → ∀ code flow,
      P (.act (.expr code (escape.resolve o.escapeHtml) false flow line)))
    (flow : Flow) (written : List Segment) :
    ∀ op ∈ segments o escape line flow written, P op := by
  fun_induction segments o escape line flow written with
  | case1 => exact List.forall_mem_nil _
  | case2 flow text rest ih => exact List.forall_mem_cons.mpr ⟨hliteral text flow, ih⟩
  | case3 flow code rest hs ih => exact ih
  | case4 flow code rest hs ih =>
    exact List.forall_mem_cons.mpr ⟨hexpr (eq_false_of_ne_true hs) code flow, ih⟩

variable (hbody : ∀ b, body = .ok b → ∀ op ∈ b, P op)

include hbody

theorem forall_block {statement : BlockStatement} (henter : P (.enter statement)) (hexit : P .exit)
    (h : block o statement body = .ok ops) : ∀ op ∈ ops, P op := by
  rcases block_eq_ok h with ⟨-, rfl⟩ | ⟨-, b, hb, rfl⟩
  · exact List.forall_mem_nil _
  · have hinside := List.forall_mem_cons.mpr ⟨henter, hbody b hb⟩
    exact List.forall_mem_append.mpr ⟨hinside, List.forall_mem_singleton.mpr hexit⟩

theorem forall_comment {condition text : Option Text}
    (hliteral : ∀ text flow, P (.act (.literal text flow)))
    (h : comment condition text childless body = .ok ops) : ∀ op ∈ ops, P op := by
  rcases comment_eq_ok h with ⟨written, rfl⟩ | ⟨b, hb, rfl⟩
  · exact List.forall_mem_singleton.mpr (hliteral _ _)
  · have hinside := List.forall_mem_cons.mpr
      ⟨hliteral (commentMarks condition).1 .opening, hbody b hb⟩
    exact List.forall_mem_append.mpr ⟨hinside, List.forall_mem_singleton.mpr (hliteral _ _)⟩

omit hbody in
theorem forall_doctype {args : Text} (hdoctype : ∀ text, P (.act (.doctype text)))
    (h : doctype o line args = .ok ops) : ∀ op ∈ ops, P op := by
  rcases doctype_eq_ok h with rfl | ⟨text, rfl⟩
  · exact List.forall_mem_nil _
  · exact List.forall_mem_singleton.mpr (hdoctype text)

end Each

theorem nodes_cons_eq_ok {n : Node} {rest : List Node}
    (h : nodes o r (n :: rest) = .ok ops) :
    ∃ first more, node o r n = .ok first ∧ nodes o r rest = .ok more ∧ ops = first ++ more := by
  rw [nodes] at h
  obtain ⟨first, hfirst, h⟩ := Outcome.exists_of_bind_eq_ok h
  obtain ⟨more, hmore, h⟩ := Outcome.exists_of_bind_eq_ok h
  exact ⟨first, more, hfirst, hmore, (Except.ok.inj h).symm⟩

/-- What joining operations keeps, and every item of a kind, given that it holds of its children. -/
structure Invariant (Q : Item → Prop) (o : Options) (r : Registry) (P : List Op → Prop) : Prop where
  nil : P []
  append : ∀ u v : List Op, P u → P v → P (u ++ v)
  item : ∀ (line : Nat) (childless : Bool) (body : Except CompileError (List Op)) (i : Item)
    (ops : List Op), Q i → (∀ b, body = .ok b → P b) →
      Compile.item o r line childless body i = .ok ops → P ops

section Forest

variable {Q : Item → Prop} {P : List Op → Prop} (hP : Invariant Q o r P)

include hP

mutual

theorem node_invariant (n : Node) (depth : Nat) (hQ : ∀ p ∈ n.walk depth, Q p.2.item)
    (ops : List Op) (h : node o r n = .ok ops) : P ops := by
  cases n with
  | mk line i children =>
    rw [Node.walk] at hQ
    obtain ⟨hi, hchildren⟩ := List.forall_mem_cons.mp hQ
    rw [node] at h
    exact hP.item line _ _ i ops hi (nodes_invariant children (depth + 1) hchildren) h

theorem nodes_invariant (forest : List Node) (depth : Nat)
    (hQ : ∀ p ∈ Node.walkAll depth forest, Q p.2.item) (ops : List Op)
    (h : nodes o r forest = .ok ops) : P ops := by
  cases forest with
  | nil =>
    rw [nodes] at h
    exact Except.ok.inj h ▸ hP.nil
  | cons n rest =>
    rw [Node.walkAll] at hQ
    obtain ⟨hn, hrest⟩ := List.forall_mem_append.mp hQ
    obtain ⟨first, more, hfirst, hmore, rfl⟩ := nodes_cons_eq_ok h
    exact hP.append first more (node_invariant n depth hn first hfirst)
      (nodes_invariant rest depth hrest more hmore)

end

/-- The operations of an outline, if all items in it are of the kind. -/
theorem forest_invariant {entries : List Entry} (hentries : Entry.IsOutline entries)
    (hQ : ∀ e ∈ entries, Q e.item) {ops : List Op}
    (h : nodes o r (Entry.forest entries) = .ok ops) : P ops := by
  refine nodes_invariant hP (Entry.forest entries) 0 (fun p hp => ?_) ops h
  exact hQ _ (Node.entry_mem_of_mem_walkAll hentries hp)

theorem program_invariant {source : Text} {entries : List Entry}
    (hread : Outline.read source = .ok entries) (hQ : ∀ e ∈ entries, Q e.item) {p : Program}
    (h : Program.compile source o r = .ok p) : P p.ops := by
  obtain ⟨-, entries', hread', hops⟩ := Program.compile_eq_ok h
  obtain rfl : entries = entries' := Except.ok.inj (hread.symm.trans hread')
  exact forest_invariant hP (Outline.isOutline_of_read hread) hQ hops

end Forest

/-- What holds whatever the items are. -/
theorem program_invariant_all {P : List Op → Prop} (hP : Invariant (fun _ => True) o r P)
    {source : Text} {p : Program} (h : Program.compile source o r = .ok p) : P p.ops := by
  obtain ⟨-, entries, hread, -⟩ := Program.compile_eq_ok h
  exact program_invariant hP hread (fun _ _ => trivial) h

end Compile

end Haml
