import Haml.Command.Run
import Haml.Proofs.Compile.Suppressed
import Haml.Proofs.Text.Solid

/-! What a check accepts can be rendered. A check compiles under the options as they are given, and
rendering compiles with evaluation suppressed: bodies of blocks are not visited then, and filters
that were left to rendering are applied to what is left of their text. Filters that cannot fail let
the one compile succeed where the other one does. -/

namespace Haml

def Filter.Total (f : Filter) : Prop := ∀ text o, ∃ output, f text o = .ok output

def Registry.Total (r : Registry) : Prop := ∀ name f, r.get? name = some f → f.Total

theorem Registry.total_builtin : builtin.Total := by
  intro name f hget
  rcases cases_builtin hget with rfl | rfl | rfl | rfl | rfl | rfl <;> exact fun _ _ => ⟨_, rfl⟩

namespace Compile

/-- Where the first result is there, so is the second one. -/
def Follows (given suppressed : Except CompileError (List Op)) : Prop :=
  ∀ ops, given = .ok ops → ∃ ops', suppressed = .ok ops'

variable {o : Options} {r : Registry} {line : Nat} {childless : Bool}
  {body body' : Except CompileError (List Op)}

theorem follows_ok (ops : List Op) (given : Except CompileError (List Op)) :
    Follows given (.ok ops) := fun _ _ => ⟨ops, rfl⟩

theorem follows_map (h : Follows body body') (f g : List Op → List Op) :
    Follows (body.map f) (body'.map g) := by
  intro ops hops
  obtain ⟨b, hb, -⟩ := Outcome.exists_of_map_eq_ok hops
  obtain ⟨b', rfl⟩ := h b hb
  exact ⟨g b', rfl⟩

theorem element_follows (e : Element) (h : Follows body body') :
    Follows (element o line e childless body)
      (element { o with suppressEval := true } line e childless body') := by
  have hself : closesItself { o with suppressEval := true } e childless =
      closesItself o e childless := rfl
  unfold element
  dsimp only
  rw [hself]
  split
  · exact follows_ok _ _
  · exact follows_map h _ _

theorem block_follows (statement : BlockStatement) (given : Except CompileError (List Op)) :
    Follows given (block { o with suppressEval := true } statement body') := follows_ok [] given

theorem comment_follows (condition text : Option Text) (h : Follows body body') :
    Follows (comment condition text childless body) (comment condition text childless body') := by
  unfold comment
  dsimp only
  cases text with
  | some text => exact follows_ok _ _
  | none =>
    dsimp only
    split
    · exact follows_ok _ _
    · exact follows_map h _ _

/-- A filter is applied at once to its text without code, and cannot fail there. -/
theorem filter_follows (hr : r.Total) (name : Text) (written : List Segment) :
    Follows (filter o r line name written)
      (filter { o with suppressEval := true } r line name written) := by
  intro ops hops
  unfold filter at hops ⊢
  cases hget : r.get? name with
  | none =>
    rw [hget] at hops
    cases hops
  | some apply =>
    -- With evaluation suppressed only the literal segments are left, and these are a text.
    have hliteral : Segment.literalText? (written.filter Segment.isLiteral) ≠ none :=
      Segment.literalText?_ne_none fun s hs => (List.mem_filter.mp hs).2
    obtain ⟨text, htext⟩ := Option.ne_none_iff_exists'.mp hliteral
    obtain ⟨output, happly⟩ := hr name apply hget text { o with suppressEval := true }
    dsimp only
    rw [if_pos rfl, htext]
    dsimp only
    rw [happly]
    cases output <;> exact ⟨_, rfl⟩

theorem doctype_follows (args : Text) : Follows (doctype o line args)
    (doctype { o with suppressEval := true } line args) := fun ops hops => ⟨ops, hops⟩

theorem item_follows (hr : r.Total) (i : Item) (h : Follows body body') :
    Follows (item o r line childless body i)
      (item { o with suppressEval := true } r line childless body' i) := by
  cases i with
  | element e => exact element_follows e h
  | text written escape => exact follows_ok _ _
  | script s =>
    rw [item, item]
    split
    · exact follows_ok _ _
    · exact block_follows _ _
  | silent code => exact block_follows _ _
  | comment condition text => exact comment_follows condition text h
  | filter name written => exact filter_follows hr name written
  | doctype args => exact doctype_follows args

mutual

theorem node_follows (hr : r.Total) (n : Node) :
    Follows (node o r n) (node { o with suppressEval := true } r n) := by
  cases n with
  | mk line i children =>
    rw [node, node]
    exact item_follows hr i (nodes_follows hr children)

theorem nodes_follows (hr : r.Total) (forest : List Node) :
    Follows (nodes o r forest) (nodes { o with suppressEval := true } r forest) := by
  cases forest with
  | nil =>
    rw [nodes, nodes]
    exact follows_ok _ _
  | cons n rest =>
    intro ops hops
    obtain ⟨first, more, hfirst, hmore, -⟩ := nodes_cons_eq_ok hops
    obtain ⟨first', hfirst'⟩ := node_follows hr n first hfirst
    obtain ⟨more', hmore'⟩ := nodes_follows hr rest more hmore
    refine ⟨first' ++ more', ?_⟩
    rw [nodes, hfirst', hmore']
    rfl

end

end Compile

theorem Program.compile_suppressed {source : Text} {o : Options} {r : Registry} (hr : r.Total)
    {p : Program} (h : compile source o r = .ok p) :
    ∃ q, compile source { o with suppressEval := true } r = .ok q := by
  obtain ⟨-, entries, hread, hops⟩ := compile_eq_ok h
  obtain ⟨ops, hsuppressed⟩ := Compile.nodes_follows hr _ _ hops
  refine ⟨⟨ops, { o with suppressEval := true }⟩, ?_⟩
  rw [compile, Document.read, hread]
  exact congrArg (Except.map _) hsuppressed

namespace Command

variable {env : Environment} {path : Text} {a : Arguments}

/-- A check that goes well has found options, a template and its program. -/
theorem exists_of_check (h : (run env (.template .check path a)).status = 0) :
    ∃ source o p, (options env a).1 = .ok o ∧ ((options env a).2.read path).1 = .ok source ∧
      Program.compile source o .builtin = .ok p ∧
      run env (.template .render path a) = render source o := by
  unfold run at h ⊢
  dsimp only at h ⊢
  rcases hoptions : options env a with ⟨message | o, left⟩
  · rw [hoptions] at h
    cases h
  · rw [hoptions] at h
    dsimp only at h ⊢
    cases hread : (left.read path).1 with
    | error message =>
      rw [hread] at h
      cases h
    | ok source =>
      rw [hread] at h
      dsimp only at h ⊢
      cases hcompile : Program.compile source o .builtin with
      | error e =>
        rw [check, hcompile] at h
        exact absurd h (Outcome.status_ofError e)
      | ok p => exact ⟨source, o, p, rfl, rfl, hcompile, rfl⟩

theorem render_of_check (h : (run env (.template .check path a)).status = 0) :
    ∃ source o p q html, (options env a).1 = .ok o ∧
      ((options env a).2.read path).1 = .ok source ∧
      Program.compile source o .builtin = .ok p ∧
      Program.compile source { o with suppressEval := true } .builtin = .ok q ∧
      q.render .builtin noEvaluator () = (.ok html, ()) ∧
      q.calls .builtin noEvaluator () = [] ∧
      run env (.template .render path a) = ⟨0, html, []⟩ := by
  obtain ⟨source, o, p, hoptions, hread, hcompile, hrun⟩ := exists_of_check h
  obtain ⟨q, hq⟩ := Program.compile_suppressed Registry.total_builtin hcompile
  obtain ⟨actions, hops, hstatic⟩ := (Compile.program_static rfl hq).exists_actions
  have hrender := Program.render_static hops hstatic .builtin noEvaluator ()
  have hcalls : q.calls .builtin noEvaluator () = [] := by
    rw [Program.calls, Program.render_static hops hstatic]
  refine ⟨source, o, p, q, _, hoptions, hread, hcompile, hq, hrender, hcalls, ?_⟩
  rw [hrun, render, hq]
  dsimp only
  rw [hrender]
  rfl

/-- A configuration, and a template with code in a block, in attributes and in a filter. -/
def sampleFiles : Environment where
  stdin := []
  file path :=
    if path = "options".toList then .readable "\x7b\"format\": \"html5\"\x7d"
    else if path = "page".toList then
      .readable ("%a\x7b:href => url\x7d= title\n- each\n  :javascript\n    go()\n" ++
        ":javascript\n  go(#\x7bstart\x7d)\n!!!\n")
    else .missing

theorem render_of_check_sample :
    let a : Arguments := { config := some "options", escapeHtml := true }
    (run sampleFiles (.template .check "page" a)).status = 0 ∧
    ∃ source o p q html, (options sampleFiles a).1 = .ok o ∧
      ((options sampleFiles a).2.read "page").1 = .ok source ∧
      Program.compile source o .builtin = .ok p ∧
      Program.compile source { o with suppressEval := true } .builtin = .ok q ∧
      q.render .builtin noEvaluator () = (.ok html, ()) ∧
      q.calls .builtin noEvaluator () = [] ∧
      run sampleFiles (.template .render "page" a) = ⟨0, html, []⟩ := by
  intro a
  have hcheck : (run sampleFiles (.template .check "page" a)).status = 0 := by decide +kernel
  exact ⟨hcheck, render_of_check hcheck⟩

end Command

end Haml
