import Haml.Proofs.Attribute.Folding
import Haml.Proofs.Compile.Suppressed
import Haml.Proofs.Render.Quiet
import Haml.Proofs.Segment.Solid

/-! Templates without a call, with and without evaluation. An action without code is settled by a
static one that supplies the same text to the same place. Compiling with evaluation suppressed takes
other branches for texts, filters and attributes, but gives what settles the actions compiled with
evaluation, as long as these have no code. Filters are code of their own, which is handed all
options: one that looks at whether code is evaluated may write other text. -/

namespace Haml

/-- A filter that does not look at whether code is evaluated. -/
def Filter.Indifferent (f : Filter) : Prop :=
  ∀ text (o : Options) suppressed, f text { o with suppressEval := suppressed } = f text o

/-- The filter that an item names, if it names one, is indifferent. -/
def Item.Indifferent (r : Registry) : Item → Prop
  | filter name _ => ∀ f, r.get? name = some f → f.Indifferent
  | _ => True

theorem Item.indifferent_builtin (i : Item) : i.Indifferent .builtin := by
  cases i with
  | filter name written =>
    intro f hget
    rcases Registry.cases_builtin hget with rfl | rfl | rfl | rfl | rfl | rfl <;>
      exact fun _ _ _ => rfl
  | _ => trivial

namespace Renderer

variable {σ : Type} (r : Renderer σ) (line : Nat)

theorem interpolate_literal {segments : List Segment}
    (h : segments.all Segment.isLiteral = true) :
    r.interpolate line segments = pure (Segment.literalText segments) := by
  induction segments with
  | nil => rfl
  | cons segment rest ih =>
    rw [List.all_cons, Bool.and_eq_true] at h
    cases segment with
    | expression code => cases h.1
    | literal text =>
      rw [interpolate, ih h.2, pure_bind]
      rfl

/-- Sources without code write what they write where nothing is evaluated. -/
theorem parts_settled {sources : List AttributeSource}
    (h : (sources.filterMap (AttributePart.ofSource? false)).all AttributePart.isCodeless = true)
    (b : Bag) : (sources.filterMap (AttributePart.ofSource? false)).foldlM (r.part line) b =
      pure ((sources.filterMap (AttributePart.ofSource? true)).foldl AttributePart.fold b) := by
  induction sources generalizing b with
  | nil => rfl
  | cons source sources ih =>
    cases source with
    | fixed name value => exact ih h (b.set name value.value)
    | interpolated name segments =>
      obtain ⟨hsegments, hsources⟩ := (Bool.and_eq_true _ _).mp h
      have hpart : r.part line b (.interpolated name segments) =
          pure (b.set name (.str (Segment.literalText segments))) := by
        rw [part, r.interpolate_literal line hsegments, pure_bind]
      have hfirst : AttributePart.ofSource? false (.interpolated name segments) =
          some (.interpolated name segments) := rfl
      rw [List.filterMap_cons_some hfirst, List.foldlM_cons, hpart, pure_bind]
      exact ih hsources _
    | dynamic name code => cases h
    | hash code => cases h

/-- Attributes without code show the bag that they have where nothing is evaluated. -/
theorem attributes_settled {e : Element}
    (h : (Attributes.resolve e false).parts.all AttributePart.isCodeless = true) :
    r.attributes line (Attributes.resolve e false) =
      pure ((Attributes.resolve e true).base.render r.options) := by
  have hparts : (Attributes.contributions e false).all AttributePart.isCodeless = true := by
    rw [← List.takeWhile_append_dropWhile (p := AttributePart.isLiteral)
      (l := Attributes.contributions e false), List.all_append, Bool.and_eq_true]
    refine ⟨List.all_eq_true.mpr fun part hpart => ?_, h⟩
    cases part with
    | literal name value => rfl
    | _ => cases List.mem_takeWhile_imp hpart
  have hbase : (Attributes.resolve e true).base =
      (Attributes.contributions e true).foldl AttributePart.fold (Attributes.shorthand e) := by
    rw [Attributes.resolve,
      List.takeWhile_eq_self_iff.mpr (Attributes.isLiteral_contributions e)]
  -- With nothing folded beforehand both are folds of the same sources in one order.
  rw [attributes, Attributes.resolve, parts_folded, hbase]
  cases href : e.reference with
  | some ref =>
    rw [Attributes.contributions, href] at hparts
    cases hparts
  | none =>
    rw [Attributes.contributions, href] at hparts
    rw [Attributes.contributions, Attributes.contributions, href, List.nil_append, List.nil_append,
      r.parts_settled line hparts, pure_bind]

end Renderer

namespace Action

theorem settles_openTag {e : Element}
    (h : (Attributes.resolve e false).parts.all AttributePart.isCodeless = true) (name : Text)
    (flags : TagFlags) (line : Nat) :
    (openTag name (Attributes.resolve e false) flags line).Settles
      (openTag name (Attributes.resolve e true) flags line) where
  static := Attributes.isStatic_resolve e
  supply r := r.attributes_settled line h
  place _ _ _ := rfl

theorem settles_selfClose {e : Element}
    (h : (Attributes.resolve e false).parts.all AttributePart.isCodeless = true) (name : Text)
    (nukeOuter nukeInner : Bool) (line : Nat) :
    (selfClose name (Attributes.resolve e false) nukeOuter nukeInner line).Settles
      (selfClose name (Attributes.resolve e true) nukeOuter nukeInner line) where
  static := Attributes.isStatic_resolve e
  supply r := r.attributes_settled line h
  place _ _ _ := rfl

end Action

inductive Op.Settles : Op → Op → Prop
  | act {a b : Action} (h : a.Settles b) : Settles (.act a) (.act b)

namespace Op

variable {u v : List Op}

theorem AllStatic.settles (h : AllStatic u) : List.Forall₂ Settles u u := by
  refine List.forall₂_same.mpr fun op hop => ?_
  cases op with
  | act a => exact .act (.refl (h _ hop))
  | enter statement => cases h _ hop
  | exit => cases h _ hop

/-- Settled operations are settled actions. -/
theorem exists_actions_of_settles (h : List.Forall₂ Settles u v) :
    ∃ actions settled : List Action, u = actions.map .act ∧ v = settled.map .act ∧
      List.Forall₂ Action.Settles actions settled := by
  induction h with
  | nil => exact ⟨[], [], rfl, rfl, .nil⟩
  | cons hop _ ih =>
    obtain ⟨actions, settled, rfl, rfl, hactions⟩ := ih
    cases hop with
    | @act a b h => exact ⟨a :: actions, b :: settled, rfl, rfl, .cons h hactions⟩

end Op

namespace Compile

/-- A result without evaluation settles one with evaluation that has no code. -/
def Settled (result result' : Except CompileError (List Op)) : Prop :=
  ∀ ops, result = .ok ops → (∀ op ∈ ops, op.isCodeless = true) →
    ∃ ops', result' = .ok ops' ∧ List.Forall₂ Op.Settles ops ops'

theorem settled_of_static {result : Except CompileError (List Op)}
    (h : ∀ ops, result = .ok ops → Op.AllStatic ops) : Settled result result :=
  fun ops hops _ => ⟨ops, hops, (h ops hops).settles⟩

/-- What stands around the operations of children is settled apart from them. -/
theorem settled_around {body body' : Except CompileError (List Op)} {before before' after : List Op}
    (hbody : Settled body body')
    (hbefore : (∀ op ∈ before, op.isCodeless = true) → List.Forall₂ Op.Settles before before')
    (hafter : Op.AllStatic after) :
    Settled (body.map fun b => before ++ b ++ after)
      (body'.map fun b => before' ++ b ++ after) := by
  intro ops hops hcodeless
  obtain ⟨b, hb, rfl⟩ := Outcome.exists_of_map_eq_ok hops
  obtain ⟨hinside, -⟩ := List.forall_mem_append.mp hcodeless
  obtain ⟨hfirst, hmiddle⟩ := List.forall_mem_append.mp hinside
  obtain ⟨b', rfl, hsettles⟩ := hbody b hb hmiddle
  exact ⟨_, rfl, List.rel_append (List.rel_append (hbefore hfirst) hsettles) hafter.settles⟩

variable {o : Options} {r : Registry}

section Item

variable {line : Nat} {childless : Bool} {body body' : Except CompileError (List Op)}
  (ho : o.suppressEval = false)

include ho

theorem segments_settled {escape : Escape} (flow : Flow) (written : List Segment)
    (h : ∀ op ∈ segments o escape line flow written, op.isCodeless = true) :
    List.Forall₂ Op.Settles (segments o escape line flow written)
      (segments { o with suppressEval := true } escape line flow written) := by
  fun_induction segments o escape line flow written with
  | case1 => exact .nil
  | case2 flow text rest ih =>
    exact .cons (.act (.refl rfl)) (ih (List.forall_mem_cons.mp h).2)
  | case3 flow code rest hs ih => exact absurd ho (ne_false_of_eq_true hs)
  | case4 flow code rest hs ih => cases (List.forall_mem_cons.mp h).1

theorem content_settled (c : Content) (h : ∀ op ∈ content o line c, op.isCodeless = true) :
    List.Forall₂ Op.Settles (content o line c)
      (content { o with suppressEval := true } line c) := by
  cases c with
  | none => exact .nil
  | text written => exact segments_settled ho .inline written h
  | script s =>
    rw [content, script, ho] at h
    cases List.forall_mem_singleton.mp h

theorem element_settled (e : Element) (hbody : Settled body body') :
    Settled (element o line e childless body)
      (element { o with suppressEval := true } line e childless body') := by
  have hself : closesItself { o with suppressEval := true } e childless =
      closesItself o e childless := rfl
  unfold element
  dsimp only
  rw [hself, ho]
  split
  · intro ops hops hcodeless
    obtain rfl := Except.ok.inj hops
    have hattributes := List.forall_mem_singleton.mp hcodeless
    exact ⟨_, rfl, .cons (.act (Action.settles_selfClose hattributes _ _ _ _)) .nil⟩
  · refine settled_around hbody (fun hcodeless => ?_) (Op.allStatic_singleton rfl)
    obtain ⟨hattributes, hcontent⟩ := List.forall_mem_cons.mp hcodeless
    exact .cons (.act (Action.settles_openTag hattributes _ _ _)) (content_settled ho _ hcontent)

theorem block_settled (statement : BlockStatement) (result : Except CompileError (List Op)) :
    Settled (block o statement body) result := by
  intro ops hops hcodeless
  rcases block_eq_ok hops with ⟨hs, -⟩ | ⟨-, b, -, rfl⟩
  · exact absurd ho (ne_false_of_eq_true hs)
  · cases hcodeless _ List.mem_cons_self

omit ho in
theorem comment_settled (condition text : Option Text) (hbody : Settled body body') :
    Settled (comment condition text childless body) (comment condition text childless body') := by
  unfold comment
  dsimp only
  cases text with
  | some text =>
    refine settled_of_static fun ops hops => ?_
    exact Except.ok.inj hops ▸ Op.allStatic_singleton rfl
  | none =>
    dsimp only
    split
    · refine settled_of_static fun ops hops => ?_
      exact Except.ok.inj hops ▸ Op.allStatic_singleton rfl
    · exact @settled_around _ _ [_] [_] _ hbody
        (fun _ => (Op.allStatic_singleton rfl).settles) (Op.allStatic_singleton rfl)

/-- A filter over text without code is applied under either options. -/
theorem filter_settled {name : Text} (hname : ∀ f, r.get? name = some f → f.Indifferent)
    (written : List Segment) : Settled (filter o r line name written)
      (filter { o with suppressEval := true } r line name written) := by
  intro ops hops hcodeless
  obtain ⟨apply, hget, ⟨hnone, rfl⟩ | ⟨text, output, htext, happly, rfl⟩⟩ :=
    filter_eq_ok_of_evaluated ho hops
  · have hliteral : written.all Segment.isLiteral = true := hcodeless _ List.mem_cons_self
    exact absurd hnone (Segment.literalText?_ne_none (List.all_eq_true.mp hliteral))
  · have hsame : apply text { o with suppressEval := true } = .ok output :=
      (hname apply hget text o true).trans happly
    refine ⟨_, filter_of_literal hget htext hsame, Op.AllStatic.settles ?_⟩
    split
    · exact Op.allStatic_nil
    · exact Op.allStatic_singleton rfl

omit ho in
theorem doctype_settled (args : Text) :
    Settled (doctype o line args) (doctype { o with suppressEval := true } line args) := by
  have hsame : doctype { o with suppressEval := true } line args = doctype o line args := rfl
  rw [hsame]
  exact settled_of_static fun ops hops => forall_doctype (fun _ => rfl) hops

/-- The operations of an item without code are settled if those of its children are. -/
theorem item_settled {i : Item} (hi : i.Indifferent r) (hbody : Settled body body') :
    Settled (item o r line childless body i)
      (item { o with suppressEval := true } r line childless body' i) := by
  cases i with
  | element e => exact element_settled ho e hbody
  | text written escape =>
    intro ops hops hcodeless
    obtain rfl := Except.ok.inj hops
    exact ⟨_, rfl, segments_settled ho .line written hcodeless⟩
  | script s =>
    rw [item, item]
    split
    · intro ops hops hcodeless
      obtain rfl := Except.ok.inj hops
      rw [script, ho] at hcodeless
      cases List.forall_mem_singleton.mp hcodeless
    · exact block_settled ho _ _
  | silent code => exact block_settled ho _ _
  | comment condition text => exact comment_settled condition text hbody
  | filter name written => exact filter_settled ho hi written
  | doctype args => exact doctype_settled args

end Item

mutual

theorem node_settled (ho : o.suppressEval = false) (n : Node) (depth : Nat)
    (h : ∀ p ∈ n.walk depth, p.2.item.Indifferent r) :
    Settled (node o r n) (node { o with suppressEval := true } r n) := by
  cases n with
  | mk line i children =>
    rw [Node.walk] at h
    obtain ⟨hi, hchildren⟩ := List.forall_mem_cons.mp h
    rw [node, node]
    exact item_settled ho hi (nodes_settled ho children (depth + 1) hchildren)

theorem nodes_settled (ho : o.suppressEval = false) (forest : List Node) (depth : Nat)
    (h : ∀ p ∈ Node.walkAll depth forest, p.2.item.Indifferent r) :
    Settled (nodes o r forest) (nodes { o with suppressEval := true } r forest) := by
  cases forest with
  | nil =>
    rw [nodes, nodes]
    exact settled_of_static fun ops hops => Except.ok.inj hops ▸ Op.allStatic_nil
  | cons n rest =>
    rw [Node.walkAll] at h
    obtain ⟨hn, hrest⟩ := List.forall_mem_append.mp h
    intro ops hops hcodeless
    obtain ⟨first, more, hfirst, hmore, rfl⟩ := nodes_cons_eq_ok hops
    obtain ⟨hcode, hcode'⟩ := List.forall_mem_append.mp hcodeless
    obtain ⟨first', hfirst', hsettles⟩ := node_settled ho n depth hn first hfirst hcode
    obtain ⟨more', hmore', hsettles'⟩ := nodes_settled ho rest depth hrest more hmore hcode'
    refine ⟨first' ++ more', ?_, List.rel_append hsettles hsettles'⟩
    rw [nodes, hfirst', hmore']
    rfl

end

end Compile

/-- Suppressing evaluation is not seen where nothing is evaluated. A template that is rendered
without a call, and names no filter that looks at whether code is evaluated, gives the same page
when it is compiled with evaluation suppressed, whatever it is rendered with then. -/
theorem Program.render_unasked {source : Text} {entries : List Entry} (o : Options) {r : Registry}
    (hread : Outline.read source = .ok entries) (hentries : ∀ e ∈ entries, e.item.Indifferent r)
    {p : Program} (hp : compile source { o with suppressEval := false } r = .ok p) {σ : Type}
    {filters : Registry} {ev : Evaluator σ} {state after : σ} {html : Text}
    (hrender : p.render filters ev state = (.ok html, after))
    (hcalls : p.calls filters ev state = []) :
    ∃ q, compile source { o with suppressEval := true } r = .ok q ∧
      ∀ {τ : Type} (filters : Registry) (ev : Evaluator τ) (state : τ),
        q.render filters ev state = (.ok html, state) ∧ q.calls filters ev state = [] := by
  obtain ⟨hoptions, entries', hread', hops⟩ := compile_eq_ok hp
  obtain rfl : entries = entries' := Except.ok.inj (hread.symm.trans hread')
  have hforest : ∀ q ∈ Node.walkAll 0 (Entry.forest entries), q.2.item.Indifferent r :=
    fun q hq => hentries _ (Node.entry_mem_of_mem_walkAll (Outline.isOutline_of_read hread) hq)
  obtain ⟨ops, hsuppressed, hsettles⟩ :=
    Compile.nodes_settled rfl _ 0 hforest _ hops (isCodeless_of_render hrender hcalls)
  obtain ⟨actions, settled, hactions, rfl, hsettled⟩ := Op.exists_actions_of_settles hsettles
  -- The page that was rendered is the one that the static actions make.
  have hpage := render_settled hactions hsettled filters ev state
  rw [hrender, hoptions] at hpage
  obtain rfl := Except.ok.inj (Prod.mk.inj hpage).1
  have hq : compile source { o with suppressEval := true } r =
      .ok ⟨settled.map .act, { o with suppressEval := true }⟩ := by
    rw [compile, Document.read, hread]
    exact congrArg (Except.map _) hsuppressed
  have hstatic : ∀ b ∈ settled, b.isStatic = true := fun b hb =>
    Compile.program_static rfl hq (.act b) (List.mem_map_of_mem hb)
  refine ⟨_, hq, fun filters ev state => ⟨?_, ?_⟩⟩
  · exact render_static rfl hstatic filters ev state
  · rw [calls, render_static rfl hstatic]

/-- A template with opening pairs that are escaped in an attribute, a text and a filter. -/
theorem Program.render_unasked_escaped :
    let source : Text := "%a\x7b:title => 'x\\#\x7by\x7d'\x7d b\\#\x7bc\x7d\n" ++
      "/ d\n%br\n:escaped\n  <\\#\x7be\x7d>\n-# f\n"
    let html : Text := "<a title='x#\x7by\x7d'>b#\x7bc\x7d</a>\n<!-- d -->\n<br />\n" ++
      "&lt;#\x7be\x7d&gt;\n"
    let o : Options := { autoclose := ⟨["br"]⟩, preserve := ⟨["pre"]⟩ }
    ∃ p entries, Outline.read source = .ok entries ∧
      (∀ e ∈ entries, e.item.Indifferent .builtin) ∧
      compile source { o with suppressEval := false } .builtin = .ok p ∧
      (p.render .builtin .refusing (), p.calls .builtin .refusing ()) = ((.ok html, ()), []) ∧
      ∃ q, compile source { o with suppressEval := true } .builtin = .ok q ∧
        ∀ {τ : Type} (filters : Registry) (ev : Evaluator τ) (state : τ),
          q.render filters ev state = (.ok html, state) ∧ q.calls filters ev state = [] := by
  intro source html o
  obtain ⟨p, hp, hview⟩ : ∃ p,
      compile source { o with suppressEval := false } .builtin = .ok p ∧
        (p.render .builtin .refusing (), p.calls .builtin .refusing ()) = ((.ok html, ()), []) :=
    Outcome.exists_of_map_eq_ok (by decide +kernel)
  obtain ⟨-, entries, hread, -⟩ := compile_eq_ok hp
  have hentries : ∀ e ∈ entries, e.item.Indifferent .builtin :=
    fun e _ => e.item.indifferent_builtin
  obtain ⟨hrender, hcalls⟩ := Prod.mk.inj hview
  exact ⟨p, entries, hread, hentries, hp, hview,
    render_unasked o hread hentries hp hrender hcalls⟩

/-- A filter that leaves its text out where code is not evaluated makes another page of a template
without a call. -/
theorem Program.render_unasked_live :
    let live : Filter := fun text o => .ok (if o.suppressEval then [] else text)
    let r : Registry := Registry.builtin.register "live" live
    let source : Text := ":live\n  a"
    let o : Options := { autoclose := ⟨[]⟩, preserve := ⟨[]⟩ }
    ∃ p q, compile source { o with suppressEval := false } r = .ok p ∧
      p.render r .refusing () = (.ok "a\n", ()) ∧ p.calls r .refusing () = [] ∧
      compile source { o with suppressEval := true } r = .ok q ∧
      q.render r .refusing () = (.ok [], ()) ∧
      q.render r .refusing () ≠ p.render r .refusing () := by
  intro live r source o
  obtain ⟨p, hp, hview⟩ : ∃ p, compile source { o with suppressEval := false } r = .ok p ∧
      (p.render r .refusing (), p.calls r .refusing ()) = ((.ok "a\n", ()), []) :=
    Outcome.exists_of_map_eq_ok (by decide +kernel)
  obtain ⟨q, hq, hpage'⟩ : ∃ q, compile source { o with suppressEval := true } r = .ok q ∧
      q.render r .refusing () = (.ok [], ()) :=
    Outcome.exists_of_map_eq_ok (by decide +kernel)
  obtain ⟨hpage, hcalls⟩ := Prod.mk.inj hview
  refine ⟨p, q, hp, hpage, hcalls, hq, hpage', ?_⟩
  rw [hpage, hpage']
  decide

end Haml
