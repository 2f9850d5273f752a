import Haml.Proofs.Compile.Forest
import Haml.Proofs.Render.Static
import Mathlib.Data.List.TakeWhile

/-! Templates that evaluate nothing. Where evaluation is suppressed every item compiles to static
operations, so that rendering cannot fail and cannot reach the evaluator. -/

namespace Haml

theorem Segment.literalText?_ne_none {segments : List Segment}
    (h : ∀ s ∈ segments, s.isLiteral = true) : literalText? segments ≠ none := by
  induction segments with
  | nil => nofun
  | cons s segments ih =>
    obtain ⟨hs, hsegments⟩ := List.forall_mem_cons.mp h
    cases s with
    | literal text =>
      rw [literalText?, ne_eq, Option.map_eq_none_iff]
      exact ih hsegments
    | expression code => cases hs

/-- Without evaluation all that an element contributes is literal. -/
theorem Attributes.isLiteral_contributions (e : Element) :
    ∀ part ∈ contributions e true, part.isLiteral = true := by
  intro part hpart
  rw [contributions, List.mem_append] at hpart
  rcases hpart with hpart | hpart
  · cases href : e.reference with
    | none =>
      rw [href] at hpart
      cases hpart
    | some reference =>
      rw [href] at hpart
      cases hpart
  · obtain ⟨source, -, hsource⟩ := List.mem_filterMap.mp hpart
    cases source with
    | fixed name value => exact Option.some.inj hsource ▸ rfl
    | interpolated name segments => exact Option.some.inj hsource ▸ rfl
    | dynamic name code => cases hsource
    | hash code => cases hsource

theorem Attributes.isStatic_resolve (e : Element) : (resolve e true).isStatic = true :=
  List.isEmpty_iff.mpr (List.dropWhile_eq_nil_iff.mpr (isLiteral_contributions e))

namespace Compile

variable {o : Options} {line : Nat} (ho : o.suppressEval = true)

include ho

theorem segments_static (escape : Escape) (flow : Flow) (written : List Segment) :
    Op.AllStatic (segments o escape line flow written) :=
  forall_segments (fun _ _ => rfl) (fun hs => absurd ho (ne_true_of_eq_false hs)) flow written

theorem script_static (flow : Flow) (s : Script) : (script o line flow s).isStatic = true := by
  rw [script, if_pos ho]
  rfl

theorem content_static (c : Content) : Op.AllStatic (content o line c) := by
  cases c with
  | none => exact Op.allStatic_nil
  | text written => exact segments_static ho _ _ written
  | script s => exact Op.allStatic_singleton (script_static ho .inline s)

variable {body : Except CompileError (List Op)} {ops : List Op}

theorem element_static {e : Element} {childless : Bool}
    (hbody : ∀ b, body = .ok b → Op.AllStatic b)
    (h : element o line e childless body = .ok ops) : Op.AllStatic ops := by
  have hattributes : (Attributes.resolve e o.suppressEval).isStatic = true := by
    rw [ho]
    exact Attributes.isStatic_resolve e
  rcases element_eq_ok h with ⟨-, rfl⟩ | ⟨-, b, hb, rfl⟩
  · exact Op.allStatic_singleton hattributes
  · have hcontent : Op.AllStatic (content o line e.content) := content_static ho e.content
    refine .append (.cons ?_ (hcontent.append (hbody b hb))) (Op.allStatic_singleton rfl)
    exact hattributes

/-- A filter whose code was dropped is literal, and so is applied at once. -/
theorem filter_static {r : Registry} {name : Text} {written : List Segment}
    (h : filter o r line name written = .ok ops) : Op.AllStatic ops := by
  rcases filter_eq_ok h with rfl | ⟨output, rfl⟩ | ⟨segments, rfl, hnone, hsegments⟩
  · exact Op.allStatic_nil
  · exact Op.allStatic_singleton rfl
  · rw [hsegments, if_pos ho] at hnone
    exact absurd hnone (Segment.literalText?_ne_none fun s hs => (List.mem_filter.mp hs).2)

theorem block_static {statement : BlockStatement} (h : block o statement body = .ok ops) :
    Op.AllStatic ops := by
  rcases block_eq_ok h with ⟨-, rfl⟩ | ⟨hs, -⟩
  · exact Op.allStatic_nil
  · rw [ho] at hs
    cases hs

/-- The operations of an item are static if those of its children are. -/
theorem item_static {r : Registry} {childless : Bool} (i : Item)
    (hbody : ∀ b, body = .ok b → Op.AllStatic b)
    (h : item o r line childless body i = .ok ops) : Op.AllStatic ops := by
  cases i with
  | element e => exact element_static ho hbody h
  | text written escape => exact Except.ok.inj h ▸ segments_static ho escape .line written
  | script s =>
    rw [item] at h
    split at h
    · exact Except.ok.inj h ▸ Op.allStatic_singleton (script_static ho .line s)
    · exact block_static ho h
  | silent code => exact block_static ho h
  | comment condition text => exact forall_comment hbody (fun _ _ => rfl) h
  | filter name written => exact filter_static ho h
  | doctype args => exact forall_doctype (fun _ => rfl) h

theorem invariant_static {r : Registry} : Invariant (fun _ => True) o r Op.AllStatic where
  nil := Op.allStatic_nil
  append _ _ hu hv := hu.append hv
  item _ _ _ i _ _ hbody hi := item_static ho i hbody hi

theorem program_static {r : Registry} {source : Text} {p : Program}
    (h : Program.compile source o r = .ok p) : Op.AllStatic p.ops :=
  program_invariant_all (invariant_static ho) h

end Compile

/-- A template compiled with evaluation suppressed renders without fail and without a call, to a
page that depends neither on the evaluator nor on the filters at hand. -/
theorem Program.render_suppressed {source : Text} {o : Options} {registry : Registry} {p : Program}
    (ho : o.suppressEval = true) (h : compile source o registry = .ok p) :
    ∃ html, ∀ {σ : Type} (filters : Registry) (ev : Evaluator σ) (state : σ),
      p.render filters ev state = (.ok html, state) ∧ p.calls filters ev state = [] := by
  obtain ⟨actions, hops, hstatic⟩ := (Compile.program_static ho h).exists_actions
  refine ⟨(Layout.play p.options {} actions).finish, fun filters ev state => ?_⟩
  refine ⟨render_static hops hstatic filters ev state, ?_⟩
  rw [calls, render_static hops hstatic]

/-- One template with code in every place that can hold some. -/
theorem Program.render_suppressed_shapes : ∃ p,
    compile ("%a\x7b:href => url, :title => 'x#\x7by\x7dz'\x7d[post, pre] b#\x7bc\x7dd\n" ++
        "= e\n- f\n  g\n:plain\n  h#\x7bi\x7dj\n%p\x7bk\x7d= l\n")
      { suppressEval := true, autoclose := ⟨["br"]⟩, preserve := ⟨["pre"]⟩ } .builtin = .ok p ∧
    (p.render .empty ⟨fun _ s => (.error .halted, s), fun _ s => .done (.error .halted) s⟩ ()).1 =
      .ok "<a title='xz'>bd</a>\nhj\n<p></p>\n" ∧
    ∃ html, ∀ {σ : Type} (filters : Registry) (ev : Evaluator σ) (state : σ),
      p.render filters ev state = (.ok html, state) ∧ p.calls filters ev state = [] := by
  refine Outcome.exists_viewed ?_ fun p hp => ?_
  · decide +kernel
  · exact render_suppressed rfl hp

end Haml
