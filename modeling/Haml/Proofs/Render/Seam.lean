import Haml.Proofs.Compile.Lines
import Haml.Proofs.Render.Balance

/-! Rendering static programs one behind the other. Each leaves the page at no depth and outside of
all regions, on a line that is not ended yet. -/

namespace Haml

/-- Nested static actions leave the depth and the regions of an empty page. -/
theorem Layout.play_nested {o : Options} {actions : List Action}
    (hstatic : ∀ a ∈ actions, a.isStatic = true) (hnested : Nested Op.shape (actions.map .act)) :
    (play o {} actions).depth = 0 ∧ (play o {} actions).regions = [] := by
  obtain ⟨steps, hsteps, hbalanced⟩ := Renderer.exists_balanced hnested
  obtain rfl : actions.map .act = steps :=
    Except.ok.inj ((Step.ofOps_actions actions).symm.trans hsteps)
  -- Any evaluator will do, since none is asked.
  let r : Renderer Unit :=
    ⟨⟨fun _ s => (.ok .nil, s), fun _ s => .done (.ok none) s⟩, .builtin, o⟩
  have h := (hbalanced Unit r).extended ⟨{}, none, ()⟩ _ (r.steps_static hstatic _)
  exact ⟨h.depth, List.eq_nil_of_length_eq_zero h.regions⟩

/-- Static programs one behind the other. What is rendered is the first page without the line feed
at its end, then a line break, and then the second page; the line break is missing if the first
program ends in a tag that takes away the white space around it, or the second one begins with
one. -/
theorem Program.render_append_static {source source' : Text} {o : Options}
    (heval : o.suppressEval = false) {p q : Program} (hp : compile source o .builtin = .ok p)
    (hq : compile source' o .builtin = .ok q) (hstatic : Op.AllStatic p.ops)
    (hstatic' : Op.AllStatic q.ops) (hne : p.ops ≠ []) (hne' : q.ops ≠ []) {σ : Type}
    (filters : Registry) (ev : Evaluator σ) (state : σ) :
    ∃ page page', (p.render filters ev state).1 = .ok (page ++ ['\n']) ∧
      (q.render filters ev state).1 = .ok page' ∧
      (render ⟨p.ops ++ q.ops, o⟩ filters ev state).1 =
        .ok (page ++ Op.seam p.ops q.ops ++ page') := by
  obtain ⟨actions, hactions, ha, hlines⟩ := Compile.exists_lines heval hp hstatic hne
  obtain ⟨actions', hactions', ha', hlines'⟩ := Compile.exists_lines heval hq hstatic' hne'
  have hnested := (Compile.program_nested hp).shape
  have hnested' := (Compile.program_nested hq).shape
  rw [hactions] at hnested
  rw [hactions'] at hnested'
  obtain ⟨hdepth, hregions⟩ := Layout.play_nested (o := o) ha hnested
  obtain ⟨-, hregions'⟩ := Layout.play_nested (o := o) ha' hnested'
  obtain ⟨page, hfinish, hboth⟩ :=
    Layout.finish_play_append hlines hlines' hdepth hregions hregions'
  refine ⟨page, (Layout.play o {} actions').finish, ?_, ?_, ?_⟩
  · rw [render_static hactions ha, (compile_eq_ok hp).1, hfinish]
  · rw [render_static hactions' ha', (compile_eq_ok hq).1]
  · have hops : p.ops ++ q.ops = (actions ++ actions').map .act := by
      rw [hactions, hactions', List.map_append]
    rw [render_static (p := ⟨p.ops ++ q.ops, o⟩) hops (List.forall_mem_append.mpr ⟨ha, ha'⟩), hboth,
      hactions, hactions']

section Example

/-- A tag at the end that takes away the white space around it. -/
theorem Program.render_append_static_inline :
    let o : Options := { autoclose := ⟨[]⟩, preserve := ⟨[]⟩ }
    let ev : Evaluator Unit := ⟨fun _ s => (.ok .nil, s), fun _ s => .done (.ok none) s⟩
    ∃ p q, compile "!!! 5\n%ul\n  %li a\n%b> c" o .builtin = .ok p ∧
      compile "/ d\n%i e" o .builtin = .ok q ∧
      (p.render .builtin ev ()).1 = .ok "<!DOCTYPE html>\n<ul>\n  <li>a</li>\n</ul><b>c</b>\n" ∧
      (q.render .builtin ev ()).1 = .ok "<!-- d -->\n<i>e</i>\n" ∧
      (render ⟨p.ops ++ q.ops, o⟩ .builtin ev ()).1 =
        .ok "<!DOCTYPE html>\n<ul>\n  <li>a</li>\n</ul><b>c</b><!-- d -->\n<i>e</i>\n" := by
  intro o ev
  let view (p : Program) := (p.ops.all Op.isStatic, p.ops.isEmpty,
    p.ops.getLast?.any Op.nukesAfter, (p.render .builtin ev ()).1)
  obtain ⟨p, hp, hview⟩ : ∃ p, compile "!!! 5\n%ul\n  %li a\n%b> c" o .builtin = .ok p ∧
      view p = (true, false, true,
        .ok ("<!DOCTYPE html>\n<ul>\n  <li>a</li>\n</ul><b>c</b>" ++ ['\n'])) :=
    Outcome.exists_of_map_eq_ok (by decide +kernel)
  obtain ⟨q, hq, hview'⟩ : ∃ q, compile "/ d\n%i e" o .builtin = .ok q ∧
      view q = (true, false, false, .ok "<!-- d -->\n<i>e</i>\n") :=
    Outcome.exists_of_map_eq_ok (by decide +kernel)
  simp only [view, Prod.mk.injEq] at hview hview'
  obtain ⟨hstatic, hne, hnukes, hpage⟩ := hview
  obtain ⟨hstatic', hne', -, hpage'⟩ := hview'
  obtain ⟨page, page', hrender, hrender', hboth⟩ := render_append_static rfl hp hq
    (List.all_eq_true.mp hstatic) (List.all_eq_true.mp hstatic') (List.isEmpty_eq_false_iff.mp hne)
    (List.isEmpty_eq_false_iff.mp hne') .builtin ev ()
  obtain rfl := List.append_cancel_right (Except.ok.inj (hpage.symm.trans hrender))
  obtain rfl := Except.ok.inj (hpage'.symm.trans hrender')
  rw [Op.seam, hnukes, Bool.true_or, if_pos rfl] at hboth
  exact ⟨p, q, hp, hq, hpage, hpage', hboth.trans (congrArg Except.ok (by decide +kernel))⟩

end Example

end Haml
