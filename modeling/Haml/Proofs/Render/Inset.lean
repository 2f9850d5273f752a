import Haml.Proofs.Compile.Unbroken
import Haml.Proofs.Render.Seam

/-! Rendering a static program inside of an element. The page is the same, but for two more spaces in
front of every line. -/

namespace Haml

/-- The attributes that an operation puts into a tag. -/
def Op.attributes? : Op → Option Attributes
  | act (.openTag _ a _ _) => some a
  | act (.selfClose _ a _ _ _) => some a
  | _ => none

/-- The flags of an element whose content stands on lines of its own. -/
def TagFlags.block : TagFlags := ⟨false, false, false, false⟩

/-- A static program as the content of an element. -/
def Program.inside (p : Program) (name : Text) (a : Attributes) (line : Nat) : Program :=
  { p with ops := .act (.openTag name a .block line) :: p.ops ++ [.act (.closeTag name .block)] }

variable {σ : Type}

namespace Layout

/-- Along nested static actions no closing end is reached where nothing is open. -/
theorem allFit_of_reached (r : Renderer σ) {actions : List Action}
    (hstatic : ∀ a ∈ actions, a.isStatic = true) (scene : Scene σ)
    (h : ∀ x ∈ r.reached (actions.map .act) scene, x.1.Fits x.2) :
    AllFit r.options scene.layout actions := by
  induction actions generalizing scene with
  | nil => trivial
  | cons a actions ih =>
    obtain ⟨ha, hactions⟩ := List.forall_mem_cons.mp hstatic
    rw [List.map_cons, Renderer.reached, Renderer.step, Renderer.actStep_apply,
      r.supply_static ha] at h
    obtain ⟨hfirst, hrest⟩ := List.forall_mem_append.mp h
    exact ⟨hfirst _ List.mem_cons_self, ih hactions _ hrest⟩

theorem allFit_of_nested {o : Options} {actions : List Action}
    (hstatic : ∀ a ∈ actions, a.isStatic = true) (hnested : Nested Op.shape (actions.map .act)) :
    AllFit o {} actions := by
  obtain ⟨steps, hsteps, hbalanced⟩ := Renderer.exists_balanced hnested
  obtain rfl : actions.map .act = steps :=
    Except.ok.inj ((Step.ofOps_actions actions).symm.trans hsteps)
  let r : Renderer Unit :=
    ⟨⟨fun _ s => (.ok .nil, s), fun _ s => .done (.ok none) s⟩, .builtin, o⟩
  exact allFit_of_reached r hstatic ⟨{}, none, ()⟩ ((hbalanced Unit r).fits _)

end Layout

/-- The name and the text of an action, put together from what the program and its attributes
hold. -/
theorem Action.unbroken_text {o : Options} {a : Action} (ha : a.Unbroken)
    (hquote : o.attrWrapper ≠ '\n')
    (hattributes : ∀ attributes ∈ (Op.act a).attributes?, attributes.Unbroken) :
    '\n' ∉ a.tag ∧ '\n' ∉ a.text o := by
  cases a with
  | literal text flow => exact ⟨List.not_mem_nil, ha⟩
  | expr code escape preserve flow line => exact ⟨List.not_mem_nil, List.not_mem_nil⟩
  | openTag name attributes flags line => exact ⟨ha, (hattributes _ rfl).render hquote⟩
  | closeTag name flags => exact ⟨ha, List.not_mem_nil⟩
  | selfClose name attributes nukeOuter nukeInner line =>
    exact ⟨ha, (hattributes _ rfl).render hquote⟩
  | filter name segments line => exact ⟨List.not_mem_nil, List.not_mem_nil⟩
  | doctype text => exact ⟨List.not_mem_nil, ha⟩

/-- An element around static content: its attributes are all that is asked for. -/
theorem Program.render_inside_apply {p : Program} {actions : List Action}
    (hops : p.ops = actions.map .act) (hstatic : ∀ a ∈ actions, a.isStatic = true) (name : Text)
    (a : Attributes) (line : Nat) (filters : Registry) (ev : Evaluator σ) (state : σ) :
    ((p.inside name a line).render filters ev state).1 =
      (Renderer.attributes ⟨ev, filters, p.options⟩ line a state).1.map fun attributes =>
        (((Layout.openTag {} name attributes .block).play p.options actions).closeTag name
          .block).finish := by
  have hinside : (p.inside name a line).ops =
      (Action.openTag name a .block line :: actions ++ [Action.closeTag name .block]).map .act := by
    rw [inside, hops, List.map_append, List.map_cons]
    rfl
  have hsteps := Step.ofOps_actions (.openTag name a .block line :: actions ++
    [Action.closeTag name .block])
  rw [← hinside] at hsteps
  have hrest : ∀ b ∈ actions ++ [Action.closeTag name .block], b.isStatic = true :=
    List.forall_mem_append.mpr ⟨hstatic, List.forall_mem_singleton.mpr rfl⟩
  rw [render_apply hsteps, List.cons_append, List.map_cons, Renderer.steps_cons_apply,
    Renderer.step, Renderer.actStep_apply, Renderer.supply]
  change _ = (Renderer.attributes ⟨ev, filters, (p.inside name a line).options⟩ line a state).1.map _
  rcases Renderer.attributes ⟨ev, filters, (p.inside name a line).options⟩ line a state with
    ⟨e | attributes, after⟩
  · rfl
  · dsimp only
    rw [Renderer.steps_static _ hrest, Layout.play_append]
    rfl

/-- Nesting is indentation. A static program without filters, no element of which at no depth takes
away the white space around it, gives a page of lines; as the content of an element the page is the
opening tag, the same lines with two spaces in front of each, and the closing tag. -/
theorem Program.render_inside {source : Text} {o : Options} {registry : Registry} {p : Program}
    {entries : List Entry} (heval : o.suppressEval = false) (hquote : o.attrWrapper ≠ '\n')
    (hp : compile source o registry = .ok p) (hread : Outline.read source = .ok entries)
    (hfilter : ∀ e ∈ entries, e.item.isFilter = false)
    (hkept : ∀ e ∈ entries, e.depth = 0 → e.item.nukesOuter = false)
    (hstatic : Op.AllStatic p.ops) (hne : p.ops ≠ [])
    (hattributes : ∀ op ∈ p.ops, ∀ a ∈ op.attributes?, a.Unbroken) (filters : Registry)
    (ev : Evaluator σ) (state : σ) :
    ∃ lines : List Text, (∀ line ∈ lines, '\n' ∉ line) ∧
      (p.render filters ev state).1 = .ok (lines.flatMap fun line => line ++ ['\n']) ∧
      ∀ (name : Text) (a : Attributes) (line : Nat),
        ((p.inside name a line).render filters ev state).1 =
          (Renderer.attributes ⟨ev, filters, o⟩ line a state).1.map fun attributes =>
            '<' :: name ++ attributes ++ ['>', '\n'] ++
              lines.flatMap (fun line => [' ', ' '] ++ line ++ ['\n']) ++
              ('<' :: '/' :: name ++ ['>', '\n']) := by
  obtain rfl := (compile_eq_ok hp).1
  obtain ⟨actions, hops, ha, hlines⟩ := Compile.exists_lines_of_read heval hp hread
    (fun e he h => absurd h (by rw [hfilter e he]; decide)) hstatic hne
  have hnested : Nested Op.shape (actions.map .act) := hops ▸ (Compile.program_nested hp).shape
  obtain ⟨hdepth, hregions⟩ := Layout.play_nested (o := p.options) ha hnested
  have hspaced := Compile.program_spaced hp hread hkept
  have hunbroken := Compile.program_invariant (Compile.invariant_unbroken hquote) hread
    (Outline.unbroken_of_read hread hfilter) hp
  rw [hops] at hspaced hunbroken hattributes
  have htexts : ∀ a ∈ actions, '\n' ∉ a.tag ∧ '\n' ∉ a.text p.options := fun a ha =>
    Action.unbroken_text (hunbroken a (List.mem_map_of_mem ha)) hquote
      (hattributes (.act a) (List.mem_map_of_mem ha))
  obtain ⟨lines, hfree, hpage, hinside⟩ := Layout.finish_play_inside hlines hdepth hregions
    (fun a ha => hspaced.first (.act a) (by rw [List.head?_map, Option.mem_def.mp ha]; rfl))
    (fun a ha => hspaced.last (.act a) (by rw [List.getLast?_map, Option.mem_def.mp ha]; rfl))
    htexts (Layout.allFit_of_nested ha hnested)
  refine ⟨lines, hfree, ?_, fun name a line => ?_⟩
  · rw [render_static hops ha, hpage]
  · rw [render_inside_apply hops ha]
    congr 1
    funext attributes
    exact hinside name attributes

section Example

instance (a : Attributes) : Decidable a.Unbroken :=
  inferInstanceAs (Decidable (∀ p ∈ a.base.pairs, '\n' ∉ p.1 ∧ '\n' ∉ p.2.text))

/-- White space that is taken away further in, and a preserved element. -/
theorem Program.render_inside_list :
    let o : Options := { autoclose := ⟨[]⟩, preserve := ⟨["pre"]⟩ }
    let source : Text := "!!! 5\n%ul\n  %li<\n    %b> a\n    c\n%pre.x\n  d\n  e"
    let ev : Evaluator Unit := ⟨fun _ s => (.ok .nil, s), fun _ s => .done (.ok none) s⟩
    ∃ p entries, compile source o .builtin = .ok p ∧ Outline.read source = .ok entries ∧
      (∀ e ∈ entries, e.item.isFilter = false) ∧
      (∀ e ∈ entries, e.depth = 0 → e.item.nukesOuter = false) ∧ Op.AllStatic p.ops ∧
      p.ops ≠ [] ∧ (∀ op ∈ p.ops, ∀ a ∈ op.attributes?, a.Unbroken) ∧
      ∃ lines : List Text, (∀ line ∈ lines, '\n' ∉ line) ∧
        (p.render .builtin ev ()).1 = .ok (lines.flatMap fun line => line ++ ['\n']) ∧
        ((p.inside "div" {} 1).render .builtin ev ()).1 = .ok ("<div>\n" ++
          lines.flatMap (fun line => [' ', ' '] ++ line ++ ['\n']) ++ "</div>\n") := by
  intro o source ev
  obtain ⟨p, hp, hview⟩ : ∃ p, compile source o .builtin = .ok p ∧
      (p.ops.all Op.isStatic, p.ops.isEmpty,
        decide (∀ op ∈ p.ops, ∀ a ∈ op.attributes?, a.Unbroken)) = (true, false, true) :=
    Outcome.exists_of_map_eq_ok (by decide +kernel)
  obtain ⟨entries, hread, hview'⟩ : ∃ entries, Outline.read source = .ok entries ∧
      (decide (∀ e ∈ entries, e.item.isFilter = false),
        decide (∀ e ∈ entries, e.depth = 0 → e.item.nukesOuter = false)) = (true, true) :=
    Outcome.exists_of_map_eq_ok (by decide +kernel)
  simp only [Prod.mk.injEq, decide_eq_true_eq] at hview hview'
  obtain ⟨hstatic, hempty, hattributes⟩ := hview
  obtain ⟨hfilter, hkept⟩ := hview'
  have hstatic := List.all_eq_true.mp hstatic
  have hne := List.isEmpty_eq_false_iff.mp hempty
  refine ⟨p, entries, hp, hread, hfilter, hkept, hstatic, hne, hattributes, ?_⟩
  obtain ⟨lines, hfree, hpage, hinside⟩ := render_inside rfl (by decide) hp hread hfilter hkept
    hstatic hne hattributes .builtin ev ()
  have hnone : (Renderer.attributes ⟨ev, .builtin, o⟩ 1 {} ()).1 = .ok [] := by decide +kernel
  refine ⟨lines, hfree, hpage, (hinside "div" {} 1).trans ?_⟩
  rw [hnone]
  rfl

/-- A line feed for a quote is not moved to the right with what it stands around. -/
theorem Program.render_inside_quote :
    let o : Options := { attrWrapper := '\n', autoclose := ⟨[]⟩, preserve := ⟨[]⟩ }
    let source : Text := "%p\x7b:a => 'b'\x7d"
    let ev : Evaluator Unit := ⟨fun _ s => (.ok .nil, s), fun _ s => .done (.ok none) s⟩
    ∃ p entries, compile source o .builtin = .ok p ∧ Outline.read source = .ok entries ∧
      (∀ e ∈ entries, e.item.isFilter = false) ∧
      (∀ e ∈ entries, e.depth = 0 → e.item.nukesOuter = false) ∧ Op.AllStatic p.ops ∧
      p.ops ≠ [] ∧ (∀ op ∈ p.ops, ∀ a ∈ op.attributes?, a.Unbroken) ∧
      (p.render .builtin ev ()).1 = .ok "<p a=\nb\n></p>\n" ∧
      ((p.inside "div" {} 1).render .builtin ev ()).1 =
        .ok "<div>\n  <p a=\nb\n></p>\n</div>\n" ∧
      ((p.inside "div" {} 1).render .builtin ev ()).1 ≠
        .ok "<div>\n  <p a=\n  b\n  ></p>\n</div>\n" := by
  intro o source ev
  obtain ⟨p, hp, hview⟩ : ∃ p, compile source o .builtin = .ok p ∧
      (p.ops.all Op.isStatic, p.ops.isEmpty,
        decide (∀ op ∈ p.ops, ∀ a ∈ op.attributes?, a.Unbroken)) = (true, false, true) :=
    Outcome.exists_of_map_eq_ok (by decide +kernel)
  obtain ⟨q, hq, hpages⟩ : ∃ q, compile source o .builtin = .ok q ∧
      [q, q.inside "div" {} 1].map (fun q => (q.render .builtin ev ()).1) =
        [.ok "<p a=\nb\n></p>\n", .ok "<div>\n  <p a=\nb\n></p>\n</div>\n"] :=
    Outcome.exists_of_map_eq_ok (by decide +kernel)
  obtain ⟨entries, hread, hview'⟩ : ∃ entries, Outline.read source = .ok entries ∧
      (decide (∀ e ∈ entries, e.item.isFilter = false),
        decide (∀ e ∈ entries, e.depth = 0 → e.item.nukesOuter = false)) = (true, true) :=
    Outcome.exists_of_map_eq_ok (by decide +kernel)
  obtain rfl : p = q := Except.ok.inj (hp.symm.trans hq)
  simp only [Prod.mk.injEq, decide_eq_true_eq] at hview hview'
  obtain ⟨hstatic, hempty, hattributes⟩ := hview
  obtain ⟨hpage, hinside⟩ := List.cons.inj hpages
  obtain ⟨hinside, -⟩ := List.cons.inj hinside
  refine ⟨p, entries, hp, hread, hview'.1, hview'.2, List.all_eq_true.mp hstatic,
    List.isEmpty_eq_false_iff.mp hempty, hattributes, hpage, hinside, ?_⟩
  exact fun h => absurd (hinside.symm.trans h) (by decide)

end Example

end Haml
