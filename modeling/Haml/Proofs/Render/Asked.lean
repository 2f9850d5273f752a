import Haml.Evaluator.Table
import Haml.Proofs.Program.Steps
import Haml.Proofs.Render.Calls
import Haml.Proofs.Render.Raised
import Mathlib.Data.List.Basic
import Mathlib.Data.Set.List

/-! Which values rendering asks for. An action asks for the values of its codes in order, each one
once. It stops where it fails, and it fails where a value is refused. Without blocks the same is
true of a whole program, so that the codes it holds tell the calls beforehand. -/

namespace Haml

variable {σ : Type}

/-- The state of an evaluator that was asked for the values of codes, one after the other. -/
def Evaluator.stateAfter (ev : Evaluator σ) (codes : List Text) (s : σ) : σ :=
  codes.foldl (fun s code => (ev.evaluate code s).2) s

/-- Values are due for codes, and are asked for in order, from one state to another: for all codes
if there is a result. A failure may come in front of each code, and comes where a value is
refused. -/
inductive Evaluator.Asks {α : Type} (ev : Evaluator σ) :
    List Text → Except RenderError α → List Text → σ → σ → Prop
  | done (a : α) (s : σ) : Asks ev [] (.ok a) [] s s
  | failed (codes : List Text) (e : RenderError) (s : σ) : Asks ev codes (.error e) [] s s
  | refused {code : Text} {s t : σ} {failure : EvalError}
      (h : ev.evaluate code s = (.error failure, t)) (codes : List Text) (e : RenderError) :
      Asks ev (code :: codes) (.error e) [code] s t
  | answered {code : Text} {s t u : σ} {value : Value} {codes asked : List Text}
      {result : Except RenderError α} (h : ev.evaluate code s = (.ok value, t))
      (hrest : Asks ev codes result asked t u) : Asks ev (code :: codes) result (code :: asked) s u

namespace Evaluator.Asks

variable {α β : Type} {ev : Evaluator σ} {codes more asked further : List Text} {s t u : σ}
  {result : Except RenderError α} {a : α} {e : RenderError}

theorem isPrefix (h : ev.Asks codes result asked s t) : asked <+: codes := by
  induction h with
  | done a s => exact List.prefix_rfl
  | failed codes e s => exact List.nil_prefix
  | @refused code s t failure h codes e => exact List.prefix_append [code] codes
  | @answered code s t u value codes asked result h hrest ih =>
    exact (List.prefix_cons_inj code).mpr ih

theorem eq_of_ok (h : ev.Asks codes (.ok a) asked s t) : asked = codes := by
  generalize hresult : Except.ok a = result at h
  induction h with
  | done a s => rfl
  | failed codes e s => cases hresult
  | refused h codes e => cases hresult
  | @answered code s t u value codes asked result h hrest ih => rw [ih hresult]

theorem eq_stateAfter (h : ev.Asks codes result asked s t) : t = ev.stateAfter asked s := by
  induction h with
  | done a s => rfl
  | failed codes e s => rfl
  | refused h codes e => exact (congrArg Prod.snd h).symm
  | @answered code s t u value codes asked result h hrest ih =>
    rw [ih, stateAfter, stateAfter, List.foldl_cons, h]

/-- Nothing is asked for behind a value that is refused. -/
theorem eq_nil_of_refused (h : ev.Asks codes result asked s t) {before after : List Text}
    {code : Text} {failure : EvalError} (hasked : asked = before ++ code :: after)
    (hrefused : (ev.evaluate code (ev.stateAfter before s)).1 = .error failure) : after = [] := by
  induction h generalizing before with
  | done a s => simp at hasked
  | failed codes e s => simp at hasked
  | refused h codes e =>
    have hlength := congrArg List.length hasked
    simp only [List.length_append, List.length_cons, List.length_nil] at hlength
    exact List.eq_nil_of_length_eq_zero (by omega)
  | @answered first s t u value codes asked result h hrest ih =>
    cases before with
    | nil =>
      -- The first code was answered, so it is not the one that is refused.
      obtain ⟨rfl, -⟩ := List.cons.inj hasked
      have hanswer : (ev.evaluate first s).1 = .ok value := congrArg Prod.fst h
      cases hanswer.symm.trans hrefused
    | cons head before =>
      obtain ⟨rfl, htail⟩ := List.cons.inj hasked
      rw [stateAfter, List.foldl_cons, h] at hrefused
      exact ih htail hrefused

theorem map (h : ev.Asks codes result asked s t) (f : α → β) :
    ev.Asks codes (result.map f) asked s t := by
  induction h with
  | done a s => exact .done (f a) s
  | failed codes e s => exact .failed codes e s
  | refused h codes e => exact .refused h codes e
  | answered h hrest ih => exact .answered h ih

theorem trans {result : Except RenderError β} (h : ev.Asks codes (.ok a) asked s t)
    (hmore : ev.Asks more result further t u) :
    ev.Asks (codes ++ more) result (asked ++ further) s u := by
  generalize hresult : Except.ok a = first at h
  induction h with
  | done a s => exact hmore
  | failed codes e s => cases hresult
  | refused h codes e => cases hresult
  | answered h hrest ih => exact .answered h (ih hmore hresult)

/-- After a failure it makes no difference what else would have been due. -/
theorem stopped (h : ev.Asks codes (.error e : Except RenderError α) asked s t)
    (more : List Text) : ev.Asks (codes ++ more) (.error e : Except RenderError β) asked s t := by
  generalize hresult : Except.error e = first at h
  induction h with
  | done a s => cases hresult
  | failed codes e' s => exact .failed (codes ++ more) e s
  | refused h codes e' => exact .refused h (codes ++ more) e
  | answered h hrest ih => exact .answered h (ih hresult)

end Evaluator.Asks

/-- Work that asks for the values of the given codes. -/
def Asking.Follows {α : Type} (ev : Evaluator σ) (codes : List Text) (m : Asking σ α) : Prop :=
  ∀ s, ∃ asked, ev.Asks codes (m s).1 asked s (m s).2

namespace Asking.Follows

variable {α β : Type} {ev : Evaluator σ} {codes more : List Text} {m : Asking σ α}
  {f : α → Asking σ β}

theorem pure (a : α) : Follows ev [] (Pure.pure a : Asking σ α) := fun s => ⟨[], .done a s⟩

/-- Work can fail before it asks for anything. -/
theorem throw (codes : List Text) (e : RenderError) :
    Follows ev codes (throw e : Asking σ α) := fun s => ⟨[], .failed codes e s⟩

theorem bind (hm : m.Follows ev codes) (hf : ∀ a, (f a).Follows ev more) :
    (m >>= f).Follows ev (codes ++ more) := by
  intro s
  obtain ⟨asked, hasked⟩ := hm s
  rw [Outcome.bind_apply]
  rcases hms : m s with ⟨e | a, t⟩ <;> rw [hms] at hasked
  · exact ⟨asked, hasked.stopped more⟩
  · obtain ⟨further, hfurther⟩ := hf a t
    exact ⟨asked ++ further, hasked.trans hfurther⟩

/-- Work after which nothing is asked for. -/
theorem bind_last (hm : m.Follows ev codes) (hf : ∀ a, (f a).Follows ev []) :
    (m >>= f).Follows ev codes := by
  have h := hm.bind hf
  rwa [List.append_nil] at h

end Asking.Follows

namespace Renderer

variable (r : Renderer σ) (line : Nat)

theorem ask_follows (code : Text) : (r.ask line code).Follows r.evaluator [code] := by
  intro s
  refine ⟨[code], ?_⟩
  unfold ask
  rcases h : r.evaluator.evaluate code s with ⟨failure | value, t⟩
  · exact .refused h [] _
  · exact .answered h (.done value t)

theorem interpolate_follows (segments : List Segment) :
    (r.interpolate line segments).Follows r.evaluator (Segment.codes segments) := by
  induction segments with
  | nil => exact .pure _
  | cons segment rest ih =>
    cases segment with
    | literal text => exact ih.bind_last fun more => .pure _
    | expression code =>
      exact (r.ask_follows line code).bind fun value => ih.bind_last fun more => .pure _

theorem qualifier_follows (q : Option Qualifier) :
    (r.qualifier line q).Follows r.evaluator (Qualifier.codes q) := by
  rcases q with _ | text | code
  · exact .pure _
  · exact .pure _
  · exact (r.ask_follows line code).bind_last fun value => .pure _

theorem part_follows (b : Bag) (part : AttributePart) :
    (r.part line b part).Follows r.evaluator part.codes := by
  cases part with
  | object code q =>
    refine (r.qualifier_follows line q).bind fun q => ?_
    refine (r.ask_follows line code).bind_last fun value => ?_
    split
    · exact .pure _
    · exact .pure _
    · exact .throw [] _
  | literal name value => exact .pure _
  | interpolated name segments =>
    exact (r.interpolate_follows line segments).bind_last fun text => .pure _
  | expr name code => exact (r.ask_follows line code).bind_last fun value => .pure _
  | hash code =>
    refine (r.ask_follows line code).bind_last fun value => ?_
    split
    · exact .pure _
    · exact .pure _
    · exact .throw [] _

theorem parts_follows (b : Bag) (parts : List AttributePart) :
    (parts.foldlM (r.part line) b).Follows r.evaluator (parts.flatMap AttributePart.codes) := by
  induction parts generalizing b with
  | nil => exact .pure b
  | cons part parts ih =>
    rw [List.foldlM_cons, List.flatMap_cons]
    exact (r.part_follows line b part).bind ih

theorem attributes_follows (a : Attributes) :
    (r.attributes line a).Follows r.evaluator (a.parts.flatMap AttributePart.codes) :=
  (r.parts_follows line a.base a.parts).bind_last fun _ => .pure _

theorem filter_follows (name : Text) (segments : List Segment) :
    (r.filter line name segments).Follows r.evaluator (Segment.codes segments) := by
  unfold filter
  split
  · exact .throw _ _
  · refine (r.interpolate_follows line segments).bind_last fun text => ?_
    split
    · exact .pure _
    · exact .throw [] _

theorem supply_follows (a : Action) : (r.supply a).Follows r.evaluator a.codes := by
  cases a with
  | literal text flow => exact .pure _
  | expr code escape preserve flow line =>
    exact (r.ask_follows line code).bind_last fun value => .pure _
  | openTag name a flags line => exact r.attributes_follows line a
  | closeTag name flags => exact .pure _
  | selfClose name a nukeOuter nukeInner line => exact r.attributes_follows line a
  | filter name segments line => exact r.filter_follows line name segments
  | doctype text => exact .pure _

theorem exists_asks_actStep (a : Action) (scene : Scene σ) : ∃ asked,
    r.evaluator.Asks a.codes (r.actStep a scene).1 asked scene.state
      (r.actStep a scene).2.state := by
  obtain ⟨asked, h⟩ := r.supply_follows a scene.state
  refine ⟨asked, ?_⟩
  rw [actStep_apply]
  rcases hsupply : r.supply a scene.state with ⟨e | text, t⟩ <;> rw [hsupply] at h
  · exact h.map fun _ => ()
  · exact h.map fun _ => ()

theorem exists_asks_steps (actions : List Action) (scene : Scene σ) : ∃ asked,
    r.evaluator.Asks (actions.flatMap Action.codes) (r.steps (actions.map .act) scene).1 asked
      scene.state (r.steps (actions.map .act) scene).2.state := by
  induction actions generalizing scene with
  | nil => exact ⟨[], by rw [List.map_nil, steps_nil_apply]; exact .done () scene.state⟩
  | cons a actions ih =>
    obtain ⟨asked, h⟩ := r.exists_asks_actStep a scene
    rw [List.map_cons, steps_cons_apply, step, List.flatMap_cons]
    rcases hstep : r.actStep a scene with ⟨e | ⟨⟩, scene'⟩ <;> rw [hstep] at h
    · exact ⟨asked, h.stopped _⟩
    · obtain ⟨further, hrest⟩ := ih scene'
      exact ⟨asked ++ further, h.trans hrest⟩

end Renderer

/-- The codes that an operation asks for the values of, in order. -/
def Op.codes : Op → List Text
  | act a => a.codes
  | enter _ => []
  | exit => []

def Program.codes (p : Program) : List Text := p.ops.flatMap Op.codes

/-- A recorded evaluator has kept what it was asked for. -/
theorem Evaluator.stateAfter_recorded (ev : Evaluator σ) (codes : List Text) (s : σ)
    (calls : List Call) : ev.recorded.stateAfter codes (s, calls) =
      (ev.stateAfter codes s, calls ++ codes.map .evaluate) := by
  induction codes generalizing s calls with
  | nil => exact congrArg (Prod.mk s) (List.append_nil calls).symm
  | cons code codes ih =>
    have hfirst : ev.recorded.stateAfter (code :: codes) (s, calls) =
        ev.recorded.stateAfter codes ((ev.evaluate code s).2, calls ++ [.evaluate code]) := rfl
    rw [hfirst, ih, List.append_assoc]
    rfl

namespace Program

variable {p : Program}

/-- Rendering a program without blocks asks for the values of its codes. -/
theorem exists_asks (hp : ∀ op ∈ p.ops, ∃ a, op = .act a) (filters : Registry)
    (ev : Evaluator σ) (state : σ) : ∃ asked,
      ev.Asks p.codes (p.render filters ev state).1 asked state (p.render filters ev state).2 := by
  obtain ⟨actions, hops⟩ : ∃ actions : List Action, actions.map .act = p.ops := by
    have hmem : p.ops ∈ {ops | ∀ op ∈ ops, op ∈ Set.range Op.act} := fun op hop =>
      let ⟨a, ha⟩ := hp op hop
      ⟨a, ha.symm⟩
    rwa [← Set.range_list_map] at hmem
  have hsteps : Step.ofOps p.ops = .ok (actions.map .act) := by
    rw [← hops]
    exact Step.ofOps_actions actions
  have hcodes : p.codes = actions.flatMap Action.codes := by
    rw [codes, ← hops, List.flatMap_map]
    rfl
  obtain ⟨asked, h⟩ :=
    Renderer.exists_asks_steps ⟨ev, filters, p.options⟩ actions ⟨{}, none, state⟩
  refine ⟨asked, ?_⟩
  rw [render_apply hsteps, hcodes]
  rcases hrun : Renderer.steps ⟨ev, filters, p.options⟩ (actions.map .act) ⟨{}, none, state⟩ with
    ⟨e | ⟨⟩, scene⟩ <;> rw [hrun] at h
  · exact h.map fun _ => []
  · exact h.map fun _ => scene.layout.finish

/-- The calls of a program without blocks are its codes, each one once and in order. A failure ends
them, and nothing is called behind a call that was refused. -/
theorem calls_in_order (hp : ∀ op ∈ p.ops, ∃ a, op = .act a) (filters : Registry)
    (ev : Evaluator σ) (state : σ) : ∃ asked,
      p.calls filters ev state = asked.map .evaluate ∧ asked <+: p.codes ∧
      (p.render filters ev state).2 = ev.stateAfter asked state ∧
      (∀ html, (p.render filters ev state).1 = .ok html → asked = p.codes) ∧
      ∀ before code after e, asked = before ++ code :: after →
        (ev.evaluate code (ev.stateAfter before state)).1 = .error e → after = [] := by
  -- The calls are part of the state of the recorded evaluator, which is an evaluator like others.
  obtain ⟨asked, h⟩ := exists_asks hp filters ev.recorded (state, [])
  rw [render_recorded] at h
  have hstate := h.eq_stateAfter
  rw [Evaluator.stateAfter_recorded, List.nil_append] at hstate
  obtain ⟨hrender, hcalls⟩ := Prod.mk.inj hstate
  refine ⟨asked, hcalls, h.isPrefix, hrender, ?_, ?_⟩
  · intro html hhtml
    rw [hhtml] at h
    exact h.eq_of_ok
  · intro before code after e hasked hrefused
    have hrecorded : (ev.recorded.evaluate code (ev.recorded.stateAfter before (state, []))).1 =
        .error e := by
      rw [Evaluator.stateAfter_recorded]
      exact hrefused
    exact h.eq_nil_of_refused hasked hrecorded

/-- A tag and a filter with code in all their parts, and a value that is refused in between. -/
theorem calls_in_order_refused :
    let a : Attributes := { parts := [.object "user" (some (.code "kind")),
      .literal "k" (.bool true), .interpolated "t" [.expression "x", .literal " ", .expression "y"],
      .expr "n" "x", .hash "h"] }
    let p : Program := ⟨[.act (.openTag "p" a ⟨false, false, true, false⟩ 1),
      .act (.filter "plain" [.expression "y", .expression "z", .expression "x"] 2),
      .act (.expr "x" true false .line 3)], { autoclose := ⟨[]⟩, preserve := ⟨[]⟩ }⟩
    let t : Table := { vars := [("user", .value (.object ⟨"User", none, 0⟩)),
      ("kind", .value .nil), ("x", .value (.str "1")), ("y", .value (.bool true)),
      ("h", .value (.map []))] }
    p.codes = ["kind", "user", "x", "y", "x", "h", "y", "z", "x", "x"].map String.toList ∧
    (∀ op ∈ p.ops, ∃ a, op = .act a) ∧
    ∃ asked, p.calls .builtin t.evaluator {} = asked.map .evaluate ∧ asked <+: p.codes ∧
      asked = ["kind", "user", "x", "y", "x", "h", "y", "z"].map String.toList := by
  intro a p t
  have hp : ∀ op ∈ p.ops, ∃ a, op = .act a := by simp [p]
  have hcalls : p.calls .builtin t.evaluator {} =
      (["kind", "user", "x", "y", "x", "h", "y", "z"].map String.toList).map .evaluate := by
    decide +kernel
  obtain ⟨asked, hasked, hprefix, -⟩ := calls_in_order hp .builtin t.evaluator {}
  have hcodes := List.map_injective_iff.mpr (fun _ _ h => Call.evaluate.inj h)
    (hasked.symm.trans hcalls)
  exact ⟨by decide, hp, asked, hasked, hprefix, hcodes⟩

end Program

end Haml
