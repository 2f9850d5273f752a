import Haml.Proofs.Program.Place
import Haml.Proofs.Render.Calls

/-! Runs without a call. Work that went through without one comes to the same with an evaluator that
refuses every request, so there was no code in it. Running a block is a call, so that a program
rendered without a call is a list of actions without code. -/

namespace Haml

/-- Is there nothing to ask for in a part? -/
def AttributePart.isCodeless : AttributePart → Bool
  | literal _ _ => true
  | interpolated _ segments => segments.all Segment.isLiteral
  | _ => false

/-- Is there nothing to ask for in an action? Text that was scanned for code may have none. -/
def Action.isCodeless : Action → Bool
  | expr _ _ _ _ _ => false
  | openTag _ a _ _ => a.parts.all AttributePart.isCodeless
  | selfClose _ a _ _ _ => a.parts.all AttributePart.isCodeless
  | filter _ segments _ => segments.all Segment.isLiteral
  | _ => true

def Op.isCodeless : Op → Bool
  | act a => a.isCodeless
  | enter _ => false
  | exit => false

/-- The evaluator that refuses every request. -/
def Evaluator.refusing : Evaluator Unit where
  evaluate _ s := (.error .halted, s)
  runBlock _ s := .done (.error .halted) s

variable {σ : Type}

/-- Recorded work and the same work with every request refused. They have one result, unless there
was a call. -/
def Asking.Unasked (α : Type) (m : Asking (σ × List Call) α) (n : Asking Unit α) : Prop :=
  ∀ s calls, ∃ result t more, m (s, calls) = (result, t, calls ++ more) ∧
    (more = [] → n () = (result, ()))

theorem Asking.compatible_unasked :
    Asking.Compatible (fun α (m : Asking (σ × List Call) α) n => Asking.Unasked α m n) where
  pure a s calls := ⟨.ok a, s, [], by rw [List.append_nil]; rfl, fun _ => rfl⟩
  throw e he s calls := ⟨.error e, s, [], by rw [List.append_nil]; rfl, fun _ => rfl⟩
  bind := by
    intro α β m n f g hm hf s calls
    obtain ⟨result, t, more, hcalls, hsame⟩ := hm s calls
    rw [Outcome.bind_apply, Outcome.bind_apply, hcalls]
    cases result with
    | error e => exact ⟨.error e, t, more, rfl, fun hnone => by rw [hsame hnone]⟩
    | ok a =>
      obtain ⟨result, t, further, hfurther, hrest⟩ := hf a t (calls ++ more)
      refine ⟨result, t, more ++ further, by rw [← List.append_assoc]; exact hfurther, ?_⟩
      intro hnone
      obtain ⟨hmore, hnone⟩ := List.append_eq_nil_iff.mp hnone
      rw [hsame hmore]
      exact hrest hnone

namespace Renderer

variable (r : Renderer σ)

def refusing : Renderer Unit := ⟨.refusing, r.filters, r.options⟩

theorem ask_unasked (line : Nat) (code : Text) :
    Asking.Unasked Value (r.recorded.ask line code) (r.refusing.ask line code) := by
  intro s calls
  have hanswer : r.recorded.evaluator.evaluate code (s, calls) =
      ((r.evaluator.evaluate code s).1, (r.evaluator.evaluate code s).2,
        calls ++ [.evaluate code]) := rfl
  unfold ask
  rw [hanswer]
  -- There is a call whatever the answer is, and with a call nothing is claimed.
  rcases r.evaluator.evaluate code s with ⟨e | value, t⟩
  · exact ⟨_, t, [.evaluate code], rfl, nofun⟩
  · exact ⟨_, t, [.evaluate code], rfl, nofun⟩

theorem supply_unasked (a : Action) :
    Asking.Unasked Text (r.recorded.supply a) (r.refusing.supply a) :=
  supply_related Asking.compatible_unasked r.ask_unasked rfl rfl a

variable {r}

theorem isLiteral_of_interpolate {line : Nat} {segments : List Segment} {text : Text}
    (h : r.refusing.interpolate line segments () = (.ok text, ())) :
    segments.all Segment.isLiteral = true := by
  induction segments generalizing text with
  | nil => rfl
  | cons segment rest ih =>
    cases segment with
    | expression code => cases h
    | literal written =>
      obtain ⟨more, _, hrest, -⟩ := Outcome.exists_of_bind_apply h
      exact ih hrest

theorem isCodeless_of_part {line : Nat} {b c : Bag} {part : AttributePart}
    (h : r.refusing.part line b part () = (.ok c, ())) : part.isCodeless = true := by
  cases part with
  | literal name value => rfl
  | interpolated name segments =>
    obtain ⟨text, _, htext, -⟩ := Outcome.exists_of_bind_apply h
    exact isLiteral_of_interpolate htext
  | object code q => rcases q with _ | text | code <;> cases h
  | expr name code => cases h
  | hash code => cases h

theorem isCodeless_of_parts {line : Nat} {b c : Bag} {parts : List AttributePart}
    (h : parts.foldlM (r.refusing.part line) b () = (.ok c, ())) :
    parts.all AttributePart.isCodeless = true := by
  induction parts generalizing b with
  | nil => rfl
  | cons part parts ih =>
    rw [List.foldlM_cons] at h
    obtain ⟨d, _, hpart, hparts⟩ := Outcome.exists_of_bind_apply h
    rw [List.all_cons, isCodeless_of_part hpart]
    exact ih hparts

theorem isCodeless_of_attributes {line : Nat} {a : Attributes} {text : Text}
    (h : r.refusing.attributes line a () = (.ok text, ())) :
    a.parts.all AttributePart.isCodeless = true := by
  obtain ⟨b, _, hparts, -⟩ := Outcome.exists_of_bind_apply h
  exact isCodeless_of_parts hparts

/-- What is supplied while every request is refused has no code. -/
theorem isCodeless_of_supply {a : Action} {text : Text}
    (h : r.refusing.supply a () = (.ok text, ())) : a.isCodeless = true := by
  cases a with
  | expr code escape preserve flow line => cases h
  | openTag name a flags line => exact isCodeless_of_attributes h
  | selfClose name a nukeOuter nukeInner line => exact isCodeless_of_attributes h
  | filter name segments line =>
    rw [supply] at h
    unfold filter at h
    cases hget : r.refusing.filters.get? name with
    | none =>
      rw [hget] at h
      cases h
    | some apply =>
      rw [hget] at h
      obtain ⟨written, _, hwritten, -⟩ := Outcome.exists_of_bind_apply h
      exact isLiteral_of_interpolate hwritten
  | literal text flow => rfl
  | closeTag name flags => rfl
  | doctype text => rfl

/-- Steps that were run without a call are actions without code. -/
theorem isCodeless_of_steps {steps : List Step} {scene after : Scene σ} {calls : List Call}
    (h : r.recorded.steps steps (scene.beside calls) = (.ok (), after.beside calls)) :
    ∀ op ∈ Step.allToOps steps, op.isCodeless = true := by
  induction steps generalizing scene with
  | nil => exact List.forall_mem_nil _
  | cons first rest ih =>
    -- Calls of the first step stay, and those of the others come behind them.
    have hbehind {mid : Scene σ} {more : List Call}
        (hrest : r.recorded.steps rest (mid.beside (calls ++ more)) =
          (.ok (), after.beside calls)) : more = [] := by
      obtain ⟨further, hsteps⟩ := r.steps_recorded rest mid (calls ++ more)
      have hcalls := congrArg (fun outcome => outcome.2.state.2) (hsteps.symm.trans hrest)
      have hnone : calls ++ (more ++ further) = calls := by
        rw [← List.append_assoc]
        exact hcalls
      exact (List.append_eq_nil_iff.mp (List.append_right_eq_self.mp hnone)).1
    rw [steps_cons_apply] at h
    rw [Step.allToOps]
    cases first with
    | act a =>
      obtain ⟨result, t, more, hsupply, hsame⟩ := r.supply_unasked a scene.state calls
      have hstate : (scene.beside calls).state = (scene.state, calls) := rfl
      rw [step, actStep_apply, hstate, hsupply] at h
      cases result with
      | error e => cases h
      | ok text =>
        let mid : Scene σ :=
          { scene with layout := a.place r.options.format text scene.layout, state := t }
        have hrest : r.recorded.steps rest (mid.beside (calls ++ more)) =
            (.ok (), after.beside calls) := h
        obtain rfl := hbehind hrest
        rw [List.append_nil] at hrest
        exact List.forall_mem_cons.mpr ⟨isCodeless_of_supply (hsame rfl), ih hrest⟩
    | block statement body =>
      obtain ⟨more, hblock⟩ := r.exists_block_recorded statement (r.steps_recorded body) scene calls
      rw [step, hblock] at h
      rcases hrun : r.block statement (r.steps body) scene with ⟨e | ⟨⟩, mid⟩
      · rw [hrun] at h
        cases h
      · rw [hrun] at h
        cases hbehind h

end Renderer

/-- A program that was rendered without a call has no code in it. -/
theorem Program.isCodeless_of_render {p : Program} {filters : Registry} {ev : Evaluator σ}
    {state after : σ} {html : Text} (hrender : p.render filters ev state = (.ok html, after))
    (hcalls : p.calls filters ev state = []) : ∀ op ∈ p.ops, op.isCodeless = true := by
  cases hsteps : Step.ofOps p.ops with
  | error index =>
    rw [render, Renderer.render, hsteps] at hrender
    cases hrender
  | ok steps =>
    have hrecorded := p.render_recorded filters ev state
    rw [hrender, hcalls, render_apply hsteps] at hrecorded
    rcases hrun : Renderer.steps ⟨ev.recorded, filters, p.options⟩ steps ⟨{}, none, state, []⟩ with
      ⟨e | ⟨⟩, l, halted, final⟩
    · rw [hrun] at hrecorded
      cases hrecorded
    · rw [hrun] at hrecorded
      obtain ⟨-, hfinal⟩ := Prod.mk.inj hrecorded
      obtain rfl : final = (after, []) := hfinal
      have hquiet : (Renderer.recorded ⟨ev, filters, p.options⟩).steps steps
          (Scene.beside [] ⟨{}, none, state⟩) = (.ok (), Scene.beside [] ⟨l, halted, after⟩) := hrun
      rw [Step.ofOps_eq_ok_iff.mp hsteps]
      exact Renderer.isCodeless_of_steps hquiet

end Haml
