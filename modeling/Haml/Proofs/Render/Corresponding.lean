import Haml.Proofs.Render.Block

/-! Renderers whose evaluators correspond. Evaluators correspond if from corresponding states they
give the same answers and ask for bodies at the same time, and leave corresponding states. Rendering
with either gives the same page or the same failure. The relation of states may be another one while
a body runs, so that an evaluator can open a scope for it. -/

namespace Haml

variable {σ τ ι : Type}

/-- Runs that do the same from states in relation `i`, which they leave in relation `i`. -/
inductive BlockRun.Corresponds (F : ι → σ → τ → Prop) (i : ι) : BlockRun σ → BlockRun τ → Prop
  | done {result : Except EvalError (Option Value)} {s : σ} {t : τ} (h : F i s t) :
      Corresponds F i (.done result s) (.done result t)
  | body {j : ι} {s : σ} {t : τ} {resume : Bool → σ → BlockRun σ} {resume' : Bool → τ → BlockRun τ}
      (h : F j s t)
      (hresume : ∀ through s t, F j s t → Corresponds F i (resume through s) (resume' through t)) :
      Corresponds F i (.body s resume) (.body t resume')

structure Renderer.Corresponds (F : ι → σ → τ → Prop) (r : Renderer σ) (r' : Renderer τ) :
    Prop where
  filters : r'.filters = r.filters
  options : r'.options = r.options
  evaluate : ∀ {i s t} code, F i s t →
    (r.evaluator.evaluate code s).1 = (r'.evaluator.evaluate code t).1 ∧
      F i (r.evaluator.evaluate code s).2 (r'.evaluator.evaluate code t).2
  runBlock : ∀ {i s t} statement, F i s t →
    (r.evaluator.runBlock statement s).Corresponds F i (r'.evaluator.runBlock statement t)

structure Scene.Corresponds (G : σ → τ → Prop) (scene : Scene σ) (scene' : Scene τ) : Prop where
  layout : scene.layout = scene'.layout
  halted : scene.halted = scene'.halted
  state : G scene.state scene'.state

def Asking.Corresponds (F : ι → σ → τ → Prop) (α : Type) (m : Asking σ α) (n : Asking τ α) : Prop :=
  ∀ i s t, F i s t → (m s).1 = (n t).1 ∧ F i (m s).2 (n t).2

def Rendering.Corresponds (F : ι → σ → τ → Prop) (m : Rendering σ Unit) (n : Rendering τ Unit) :
    Prop :=
  ∀ i scene scene', scene.Corresponds (F i) scene' →
    (m scene).1 = (n scene').1 ∧ (m scene).2.Corresponds (F i) (n scene').2

variable {F : ι → σ → τ → Prop}

theorem Asking.compatible_corresponds :
    Asking.Compatible (fun α (m : Asking σ α) (n : Asking τ α) => m.Corresponds F α n) where
  pure a i s t h := ⟨rfl, h⟩
  throw e he i s t h := ⟨rfl, h⟩
  bind := by
    intro α β m n f g hm hf i s t h
    obtain ⟨hresult, hstate⟩ := hm i s t h
    rw [Outcome.bind_apply, Outcome.bind_apply]
    rcases Outcome.error_or_ok hresult with ⟨e, s', t', hms, hnt⟩ | ⟨a, s', t', hms, hnt⟩ <;>
      rw [hms, hnt] at hstate ⊢
    · exact ⟨rfl, hstate⟩
    · exact hf a i s' t' hstate

/-- Runs that correspond, of bodies that do, end with one result in corresponding scenes. -/
theorem BlockRun.Corresponds.drive {m : Rendering σ Unit} {n : Rendering τ Unit}
    (hbody : Rendering.Corresponds F m n) {i : ι} {run : BlockRun σ} {run' : BlockRun τ}
    (h : run.Corresponds F i run') (l : Layout) (halted : Option RenderError) :
    (run.drive m l halted).1 = (run'.drive n l halted).1 ∧
      (run.drive m l halted).2.Corresponds (F i) (run'.drive n l halted).2 := by
  induction h generalizing l halted with
  | done h => exact ⟨rfl, rfl, rfl, h⟩
  | @body j s t resume resume' h hresume ih =>
    obtain ⟨hresult, hscene⟩ := hbody j ⟨l, halted, s⟩ ⟨l, halted, t⟩ ⟨rfl, rfl, h⟩
    rw [BlockRun.drive, BlockRun.drive]
    rcases Outcome.error_or_ok hresult with
      ⟨e, scene, scene', hm, hn⟩ | ⟨⟨⟩, scene, scene', hm, hn⟩ <;> rw [hm, hn] at hscene ⊢ <;>
      dsimp only
    · rw [hscene.layout]
      exact ih false _ _ hscene.state scene'.layout (some e)
    · rw [hscene.layout, hscene.halted]
      exact ih true _ _ hscene.state scene'.layout scene'.halted

namespace Renderer.Corresponds

variable {r : Renderer σ} {r' : Renderer τ}

section

variable (h : r.Corresponds F r')

include h

theorem ask (line : Nat) (code : Text) :
    Asking.Corresponds F Value (r.ask line code) (r'.ask line code) := by
  intro i s t hst
  obtain ⟨hanswer, hstate⟩ := h.evaluate code hst
  unfold Renderer.ask
  rcases Outcome.error_or_ok hanswer with ⟨e, s', t', hs, ht⟩ | ⟨value, s', t', hs, ht⟩ <;>
    rw [hs, ht] at hstate ⊢ <;> exact ⟨rfl, hstate⟩

theorem actStep (a : Action) : Rendering.Corresponds F (r.actStep a) (r'.actStep a) := by
  intro i scene scene' hscene
  have hsupply := supply_related Asking.compatible_corresponds h.ask h.options h.filters a
  obtain ⟨htext, hstate⟩ := hsupply i scene.state scene'.state hscene.state
  rw [actStep_apply, actStep_apply, h.options]
  rcases Outcome.error_or_ok htext with ⟨e, s, t, hs, ht⟩ | ⟨text, s, t, hs, ht⟩ <;>
    rw [hs, ht] at hstate ⊢
  · exact ⟨rfl, hscene.layout, hscene.halted, hstate⟩
  · have hlayout := congrArg (a.place r.options.format text) hscene.layout
    exact ⟨rfl, hlayout, hscene.halted, hstate⟩

theorem block (statement : BlockStatement) {m : Rendering σ Unit} {n : Rendering τ Unit}
    (hbody : Rendering.Corresponds F m n) :
    Rendering.Corresponds F (r.block statement m) (r'.block statement n) := by
  intro i scene scene' hscene
  have hrunBlock := h.runBlock statement hscene.state
  obtain ⟨hresult, hend⟩ := hrunBlock.drive hbody scene.layout scene.halted
  unfold Renderer.block
  rw [← hscene.layout, ← hscene.halted]
  rcases hrun : (r.evaluator.runBlock statement scene.state).drive m scene.layout scene.halted with
    ⟨result, l, halted, s⟩
  rcases hrun' : (r'.evaluator.runBlock statement scene'.state).drive n scene.layout
    scene.halted with ⟨result', l', halted', t⟩
  rw [hrun, hrun'] at hresult hend
  obtain rfl : result = result' := hresult
  obtain ⟨rfl, rfl, hstate⟩ : l = l' ∧ halted = halted' ∧ F i s t :=
    ⟨hend.layout, hend.halted, hend.state⟩
  cases halted with
  | some e => exact ⟨rfl, rfl, rfl, hstate⟩
  | none => cases result <;> exact ⟨rfl, rfl, rfl, hstate⟩

end

mutual

theorem step (h : r.Corresponds F r') (s : Step) :
    Rendering.Corresponds F (r.step s) (r'.step s) := by
  cases s with
  | act a =>
    rw [Renderer.step, Renderer.step]
    exact h.actStep a
  | block statement body =>
    rw [Renderer.step, Renderer.step]
    exact h.block statement (steps h body)

/-- Steps come to the same for both renderers. -/
theorem steps (h : r.Corresponds F r') (steps : List Step) :
    Rendering.Corresponds F (r.steps steps) (r'.steps steps) := by
  intro i scene scene' hscene
  cases steps with
  | nil =>
    rw [steps_nil_apply, steps_nil_apply]
    exact ⟨rfl, hscene⟩
  | cons first rest =>
    obtain ⟨hresult, hnext⟩ := step h first i scene scene' hscene
    rw [steps_cons_apply, steps_cons_apply]
    rcases Outcome.error_or_ok hresult with
      ⟨e, middle, middle', hfirst, hfirst'⟩ | ⟨⟨⟩, middle, middle', hfirst, hfirst'⟩ <;>
      rw [hfirst, hfirst'] at hnext ⊢
    · exact ⟨rfl, hnext⟩
    · exact steps h rest i middle middle' hnext

end

end Renderer.Corresponds

end Haml
