import Haml.Proofs.Render.Block

/-! What rendering asks of an evaluator. A recorded evaluator answers as the one inside it does, and
keeps the list of what it was asked for beside that one's state; rendering with it differs in
nothing else. -/

namespace Haml

/-- A request to an evaluator. -/
inductive Call
  | evaluate (code : Text)
  | runBlock (statement : BlockStatement)
  deriving DecidableEq, Repr

variable {σ : Type}

/-- A run beside a list of calls, which bodies add to. -/
def BlockRun.recorded (calls : List Call) : BlockRun σ → BlockRun (σ × List Call)
  | done result state => .done result (state, calls)
  | body state resume => .body (state, calls) fun ok s => (resume ok s.1).recorded s.2

def Evaluator.recorded (ev : Evaluator σ) : Evaluator (σ × List Call) where
  evaluate code s := ((ev.evaluate code s.1).1, (ev.evaluate code s.1).2, s.2 ++ [.evaluate code])
  runBlock statement s := (ev.runBlock statement s.1).recorded (s.2 ++ [.runBlock statement])

/-- The calls of rendering a program, in order. -/
def Program.calls (p : Program) (filters : Registry) (ev : Evaluator σ) (state : σ) : List Call :=
  (p.render filters ev.recorded (state, [])).2.2

/-- Work and the same work recorded: one result and one state, and further calls. -/
def Asking.Recorded (α : Type) (m : Asking σ α) (n : Asking (σ × List Call) α) : Prop :=
  ∀ s calls, ∃ more, n (s, calls) = ((m s).1, (m s).2, calls ++ more)

theorem Asking.compatible_recorded :
    Asking.Compatible (fun α (m : Asking σ α) n => Asking.Recorded α m n) where
  pure a s calls := ⟨[], by rw [List.append_nil]; rfl⟩
  throw e he s calls := ⟨[], by rw [List.append_nil]; rfl⟩
  bind := by
    intro α β m n f g hm hf s calls
    obtain ⟨more, hn⟩ := hm s calls
    rw [Outcome.bind_apply, Outcome.bind_apply, hn]
    rcases m s with ⟨e | a, t⟩
    · exact ⟨more, rfl⟩
    · obtain ⟨further, hg⟩ := hf a t (calls ++ more)
      exact ⟨more ++ further, by rw [← List.append_assoc]; exact hg⟩

namespace Renderer

variable (r : Renderer σ)

def recorded : Renderer (σ × List Call) := ⟨r.evaluator.recorded, r.filters, r.options⟩

theorem ask_recorded (line : Nat) (code : Text) :
    Asking.Recorded Value (r.ask line code) (r.recorded.ask line code) := by
  intro s calls
  refine ⟨[.evaluate code], ?_⟩
  have hanswer : r.recorded.evaluator.evaluate code (s, calls) =
      ((r.evaluator.evaluate code s).1, (r.evaluator.evaluate code s).2,
        calls ++ [.evaluate code]) := rfl
  unfold ask
  rw [hanswer]
  rcases r.evaluator.evaluate code s with ⟨e | value, t⟩ <;> rfl

theorem supply_recorded (a : Action) :
    Asking.Recorded Text (r.supply a) (r.recorded.supply a) :=
  supply_related Asking.compatible_recorded r.ask_recorded rfl rfl a

end Renderer

def Scene.beside (calls : List Call) (scene : Scene σ) : Scene (σ × List Call) :=
  ⟨scene.layout, scene.halted, scene.state, calls⟩

/-- A change of scene and the same change recorded. -/
def Rendering.Recorded (m : Rendering σ Unit) (n : Rendering (σ × List Call) Unit) : Prop :=
  ∀ scene calls, ∃ more, n (scene.beside calls) = ((m scene).1, (m scene).2.beside (calls ++ more))

theorem BlockRun.drive_recorded {m : Rendering σ Unit} {n : Rendering (σ × List Call) Unit}
    (h : Rendering.Recorded m n) (run : BlockRun σ) (l : Layout) (halted : Option RenderError)
    (calls : List Call) : ∃ more, (run.recorded calls).drive n l halted =
      ((run.drive m l halted).1, (run.drive m l halted).2.beside (calls ++ more)) := by
  induction run generalizing l halted calls with
  | done result state => exact ⟨[], by rw [List.append_nil]; rfl⟩
  | body state resume ih =>
    obtain ⟨more, hn⟩ := h ⟨l, halted, state⟩ calls
    change n ⟨l, halted, state, calls⟩ = _ at hn
    -- The run goes on after a failure too, with the failure set aside.
    rw [recorded, drive, drive, hn]
    rcases m ⟨l, halted, state⟩ with ⟨e | ⟨⟩, scene⟩
    · obtain ⟨further, hrest⟩ := ih false scene.state scene.layout (some e) (calls ++ more)
      exact ⟨more ++ further, by rw [← List.append_assoc]; exact hrest⟩
    · obtain ⟨further, hrest⟩ := ih true scene.state scene.layout scene.halted (calls ++ more)
      exact ⟨more ++ further, by rw [← List.append_assoc]; exact hrest⟩

namespace Renderer

variable (r : Renderer σ)

theorem actStep_recorded (a : Action) :
    Rendering.Recorded (r.actStep a) (r.recorded.actStep a) := by
  intro scene calls
  obtain ⟨more, hsupply⟩ : ∃ more, r.recorded.supply a (scene.beside calls).state =
      ((r.supply a scene.state).1, (r.supply a scene.state).2, calls ++ more) :=
    r.supply_recorded a scene.state calls
  refine ⟨more, ?_⟩
  rw [actStep_apply, actStep_apply, hsupply]
  rcases r.supply a scene.state with ⟨e | text, t⟩ <;> rfl

/-- Running a block is a call itself, before those of its body. -/
theorem exists_block_recorded (statement : BlockStatement) {m : Rendering σ Unit}
    {n : Rendering (σ × List Call) Unit} (h : Rendering.Recorded m n) (scene : Scene σ)
    (calls : List Call) : ∃ more, r.recorded.block statement n (scene.beside calls) =
      ((r.block statement m scene).1,
        (r.block statement m scene).2.beside (calls ++ .runBlock statement :: more)) := by
  obtain ⟨more, hdrive⟩ : ∃ more,
      (r.recorded.evaluator.runBlock statement (scene.beside calls).state).drive n
        (scene.beside calls).layout (scene.beside calls).halted =
      (((r.evaluator.runBlock statement scene.state).drive m scene.layout scene.halted).1,
        ((r.evaluator.runBlock statement scene.state).drive m scene.layout scene.halted).2.beside
          (calls ++ [.runBlock statement] ++ more)) :=
    BlockRun.drive_recorded h _ scene.layout scene.halted _
  rw [List.append_assoc] at hdrive
  refine ⟨more, ?_⟩
  unfold block
  rw [hdrive]
  rcases (r.evaluator.runBlock statement scene.state).drive m scene.layout scene.halted with
    ⟨result, l, halted, state⟩
  cases halted with
  | some e => rfl
  | none => cases result <;> rfl

theorem block_recorded (statement : BlockStatement) {m : Rendering σ Unit}
    {n : Rendering (σ × List Call) Unit} (h : Rendering.Recorded m n) :
    Rendering.Recorded (r.block statement m) (r.recorded.block statement n) := fun scene calls =>
  let ⟨more, hblock⟩ := r.exists_block_recorded statement h scene calls
  ⟨.runBlock statement :: more, hblock⟩

mutual

theorem step_recorded (s : Step) : Rendering.Recorded (r.step s) (r.recorded.step s) := by
  cases s with
  | act a =>
    rw [step, step]
    exact r.actStep_recorded a
  | block statement body =>
    rw [step, step]
    exact r.block_recorded statement (steps_recorded body)

theorem steps_recorded (steps : List Step) :
    Rendering.Recorded (r.steps steps) (r.recorded.steps steps) := by
  intro scene calls
  cases steps with
  | nil => exact ⟨[], by rw [steps_nil_apply, steps_nil_apply, List.append_nil]⟩
  | cons first rest =>
    obtain ⟨more, hfirst⟩ := step_recorded first scene calls
    rw [steps_cons_apply, steps_cons_apply, hfirst]
    rcases r.step first scene with ⟨e | ⟨⟩, scene'⟩
    · exact ⟨more, rfl⟩
    · obtain ⟨further, hrest⟩ := steps_recorded rest scene' (calls ++ more)
      exact ⟨more ++ further, by rw [← List.append_assoc]; exact hrest⟩

end

end Renderer

/-- Recording changes nothing but that the calls are kept. -/
theorem Program.render_recorded (p : Program) (filters : Registry) (ev : Evaluator σ) (state : σ) :
    p.render filters ev.recorded (state, []) =
      ((p.render filters ev state).1, (p.render filters ev state).2, p.calls filters ev state) := by
  suffices ∃ calls, p.render filters ev.recorded (state, []) =
      ((p.render filters ev state).1, (p.render filters ev state).2, calls) by
    obtain ⟨calls, h⟩ := this
    rw [Program.calls, h]
  cases hsteps : Step.ofOps p.ops with
  | error index => exact ⟨[], by rw [render, render, Renderer.render, Renderer.render, hsteps]⟩
  | ok steps =>
    let r : Renderer σ := ⟨ev, filters, p.options⟩
    obtain ⟨more, hrun⟩ : ∃ more,
        Renderer.steps ⟨ev.recorded, filters, p.options⟩ steps ⟨{}, none, state, []⟩ =
        ((r.steps steps ⟨{}, none, state⟩).1,
          (r.steps steps ⟨{}, none, state⟩).2.beside ([] ++ more)) :=
      r.steps_recorded steps ⟨{}, none, state⟩ []
    refine ⟨more, ?_⟩
    rw [render_apply hsteps, render_apply hsteps, hrun]
    rcases Renderer.steps ⟨ev, filters, p.options⟩ steps ⟨{}, none, state⟩ with ⟨e | ⟨⟩, scene⟩ <;>
      rfl

end Haml
