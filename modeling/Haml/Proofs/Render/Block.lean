import Haml.Proofs.Render.Action

/-! Running steps and blocks. A block goes through only if every run of its body did, since a
failure that was set aside stays there until a block reports it. -/

namespace Haml

variable {σ : Type}

/-- A run that leaves no failure set aside started without one and had its body go through every
time, so that the page changed as it does under the body, any number of times over. -/
theorem BlockRun.drive_related {R : Layout → Layout → Prop} (refl : ∀ l, R l l)
    (trans : ∀ {l m n}, R l m → R m n → R l n) {render : Rendering σ Unit}
    (hrender : ∀ scene scene', render scene = (.ok (), scene') →
      R scene.layout scene'.layout ∧ scene'.halted = scene.halted)
    (run : BlockRun σ) (l : Layout) (halted : Option RenderError)
    (h : (run.drive render l halted).2.halted = none) :
    halted = none ∧ R l (run.drive render l halted).2.layout := by
  induction run generalizing l halted with
  | done result state => exact ⟨h, refl l⟩
  | body state resume ih =>
    rw [drive] at h ⊢
    rcases hbody : render ⟨l, halted, state⟩ with ⟨e | ⟨⟩, scene⟩
    · -- The failure stays set aside for the rest of the run, which the hypothesis excludes.
      rw [hbody] at h
      obtain ⟨hsome, -⟩ := ih false scene.state scene.layout (some e) h
      cases hsome
    · rw [hbody] at h
      obtain ⟨hl, hhalted⟩ := hrender _ _ hbody
      obtain ⟨hnone, hrest⟩ := ih true scene.state scene.layout scene.halted h
      exact ⟨hhalted.symm.trans hnone, trans hl hrest⟩

namespace Renderer

variable (r : Renderer σ)

theorem steps_nil_apply (scene : Scene σ) : r.steps [] scene = (.ok (), scene) := by
  rw [steps]
  rfl

theorem steps_cons_apply (first : Step) (rest : List Step) (scene : Scene σ) :
    r.steps (first :: rest) scene = match r.step first scene with
      | (.ok (), scene) => r.steps rest scene
      | (.error e, scene) => (.error e, scene) := by
  rw [steps, Outcome.bind_apply]
  rcases r.step first scene with ⟨e | ⟨⟩, scene⟩ <;> rfl

theorem steps_singleton_apply (step : Step) (scene : Scene σ) :
    r.steps [step] scene = r.step step scene := by
  rw [steps_cons_apply]
  rcases r.step step scene with ⟨e | ⟨⟩, scene⟩
  · rfl
  · exact r.steps_nil_apply scene

theorem steps_append_apply (u v : List Step) (scene : Scene σ) :
    r.steps (u ++ v) scene = match r.steps u scene with
      | (.ok (), scene) => r.steps v scene
      | (.error e, scene) => (.error e, scene) := by
  induction u generalizing scene with
  | nil => rw [List.nil_append, steps_nil_apply]
  | cons first u ih =>
    rw [List.cons_append, steps_cons_apply, steps_cons_apply]
    rcases r.step first scene with ⟨e | ⟨⟩, scene⟩
    · rfl
    · exact ih scene

variable {r}

theorem exists_of_steps_append {u v : List Step} {scene scene' : Scene σ}
    (h : r.steps (u ++ v) scene = (.ok (), scene')) :
    ∃ middle, r.steps u scene = (.ok (), middle) ∧ r.steps v middle = (.ok (), scene') := by
  rw [steps_append_apply] at h
  rcases hu : r.steps u scene with ⟨e | ⟨⟩, middle⟩
  · rw [hu] at h
    cases h
  · rw [hu] at h
    exact ⟨middle, rfl, h⟩

/-- The scene after an action that goes through. -/
theorem exists_of_act {a : Action} {scene scene' : Scene σ}
    (h : r.steps [.act a] scene = (.ok (), scene')) :
    ∃ text state, scene' =
      { scene with layout := a.place r.options.format text scene.layout, state } := by
  rw [steps_singleton_apply, step, actStep_apply] at h
  rcases hsupply : r.supply a scene.state with ⟨e | text, state⟩
  · rw [hsupply] at h
    cases h
  · rw [hsupply] at h
    exact ⟨text, state, (congrArg Prod.snd h).symm⟩

/-- The scene after a block that goes through: its run left no failure set aside. -/
theorem exists_of_block {statement : BlockStatement} {body : Rendering σ Unit}
    {scene scene' : Scene σ} (h : r.block statement body scene = (.ok (), scene')) :
    ∃ after value, ((r.evaluator.runBlock statement scene.state).drive body scene.layout
        scene.halted).2 = after ∧ after.halted = none ∧
      scene' = { after with layout := writeValue after.layout statement.output value } := by
  unfold block at h
  rcases hdrive : (r.evaluator.runBlock statement scene.state).drive body scene.layout
    scene.halted with ⟨result, l, halted, state⟩
  rw [hdrive] at h
  cases halted with
  | some e => cases h
  | none =>
    cases result with
    | error e => cases h
    | ok value => exact ⟨⟨l, none, state⟩, value, rfl, rfl, (congrArg Prod.snd h).symm⟩

mutual

/-- A step that goes through leaves what was set aside as it is. -/
theorem step_halted (s : Step) (scene scene' : Scene σ) (h : r.step s scene = (.ok (), scene')) :
    scene'.halted = scene.halted := by
  cases s with
  | act a =>
    rw [← steps_singleton_apply] at h
    obtain ⟨text, state, rfl⟩ := exists_of_act h
    rfl
  | block statement body =>
    rw [step] at h
    obtain ⟨after, value, hdrive, hnone, rfl⟩ := exists_of_block h
    -- Only what is set aside matters here, so the pages are related in any case.
    have hbody := fun scene scene' h => And.intro trivial (steps_halted body scene scene' h)
    have hstart := BlockRun.drive_related (fun _ => trivial) (fun _ _ => trivial) hbody
      (r.evaluator.runBlock statement scene.state) scene.layout scene.halted
    exact hnone.trans (hstart (hdrive ▸ hnone)).1.symm

theorem steps_halted (steps : List Step) (scene scene' : Scene σ)
    (h : r.steps steps scene = (.ok (), scene')) : scene'.halted = scene.halted := by
  cases steps with
  | nil =>
    rw [steps_nil_apply] at h
    exact congrArg (fun x => x.2.halted) h.symm
  | cons first rest =>
    rw [← List.singleton_append] at h
    obtain ⟨middle, hfirst, hrest⟩ := exists_of_steps_append h
    rw [steps_singleton_apply] at hfirst
    exact (steps_halted rest middle scene' hrest).trans (step_halted first scene middle hfirst)

end

variable (r) in
mutual

/-- Nothing is left set aside where nothing was, whether or not a step goes through. -/
theorem halted_step (s : Step) (scene : Scene σ) (hscene : scene.halted = none) :
    (r.step s scene).2.halted = none := by
  cases s with
  | act a =>
    rw [step, actStep_apply]
    rcases r.supply a scene.state with ⟨e | text, state⟩ <;> exact hscene
  | block statement body =>
    rw [step, block]
    rcases (r.evaluator.runBlock statement scene.state).drive (r.steps body) scene.layout
      scene.halted with ⟨result, l, halted, state⟩
    cases halted with
    | some e => rfl
    | none => cases result <;> rfl

theorem halted_steps (steps : List Step) (scene : Scene σ) (hscene : scene.halted = none) :
    (r.steps steps scene).2.halted = none := by
  cases steps with
  | nil =>
    rw [steps_nil_apply]
    exact hscene
  | cons first rest =>
    have hfirst := halted_step first scene hscene
    rw [steps_cons_apply]
    rcases hstep : r.step first scene with ⟨e | ⟨⟩, scene'⟩
    · rw [hstep] at hfirst
      exact hfirst
    · rw [hstep] at hfirst
      exact halted_steps rest scene' hfirst

end

end Renderer

/-- Rendering a program whose blocks are paired is running its steps on an empty page. -/
theorem Program.render_apply {p : Program} {steps : List Step} (h : Step.ofOps p.ops = .ok steps)
    (filters : Registry) (ev : Evaluator σ) (state : σ) : p.render filters ev state =
      match Renderer.steps ⟨ev, filters, p.options⟩ steps ⟨{}, none, state⟩ with
      | (.ok (), scene) => (.ok scene.layout.finish, scene.state)
      | (.error e, scene) => (.error e, scene.state) := by
  rw [render, Renderer.render]
  split
  · next index hread =>
    rw [h] at hread
    cases hread
  · next read hread =>
    obtain rfl : steps = read := Except.ok.inj (h.symm.trans hread)
    rfl

end Haml
