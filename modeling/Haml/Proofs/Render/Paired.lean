import Haml.Proofs.Compile.Nesting
import Haml.Proofs.Render.Block
import Haml.Proofs.Render.Raised

/-! Where an unpaired block is found. The steps of a program have their blocks paired, so that no
failure of running them is that of an unpaired one; compiled programs always have steps. -/

namespace Haml

variable {σ : Type}

theorem Op.Raises.fromRun {op : Op} {e : RenderError} (h : op.Raises e) : e.FromRun := by
  rintro index rfl
  cases op <;> exact h

/-- The failure that is set aside, if there is one, satisfies `P`. -/
def Scene.Parks (P : RenderError → Prop) (scene : Scene σ) : Prop :=
  ∀ e, scene.halted = some e → P e

/-- A change of scene after which every failure, its own or one set aside, satisfies `P` if the one
set aside before does. -/
def Rendering.Keeps (P : RenderError → Prop) (m : Rendering σ Unit) : Prop :=
  ∀ scene, scene.Parks P → (m scene).2.Parks P ∧ ∀ e, (m scene).1 = .error e → P e

variable {P : RenderError → Prop}

theorem BlockRun.parks_drive {render : Rendering σ Unit} (hrender : Rendering.Keeps P render)
    (run : BlockRun σ) (l : Layout) (halted : Option RenderError)
    (h : ∀ e, halted = some e → P e) : (run.drive render l halted).2.Parks P := by
  induction run generalizing l halted with
  | done result state => exact h
  | body state resume ih =>
    obtain ⟨hafter, herror⟩ := hrender ⟨l, halted, state⟩ h
    rw [drive]
    rcases hbody : render ⟨l, halted, state⟩ with ⟨e | ⟨⟩, scene⟩
    · rw [hbody] at herror
      refine ih false scene.state scene.layout (some e) fun e' he' => ?_
      exact Option.some.inj he' ▸ herror e rfl
    · rw [hbody] at hafter
      exact ih true scene.state scene.layout scene.halted hafter

namespace Renderer

variable (r : Renderer σ)

theorem keeps_act {a : Action} (ha : ∀ e, (Op.act a).Raises e → P e) :
    Rendering.Keeps P (r.actStep a) := by
  intro scene hscene
  rw [actStep_apply]
  rcases hsupply : r.supply a scene.state with ⟨e | text, state⟩
  · refine ⟨hscene, fun e' he' => ?_⟩
    exact Except.error.inj he' ▸ ha e (r.supply_raises a hsupply)
  · exact ⟨hscene, nofun⟩

theorem keeps_block {statement : BlockStatement} {body : Rendering σ Unit}
    (hstatement : ∀ e, (Op.enter statement).Raises e → P e) (hbody : Rendering.Keeps P body) :
    Rendering.Keeps P (r.block statement body) := by
  intro scene hscene
  have hdrive := BlockRun.parks_drive hbody (r.evaluator.runBlock statement scene.state)
    scene.layout scene.halted hscene
  unfold block
  rcases hrun : (r.evaluator.runBlock statement scene.state).drive body scene.layout
    scene.halted with ⟨result, l, halted, state⟩
  rw [hrun] at hdrive
  cases halted with
  | some e => exact ⟨nofun, fun e' he' => Except.error.inj he' ▸ hdrive e rfl⟩
  | none =>
    cases result with
    | error e =>
      refine ⟨nofun, fun e' he' => ?_⟩
      exact Except.error.inj he' ▸ hstatement _ ⟨rfl, rfl⟩
    | ok value => exact ⟨nofun, nofun⟩

mutual

/-- What holds of all failures that the operations of a step can raise is kept by the step. -/
theorem keeps_step (s : Step) (hs : ∀ op ∈ s.toOps, ∀ e, op.Raises e → P e) :
    Rendering.Keeps P (r.step s) := by
  cases s with
  | act a =>
    rw [step]
    exact r.keeps_act (hs (.act a) (by simp [Step.toOps]))
  | block statement body =>
    rw [step]
    have hbody : ∀ op ∈ Step.allToOps body, ∀ e, op.Raises e → P e := by
      intro op hop
      exact hs op (by simp [Step.toOps, hop])
    exact r.keeps_block (hs (.enter statement) (by simp [Step.toOps])) (keeps_steps body hbody)

theorem keeps_steps (steps : List Step)
    (hsteps : ∀ op ∈ Step.allToOps steps, ∀ e, op.Raises e → P e) :
    Rendering.Keeps P (r.steps steps) := by
  intro scene hscene
  cases steps with
  | nil =>
    rw [steps_nil_apply]
    exact ⟨hscene, nofun⟩
  | cons first rest =>
    rw [Step.allToOps] at hsteps
    obtain ⟨hfirstOps, hrestOps⟩ := List.forall_mem_append.mp hsteps
    obtain ⟨hafter, herror⟩ := keeps_step first hfirstOps scene hscene
    rw [steps_cons_apply]
    rcases hfirst : r.step first scene with ⟨e | ⟨⟩, scene'⟩
    · rw [hfirst] at hafter herror
      exact ⟨hafter, herror⟩
    · rw [hfirst] at hafter
      exact keeps_steps rest hrestOps scene' hafter

end

end Renderer

/-- A program with steps does not fail for an unpaired block. -/
theorem Program.render_ne_unbalancedBlock {p : Program} {steps : List Step}
    (hsteps : Step.ofOps p.ops = .ok steps) (filters : Registry) (ev : Evaluator σ) (state : σ)
    (index : Nat) : (p.render filters ev state).1 ≠ .error (.unbalancedBlock index) := by
  obtain ⟨-, herror⟩ := Renderer.keeps_steps ⟨ev, filters, p.options⟩ steps
    (fun _ _ _ he => he.fromRun) ⟨{}, none, state⟩ nofun
  rw [Program.render_apply hsteps]
  intro h
  rcases hrun : Renderer.steps ⟨ev, filters, p.options⟩ steps ⟨{}, none, state⟩ with ⟨e | ⟨⟩, scene⟩
  · rw [hrun] at h herror
    exact herror e rfl index (Except.error.inj h)
  · rw [hrun] at h
    cases h

/-- Compiled programs are words of the bracket language: what a tag, a block or an indented part
opens is closed further on by an end of the same kind, which for tags has the same name and flags,
and what stands in between is nested in itself. Rendering them never meets an unpaired block. -/
theorem Program.compile_nested {source : Text} {o : Options} {r : Registry} {p : Program}
    (h : compile source o r = .ok p) :
    Nested Op.role p.ops ∧
      (∀ before after op b, p.ops = before ++ op :: after → op.role = .opening b →
        ∃ body close rest, after = body ++ close :: rest ∧ close.role = .closing b ∧
          Nested Op.role body) ∧
      ∀ {σ : Type} (filters : Registry) (ev : Evaluator σ) (state : σ) (index : Nat),
        (p.render filters ev state).1 ≠ .error (.unbalancedBlock index) := by
  have hnested := Compile.program_nested h
  refine ⟨hnested, fun before after op b hops hop => hnested.exists_closing hops hop, ?_⟩
  obtain ⟨steps, hsteps⟩ := Step.exists_ofOps_of_nested hnested.shape
  exact render_ne_unbalancedBlock hsteps

theorem Program.compile_nested_list : ∃ p,
    compile "%ul\n  - each\n    %li= item\n  /\n    :plain\n      #\x7ba\x7d\n%pre b\n%br\n"
      { autoclose := ⟨["br"]⟩, preserve := ⟨["pre"]⟩ } .builtin = .ok p ∧
    p.ops.map Op.role =
      [.opening (.tag "ul" ⟨false, false, false, false⟩), .opening .block,
        .opening (.tag "li" ⟨false, false, true, false⟩), .plain,
        .closing (.tag "li" ⟨false, false, true, false⟩), .closing .block, .opening .part, .plain,
        .closing .part, .closing (.tag "ul" ⟨false, false, false, false⟩),
        .opening (.tag "pre" ⟨false, true, true, true⟩), .plain,
        .closing (.tag "pre" ⟨false, true, true, true⟩), .plain] ∧
    Nested Op.role p.ops ∧
      ∀ (filters : Registry) (ev : Evaluator Unit) (index : Nat),
        (p.render filters ev ()).1 ≠ .error (.unbalancedBlock index) := by
  refine Outcome.exists_viewed ?_ fun p hp => ?_
  · decide +kernel
  · have h := compile_nested hp
    exact ⟨h.1, fun filters ev index => h.2.2 filters ev () index⟩

end Haml
