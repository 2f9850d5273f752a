import Haml.Evaluator.Table
import Haml.Proofs.Render.Balance
import Haml.Proofs.Render.Paired

/-! Failures inside blocks. The failure that a block reports is that of the last invocation of its
body that failed, whatever the evaluator makes of it. Where none failed, a failure that an enclosing
block still has set aside comes before the evaluator's own. -/

namespace Haml

variable {σ : Type}

/-- The failure of rendering from a scene, if it fails. -/
def Rendering.failure? (m : Rendering σ Unit) (scene : Scene σ) : Option RenderError :=
  match (m scene).1 with
  | .error e => some e
  | .ok _ => none

theorem Rendering.failure?_eq_some {m : Rendering σ Unit} {scene : Scene σ} {e : RenderError} :
    m.failure? scene = some e ↔ (m scene).1 = .error e := by
  unfold failure?
  cases (m scene).1 <;> simp

namespace BlockRun

variable {render : Rendering σ Unit}
  (hrender : ∀ scene scene', render scene = (.ok (), scene') → scene'.halted = scene.halted)

include hrender

/-- What is set aside when a run ends is the failure of the last invocation that failed. -/
theorem halted_drive (run : BlockRun σ) (l : Layout) (halted : Option RenderError) :
    (run.drive render l halted).2.halted =
      ((run.starts render l halted).filterMap render.failure?).getLast?.or halted := by
  induction run generalizing l halted with
  | done result state => rfl
  | body state resume ih =>
    rw [drive, starts]
    rcases hbody : render ⟨l, halted, state⟩ with ⟨e | ⟨⟩, scene⟩
    · have hfailure : render.failure? ⟨l, halted, state⟩ = some e := by
        simp [Rendering.failure?, hbody]
      -- A later failure takes the place of this one.
      rw [List.filterMap_cons_some hfailure, List.getLast?_cons]
      simp only [ih false scene.state scene.layout (some e)]
      cases (List.filterMap render.failure?
        (starts render scene.layout (some e) (resume false scene.state))).getLast? <;> simp
    · have hfailure : render.failure? ⟨l, halted, state⟩ = none := by
        simp [Rendering.failure?, hbody]
      have hkept : scene.halted = halted := hrender _ _ hbody
      rw [List.filterMap_cons_none hfailure, ← hkept]
      exact ih true scene.state scene.layout scene.halted

end BlockRun

/-- Once its body has failed, the run does not ask for it again. -/
def BlockRun.StopsAtFailure : BlockRun σ → Prop
  | done _ _ => True
  | body _ resume => (∀ s, ∃ result s', resume false s = .done result s') ∧
      ∀ s, (resume true s).StopsAtFailure

/-- Where a run stops at a failure, nothing is set aside when its body starts. -/
theorem BlockRun.StopsAtFailure.halted_start {render : Rendering σ Unit}
    (hrender : ∀ scene scene', render scene = (.ok (), scene') → scene'.halted = scene.halted)
    {run : BlockRun σ} (h : run.StopsAtFailure) (l : Layout) :
    ∀ start ∈ run.starts render l none, start.halted = none := by
  induction run generalizing l with
  | done result state => exact nofun
  | body state resume ih =>
    obtain ⟨hstop, hgo⟩ := h
    rw [starts]
    refine List.forall_mem_cons.mpr ⟨rfl, ?_⟩
    rcases hbody : render ⟨l, none, state⟩ with ⟨e | ⟨⟩, scene⟩
    · obtain ⟨result, s', hdone⟩ := hstop scene.state
      dsimp only
      rw [hdone, starts]
      exact nofun
    · have hkept : scene.halted = none := hrender _ _ hbody
      dsimp only
      rw [hkept]
      exact ih true scene.state (hgo scene.state) scene.layout

/-- A block that is run: the scene that it starts from, and the steps behind it on its level. -/
structure Execution (σ : Type) where
  statement : BlockStatement
  body : List Step
  rest : List Step
  start : Scene σ

namespace Renderer

variable (r : Renderer σ)

mutual

def executedIn (rest : List Step) : Step → Scene σ → List (Execution σ)
  | .act _, _ => []
  | .block statement body, scene => ⟨statement, body, rest, scene⟩ ::
    ((r.evaluator.runBlock statement scene.state).starts (r.steps body) scene.layout
      scene.halted).flatMap (executed body)

/-- The blocks that are run when steps run, those inside a body once for each invocation of it, up
to the failure if there is one. -/
def executed : List Step → Scene σ → List (Execution σ)
  | [], _ => []
  | first :: rest, scene => executedIn rest first scene ++
    match r.step first scene with
    | (.ok (), scene) => executed rest scene
    | (.error _, _) => []

end

end Renderer

namespace Execution

variable (r : Renderer σ) (x : Execution σ)

def run : BlockRun σ := r.evaluator.runBlock x.statement x.start.state

/-- The scenes in which the body is invoked. -/
def invocations : List (Scene σ) := (x.run r).starts (r.steps x.body) x.start.layout x.start.halted

/-- The failures of the invocations that fail, in order. -/
def failures : List RenderError := (x.invocations r).filterMap (r.steps x.body).failure?

/-- What the evaluator says when the run is over. -/
def answer : Except EvalError (Option Value) :=
  ((x.run r).drive (r.steps x.body) x.start.layout x.start.halted).1

/-- What the block comes to. -/
def outcome : Except RenderError Unit := (r.step (.block x.statement x.body) x.start).1

/-- The whole of what a block comes to. -/
theorem outcome_eq : x.outcome r = match (x.failures r).getLast?.or x.start.halted, x.answer r with
    | some e, _ => .error e
    | none, .error e => .error (.evaluation e.message x.statement.code x.statement.line)
    | none, .ok _ => .ok () := by
  have hhalted := BlockRun.halted_drive (Renderer.steps_halted (r := r) x.body) (x.run r)
    x.start.layout x.start.halted
  unfold outcome answer failures invocations
  rw [← hhalted, Renderer.step, Renderer.block]
  unfold run
  rcases (r.evaluator.runBlock x.statement x.start.state).drive (r.steps x.body) x.start.layout
    x.start.halted with ⟨result, l, halted, state⟩
  cases halted with
  | some e => rfl
  | none => cases result <;> rfl

variable {r x}

theorem outcome_of_failures {e : RenderError} (h : (x.failures r).getLast? = some e) :
    x.outcome r = .error e := by
  rw [outcome_eq, h]
  rfl

theorem exists_outcome_of_invocation {scene : Scene σ} (hscene : scene ∈ x.invocations r)
    {e : RenderError} (h : (r.steps x.body scene).1 = .error e) :
    ∃ e', x.outcome r = .error e' := by
  have hmem : e ∈ x.failures r :=
    List.mem_filterMap.mpr ⟨scene, hscene, Rendering.failure?_eq_some.mpr h⟩
  have hlast : (x.failures r).getLast? ≠ none := by
    rw [ne_eq, List.getLast?_eq_none_iff]
    exact List.ne_nil_of_mem hmem
  obtain ⟨e', he'⟩ := Option.ne_none_iff_exists'.mp hlast
  exact ⟨e', outcome_of_failures he'⟩

/-- A block that fails ends its level: nothing behind it is run. -/
theorem steps_of_outcome {e : RenderError} (h : x.outcome r = .error e) :
    r.steps (.block x.statement x.body :: x.rest) x.start =
      (.error e, (r.step (.block x.statement x.body) x.start).2) := by
  unfold outcome at h
  rw [Renderer.steps_cons_apply]
  rcases hstep : r.step (.block x.statement x.body) x.start with ⟨e' | ⟨⟩, scene⟩
  · rw [hstep] at h
    simp_all
  · rw [hstep] at h
    cases h

end Execution

theorem BlockRun.parks_starts {P : RenderError → Prop} {render : Rendering σ Unit}
    (hrender : Rendering.Keeps P render) (run : BlockRun σ) (l : Layout)
    (halted : Option RenderError) (h : ∀ e, halted = some e → P e) :
    ∀ start ∈ run.starts render l halted, start.Parks P := by
  induction run generalizing l halted with
  | done result state => exact nofun
  | body state resume ih =>
    obtain ⟨hafter, herror⟩ := hrender ⟨l, halted, state⟩ h
    rw [starts]
    refine List.forall_mem_cons.mpr ⟨h, ?_⟩
    rcases hbody : render ⟨l, halted, state⟩ with ⟨e | ⟨⟩, scene⟩
    · rw [hbody] at herror
      refine ih false scene.state scene.layout (some e) fun e' he' => ?_
      exact Option.some.inj he' ▸ herror e rfl
    · rw [hbody] at hafter
      exact ih true scene.state scene.layout scene.halted hafter

namespace Renderer

variable {r : Renderer σ}

mutual

/-- The failure of a block goes out through all blocks around it. -/
theorem step_of_executed (s : Step) (rest : List Step) (scene : Scene σ) {x : Execution σ}
    (hx : x ∈ r.executedIn rest s scene) {e : RenderError} (h : x.outcome r = .error e) :
    ∃ e', (r.step s scene).1 = .error e' := by
  cases s with
  | act a => cases hx
  | block statement body =>
    rw [executedIn] at hx
    rcases List.mem_cons.mp hx with rfl | hx
    · exact ⟨e, h⟩
    · obtain ⟨start, hstart, hx⟩ := List.mem_flatMap.mp hx
      obtain ⟨e', he'⟩ := steps_of_executed body start hx h
      exact Execution.exists_outcome_of_invocation (x := ⟨statement, body, rest, scene⟩) hstart he'

theorem steps_of_executed (steps : List Step) (scene : Scene σ) {x : Execution σ}
    (hx : x ∈ r.executed steps scene) {e : RenderError} (h : x.outcome r = .error e) :
    ∃ e', (r.steps steps scene).1 = .error e' := by
  cases steps with
  | nil => cases hx
  | cons first rest =>
    rw [executed] at hx
    rw [steps_cons_apply]
    rcases List.mem_append.mp hx with hx | hx
    · obtain ⟨e', he'⟩ := step_of_executed first rest scene hx h
      rcases hfirst : r.step first scene with ⟨e'' | ⟨⟩, scene'⟩
      · exact ⟨e'', rfl⟩
      · rw [hfirst] at he'
        cases he'
    · rcases hfirst : r.step first scene with ⟨e'' | ⟨⟩, scene'⟩
      · exact ⟨e'', rfl⟩
      · rw [hfirst] at hx
        exact steps_of_executed rest scene' hx h

end

mutual

/-- Where runs stop at failures, no block starts with a failure set aside. -/
theorem halted_executedIn
    (hstop : ∀ statement s, (r.evaluator.runBlock statement s).StopsAtFailure) (s : Step)
    (rest : List Step) (scene : Scene σ) (hscene : scene.halted = none) :
    ∀ x ∈ r.executedIn rest s scene, x.start.halted = none := by
  cases s with
  | act a => exact nofun
  | block statement body =>
    rw [executedIn]
    refine List.forall_mem_cons.mpr ⟨hscene, ?_⟩
    intro x hx
    obtain ⟨start, hstart, hx⟩ := List.mem_flatMap.mp hx
    rw [hscene] at hstart
    have hnone := (hstop statement scene.state).halted_start (steps_halted (r := r) body)
      scene.layout
    exact halted_executed hstop body start (hnone start hstart) x hx

theorem halted_executed
    (hstop : ∀ statement s, (r.evaluator.runBlock statement s).StopsAtFailure) (steps : List Step)
    (scene : Scene σ) (hscene : scene.halted = none) :
    ∀ x ∈ r.executed steps scene, x.start.halted = none := by
  cases steps with
  | nil => exact nofun
  | cons first rest =>
    rw [executed]
    refine List.forall_mem_append.mpr ⟨halted_executedIn hstop first rest scene hscene, ?_⟩
    rcases hfirst : r.step first scene with ⟨e | ⟨⟩, scene'⟩
    · exact nofun
    · have hkept : scene'.halted = scene.halted := step_halted first scene scene' hfirst
      exact halted_executed hstop rest scene' (hkept.trans hscene)

end

end Renderer

/-- Where nothing is set aside, the failures of a block's body are those of operations in it. -/
theorem Execution.raises_of_mem_failures {r : Renderer σ} {x : Execution σ}
    (hx : x.start.halted = none) {e : RenderError} (he : e ∈ x.failures r) :
    ∃ op ∈ Step.allToOps x.body, op.Raises e := by
  have hkeeps : Rendering.Keeps (fun e => ∃ op ∈ Step.allToOps x.body, op.Raises e)
      (r.steps x.body) := r.keeps_steps x.body fun op hop e he => ⟨op, hop, he⟩
  obtain ⟨scene, hscene, hfailure⟩ := List.mem_filterMap.mp he
  have hparks := BlockRun.parks_starts hkeeps (x.run r) x.start.layout x.start.halted
    (by simp [hx]) scene hscene
  exact (hkeeps scene hparks).2 e (Rendering.failure?_eq_some.mp hfailure)

abbrev Program.renderer (p : Program) (filters : Registry) (ev : Evaluator σ) : Renderer σ :=
  ⟨ev, filters, p.options⟩

/-- The blocks that are run when a program renders, none if its blocks are not paired. -/
def Program.executions (p : Program) (filters : Registry) (ev : Evaluator σ) (state : σ) :
    List (Execution σ) :=
  match Step.ofOps p.ops with
  | .error _ => []
  | .ok steps => (p.renderer filters ev).executed steps ⟨{}, none, state⟩

/-- A failure inside a block is not lost. If an invocation of the body fails, the block fails with
the failure of the last one that did, whatever the evaluator makes of it; if none does, the block
fails where the evaluator fails, on its own account, provided that no enclosing block has a failure
set aside. Nothing behind a block that fails is run, and rendering fails too. Failures of the body
are those of its operations, and nothing is ever set aside when a block starts if evaluators do not
ask again for a body that failed. -/
theorem Program.failure_of_executions (p : Program) (filters : Registry) (ev : Evaluator σ)
    (state : σ) {x : Execution σ} (hx : x ∈ p.executions filters ev state) :
    (∀ e, (x.failures (p.renderer filters ev)).getLast? = some e →
      x.outcome (p.renderer filters ev) = .error e) ∧
    (x.failures (p.renderer filters ev) = [] → x.start.halted = none →
      ∀ e, x.answer (p.renderer filters ev) = .error e →
        x.outcome (p.renderer filters ev) =
          .error (.evaluation e.message x.statement.code x.statement.line)) ∧
    (∀ e, x.outcome (p.renderer filters ev) = .error e →
      (p.renderer filters ev).steps (.block x.statement x.body :: x.rest) x.start =
        (.error e, ((p.renderer filters ev).step (.block x.statement x.body) x.start).2) ∧
      ∃ e', (p.render filters ev state).1 = .error e') ∧
    (x.start.halted = none → ∀ e ∈ x.failures (p.renderer filters ev),
      ∃ op ∈ Step.allToOps x.body, op.Raises e) ∧
    ((∀ statement s, (ev.runBlock statement s).StopsAtFailure) → x.start.halted = none) := by
  unfold executions at hx
  cases hsteps : Step.ofOps p.ops with
  | error index =>
    rw [hsteps] at hx
    cases hx
  | ok steps =>
    rw [hsteps] at hx
    refine ⟨fun e he => Execution.outcome_of_failures he, ?_, ?_, ?_, ?_⟩
    · intro hfailures hnone e he
      rw [Execution.outcome_eq, hfailures, hnone, he]
      rfl
    · intro e he
      refine ⟨Execution.steps_of_outcome he, ?_⟩
      obtain ⟨e', he'⟩ := Renderer.steps_of_executed steps ⟨{}, none, state⟩ hx he
      rw [render_apply hsteps]
      rcases hrun : (p.renderer filters ev).steps steps ⟨{}, none, state⟩ with ⟨e'' | ⟨⟩, scene⟩
      · exact ⟨e'', rfl⟩
      · rw [hrun] at he'
        cases he'
    · exact fun hnone e he => Execution.raises_of_mem_failures hnone he
    · exact fun hstop => Renderer.halted_executed hstop steps ⟨{}, none, state⟩ rfl x hx

section Example

/-- A block around an expression and another block. -/
def nestedProgram : Program where
  ops := [.enter ⟨"outer", false, none, 1⟩, .act (.expr "x" false false .line 2),
    .enter ⟨"inner", false, none, 3⟩, .exit, .exit]
  options := { autoclose := ⟨[]⟩, preserve := ⟨[]⟩ }

/-- The outer block runs twice, its body failing at first, and goes on; the inner one fails. -/
def swallowingTable : Table where
  blocks :=
    [("outer", { runs := [[("x", .fails (.failed "boom"))], [("x", .value (.int 1))]]
                 swallow := true }),
      ("inner", { failure := some "bang" })]

theorem Program.failure_of_executions_swallowed :
    ∃ x ∈ nestedProgram.executions .builtin swallowingTable.evaluator {},
      x.statement.code = "outer" ∧
      (x.failures (nestedProgram.renderer .builtin swallowingTable.evaluator)).getLast? =
        some (.evaluation "boom" "x" 2) ∧
      x.answer (nestedProgram.renderer .builtin swallowingTable.evaluator) = .ok none ∧
      x.outcome (nestedProgram.renderer .builtin swallowingTable.evaluator) =
        .error (.evaluation "boom" "x" 2) ∧
      (∃ op ∈ Step.allToOps x.body, op.Raises (.evaluation "boom" "x" 2)) ∧
      ∃ e, (nestedProgram.render .builtin swallowingTable.evaluator {}).1 = .error e := by
  have hx := List.getElem_mem (l := nestedProgram.executions .builtin swallowingTable.evaluator {})
    (n := 0) (by decide)
  obtain ⟨hlast, -, hfails, hraises, -⟩ := failure_of_executions _ _ _ _ hx
  have houtcome := hlast (.evaluation "boom" "x" 2) (by decide)
  refine ⟨_, hx, by decide, by decide, by rfl, houtcome, ?_, (hfails _ houtcome).2⟩
  exact hraises (by decide) _ (by decide)

/-- Where a body that failed is run again, a block in it that fails on its own account reports the
earlier failure of the body around it. -/
theorem Execution.outcome_ne_own_failure :
    ∃ x ∈ nestedProgram.executions .builtin swallowingTable.evaluator {},
      x.statement = ⟨"inner", false, none, 3⟩ ∧
      x.failures (nestedProgram.renderer .builtin swallowingTable.evaluator) = [] ∧
      x.answer (nestedProgram.renderer .builtin swallowingTable.evaluator) =
        .error (.failed "bang") ∧
      x.outcome (nestedProgram.renderer .builtin swallowingTable.evaluator) =
        .error (.evaluation "boom" "x" 2) ∧
      (nestedProgram.render .builtin swallowingTable.evaluator {}).1 =
        .error (.evaluation "boom" "x" 2) := by
  have hx := List.getElem_mem (l := nestedProgram.executions .builtin swallowingTable.evaluator {})
    (n := 1) (by decide)
  exact ⟨_, hx, by decide, by decide, by rfl, by decide, by decide⟩

end Example

end Haml
