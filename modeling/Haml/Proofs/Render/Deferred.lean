import Haml.Compile
import Haml.Evaluator.Table
import Haml.Proofs.Render.Asked

/-! Filters that are left to rendering. A filter whose text has code in it is applied when the
values are there. This comes to what applying it at once to the text with the values in it comes to,
the stage apart at which a failure is reported. -/

namespace Haml

variable {σ : Type} {v : Text → Value}

/-- Does an evaluator answer codes, one after the other, with the values that `v` has for them? -/
def Evaluator.Answers (ev : Evaluator σ) (v : Text → Value) : List Text → σ → Prop
  | [], _ => True
  | code :: codes, s =>
    (ev.evaluate code s).1 = .ok (v code) ∧ Answers ev v codes (ev.evaluate code s).2

namespace Segment

/-- Code replaced by the text of the value that `v` has for it. -/
def settle (v : Text → Value) : Segment → Segment
  | literal text => literal text
  | expression code => literal (v code).text

/-- The text of segments, code being replaced by the text of its value. -/
def settledText (v : Text → Value) (segments : List Segment) : Text :=
  literalText (segments.map (settle v))

theorem literalText?_eq_none_iff {segments : List Segment} :
    literalText? segments = none ↔ codes segments ≠ [] := by
  induction segments with
  | nil => exact ⟨nofun, fun h => absurd rfl h⟩
  | cons segment segments ih =>
    cases segment with
    | literal text => exact Option.map_eq_none_iff.trans ih
    | expression code => exact ⟨fun _ => List.cons_ne_nil _ _, fun _ => rfl⟩

theorem literalText?_map_settle (segments : List Segment) :
    literalText? (segments.map (settle v)) = some (settledText v segments) := by
  induction segments with
  | nil => rfl
  | cons segment segments ih =>
    cases segment <;>
    · rw [List.map_cons, settle, literalText?, ih]
      rfl

theorem map_settle_of_codes_eq_nil {segments : List Segment} (h : codes segments = []) :
    segments.map (settle v) = segments := by
  induction segments with
  | nil => rfl
  | cons segment segments ih =>
    cases segment with
    | literal text => exact congrArg (literal text :: ·) (ih h)
    | expression code => cases h

end Segment

/-- How a template fails: when it is compiled, or when it is rendered. -/
inductive TemplateError
  | compile (e : CompileError)
  | render (e : RenderError)
  deriving DecidableEq, Repr

/-- The failure of a filter reported by rendering, where compiling would have reported it. -/
def TemplateError.deferred : TemplateError → TemplateError
  | compile (.filter name message line) => render (.filter name message line)
  | e => e

namespace Renderer

variable (r : Renderer σ)

/-- Compiles a node and renders it from a scene, with one registry and one set of options. -/
def renderNode (n : Node) (scene : Scene σ) : Except TemplateError Unit × Scene σ :=
  match Compile.node r.options r.filters n with
  | .error e => (.error (.compile e), scene)
  | .ok ops =>
    match Step.ofOps ops with
    | .error index => (.error (.render (.unbalancedBlock index)), scene)
    | .ok steps =>
      let (result, scene) := r.steps steps scene
      (result.mapError .render, scene)

variable {r} {line : Nat} {name : Text} {written : List Segment} {children : List Node}
  {scene : Scene σ}

theorem interpolate_apply {s : σ} (hv : r.evaluator.Answers v (Segment.codes written) s) :
    r.interpolate line written s =
      (.ok (Segment.settledText v written), r.evaluator.stateAfter (Segment.codes written) s) := by
  induction written generalizing s with
  | nil => rfl
  | cons segment written ih =>
    cases segment with
    | literal text =>
      rw [interpolate, Outcome.bind_apply, ih hv]
      rfl
    | expression code =>
      obtain ⟨hcode, hrest⟩ := hv
      have hask : r.ask line code s = (.ok (v code), (r.evaluator.evaluate code s).2) := by
        unfold ask
        split <;> simp_all
      rw [interpolate, Outcome.bind_apply, hask]
      dsimp only
      rw [Outcome.bind_apply, ih hrest]
      rfl

theorem renderNode_unregistered (hget : r.filters.get? name = none) :
    r.renderNode (.mk line (.filter name written) children) scene =
      (.error (.compile (.unregisteredFilter name line)), scene) := by
  rw [renderNode, Compile.node, Compile.item, Compile.filter, hget]

variable {apply : Filter} (heval : r.options.suppressEval = false)
  (hget : r.filters.get? name = some apply)

include heval hget

/-- A filter of literal text is applied when it is compiled. -/
theorem renderNode_folded {text : Text} (htext : Segment.literalText? written = some text) :
    r.renderNode (.mk line (.filter name written) children) scene =
      match apply text r.options with
      | .error message => (.error (.compile (.filter name message line)), scene)
      | .ok output =>
        let layout :=
          if output.isEmpty then scene.layout else scene.layout.write output .line
        (.ok (), { scene with layout }) := by
  rw [renderNode, Compile.node, Compile.item, Compile.filter, hget]
  dsimp only
  rw [heval, if_neg Bool.false_ne_true, htext]
  dsimp only
  cases apply text r.options with
  | error message => rfl
  | ok output => cases output <;> rfl

/-- A filter whose text has code in it is applied when it is rendered. -/
theorem renderNode_deferred (hcodes : Segment.codes written ≠ [])
    (hv : r.evaluator.Answers v (Segment.codes written) scene.state) :
    r.renderNode (.mk line (.filter name written) children) scene =
      let state := r.evaluator.stateAfter (Segment.codes written) scene.state
      match apply (Segment.settledText v written) r.options with
      | .error message => (.error (.render (.filter name message line)), { scene with state })
      | .ok output =>
        let layout :=
          if output.isEmpty then scene.layout else scene.layout.write output .line
        (.ok (), { scene with layout, state }) := by
  have hsteps : Step.ofOps [.act (.filter name written line)] =
      .ok [.act (.filter name written line)] := rfl
  rw [renderNode, Compile.node, Compile.item, Compile.filter, hget]
  dsimp only
  rw [heval, if_neg Bool.false_ne_true, Segment.literalText?_eq_none_iff.mpr hcodes]
  dsimp only
  rw [hsteps]
  dsimp only
  rw [steps_singleton_apply, step, actStep_apply, supply, filter, hget]
  dsimp only
  rw [Outcome.bind_apply, interpolate_apply hv]
  dsimp only
  cases apply (Segment.settledText v written) r.options with
  | error message => rfl
  | ok output => rfl

omit hget

/-- A filter that is left to rendering does what it does at once with the values put in place of
the code. Where it fails, rendering reports what compiling would have reported. -/
theorem renderNode_settle (hv : r.evaluator.Answers v (Segment.codes written) scene.state) :
    let deferred := r.renderNode (.mk line (.filter name written) children) scene
    let folded :=
      r.renderNode (.mk line (.filter name (written.map (Segment.settle v))) children) scene
    (deferred.1 =
        if Segment.codes written = [] then folded.1 else folded.1.mapError .deferred) ∧
      deferred.2.layout = folded.2.layout ∧ deferred.2.halted = folded.2.halted ∧
      ∀ e, folded.1 = .error e → e = .compile (.unregisteredFilter name line) ∨
        ∃ message, e = .compile (.filter name message line) := by
  dsimp only
  have hsettled := Segment.literalText?_map_settle (v := v) written
  cases hget : r.filters.get? name with
  | none =>
    rw [renderNode_unregistered hget, renderNode_unregistered hget]
    exact ⟨(ite_self _).symm, rfl, rfl, fun e he => .inl (Except.error.inj he).symm⟩
  | some apply =>
    rw [renderNode_folded heval hget hsettled]
    by_cases hcodes : Segment.codes written = []
    · rw [Segment.map_settle_of_codes_eq_nil hcodes] at hsettled
      rw [if_pos hcodes, renderNode_folded heval hget hsettled]
      cases apply (Segment.settledText v written) r.options with
      | error message =>
        exact ⟨rfl, rfl, rfl, fun e he => .inr ⟨message, (Except.error.inj he).symm⟩⟩
      | ok output => exact ⟨rfl, rfl, rfl, nofun⟩
    · rw [if_neg hcodes, renderNode_deferred heval hget hcodes hv]
      cases apply (Segment.settledText v written) r.options with
      | error message =>
        exact ⟨rfl, rfl, rfl, fun e he => .inr ⟨message, (Except.error.inj he).symm⟩⟩
      | ok output => exact ⟨rfl, rfl, rfl, nofun⟩

omit heval

/-- A filter that takes one of two texts and refuses the other, both known when it is rendered. -/
theorem renderNode_settle_refused :
    let t : Table := { vars := [("name", .value (.str "<b>")), ("mark", .value (.str "!"))] }
    let calm : Filter := fun text _ => if text.contains '!' then .error "too loud" else .ok text
    let r : Renderer Table.State := ⟨t.evaluator, Registry.empty.register "calm" calm,
      { autoclose := ⟨[]⟩, preserve := ⟨[]⟩ }⟩
    let v : Text → Value := fun code => if code = "name" then .str "<b>" else .str "!"
    let greeting : List Segment := [.literal "Hi ", .expression "name"]
    let scene : Scene Table.State := ⟨{}, none, {}⟩
    let outcome := fun written => r.renderNode (.mk 3 (.filter "calm" written) []) scene
    r.options.suppressEval = false ∧
      r.evaluator.Answers v (Segment.codes (greeting ++ [.expression "mark"])) scene.state ∧
      (outcome greeting).1 = .ok () ∧
      (outcome greeting).2.layout = ({} : Layout).write "Hi <b>" .line ∧
      (outcome (greeting ++ [.expression "mark"])).1 =
        .error (.render (.filter "calm" "too loud" 3)) := by
  intro t calm r v greeting scene outcome
  have hnamed : r.evaluator.Answers v (Segment.codes greeting) scene.state := ⟨rfl, trivial⟩
  have hmarked : r.evaluator.Answers v (Segment.codes (greeting ++ [.expression "mark"]))
      scene.state := ⟨rfl, rfl, trivial⟩
  have hresult : (outcome greeting).1 = .ok () := (renderNode_settle rfl hnamed).1
  have hlayout : (outcome greeting).2.layout = ({} : Layout).write "Hi <b>" .line :=
    (renderNode_settle rfl hnamed).2.1
  exact ⟨rfl, hmarked, hresult, hlayout, (renderNode_settle rfl hmarked).1⟩

end Renderer

end Haml
