import Haml.Evaluator.Table
import Haml.Proofs.Attribute.Alike
import Haml.Proofs.Compile.Escaped
import Haml.Proofs.Layout.Marks
import Haml.Proofs.Program.Place
import Haml.Proofs.Render.Block

/-! Rendering twice, with texts for values that may be others the second time. Where output is
escaped, both renderings fail or both go through, and the pages have the same markup: the text of a
value can reach the page, but no angle bracket in it does. -/

namespace Haml

variable {σ τ : Type}

section Outcome

variable {ε ε' α α' β β' : Type} {A : α → β → Prop} {B : α' → β' → Prop} {G : σ → τ → Prop}

/-- Both have failed, or both have gone through with results in relation. The states are in relation
either way. -/
inductive Outcome.Alike (A : α → β → Prop) (G : σ → τ → Prop) :
    Except ε α × σ → Except ε' β × τ → Prop
  | failed {e : ε} {e' : ε'} {s : σ} {t : τ} (h : G s t) : Alike A G (.error e, s) (.error e', t)
  | through {a : α} {b : β} {s : σ} {t : τ} (hab : A a b) (h : G s t) :
      Alike A G (.ok a, s) (.ok b, t)

/-- Work that comes to alike outcomes from states in relation. -/
def AlikeFrom (G : σ → τ → Prop) (A : α → β → Prop) (m : σ → Except ε α × σ)
    (n : τ → Except ε' β × τ) : Prop := ∀ s t, G s t → Outcome.Alike A G (m s) (n t)

namespace AlikeFrom

theorem pure {a : α} {b : β} (h : A a b) : AlikeFrom G A
    (Pure.pure a : ExceptT ε (StateM σ) α) (Pure.pure b : ExceptT ε' (StateM τ) β) :=
  fun _ _ hst => .through h hst

theorem throw (e : ε) (e' : ε') : AlikeFrom G A
    (MonadExcept.throw e : ExceptT ε (StateM σ) α)
    (MonadExcept.throw e' : ExceptT ε' (StateM τ) β) :=
  fun _ _ hst => .failed hst

theorem bind {m : ExceptT ε (StateM σ) α} {n : ExceptT ε' (StateM τ) β}
    {f : α → ExceptT ε (StateM σ) α'} {g : β → ExceptT ε' (StateM τ) β'}
    (hmn : AlikeFrom G A m n) (hfg : ∀ a b, A a b → AlikeFrom G B (f a) (g b)) :
    AlikeFrom G B (m >>= f) (n >>= g) := by
  intro s t hst
  have hfirst := hmn s t hst
  rw [Outcome.bind_apply, Outcome.bind_apply]
  generalize m s = x at hfirst ⊢
  generalize n t = y at hfirst ⊢
  cases hfirst with
  | failed h => exact .failed h
  | @through a b s t hab h => exact hfg a b hab s t h

end AlikeFrom

end Outcome

/-- Runs that ask for the body at the same times, and return two texts or nothing. -/
inductive BlockRun.Alike (G : σ → τ → Prop) : BlockRun σ → BlockRun τ → Prop
  | done {result result' : Except EvalError (Option Value)} {s : σ} {t : τ}
      (h : Outcome.Alike (Option.Rel Value.BothTexts) G (result, s) (result', t)) :
      Alike G (.done result s) (.done result' t)
  | body {s : σ} {t : τ} {resume : Bool → σ → BlockRun σ} {resume' : Bool → τ → BlockRun τ}
      (h : G s t)
      (hresume : ∀ through s t, G s t → Alike G (resume through s) (resume' through t)) :
      Alike G (.body s resume) (.body t resume')

structure Renderer.Alike (G : σ → τ → Prop) (r : Renderer σ) (r' : Renderer τ) : Prop where
  options : r'.options = r.options
  evaluate : ∀ code, AlikeFrom G Value.BothTexts (r.evaluator.evaluate code)
    (r'.evaluator.evaluate code)
  runBlock : ∀ statement s t, G s t →
    (r.evaluator.runBlock statement s).Alike G (r'.evaluator.runBlock statement t)

/-- Scenes with the same markup, where a failure is set aside in both or in neither. -/
structure Scene.Alike (G : σ → τ → Prop) (scene : Scene σ) (scene' : Scene τ) : Prop where
  marks : scene.layout.marks = scene'.layout.marks
  halted : scene.halted.isSome = scene'.halted.isSome
  state : G scene.state scene'.state

variable {G : σ → τ → Prop}

/-- A value that is escaped is written without markup. -/
theorem Value.markup_output (v : Value) (preserve : Bool) :
    Text.markup (v.output true preserve) = [] := by
  unfold output
  cases preserve with
  | false => exact Entity.markup_escape v.text
  | true => exact (Entity.markup_preserve _).trans (Entity.markup_escape v.text)

/-- Alike runs of alike bodies. -/
theorem BlockRun.Alike.drive {m : Rendering σ Unit} {n : Rendering τ Unit}
    (hbody : AlikeFrom (Scene.Alike G) Eq m n) {run : BlockRun σ} {run' : BlockRun τ}
    (h : run.Alike G run') {l l' : Layout} (hmarks : l.marks = l'.marks)
    {halted halted' : Option RenderError} (hhalted : halted.isSome = halted'.isSome) :
    Outcome.Alike (Option.Rel Value.BothTexts) (Scene.Alike G) (run.drive m l halted)
      (run'.drive n l' halted') := by
  induction h generalizing l l' halted halted' with
  | done h =>
    cases h with
    | failed hst => exact .failed ⟨hmarks, hhalted, hst⟩
    | through hvalues hst => exact .through hvalues ⟨hmarks, hhalted, hst⟩
  | @body s t resume resume' h hresume ih =>
    have hscenes := hbody ⟨l, halted, s⟩ ⟨l', halted', t⟩ ⟨hmarks, hhalted, h⟩
    rw [BlockRun.drive, BlockRun.drive]
    generalize m ⟨l, halted, s⟩ = x at hscenes ⊢
    generalize n ⟨l', halted', t⟩ = y at hscenes ⊢
    cases hscenes with
    | failed hscene => exact ih false _ _ hscene.state hscene.marks rfl
    | @through u v scene scene' huv hscene =>
      cases u
      cases v
      exact ih true _ _ hscene.state hscene.marks hscene.halted

namespace Renderer

/-- What a block returns adds no markup if it is escaped. -/
theorem marks_writeValue_congr {l l' : Layout} (hmarks : l.marks = l'.marks)
    {output : Option BlockOutput} (hescaped : ∀ o ∈ output, o.escape = true)
    {v w : Option Value} (hvw : Option.Rel Value.BothTexts v w) :
    (writeValue l output v).marks = (writeValue l' output w).marks := by
  cases output with
  | none => exact hmarks
  | some o =>
    cases hvw with
    | none => exact hmarks
    | @some v w hvw =>
      unfold writeValue
      dsimp only
      rw [Layout.marks_write, Layout.marks_write, hescaped o rfl, Value.markup_output,
        Value.markup_output, hmarks]

namespace Alike

variable {r : Renderer σ} {r' : Renderer τ}

section

variable (h : r.Alike G r')

include h

theorem ask (line : Nat) (code : Text) :
    AlikeFrom G Value.BothTexts (r.ask line code) (r'.ask line code) := by
  intro s t hst
  have hanswers := h.evaluate code s t hst
  unfold Renderer.ask
  generalize r.evaluator.evaluate code s = x at hanswers ⊢
  generalize r'.evaluator.evaluate code t = y at hanswers ⊢
  cases hanswers with
  | failed hst => exact .failed hst
  | through hvw hst => exact .through hvw hst

theorem interpolate (line : Nat) (segments : List Segment) :
    AlikeFrom G (fun _ _ => True) (r.interpolate line segments) (r'.interpolate line segments) := by
  induction segments with
  | nil => exact .pure trivial
  | cons segment rest ih =>
    cases segment with
    | literal text => exact ih.bind fun _ _ _ => .pure trivial
    | expression code =>
      exact (h.ask line code).bind fun _ _ _ => ih.bind fun _ _ _ => .pure trivial

theorem qualifier (line : Nat) (q : Option Qualifier) :
    AlikeFrom G (fun _ _ => True) (r.qualifier line q) (r'.qualifier line q) := by
  rcases q with _ | text | code
  · exact .pure trivial
  · exact .pure trivial
  · exact (h.ask line code).bind fun _ _ _ => .pure trivial

/-- A text is neither an object nor a map, so that both renderings fail where one is called for. -/
theorem part (line : Nat) {b c : Bag} (hbags : b.Alike c) (part : AttributePart) :
    AlikeFrom G Bag.Alike (r.part line b part) (r'.part line c part) := by
  cases part with
  | object code q =>
    refine (h.qualifier line q).bind fun q q' _ => (h.ask line code).bind fun v w hvw => ?_
    cases hvw with
    | str s t => exact .throw _ _
  | literal name value => exact .pure (hbags.set name (.inl rfl))
  | interpolated name segments =>
    exact (h.interpolate line segments).bind fun s t _ => .pure (hbags.set name (.inr (.str s t)))
  | expr name code => exact (h.ask line code).bind fun v w hvw => .pure (hbags.set name (.inr hvw))
  | hash code =>
    refine (h.ask line code).bind fun v w hvw => ?_
    cases hvw with
    | str s t => exact .throw _ _

theorem parts (line : Nat) {b c : Bag} (hbags : b.Alike c) (parts : List AttributePart) :
    AlikeFrom G Bag.Alike (parts.foldlM (r.part line) b) (parts.foldlM (r'.part line) c) := by
  induction parts generalizing b c with
  | nil => exact .pure hbags
  | cons part parts ih =>
    rw [List.foldlM_cons, List.foldlM_cons]
    exact (h.part line hbags part).bind fun _ _ hbags => ih hbags

variable (hquote : Text.isBracket r.options.attrWrapper = false)

include hquote

theorem attributes (line : Nat) (a : Attributes) :
    AlikeFrom G (fun t u => Text.markup t = Text.markup u) (r.attributes line a)
      (r'.attributes line a) := by
  unfold Renderer.attributes
  rw [h.options]
  exact (h.parts line a.base.alike_refl a.parts).bind fun _ _ hbags =>
    .pure (hbags.markup_render hquote)

theorem supply {a : Action} (ha : (Op.act a).Escaped) :
    AlikeFrom G (fun t u => Text.markup t = Text.markup u) (r.supply a) (r'.supply a) := by
  cases a with
  | literal text flow => exact .pure rfl
  | expr code escape preserve flow line =>
    obtain rfl : escape = true := ha
    exact (h.ask line code).bind fun v w _ =>
      .pure ((v.markup_output preserve).trans (w.markup_output preserve).symm)
  | openTag name a flags line => exact h.attributes hquote line a
  | closeTag name flags => exact .pure rfl
  | selfClose name a nukeOuter nukeInner line => exact h.attributes hquote line a
  | filter name segments line => cases ha
  | doctype text => exact .pure rfl

theorem actStep {a : Action} (ha : (Op.act a).Escaped) :
    AlikeFrom (Scene.Alike G) Eq (r.actStep a) (r'.actStep a) := by
  intro scene scene' hscene
  have hsupply := h.supply hquote ha scene.state scene'.state hscene.state
  rw [actStep_apply, actStep_apply, h.options]
  generalize r.supply a scene.state = x at hsupply ⊢
  generalize r'.supply a scene'.state = y at hsupply ⊢
  cases hsupply with
  | failed hst => exact .failed ⟨hscene.marks, hscene.halted, hst⟩
  | through htext hst =>
    have hmarks := Layout.marks_place_congr hscene.marks htext r.options.format a
    exact .through rfl ⟨hmarks, hscene.halted, hst⟩

omit hquote in
theorem block {statement : BlockStatement} (hstatement : (Op.enter statement).Escaped)
    {m : Rendering σ Unit} {n : Rendering τ Unit} (hbody : AlikeFrom (Scene.Alike G) Eq m n) :
    AlikeFrom (Scene.Alike G) Eq (r.block statement m) (r'.block statement n) := by
  intro scene scene' hscene
  have hrun := h.runBlock statement scene.state scene'.state hscene.state
  have hdrive := hrun.drive hbody hscene.marks hscene.halted
  unfold Renderer.block
  generalize (r.evaluator.runBlock statement scene.state).drive m scene.layout scene.halted = x
    at hdrive ⊢
  generalize (r'.evaluator.runBlock statement scene'.state).drive n scene'.layout scene'.halted = y
    at hdrive ⊢
  obtain ⟨result, l, halted, s⟩ := x
  obtain ⟨result', l', halted', t⟩ := y
  obtain ⟨hmarks, hhalted, hst⟩ : Scene.Alike G ⟨l, halted, s⟩ ⟨l', halted', t⟩ := by
    cases hdrive <;> assumption
  cases halted with
  | some e =>
    obtain ⟨e', rfl⟩ := Option.isSome_iff_exists.mp hhalted.symm
    exact .failed ⟨hmarks, rfl, hst⟩
  | none =>
    obtain rfl : halted' = none :=
      Option.isNone_iff_eq_none.mp (Option.isSome_eq_false_iff.mp hhalted.symm)
    cases hdrive with
    | failed hend => exact .failed hend
    | through hvalues hend =>
      exact .through rfl ⟨marks_writeValue_congr hmarks hstatement hvalues, rfl, hst⟩

end

mutual

theorem step (h : r.Alike G r') (hquote : Text.isBracket r.options.attrWrapper = false) (s : Step)
    (hs : ∀ op ∈ s.toOps, op.Escaped) : AlikeFrom (Scene.Alike G) Eq (r.step s) (r'.step s) := by
  cases s with
  | act a =>
    rw [Renderer.step, Renderer.step]
    exact h.actStep hquote (List.forall_mem_singleton.mp hs)
  | block statement body =>
    rw [Step.toOps] at hs
    obtain ⟨hblock, -⟩ := List.forall_mem_append.mp hs
    obtain ⟨hstatement, hbody⟩ := List.forall_mem_cons.mp hblock
    rw [Renderer.step, Renderer.step]
    exact h.block hstatement (steps h hquote body hbody)

/-- Escaped steps, rendered twice. -/
theorem steps (h : r.Alike G r') (hquote : Text.isBracket r.options.attrWrapper = false)
    (steps : List Step) (hsteps : ∀ op ∈ Step.allToOps steps, op.Escaped) :
    AlikeFrom (Scene.Alike G) Eq (r.steps steps) (r'.steps steps) := by
  cases steps with
  | nil =>
    rw [Renderer.steps, Renderer.steps]
    exact .pure rfl
  | cons first rest =>
    obtain ⟨hfirst, hrest⟩ := List.forall_mem_append.mp hsteps
    rw [Renderer.steps, Renderer.steps]
    exact (step h hquote first hfirst).bind fun _ _ _ => Alike.steps h hquote rest hrest

end

/-- Escaped operations, rendered twice. Nothing runs in either unless all blocks are paired. -/
theorem render (h : r.Alike G r') (hquote : Text.isBracket r.options.attrWrapper = false)
    {ops : List Op} (hops : ∀ op ∈ ops, op.Escaped) {s : σ} {t : τ} (hst : G s t) :
    Outcome.Alike (fun html html' => Text.markup html = Text.markup html') G (r.render ops s)
      (r'.render ops t) := by
  unfold Renderer.render
  cases hsteps : Step.ofOps ops with
  | error index => exact .failed hst
  | ok steps =>
    obtain rfl := Step.ofOps_eq_ok_iff.mp hsteps
    have hscenes := h.steps hquote steps hops ⟨{}, none, s⟩ ⟨{}, none, t⟩ ⟨rfl, rfl, hst⟩
    dsimp only
    generalize r.steps steps ⟨{}, none, s⟩ = x at hscenes ⊢
    generalize r'.steps steps ⟨{}, none, t⟩ = y at hscenes ⊢
    cases hscenes with
    | failed hscene => exact .failed hscene.state
    | @through u v scene scene' huv hscene =>
      cases u
      cases v
      have hmarks := congrArg (·.reverse.flatten) hscene.marks
      have hpages := (scene.layout.markup_finish.trans hmarks).trans
        scene'.layout.markup_finish.symm
      exact .through hpages hscene.state

end Alike

end Renderer

end Haml
