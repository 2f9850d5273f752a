import Haml.Proofs.Compile.Nesting
import Haml.Proofs.Layout.Extends
import Haml.Proofs.Render.Block

/-! Nested programs leave the page as deep as they found it. Whatever an evaluator does with the
blocks, a run that goes through has closed what it opened and nothing else, and on the way no
closing end is reached where there is nothing to close. -/

namespace Haml

namespace Action

variable {a : Action} {b : Shape} (format : Format) (text : Text) (l : Layout)

theorem extends_place (ha : a.shape = .plain) : l.Extends (a.place format text l) := by
  cases a with
  | literal _ flow =>
    rcases Flow.eq_of_plain ha with rfl | rfl
    · exact l.extends_append text
    · exact l.extends_line text
  | expr _ _ _ flow _ =>
    rcases Flow.eq_of_plain ha with rfl | rfl
    · exact l.extends_append text
    · exact l.extends_line text
  | openTag _ _ _ _ => cases ha
  | closeTag _ _ => cases ha
  | selfClose name _ nukeOuter _ _ => exact l.extends_selfCloseTag name text nukeOuter format
  | filter _ _ _ =>
    rw [place]
    split
    · exact .refl l
    · exact l.extends_line text
  | doctype _ => exact l.extends_line text

theorem opening_cases (ha : a.shape = .opening b) :
    (b = .part ∧ a.place format text l = l.write text .opening) ∨
      ∃ name flags, b = .element flags ∧ a.place format text l = l.openTag name text flags := by
  cases a with
  | literal _ flow =>
    obtain ⟨rfl, rfl⟩ := Flow.eq_of_opening ha
    exact .inl ⟨rfl, rfl⟩
  | expr _ _ _ flow _ =>
    obtain ⟨rfl, rfl⟩ := Flow.eq_of_opening ha
    exact .inl ⟨rfl, rfl⟩
  | openTag name _ flags _ => exact .inr ⟨name, flags, (Role.opening.inj ha).symm, rfl⟩
  | _ => cases ha

theorem closing_cases (ha : a.shape = .closing b) :
    (b = .part ∧ a.place format text l = l.write text .closing) ∨
      ∃ name flags, b = .element flags ∧ a.place format text l = l.closeTag name flags := by
  cases a with
  | literal _ flow =>
    obtain ⟨rfl, rfl⟩ := Flow.eq_of_closing ha
    exact .inl ⟨rfl, rfl⟩
  | expr _ _ _ flow _ =>
    obtain ⟨rfl, rfl⟩ := Flow.eq_of_closing ha
    exact .inl ⟨rfl, rfl⟩
  | closeTag name flags => exact .inr ⟨name, flags, (Role.closing.inj ha).symm, rfl⟩
  | _ => cases ha

/-- An opening end writes its mark, and then opens what its shape says. -/
theorem exists_inside (ha : a.shape = .opening b) :
    ∃ m, l.Extends m ∧ (m.inside b).Extends (a.place format text l) := by
  rcases opening_cases format text l ha with ⟨rfl, hplace⟩ | ⟨name, flags, rfl, hplace⟩
  · rw [hplace]
    exact ⟨_, l.extends_line text, .refl _⟩
  · refine ⟨_, ((Layout.Extends.refl l).suppressIf flags.nukeOuter).breakLine.append
      ('<' :: name ++ text ++ ['>']), ?_⟩
    rw [hplace, Layout.openTag, Layout.inside]
    cases flags.inline with
    | true => exact .refl _
    | false =>
      cases flags.nukeInner with
      | true => exact (Layout.Extends.refl _).suppress
      | false => exact .refl _

/-- A closing end closes what its shape says, and then writes its mark. -/
theorem outside_extends (ha : a.shape = .closing b) :
    (l.outside b).Extends (a.place format text l) := by
  rcases closing_cases format text l ha with ⟨rfl, hplace⟩ | ⟨name, flags, rfl, hplace⟩
  · rw [hplace]
    exact l.dedent.extends_line text
  · rw [hplace, Layout.closeTag, Layout.outside]
    refine Layout.Extends.suppressIf (Layout.Extends.append ?_ _) _
    cases flags.inline with
    | true => exact .refl _
    | false =>
      cases flags.nukeInner with
      | true => exact (Layout.Extends.refl _).suppress.breakLine
      | false => exact (Layout.Extends.refl _).breakLine

end Action

/-- Is there something to close for a closing end: a region if it closes one, and a level of depth
if it takes one back? -/
def Shape.OpenIn (l : Layout) : Shape → Prop
  | element flags => (flags.preserve = true → l.regions ≠ []) ∧
      (flags.inline = false → flags.nukeInner = false → 0 < l.depth)
  | block => True
  | part => 0 < l.depth

/-- What was opened can be closed. -/
theorem Shape.openIn_of_extends {b : Shape} {l m : Layout} (h : (l.inside b).Extends m) :
    b.OpenIn m := by
  cases b with
  | block => trivial
  | part =>
    rw [OpenIn, h.depth]
    exact Nat.succ_pos _
  | element flags =>
    rw [Layout.inside] at h
    constructor
    · intro hp hm
      have hregions := h.regions
      rw [hp, hm] at hregions
      cases hd : !flags.inline && !flags.nukeInner <;> rw [hd] at hregions <;> cases hregions
    · intro hi hn
      rw [hi, hn] at h
      rw [h.depth]
      exact Nat.succ_pos _

/-- Is what an action closes, if it closes anything, open? -/
def Action.Fits (l : Layout) (a : Action) : Prop := ∀ b, a.shape = .closing b → b.OpenIn l

variable {σ : Type}

/-- The scenes in which the run of a statement asks for its body. -/
def BlockRun.starts (render : Rendering σ Unit) (l : Layout) (halted : Option RenderError) :
    BlockRun σ → List (Scene σ)
  | done _ _ => []
  | body state resume => ⟨l, halted, state⟩ ::
    match render ⟨l, halted, state⟩ with
    | (.ok (), scene) => starts render scene.layout scene.halted (resume true scene.state)
    | (.error e, scene) => starts render scene.layout (some e) (resume false scene.state)

namespace Renderer

variable (r : Renderer σ)

mutual

def reachedIn : Step → Scene σ → List (Action × Layout)
  | .act a, scene => [(a, scene.layout)]
  | .block statement body, scene =>
    ((r.evaluator.runBlock statement scene.state).starts (r.steps body) scene.layout
      scene.halted).flatMap (reached body)

/-- The actions that are reached when steps run, each with the page before it, up to the failure if
there is one. -/
def reached : List Step → Scene σ → List (Action × Layout)
  | [], _ => []
  | first :: rest, scene => reachedIn first scene ++
    match r.step first scene with
    | (.ok (), scene) => reached rest scene
    | (.error _, _) => []

end

variable {r}

theorem mem_reached_append {u v : List Step} {scene : Scene σ} {x : Action × Layout}
    (hx : x ∈ r.reached (u ++ v) scene) : x ∈ r.reached u scene ∨
      ∃ middle, r.steps u scene = (.ok (), middle) ∧ x ∈ r.reached v middle := by
  induction u generalizing scene with
  | nil => exact .inr ⟨scene, r.steps_nil_apply scene, hx⟩
  | cons first u ih =>
    rw [List.cons_append, reached, List.mem_append] at hx
    rw [reached, List.mem_append, steps_cons_apply]
    rcases hx with hx | hx
    · exact .inl (.inl hx)
    · rcases hfirst : r.step first scene with ⟨e | ⟨⟩, scene'⟩
      · rw [hfirst] at hx
        cases hx
      · rw [hfirst] at hx
        rcases ih hx with hx | hx
        · exact .inl (.inr hx)
        · exact .inr hx

theorem reached_singleton (s : Step) (scene : Scene σ) :
    r.reached [s] scene = r.reachedIn s scene := by
  rw [reached]
  rcases r.step s scene with ⟨e | ⟨⟩, scene'⟩ <;> exact List.append_nil _

theorem mem_reached_act {a : Action} {scene : Scene σ} {x : Action × Layout}
    (hx : x ∈ r.reached [.act a] scene) : x = (a, scene.layout) := by
  rw [reached_singleton, reachedIn] at hx
  exact List.mem_singleton.mp hx

theorem mem_reached_block {statement : BlockStatement} {body : List Step} {scene : Scene σ}
    {x : Action × Layout} (hx : x ∈ r.reached [.block statement body] scene) :
    ∃ start, x ∈ r.reached body start := by
  rw [reached_singleton, reachedIn] at hx
  obtain ⟨start, -, hx⟩ := List.mem_flatMap.mp hx
  exact ⟨start, hx⟩

/-- What running nested steps comes to: the page is extended, and nothing is closed on the way that
is not open. -/
structure Balanced (r : Renderer σ) (steps : List Step) : Prop where
  extended : ∀ scene scene', r.steps steps scene = (.ok (), scene') →
    scene.layout.Extends scene'.layout
  fits : ∀ scene, ∀ x ∈ r.reached steps scene, x.1.Fits x.2

theorem balanced_nil : Balanced r [] where
  extended := by
    intro scene scene' h
    rw [steps_nil_apply] at h
    exact congrArg (fun x => x.2.layout) h ▸ .refl _
  fits := by
    intro scene x hx
    cases hx

theorem balanced_plain {a : Action} (ha : a.shape = .plain) : Balanced r [.act a] where
  extended := by
    intro scene scene' h
    obtain ⟨text, state, rfl⟩ := exists_of_act h
    exact a.extends_place _ text scene.layout ha
  fits := by
    intro scene x hx b hb
    rw [mem_reached_act hx, ha] at hb
    cases hb

theorem Balanced.append {u v : List Step} (hu : Balanced r u) (hv : Balanced r v) :
    Balanced r (u ++ v) where
  extended := by
    intro scene scene' h
    obtain ⟨middle, hfirst, hrest⟩ := exists_of_steps_append h
    exact (hu.extended scene middle hfirst).trans (hv.extended middle scene' hrest)
  fits := by
    intro scene x hx
    rcases mem_reached_append hx with hx | ⟨middle, -, hx⟩
    · exact hu.fits scene x hx
    · exact hv.fits middle x hx

theorem Balanced.block {body : List Step} (hbody : Balanced r body) (statement : BlockStatement) :
    Balanced r [.block statement body] where
  extended := by
    intro scene scene' h
    rw [steps_singleton_apply, step] at h
    obtain ⟨after, value, rfl, hnone, rfl⟩ := exists_of_block h
    have hdrive := BlockRun.drive_related Layout.Extends.refl Layout.Extends.trans
      (fun scene scene' h => ⟨hbody.extended scene scene' h, steps_halted body scene scene' h⟩)
      (r.evaluator.runBlock statement scene.state) scene.layout scene.halted hnone
    exact hdrive.2.trans (Layout.extends_writeValue _ statement.output value)
  fits := by
    intro scene x hx
    obtain ⟨start, hx⟩ := mem_reached_block hx
    exact hbody.fits start x hx

/-- The step case of brackets: between its two ends the page is extended on the inside, so that the
closing end finds what the opening end left. -/
theorem Balanced.pair {body : List Step} (hbody : Balanced r body) {first last : Action} {b : Shape}
    (hfirst : first.shape = .opening b) (hlast : last.shape = .closing b) :
    Balanced r (.act first :: body ++ [.act last]) := by
  -- The page at the closing end is the inside of some page `m`, extended.
  have hinside (scene middle : Scene σ)
      (h : r.steps (.act first :: body) scene = (.ok (), middle)) :
      ∃ m, scene.layout.Extends m ∧ (m.inside b).Extends middle.layout := by
    rw [← List.singleton_append] at h
    obtain ⟨opened, hopen, hrest⟩ := exists_of_steps_append h
    obtain ⟨text, state, rfl⟩ := exists_of_act hopen
    obtain ⟨m, hm, hopened⟩ := first.exists_inside r.options.format text scene.layout hfirst
    exact ⟨m, hm, hopened.trans (hbody.extended _ middle hrest)⟩
  constructor
  · intro scene scene' h
    obtain ⟨middle, hmiddle, hclose⟩ := exists_of_steps_append h
    obtain ⟨m, hm, hinner⟩ := hinside scene middle hmiddle
    obtain ⟨text, state, rfl⟩ := exists_of_act hclose
    exact (hm.trans hinner.outside).trans
      (last.outside_extends r.options.format text middle.layout hlast)
  · intro scene x hx
    rcases mem_reached_append hx with hx | ⟨middle, hmiddle, hx⟩
    · rw [← List.singleton_append] at hx
      rcases mem_reached_append hx with hx | ⟨opened, -, hx⟩
      · rw [mem_reached_act hx]
        intro c hc
        rw [hfirst] at hc
        cases hc
      · exact hbody.fits opened x hx
    · rw [mem_reached_act hx]
      intro c hc
      obtain rfl : b = c := Role.closing.inj (hlast.symm.trans hc)
      obtain ⟨m, -, hinner⟩ := hinside scene middle hmiddle
      exact Shape.openIn_of_extends hinner

theorem exists_balanced {ops : List Op} (h : Nested Op.shape ops) :
    ∃ steps, Step.ofOps ops = .ok steps ∧
      ∀ (σ : Type) (r : Renderer σ), Balanced r steps :=
  Step.exists_of_nested (P := fun steps => ∀ (σ : Type) (r : Renderer σ), Balanced r steps)
    (fun _ _ => balanced_nil) (fun _ ha _ _ => balanced_plain ha)
    (fun _ _ _ _ hfirst hlast hbody σ r => (hbody σ r).pair hfirst hlast)
    (fun statement _ hbody σ r => (hbody σ r).block statement)
    (fun _ _ hu hv σ r => (hu σ r).append (hv σ r)) h

end Renderer

/-- Nested programs are balanced. Steps that go through leave the depth, the number of regions and
all buffers around the innermost one as they were, and only add to that one. So in a rendering of a
compiled program no depth is taken back at depth zero and no region is closed where none is open,
whether or not it goes through, and a page that is finished has no region open. -/
theorem Program.nested_balanced :
    (∀ ops : List Op, Nested Op.shape ops → ∃ steps, Step.ofOps ops = .ok steps ∧
      ∀ {σ : Type} (r : Renderer σ) (scene scene' : Scene σ),
        r.steps steps scene = (.ok (), scene') →
        scene'.layout.depth = scene.layout.depth ∧
          scene'.layout.regions.length = scene.layout.regions.length ∧
          scene'.layout.outer = scene.layout.outer ∧
          scene.layout.current.text <+: scene'.layout.current.text) ∧
    ∀ (source : Text) (o : Options) (registry : Registry) (p : Program),
      compile source o registry = .ok p → ∃ steps, Step.ofOps p.ops = .ok steps ∧
      ∀ {σ : Type} (filters : Registry) (ev : Evaluator σ) (state : σ),
        (∀ x ∈ Renderer.reached ⟨ev, filters, p.options⟩ steps ⟨{}, none, state⟩,
          x.1.Fits x.2) ∧
        ∀ html state', p.render filters ev state = (.ok html, state') →
          ∃ scene, Renderer.steps ⟨ev, filters, p.options⟩ steps ⟨{}, none, state⟩ =
            (.ok (), scene) ∧ scene.layout.regions = [] ∧ scene.layout.depth = 0 ∧
            html = scene.layout.finish := by
  constructor
  · intro ops hops
    obtain ⟨steps, hsteps, hbalanced⟩ := Renderer.exists_balanced hops
    refine ⟨steps, hsteps, fun {σ} r scene scene' h => ?_⟩
    have hl := (hbalanced σ r).extended scene scene' h
    exact ⟨hl.depth, hl.regions, hl.outer, hl.current⟩
  · intro source o registry p hp
    obtain ⟨steps, hsteps, hbalanced⟩ :=
      Renderer.exists_balanced (Compile.program_nested hp).shape
    refine ⟨steps, hsteps, fun {σ} filters ev state => ?_⟩
    have hbalanced := hbalanced σ ⟨ev, filters, p.options⟩
    refine ⟨hbalanced.fits ⟨{}, none, state⟩, fun html state' h => ?_⟩
    rw [render_apply hsteps] at h
    rcases hrun : Renderer.steps ⟨ev, filters, p.options⟩ steps ⟨{}, none, state⟩ with
      ⟨e | ⟨⟩, scene⟩
    · rw [hrun] at h
      cases h
    · rw [hrun] at h
      have hl := hbalanced.extended _ scene hrun
      refine ⟨scene, rfl, List.eq_nil_of_length_eq_zero hl.regions, hl.depth, ?_⟩
      exact (Except.ok.inj (congrArg Prod.fst h)).symm

/-- Tags need not bear the same name, and a body may run twice inside a preserved region. -/
theorem Program.nested_balanced_pre :
    (∃ steps, Step.ofOps [.act (.openTag "pre" {} ⟨false, true, true, true⟩ 1),
        .act (.closeTag "code" ⟨false, true, true, true⟩)] = .ok steps ∧
      ∀ (r : Renderer Unit) (scene scene' : Scene Unit),
        r.steps steps scene = (.ok (), scene') →
        scene'.layout.depth = scene.layout.depth ∧
          scene'.layout.regions.length = scene.layout.regions.length) ∧
    ∃ p, compile "%div\n  %pre\n    - twice\n      a\n"
        { autoclose := ⟨["br"]⟩, preserve := ⟨["pre"]⟩ } .builtin = .ok p ∧
      (p.render .builtin ⟨fun _ s => (.ok .nil, s),
        fun _ s => .body s fun _ s => .body s fun _ s => .done (.ok none) s⟩ ()).1 =
        .ok "<div>\n  <pre>a&#x000A;a</pre>\n</div>\n" ∧
      ∃ steps, Step.ofOps p.ops = .ok steps ∧
        ∀ (filters : Registry) (ev : Evaluator Unit),
          ∀ x ∈ Renderer.reached ⟨ev, filters, p.options⟩ steps ⟨{}, none, ()⟩,
            x.1.Fits x.2 := by
  constructor
  · obtain ⟨steps, hsteps, h⟩ := nested_balanced.1 _ <|
      Nested.pair (x := Op.act (.openTag "pre" {} ⟨false, true, true, true⟩ 1))
        (y := Op.act (.closeTag "code" ⟨false, true, true, true⟩)) rfl .nil rfl
    refine ⟨steps, hsteps, fun r scene scene' hrun => ?_⟩
    exact ⟨(h r scene scene' hrun).1, (h r scene scene' hrun).2.1⟩
  · refine Outcome.exists_viewed ?_ fun p hp => ?_
    · decide +kernel
    · obtain ⟨steps, hsteps, h⟩ := nested_balanced.2 _ _ _ p hp
      exact ⟨steps, hsteps, fun filters ev => (h filters ev ()).1⟩

end Haml
