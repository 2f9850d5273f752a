import Haml.Render
import Haml.Proofs.Outcome

/-! Actions in two halves. The evaluator and the filters supply a text, whatever the page is like;
where the text goes does not depend on what they did to supply it. -/

namespace Haml

/-- A failure of what a program does, not of its blocks. -/
def RenderError.FromRun (e : RenderError) : Prop := ∀ index, e ≠ .unbalancedBlock index

theorem RenderError.fromRun_evaluation (message code : Text) (line : Nat) :
    (evaluation message code line).FromRun := nofun

theorem RenderError.fromRun_filter (name message : Text) (line : Nat) :
    (filter name message line).FromRun := nofun

/-- Where the text that is supplied for an action goes. -/
def Action.place (format : Format) (text : Text) (l : Layout) : Action → Layout
  | literal _ flow => l.write text flow
  | expr _ _ _ flow _ => l.write text flow
  | openTag name _ flags _ => l.openTag name text flags
  | closeTag name flags => l.closeTag name flags
  | selfClose name _ nukeOuter _ _ => l.selfCloseTag name text nukeOuter format
  | filter _ _ _ => if text.isEmpty then l else l.write text .line
  | doctype _ => l.write text .line

variable {σ τ : Type}

namespace Renderer

variable (r : Renderer σ)

/-- The text that an action puts on the page, a closing tag none besides its name. -/
def supply : Action → Asking σ Text
  | .literal text _ => return text
  | .expr code escape preserve _ line => return (← r.ask line code).output escape preserve
  | .openTag _ a _ line => r.attributes line a
  | .closeTag _ _ => return []
  | .selfClose _ a _ _ line => r.attributes line a
  | .filter name segments line => r.filter line name segments
  | .doctype text => return text

theorem act_eq (l : Layout) (a : Action) :
    r.act l a = (fun text => a.place r.options.format text l) <$> r.supply a := by
  cases a with
  | expr code escape preserve flow line => rw [act, supply, map_bind]; rfl
  | openTag name a flags line => rw [act, supply, map_eq_pure_bind]; rfl
  | selfClose name a nukeOuter nukeInner line => rw [act, supply, map_eq_pure_bind]; rfl
  | filter name segments line => rw [act, supply, map_eq_pure_bind]; rfl
  | literal text flow => rfl
  | closeTag name flags => rfl
  | doctype text => rfl

/-- A step that is an action puts its text in place, or fails and leaves the page alone. -/
theorem actStep_apply (a : Action) (scene : Scene σ) :
    r.actStep a scene = match r.supply a scene.state with
      | (.ok text, s) =>
        (.ok (), { scene with layout := a.place r.options.format text scene.layout, state := s })
      | (.error e, s) => (.error e, { scene with state := s }) := by
  rw [actStep, act_eq, Outcome.map_apply]
  rcases r.supply a scene.state with ⟨e | text, s⟩ <;> rfl

end Renderer

/-! A text is supplied by asking for values, one after the other, and by failing. So what relates
the answers of two renderers, and is kept by putting work together, relates their texts. -/

/-- A relation of works that results, failures and composition keep. -/
structure Asking.Compatible (R : (α : Type) → Asking σ α → Asking τ α → Prop) : Prop where
  pure : ∀ {α : Type} (a : α), R α (pure a) (pure a)
  throw : ∀ {α : Type} (e : RenderError), e.FromRun → R α (throw e) (throw e)
  bind : ∀ {α β : Type} {m : Asking σ α} {n : Asking τ α} {f : α → Asking σ β}
    {g : α → Asking τ β}, R α m n → (∀ a, R β (f a) (g a)) → R β (m >>= f) (n >>= g)

namespace Renderer

variable {r : Renderer σ} {r' : Renderer τ} {R : (α : Type) → Asking σ α → Asking τ α → Prop}
  (hR : Asking.Compatible R)
  (hask : ∀ line code, R Value (r.ask line code) (r'.ask line code))

include hR hask

theorem interpolate_related (line : Nat) (segments : List Segment) :
    R Text (r.interpolate line segments) (r'.interpolate line segments) := by
  induction segments with
  | nil => exact hR.pure _
  | cons segment rest ih =>
    cases segment with
    | literal text => exact hR.bind ih fun more => hR.pure _
    | expression code => exact hR.bind (hask line code) fun v => hR.bind ih fun more => hR.pure _

theorem qualifier_related (line : Nat) (q : Option Qualifier) :
    R (Option Text) (r.qualifier line q) (r'.qualifier line q) := by
  rcases q with _ | text | code
  · exact hR.pure _
  · exact hR.pure _
  · exact hR.bind (hask line code) fun value => hR.pure _

theorem part_related (line : Nat) (b : Bag) (part : AttributePart) :
    R Bag (r.part line b part) (r'.part line b part) := by
  cases part with
  | object code q =>
    refine hR.bind (qualifier_related hR hask line q) fun q => ?_
    refine hR.bind (hask line code) fun value => ?_
    split
    · exact hR.pure _
    · exact hR.pure _
    · exact hR.throw _ (RenderError.fromRun_evaluation _ _ _)
  | literal name value => exact hR.pure _
  | interpolated name segments =>
    exact hR.bind (interpolate_related hR hask line segments) fun text => hR.pure _
  | expr name code => exact hR.bind (hask line code) fun value => hR.pure _
  | hash code =>
    refine hR.bind (hask line code) fun value => ?_
    split
    · exact hR.pure _
    · exact hR.pure _
    · exact hR.throw _ (RenderError.fromRun_evaluation _ _ _)

theorem parts_related (line : Nat) (b : Bag) (parts : List AttributePart) :
    R Bag (parts.foldlM (r.part line) b) (parts.foldlM (r'.part line) b) := by
  induction parts generalizing b with
  | nil => exact hR.pure b
  | cons part parts ih =>
    rw [List.foldlM_cons, List.foldlM_cons]
    exact hR.bind (part_related hR hask line b part) ih

variable (hoptions : r'.options = r.options)

include hoptions

theorem attributes_related (line : Nat) (a : Attributes) :
    R Text (r.attributes line a) (r'.attributes line a) := by
  rw [attributes, attributes, hoptions]
  exact hR.bind (parts_related hR hask line a.base a.parts) fun b => hR.pure _

variable (hfilters : r'.filters = r.filters)

include hfilters

theorem filter_related (line : Nat) (name : Text) (segments : List Segment) :
    R Text (r.filter line name segments) (r'.filter line name segments) := by
  unfold filter
  rw [hoptions, hfilters]
  split
  · exact hR.throw _ (RenderError.fromRun_filter _ _ _)
  · refine hR.bind (interpolate_related hR hask line segments) fun text => ?_
    split
    · exact hR.pure _
    · exact hR.throw _ (RenderError.fromRun_filter _ _ _)

theorem supply_related (a : Action) : R Text (r.supply a) (r'.supply a) := by
  cases a with
  | literal text flow => exact hR.pure _
  | expr code escape preserve flow line =>
    exact hR.bind (hask line code) fun value => hR.pure _
  | openTag name a flags line => exact attributes_related hR hask hoptions line a
  | closeTag name flags => exact hR.pure _
  | selfClose name a nukeOuter nukeInner line => exact attributes_related hR hask hoptions line a
  | filter name segments line => exact filter_related hR hask hoptions hfilters line name segments
  | doctype text => exact hR.pure _

end Renderer

end Haml
