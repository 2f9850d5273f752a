import Haml.Proofs.Program.Steps
import Haml.Proofs.Render.Calls
import Mathlib.Data.List.Forall2

/-! Static operations. An action without code supplies a text of its own, so that a program of such
actions gives the same page with every evaluator and asks none for anything. -/

namespace Haml

/-- Has an action no code in it? -/
def Action.isStatic : Action → Bool
  | literal _ _ => true
  | expr _ _ _ _ _ => false
  | openTag _ a _ _ => a.isStatic
  | closeTag _ _ => true
  | selfClose _ a _ _ _ => a.isStatic
  | filter _ _ _ => false
  | doctype _ => true

def Op.isStatic : Op → Bool
  | act a => a.isStatic
  | enter _ => false
  | exit => false

def Op.AllStatic (ops : List Op) : Prop := ∀ op ∈ ops, op.isStatic = true

theorem Op.allStatic_nil : AllStatic [] := nofun

theorem Op.AllStatic.cons {op : Op} {ops : List Op} (hop : op.isStatic = true)
    (h : AllStatic ops) : AllStatic (op :: ops) := List.forall_mem_cons.mpr ⟨hop, h⟩

theorem Op.AllStatic.append {u v : List Op} (hu : AllStatic u) (hv : AllStatic v) :
    AllStatic (u ++ v) := List.forall_mem_append.mpr ⟨hu, hv⟩

theorem Op.allStatic_singleton {op : Op} (hop : op.isStatic = true) : AllStatic [op] :=
  allStatic_nil.cons hop

/-- The text that a static action supplies. -/
def Action.text (o : Options) : Action → Text
  | literal text _ => text
  | openTag _ a _ _ => a.base.render o
  | selfClose _ a _ _ _ => a.base.render o
  | doctype text => text
  | _ => []

/-- The page after static actions. -/
def Layout.play (o : Options) (l : Layout) (actions : List Action) : Layout :=
  actions.foldl (fun l a => a.place o.format (a.text o) l) l

theorem Op.AllStatic.exists_actions {ops : List Op} (h : AllStatic ops) :
    ∃ actions : List Action, ops = actions.map .act ∧ ∀ a ∈ actions, a.isStatic = true := by
  induction ops with
  | nil => exact ⟨[], rfl, nofun⟩
  | cons op ops ih =>
    obtain ⟨hop, hops⟩ := List.forall_mem_cons.mp h
    obtain ⟨actions, rfl, hactions⟩ := ih hops
    cases op with
    | act a => exact ⟨a :: actions, rfl, List.forall_mem_cons.mpr ⟨hop, hactions⟩⟩
    | enter statement => cases hop
    | exit => cases hop

variable {σ : Type}

namespace Renderer

variable (r : Renderer σ)

theorem attributes_static {a : Attributes} (ha : a.isStatic = true) (line : Nat) :
    r.attributes line a = pure (a.base.render r.options) := by
  rw [attributes, List.isEmpty_iff.mp ha, List.foldlM_nil, pure_bind]

theorem supply_static {a : Action} (ha : a.isStatic = true) :
    r.supply a = pure (a.text r.options) := by
  cases a with
  | openTag name a flags line => exact r.attributes_static ha line
  | selfClose name a nukeOuter nukeInner line => exact r.attributes_static ha line
  | expr code escape preserve flow line => cases ha
  | filter name segments line => cases ha
  | literal text flow => rfl
  | closeTag name flags => rfl
  | doctype text => rfl

end Renderer

/-- A static action that does what another one does, whatever the evaluator. -/
structure Action.Settles (a b : Action) : Prop where
  static : b.isStatic = true
  supply : ∀ {σ : Type} (r : Renderer σ), r.supply a = pure (b.text r.options)
  place : ∀ format text l, a.place format text l = b.place format text l

theorem Action.Settles.refl {a : Action} (h : a.isStatic = true) : a.Settles a where
  static := h
  supply r := r.supply_static h
  place _ _ _ := rfl

namespace Renderer

variable (r : Renderer σ)

theorem steps_settled {actions settled : List Action}
    (h : List.Forall₂ Action.Settles actions settled) (scene : Scene σ) :
    r.steps (actions.map .act) scene =
      (.ok (), { scene with layout := scene.layout.play r.options settled }) := by
  induction h generalizing scene with
  | nil => exact r.steps_nil_apply scene
  | @cons a b actions settled ha hactions ih =>
    rw [List.map_cons, steps_cons_apply, step, actStep_apply, ha.supply r]
    change r.steps (actions.map .act) _ = _
    rw [ih, ha.place]
    rfl

theorem steps_static {actions : List Action} (h : ∀ a ∈ actions, a.isStatic = true)
    (scene : Scene σ) : r.steps (actions.map .act) scene =
      (.ok (), { scene with layout := scene.layout.play r.options actions }) :=
  r.steps_settled (List.forall₂_same.mpr fun a ha => .refl (h a ha)) scene

end Renderer

/-- A program gives the page of the actions that settle its own, whatever the evaluator, and leaves
the evaluator alone. -/
theorem Program.render_settled {p : Program} {actions settled : List Action}
    (hops : p.ops = actions.map .act) (h : List.Forall₂ Action.Settles actions settled)
    (filters : Registry) (ev : Evaluator σ) (state : σ) :
    p.render filters ev state = (.ok (Layout.play p.options {} settled).finish, state) := by
  have hsteps : Step.ofOps p.ops = .ok (actions.map .act) := by
    rw [hops]
    exact Step.ofOps_actions actions
  rw [render_apply hsteps, Renderer.steps_settled _ h]

theorem Program.render_static {p : Program} {actions : List Action}
    (hops : p.ops = actions.map .act) (h : ∀ a ∈ actions, a.isStatic = true) (filters : Registry)
    (ev : Evaluator σ) (state : σ) :
    p.render filters ev state = (.ok (Layout.play p.options {} actions).finish, state) :=
  render_settled hops (List.forall₂_same.mpr fun a ha => .refl (h a ha)) filters ev state

end Haml
