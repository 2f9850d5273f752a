import Haml.Proofs.Nested
import Haml.Proofs.Program.Steps

/-! The brackets of programs: the two tags of an element, the two ends of a block, and the two
pieces of output around an indented part. A program that is nested has steps, and they are nested on
every level. -/

namespace Haml

/-- What two operations hold between them. A part stands between literals, an evaluated part between
values. -/
inductive Bracket
  | tag (name : Text) (flags : TagFlags)
  | block
  | part
  | evaluatedPart
  deriving DecidableEq, Repr

/-- What the page sees of a bracket. -/
inductive Shape
  | element (flags : TagFlags)
  | block
  | part
  deriving DecidableEq, Repr

def Bracket.shape : Bracket → Shape
  | tag _ flags => .element flags
  | block => .block
  | part => .part
  | evaluatedPart => .part

/-- The role of output with a flow, where it is an end of the given bracket if it is one at all. -/
def Flow.role (b : Bracket) : Flow → Role Bracket
  | inline => .plain
  | line => .plain
  | opening => .opening b
  | closing => .closing b

def Action.role : Action → Role Bracket
  | literal _ flow => flow.role .part
  | expr _ _ _ flow _ => flow.role .evaluatedPart
  | openTag name _ flags _ => .opening (.tag name flags)
  | closeTag name flags => .closing (.tag name flags)
  | selfClose _ _ _ _ _ => .plain
  | filter _ _ _ => .plain
  | doctype _ => .plain

def Op.role : Op → Role Bracket
  | act action => action.role
  | enter _ => .opening .block
  | exit => .closing .block

def Action.shape (a : Action) : Role Shape := a.role.relabel fun b => some b.shape

def Op.shape (op : Op) : Role Shape := op.role.relabel fun b => some b.shape

theorem Nested.shape {ops : List Op} (h : Nested Op.role ops) : Nested Op.shape ops :=
  h.relabel fun b => some b.shape

section Flow

variable {flow : Flow} {c : Bracket} {b : Shape}

theorem Flow.eq_of_plain (h : (flow.role c).relabel (fun b => some b.shape) = .plain) :
    flow = .inline ∨ flow = .line := by
  cases flow with
  | inline => exact .inl rfl
  | line => exact .inr rfl
  | _ => cases h

theorem Flow.eq_of_opening (h : (flow.role c).relabel (fun b => some b.shape) = .opening b) :
    flow = .opening ∧ b = c.shape := by
  cases flow with
  | opening => exact ⟨rfl, (Role.opening.inj h).symm⟩
  | _ => cases h

theorem Flow.eq_of_closing (h : (flow.role c).relabel (fun b => some b.shape) = .closing b) :
    flow = .closing ∧ b = c.shape := by
  cases flow with
  | closing => exact ⟨rfl, (Role.closing.inj h).symm⟩
  | _ => cases h

end Flow

theorem Action.shape_ne_block (a : Action) :
    a.shape ≠ .opening .block ∧ a.shape ≠ .closing .block := by
  cases a with
  | literal _ flow => cases flow <;> exact ⟨nofun, nofun⟩
  | expr _ _ _ flow _ => cases flow <;> exact ⟨nofun, nofun⟩
  | _ => exact ⟨nofun, nofun⟩

namespace Step

/-- A property of runs of steps holds of the steps of a nested program if it holds of none, of an
action that is no bracket and of a block whose body has it, and if concatenation and putting
brackets around keep it. -/
theorem exists_of_nested {P : List Step → Prop} (nil : P [])
    (plain : ∀ a : Action, a.shape = .plain → P [act a])
    (pair : ∀ (first last : Action) (b : Shape) (body : List Step), first.shape = .opening b →
      last.shape = .closing b → P body → P (act first :: body ++ [act last]))
    (block : ∀ (statement : BlockStatement) (body : List Step), P body → P [block statement body])
    (append : ∀ u v : List Step, P u → P v → P (u ++ v)) {ops : List Op}
    (h : Nested Op.shape ops) : ∃ steps, ofOps ops = .ok steps ∧ P steps := by
  -- Steps that are written out can be joined, which steps that are read cannot.
  suffices ∃ steps, allToOps steps = ops ∧ P steps by
    obtain ⟨steps, rfl, hP⟩ := this
    exact ⟨steps, ofOps_allToOps steps, hP⟩
  induction h with
  | nil => exact ⟨[], rfl, nil⟩
  | @plain op hop =>
    cases op with
    | act a => exact ⟨[act a], rfl, plain a hop⟩
    | enter statement => cases hop
    | exit => cases hop
  | @pair first last b body hfirst _ hlast ih =>
    obtain ⟨steps, rfl, hP⟩ := ih
    cases first with
    | act a =>
      cases last with
      | act z =>
        refine ⟨act a :: steps ++ [act z], ?_, pair a z b steps hfirst hlast hP⟩
        rw [allToOps_append, allToOps, allToOps_singleton]
        rfl
      | enter statement => cases hlast
      | exit =>
        obtain rfl : Shape.block = b := Role.closing.inj hlast
        exact absurd hfirst a.shape_ne_block.1
    | enter statement =>
      obtain rfl : Shape.block = b := Role.opening.inj hfirst
      cases last with
      | act z => exact absurd hlast z.shape_ne_block.2
      | enter statement => cases hlast
      | exit => exact ⟨[.block statement steps], allToOps_singleton _, block statement steps hP⟩
    | exit => cases hfirst
  | append _ _ ihu ihv =>
    obtain ⟨u, rfl, hu⟩ := ihu
    obtain ⟨v, rfl, hv⟩ := ihv
    exact ⟨u ++ v, allToOps_append u v, append u v hu hv⟩

theorem exists_ofOps_of_nested {ops : List Op} (h : Nested Op.shape ops) :
    ∃ steps, ofOps ops = .ok steps := by
  obtain ⟨steps, hsteps, -⟩ := exists_of_nested (P := fun _ => True) trivial
    (fun _ _ => trivial) (fun _ _ _ _ _ _ _ => trivial) (fun _ _ _ => trivial)
    (fun _ _ _ _ => trivial) h
  exact ⟨steps, hsteps⟩

end Step

end Haml
