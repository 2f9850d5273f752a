import Haml.Evaluator
import Haml.Filter
import Haml.Layout
import Haml.Program.Step

/-! Rendering a program. Actions ask the evaluator for values and write to the page; blocks hand
their body to the evaluator. A failure inside a body is set aside while the evaluator unwinds, and
is the failure of the next block that ends. -/

namespace Haml

inductive RenderError
  | evaluation (message code : Text) (line : Nat)
  | filter (name message : Text) (line : Nat)
  | unbalancedBlock (index : Nat)
  deriving DecidableEq, Repr

def RenderError.message : RenderError → Text
  | evaluation message code line =>
    "Evaluation error at line " ++ Text.ofNat line ++ " in `" ++ code ++ "`: " ++ message
  | filter name message line =>
    "Filter error at line " ++ Text.ofNat line ++ " in `:" ++ name ++ "`: " ++ message
  | unbalancedBlock index => "Unbalanced block at operation " ++ Text.ofNat index

/-- Work that asks an evaluator for values and may fail. It changes the evaluator's state only. -/
abbrev Asking (σ : Type) := ExceptT RenderError (StateM σ)

/-- A value as it is written: escaped, then preserved, as far as each is asked for. -/
def Value.output (v : Value) (escape preserve : Bool) : Text :=
  let text := if escape then Entity.escape v.text else v.text
  if preserve then Entity.preserve text else text

/-- What rendering works with, besides the program's operations. -/
structure Renderer (σ : Type) where
  evaluator : Evaluator σ
  filters : Registry
  options : Options

namespace Renderer

variable {σ : Type} (r : Renderer σ)

/-- The value of code on a line. -/
def ask (line : Nat) (code : Text) : Asking σ Value := fun s =>
  match r.evaluator.evaluate code s with
  | (.ok value, s) => (.ok value, s)
  | (.error e, s) => (.error (.evaluation e.message code line), s)

/-- The text of segments, with values as they are. -/
def interpolate (line : Nat) : List Segment → Asking σ Text
  | [] => pure []
  | .literal text :: rest => return text ++ (← interpolate line rest)
  | .expression code :: rest => do
    let value ← r.ask line code
    return value.text ++ (← interpolate line rest)

/-- The text of a qualifier. -/
def qualifier (line : Nat) : Option Qualifier → Asking σ (Option Text)
  | none => pure none
  | some (.literal text) => pure (some text)
  | some (.code code) => return some (← r.ask line code).text

/-- Applies a part to a bag. An object reference takes an object and a hash a map; nil contributes
nothing to either. -/
def part (line : Nat) (b : Bag) : AttributePart → Asking σ Bag
  | .object code q => do
    let q ← r.qualifier line q
    match ← r.ask line code with
    | .object o => return b.addObject o q
    | .nil => return b
    | other =>
      throw (.evaluation ("object reference got `" ++ other.text ++ "`, not an object") code line)
  | .literal name value => return b.set name value
  | .interpolated name segments => return b.set name (.str (← r.interpolate line segments))
  | .expr name code => return b.set name (← r.ask line code)
  | .hash code => do
    match ← r.ask line code with
    | .map entries => return b.merge entries
    | .nil => return b
    | other =>
      throw (.evaluation ("attribute hash got `" ++ other.text ++ "`, not a map") code line)

/-- The attributes of a tag, as they stand in it. -/
def attributes (line : Nat) (a : Attributes) : Asking σ Text := do
  let b ← a.parts.foldlM (r.part line) a.base
  return b.render r.options

/-- The output of a filter whose text has code in it. -/
def filter (line : Nat) (name : Text) (segments : List Segment) : Asking σ Text :=
  match r.filters.get? name with
  | none => throw (.filter name "unregistered filter" line)
  | some apply => do
    match apply (← r.interpolate line segments) r.options with
    | .ok output => return output
    | .error message => throw (.filter name message line)

/-- The page after an action. -/
def act (l : Layout) : Action → Asking σ Layout
  | .literal text flow => return l.write text flow
  | .expr code escape preserve flow line => do
    return l.write ((← r.ask line code).output escape preserve) flow
  | .openTag name a flags line => return l.openTag name (← r.attributes line a) flags
  | .closeTag name flags => return l.closeTag name flags
  | .selfClose name a nukeOuter _ line =>
    return l.selfCloseTag name (← r.attributes line a) nukeOuter r.options.format
  | .filter name segments line => do
    let output ← r.filter line name segments
    return if output.isEmpty then l else l.write output .line
  | .doctype text => return l.write text .line

end Renderer

/-- Where rendering stands: the page, the failure of a body that is set aside, and the evaluator's
state. -/
structure Scene (σ : Type) where
  layout : Layout
  halted : Option RenderError
  state : σ

/-- A change of scene that may fail. -/
abbrev Rendering (σ : Type) := ExceptT RenderError (StateM (Scene σ))

/-- Goes through the run of a statement, rendering the body each time it is asked for. -/
def BlockRun.drive {σ : Type} (render : Rendering σ Unit) (l : Layout)
    (halted : Option RenderError) : BlockRun σ → Except EvalError (Option Value) × Scene σ
  | done result state => (result, ⟨l, halted, state⟩)
  | body state resume =>
    match render ⟨l, halted, state⟩ with
    | (.ok (), scene) =>
      drive render scene.layout scene.halted (resume true scene.state)
    | (.error e, scene) => drive render scene.layout (some e) (resume false scene.state)

namespace Renderer

variable {σ : Type} (r : Renderer σ)

def actStep (action : Action) : Rendering σ Unit := fun scene =>
  match r.act scene.layout action scene.state with
  | (.ok l, state) => (.ok (), { scene with layout := l, state })
  | (.error e, state) => (.error e, { scene with state })

/-- Writes the value of a block, if there is one and it is to be written. -/
def writeValue (l : Layout) (output : Option BlockOutput) (value : Option Value) : Layout :=
  match output, value with
  | some output, some value => l.write (value.output output.escape output.preserve) .line
  | _, _ => l

/-- Runs a block. A failure that was set aside comes before what the evaluator says. -/
def block (statement : BlockStatement) (body : Rendering σ Unit) : Rendering σ Unit :=
  fun scene =>
    match (r.evaluator.runBlock statement scene.state).drive body scene.layout scene.halted with
    | (result, scene) =>
      match scene.halted, result with
      | some e, _ => (.error e, { scene with halted := none })
      | none, .error e =>
        (.error (.evaluation e.message statement.code statement.line), scene)
      | none, .ok value =>
        (.ok (), { scene with layout := writeValue scene.layout statement.output value })

mutual

def step : Step → Rendering σ Unit
  | .act action => r.actStep action
  | .block statement body => r.block statement (steps body)

def steps : List Step → Rendering σ Unit
  | [] => pure ()
  | first :: rest => do
    step first
    steps rest

end

/-- Renders operations from a state of the evaluator. Nothing runs unless all blocks are paired. -/
def render (ops : List Op) (state : σ) : Except RenderError Text × σ :=
  match Step.ofOps ops with
  | .error index => (.error (.unbalancedBlock index), state)
  | .ok steps =>
    match r.steps steps ⟨{}, none, state⟩ with
    | (.ok (), scene) => (.ok scene.layout.finish, scene.state)
    | (.error e, scene) => (.error e, scene.state)

end Renderer

/-- Renders a program with filters for what was left to rendering. -/
def Program.render {σ : Type} (p : Program) (filters : Registry) (ev : Evaluator σ) (state : σ) :
    Except RenderError Text × σ :=
  Renderer.render ⟨ev, filters, p.options⟩ p.ops state

end Haml
