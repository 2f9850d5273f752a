import Haml.Evaluator

/-! An evaluator that looks code up in tables. Expressions have a value or a failure each, blocks an
entry that says how often their body runs and in which scope. It keeps a record of what it was
asked. -/

namespace Haml.Table

/-- What an expression comes to. -/
inductive Answer
  | value (v : Value)
  | fails (e : EvalError)

/-- Answers by code. -/
abbrev Scope := List (Text × Answer)

/-- How a block runs: only if its condition holds, once in each of the scopes; then it fails or
returns. A failure of its body ends it unless it swallows failures. -/
structure Block where
  condition : Option Text := none
  runs : List Scope := []
  swallow : Bool := false
  failure : Option Text := none
  returns : Option Value := none

/-- A record of one request. -/
inductive Call
  | evaluate (code : Text)
  | enter (statement : BlockStatement)
  deriving DecidableEq, Repr

/-- The open scopes, the innermost first, and the requests so far. -/
structure State where
  scopes : List Scope := []
  calls : List Call := []

def State.record (s : State) (call : Call) : State := { s with calls := s.calls ++ [call] }

end Table

/-- The answers outside all scopes, and the blocks by their code. -/
structure Table where
  vars : Table.Scope := []
  blocks : List (Text × Table.Block) := []

namespace Table

/-- The answer for code in the innermost scope that has one. -/
def find? (t : Table) (scopes : List Scope) (code : Text) : Option Answer :=
  (scopes ++ [t.vars]).findSome? (·.lookup code)

def evaluate (t : Table) (code : Text) (s : State) : Except EvalError Value × State :=
  (match t.find? s.scopes code with
    | some (.value v) => .ok v
    | some (.fails e) => .error e
    | none => .error (.failed ("undefined `" ++ code ++ "`")), s.record (.evaluate code))

namespace Block

/-- What a block comes to after its runs. -/
def result (b : Block) : Except EvalError (Option Value) :=
  match b.failure with
  | some message => .error (.failed message)
  | none => .ok b.returns

/-- Asks for the body once in each scope. -/
def runAll (b : Block) : List Scope → State → BlockRun State
  | [], s => .done b.result s
  | scope :: rest, s =>
    .body { s with scopes := scope :: s.scopes } fun through s =>
      let s := { s with scopes := s.scopes.tail }
      if through || b.swallow then runAll b rest s else .done (.error .halted) s

/-- Runs a block: its condition first, if it has one. -/
def run (t : Table) (b : Block) (s : State) : BlockRun State :=
  match b.condition with
  | none => b.runAll b.runs s
  | some code =>
    match t.evaluate code s with
    | (.error e, s) => .done (.error e) s
    | (.ok v, s) => b.runAll (if v.isTruthy then b.runs else []) s

end Block

def runBlock (t : Table) (statement : BlockStatement) (s : State) : BlockRun State :=
  let s := s.record (.enter statement)
  match t.blocks.lookup statement.code with
  | none => .done (.error (.failed ("unknown block `" ++ statement.code ++ "`"))) s
  | some b => b.run t s

def evaluator (t : Table) : Evaluator State := ⟨t.evaluate, t.runBlock⟩

end Haml.Table
