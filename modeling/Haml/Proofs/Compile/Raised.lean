import Haml.Proofs.Compile.Renumbered
import Haml.Proofs.Outline.Raised

/-! Compiling lines further down. The operations of a document whose lines are raised are the same
ones on raised lines, and so are its faults. -/

namespace Haml

variable (k : Nat)

namespace Node

mutual

def raised : Node → Node
  | mk line item children => mk (line + k) item (raisedAll children)

def raisedAll : List Node → List Node
  | [] => []
  | n :: rest => raised n :: raisedAll rest

end

mutual

theorem raised_eq (n : Node) : n.raised k = n.renumbered (· + k) := by
  cases n with
  | mk line item children => rw [raised, renumbered, raisedAll_eq children]

theorem raisedAll_eq (forest : List Node) : raisedAll k forest = renumberedAll (· + k) forest := by
  cases forest with
  | nil => rw [raisedAll, renumberedAll]
  | cons n rest => rw [raisedAll, renumberedAll, raised_eq n, raisedAll_eq rest]

end

theorem raisedAll_eq_map (forest : List Node) : raisedAll k forest = forest.map (raised k) := by
  rw [raisedAll_eq, renumberedAll_eq_map, funext (raised_eq k)]

end Node

theorem Entry.raised_eq : raised k = renumbered (· + k) := rfl

theorem Entry.forest_raised (entries : List Entry) :
    forest (entries.map (raised k)) = (forest entries).map (Node.raised k) := by
  rw [raised_eq, forest_renumbered, funext (Node.raised_eq k)]

def BlockStatement.raised (statement : BlockStatement) : BlockStatement :=
  { statement with line := statement.line + k }

def Action.raised : Action → Action
  | expr code escape preserve flow line => expr code escape preserve flow (line + k)
  | openTag name a flags line => openTag name a flags (line + k)
  | selfClose name a nukeOuter nukeInner line => selfClose name a nukeOuter nukeInner (line + k)
  | filter name segments line => filter name segments (line + k)
  | a => a

def Op.raised : Op → Op
  | act a => act (a.raised k)
  | enter statement => enter (statement.raised k)
  | exit => exit

theorem Op.raised_eq : raised k = renumbered (· + k) := by
  funext op
  rcases op with (_ | _ | _ | _ | _ | _ | _) | statement | _ <;> rfl

def CompileError.raised : CompileError → CompileError
  | read e => read (e.raised k)
  | unknownDoctype word line => unknownDoctype word (line + k)
  | unregisteredFilter name line => unregisteredFilter name (line + k)
  | filter name message line => filter name message (line + k)

theorem ReadError.raised_eq : raised k = renumbered (· + k) := by
  funext e
  cases e <;> rfl

theorem CompileError.raised_eq : raised k = renumbered (· + k) := by
  funext e
  cases e with
  | read e => exact congrArg read (congrFun (ReadError.raised_eq k) e)
  | _ => rfl

namespace Compile

def raised (result : Except CompileError (List Op)) : Except CompileError (List Op) :=
  (result.mapError (CompileError.raised k)).map (List.map (Op.raised k))

theorem nodes_raised {o : Options} {r : Registry} (forest : List Node) :
    nodes o r (Node.raisedAll k forest) = raised k (nodes o r forest) := by
  rw [Node.raisedAll_eq, nodes_renumbered, raised, CompileError.raised_eq, Op.raised_eq]
  rfl

end Compile

end Haml
