import Haml.Program

/-! The block structure of a program. Steps are actions and whole blocks; the operations of a
program are the steps written out, and `ofOps` finds the steps again or the operation that stands
alone. -/

namespace Haml

inductive Step
  | act (action : Action)
  | block (statement : BlockStatement) (body : List Step)

namespace Step

mutual

def toOps : Step → List Op
  | act action => [.act action]
  | block statement body => .enter statement :: allToOps body ++ [.exit]

def allToOps : List Step → List Op
  | [] => []
  | step :: rest => step.toOps ++ allToOps rest

end

/-- A block that is open: where it was entered, its statement, and the steps before it on its level,
in reverse. -/
structure Opened where
  index : Nat
  statement : BlockStatement
  before : List Step

/-- Reads operations numbered from `index` on, inside the blocks that are open, the innermost first,
and behind the steps read on the current level, in reverse. Fails with the index of an exit that
leaves no block, or of the last entry that is never left. -/
def read (index : Nat) (blocks : List Opened) (steps : List Step) :
    List Op → Except Nat (List Step)
  | [] =>
    match blocks with
    | [] => .ok steps.reverse
    | opened :: _ => .error opened.index
  | .act action :: rest => read (index + 1) blocks (act action :: steps) rest
  | .enter statement :: rest => read (index + 1) (⟨index, statement, steps⟩ :: blocks) [] rest
  | .exit :: rest =>
    match blocks with
    | [] => .error index
    | opened :: blocks =>
      read (index + 1) blocks (block opened.statement steps.reverse :: opened.before) rest

/-- The steps of operations, or the index of an operation whose other end is missing. -/
def ofOps (ops : List Op) : Except Nat (List Step) := read 0 [] [] ops

end Step

end Haml
