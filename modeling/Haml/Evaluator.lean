import Haml.Program

/-! Evaluators give code its meaning. One evaluates expressions and runs the statements that own a
block: it may ask for the block's body any number of times, and learns of each run only whether it
went through. -/

namespace Haml

/-- How evaluation fails: with a message, or because a body it ran did. -/
inductive EvalError
  | failed (message : Text)
  | halted
  deriving DecidableEq, Repr

def EvalError.message : EvalError → Text
  | failed message => message
  | halted => "rendering halted"

/-- The run of a statement with a block: done, with a value or without, or asking for the body. The
evaluator goes on from the state that the body leaves, knowing whether the body went through. -/
inductive BlockRun (σ : Type)
  | done (result : Except EvalError (Option Value)) (state : σ)
  | body (state : σ) (resume : Bool → σ → BlockRun σ)

/-- An evaluator with states in `σ`. -/
structure Evaluator (σ : Type) where
  evaluate : Text → σ → Except EvalError Value × σ
  runBlock : BlockStatement → σ → BlockRun σ

end Haml
