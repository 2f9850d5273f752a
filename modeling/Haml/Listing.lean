import Haml.Program
import Haml.Text.Quoted

/-! Listings of programs: one line for each operation, with its index, indented by the blocks that
are open around it. Attributes are shown as the default options render them. -/

namespace Haml

def Flow.name : Flow → Text
  | inline => "Inline"
  | line => "Line"
  | opening => "Open"
  | closing => "Close"

def Action.describe : Action → Text
  | literal text flow => "EmitLiteral " ++ Quoted.encode text ++ " (" ++ flow.name ++ ")"
  | expr code escape preserve flow _ =>
    "EmitExpr `" ++ code ++ "` escape=" ++ Text.ofBool escape ++ " preserve=" ++
      Text.ofBool preserve ++ " (" ++ flow.name ++ ")"
  | openTag name attributes flags _ =>
    "OpenTag " ++ name ++ attributes.base.render {} ++ " parts=" ++
      Text.ofNat attributes.parts.length ++ " nuke_outer=" ++ Text.ofBool flags.nukeOuter ++
      " nuke_inner=" ++ Text.ofBool flags.nukeInner ++ " inline=" ++ Text.ofBool flags.inline
  | closeTag name _ => "CloseTag " ++ name
  | selfClose name attributes nukeOuter nukeInner _ =>
    "SelfCloseTag " ++ name ++ attributes.base.render {} ++ " parts=" ++
      Text.ofNat attributes.parts.length ++ " nuke_outer=" ++ Text.ofBool nukeOuter ++
      " nuke_inner=" ++ Text.ofBool nukeInner
  | filter name segments _ =>
    "ApplyFilter :" ++ name ++ " (" ++ Text.ofNat segments.length ++ " segments)"
  | doctype text => "EmitDoctype " ++ text

def Op.describe : Op → Text
  | act action => action.describe
  | enter statement =>
    "EnterBlock `" ++ statement.code ++ "`" ++ (if statement.continues then " (continues)" else "")
  | exit => "ExitBlock"

namespace Listing

/-- A number moved to the right end of four columns. -/
def index (n : Nat) : Text :=
  let digits := Text.ofNat n
  List.replicate (4 - digits.length) ' ' ++ digits

/-- The line of an operation with `depth` blocks open around it. -/
def line (n depth : Nat) (op : Op) : Text :=
  index n ++ "  " ++ List.replicate (2 * depth) ' ' ++ op.describe ++ ['\n']

/-- The blocks open around an operation, and those open after it. -/
def depths (depth : Nat) : Op → Nat × Nat
  | .act _ => (depth, depth)
  | .enter _ => (depth, depth + 1)
  | .exit => (depth - 1, depth - 1)

/-- The lines of operations numbered from `n` on. -/
def lines (n depth : Nat) : List Op → List Text
  | [] => []
  | op :: rest => line n (depths depth op).1 op :: lines (n + 1) (depths depth op).2 rest

end Listing

def Program.listing (p : Program) : Text := (Listing.lines 0 0 p.ops).flatten

end Haml
