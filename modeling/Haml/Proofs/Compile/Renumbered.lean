import Haml.Compile
import Haml.Proofs.Outline.Renumbered

/-! Compiling documents with other line numbers. The operations are the same ones on lines with the
other numbers, and so are the faults. -/

namespace Haml

variable (f : Nat → Nat)

def BlockStatement.renumbered (statement : BlockStatement) : BlockStatement :=
  { statement with line := f statement.line }

def Action.renumbered : Action → Action
  | expr code escape preserve flow line => expr code escape preserve flow (f line)
  | openTag name a flags line => openTag name a flags (f line)
  | selfClose name a nukeOuter nukeInner line => selfClose name a nukeOuter nukeInner (f line)
  | filter name segments line => filter name segments (f line)
  | a => a

def Op.renumbered : Op → Op
  | act a => act (a.renumbered f)
  | enter statement => enter (statement.renumbered f)
  | exit => exit

def CompileError.renumbered : CompileError → CompileError
  | read e => read (e.renumbered f)
  | unknownDoctype word line => unknownDoctype word (f line)
  | unregisteredFilter name line => unregisteredFilter name (f line)
  | filter name message line => filter name message (f line)

namespace Compile

def renumbered (result : Except CompileError (List Op)) : Except CompileError (List Op) :=
  (result.mapError (CompileError.renumbered f)).map (List.map (Op.renumbered f))

variable {o : Options} {r : Registry} {line : Nat}

theorem map_renumbered {g h : List Op → List Op}
    (heq : ∀ ops, h (ops.map (Op.renumbered f)) = (g ops).map (Op.renumbered f))
    (body : Except CompileError (List Op)) :
    (renumbered f body).map h = renumbered f (body.map g) := by
  cases body with
  | error e => rfl
  | ok ops => exact congrArg Except.ok (heq ops)

theorem segments_renumbered (escape : Escape) (flow : Flow) (written : List Segment) :
    segments o escape (f line) flow written =
      (segments o escape line flow written).map (Op.renumbered f) := by
  fun_induction segments o escape line flow written with
  | case1 => rfl
  | case2 flow text rest ih => rw [segments, ih]; rfl
  | case3 flow code rest hs ih => rw [segments, if_pos hs, ih]
  | case4 flow code rest hs ih => rw [segments, if_neg hs, ih]; rfl

theorem script_renumbered (flow : Flow) (s : Script) :
    script o (f line) flow s = (script o line flow s).renumbered f := by
  unfold script
  split <;> rfl

theorem content_renumbered (c : Content) :
    content o (f line) c = (content o line c).map (Op.renumbered f) := by
  cases c with
  | none => rfl
  | text written => exact segments_renumbered f .configured .inline written
  | script s => exact congrArg (fun op => [op]) (script_renumbered f .inline s)

variable (body : Except CompileError (List Op))

theorem block_renumbered (statement : BlockStatement) :
    block o (statement.renumbered f) (renumbered f body) =
      renumbered f (block o statement body) := by
  unfold block
  split
  · rfl
  · apply map_renumbered
    intro ops
    simp [Op.renumbered]

theorem element_renumbered (e : Element) (childless : Bool) :
    element o (f line) e childless (renumbered f body) =
      renumbered f (element o line e childless body) := by
  unfold element
  dsimp only
  split
  · rfl
  · apply map_renumbered
    intro ops
    simp [content_renumbered, Op.renumbered, Action.renumbered]

theorem comment_renumbered (condition text : Option Text) (childless : Bool) :
    comment condition text childless (renumbered f body) =
      renumbered f (comment condition text childless body) := by
  unfold comment
  cases text with
  | some text => rfl
  | none =>
    dsimp only
    split
    · rfl
    · apply map_renumbered
      intro ops
      simp [Op.renumbered, Action.renumbered]

theorem filter_renumbered (name : Text) (written : List Segment) :
    filter o r (f line) name written = renumbered f (filter o r line name written) := by
  unfold filter
  cases r.get? name with
  | none => rfl
  | some apply =>
    dsimp only
    cases Segment.literalText? (if o.suppressEval = true then
      written.filter Segment.isLiteral else written) with
    | none => rfl
    | some text =>
      dsimp only
      rcases apply text o with message | _ | ⟨c, output⟩ <;> rfl

theorem doctype_renumbered (args : Text) :
    doctype o (f line) args = renumbered f (doctype o line args) := by
  unfold doctype
  rcases Doctype.resolve args o with word | _ | text <;> rfl

theorem item_renumbered (childless : Bool) (i : Item) :
    item o r (f line) childless (renumbered f body) i =
      renumbered f (item o r line childless body i) := by
  cases i with
  | element e => exact element_renumbered f body e childless
  | text written escape => exact congrArg Except.ok (segments_renumbered f escape .line written)
  | script s =>
    rw [item, item]
    split
    · exact congrArg (fun op => Except.ok [op]) (script_renumbered f .line s)
    · exact block_renumbered f body
        ⟨s.code, false, some ⟨s.escape.resolve o.escapeHtml, s.preserve⟩, line⟩
  | silent code => exact block_renumbered f body ⟨code, continuesBlock code, none, line⟩
  | comment condition text => exact comment_renumbered f body condition text childless
  | filter name written => exact filter_renumbered f name written
  | doctype args => exact doctype_renumbered f args

mutual

theorem node_renumbered (n : Node) : node o r (n.renumbered f) = renumbered f (node o r n) := by
  cases n with
  | mk line i children =>
    rw [Node.renumbered, node, node, Node.isEmpty_renumberedAll, nodes_renumbered children]
    exact item_renumbered f (nodes o r children) children.isEmpty i

theorem nodes_renumbered (forest : List Node) :
    nodes o r (Node.renumberedAll f forest) = renumbered f (nodes o r forest) := by
  cases forest with
  | nil =>
    rw [Node.renumberedAll, nodes]
    rfl
  | cons n rest =>
    rw [Node.renumberedAll, nodes, nodes, node_renumbered n, nodes_renumbered rest]
    rcases node o r n with e | first
    · rfl
    · rcases nodes o r rest with e | more
      · rfl
      · exact congrArg Except.ok List.map_append.symm

end

end Compile

end Haml
