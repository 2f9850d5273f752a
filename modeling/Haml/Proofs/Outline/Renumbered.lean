import Haml.Document
import Mathlib.Data.List.TakeWhile

/-! Outlines and documents with other line numbers. Forests are built of depths alone, so that the
numbers in an outline are those in its forest. -/

namespace Haml

/-- The number of a line where `k` lines were put in behind the first `n`. -/
def shiftBehind (n k line : Nat) : Nat := if line ≤ n then line else line + k

variable {n k line : Nat} (f : Nat → Nat)

theorem shiftBehind_of_le (h : line ≤ n) : shiftBehind n k line = line := if_pos h

theorem shiftBehind_of_lt (h : n < line) : shiftBehind n k line = line + k :=
  if_neg (Nat.not_le.mpr h)

def ReadError.renumbered : ReadError → ReadError
  | lex e => lex { e with line := f e.line }
  | invalid fault line => invalid fault (f line)

theorem ReadError.renumbered_eq_self {e : ReadError} (h : f e.line = e.line) :
    e.renumbered f = e := by
  cases e with
  | lex e => exact congrArg (fun line => lex { e with line }) h
  | invalid fault line => exact congrArg (invalid fault) h

namespace Node

mutual

def renumbered : Node → Node
  | mk line item children => mk (f line) item (renumberedAll children)

def renumberedAll : List Node → List Node
  | [] => []
  | n :: rest => renumbered n :: renumberedAll rest

end

theorem renumberedAll_eq_map (forest : List Node) :
    renumberedAll f forest = forest.map (renumbered f) := by
  induction forest with
  | nil => rw [renumberedAll, List.map_nil]
  | cons n rest ih => rw [renumberedAll, ih, List.map_cons]

theorem isEmpty_renumberedAll (forest : List Node) :
    (renumberedAll f forest).isEmpty = forest.isEmpty := by
  rw [renumberedAll_eq_map, List.isEmpty_map]

end Node

namespace Entry

def renumbered (e : Entry) : Entry := { e with line := f e.line }

def renumberedNode (p : Nat × Node) : Nat × Node := (p.1, p.2.renumbered f)

theorem attach_renumbered (e : Entry) (nodes : List (Nat × Node)) :
    (e.renumbered f).attach (nodes.map (renumberedNode f)) =
      (e.attach nodes).map (renumberedNode f) := by
  have hdeeper : (fun p : Nat × Node => decide (e.depth < p.1)) ∘ renumberedNode f =
      fun p => decide (e.depth < p.1) := rfl
  have hsnd : Prod.snd ∘ renumberedNode f = Node.renumbered f ∘ Prod.snd := rfl
  have hdepth : (e.renumbered f).depth = e.depth := rfl
  rw [attach, attach, hdepth, List.takeWhile_map, List.dropWhile_map, hdeeper, List.map_map, hsnd,
    ← List.map_map, ← Node.renumberedAll_eq_map, List.map_cons, renumberedNode, Node.renumbered]
  rfl

theorem forest_renumbered (entries : List Entry) :
    forest (entries.map (renumbered f)) = (forest entries).map (Node.renumbered f) := by
  have hattach : (entries.map (renumbered f)).foldr attach [] =
      (entries.foldr attach []).map (renumberedNode f) := by
    induction entries with
    | nil => rfl
    | cons e rest ih =>
      rw [List.map_cons, List.foldr_cons, List.foldr_cons, ih, attach_renumbered]
  rw [forest, forest, hattach, List.map_map, List.map_map]
  rfl

end Entry

namespace Outline

/-- What was read, with other line numbers. -/
def renumbered (result : Except ReadError (List Entry)) : Except ReadError (List Entry) :=
  (result.mapError (ReadError.renumbered f)).map (List.map (Entry.renumbered f))

end Outline

end Haml
