import Haml.Listing
import Haml.Proofs.Compile.Unbroken
import Haml.Proofs.Program.Steps

/-! Listings of programs. The listing of steps that are written out has a piece for each operation,
indented by the blocks around it, and a piece is a line unless what is shown of its operation has a
line feed in it. Literals are shown in quotes and have none; attributes are shown as they are, with
the line feeds in their names and values. -/

namespace Haml

namespace Step

mutual

/-- The operations of a step with `depth` blocks around it, each with the number of blocks that are
open around it. -/
def placed (depth : Nat) : Step → List (Nat × Op)
  | act action => [(depth, .act action)]
  | block statement body =>
    (depth, .enter statement) :: allPlaced (depth + 1) body ++ [(depth, .exit)]

def allPlaced (depth : Nat) : List Step → List (Nat × Op)
  | [] => []
  | step :: rest => placed depth step ++ allPlaced depth rest

end

mutual

theorem placed_ops (step : Step) (depth : Nat) : (step.placed depth).map Prod.snd = step.toOps := by
  cases step with
  | act action => rfl
  | block statement body =>
    have hbody := allPlaced_ops body (depth + 1)
    simp [placed, toOps, hbody]

theorem allPlaced_ops (steps : List Step) (depth : Nat) :
    (allPlaced depth steps).map Prod.snd = allToOps steps := by
  cases steps with
  | nil => rfl
  | cons step steps =>
    rw [allPlaced, allToOps, List.map_append, placed_ops step, allPlaced_ops steps]

end

end Step

namespace Listing

/-- The pieces of a listing for operations with their depths, numbered from `n` on. -/
def pieces (n : Nat) (placed : List (Nat × Op)) : List Text :=
  (placed.zipIdx n).map fun (q, i) => line i q.1 q.2

theorem pieces_cons (n : Nat) (q : Nat × Op) (rest : List (Nat × Op)) :
    pieces n (q :: rest) = line n q.1 q.2 :: pieces (n + 1) rest := by
  simp [pieces]

theorem pieces_append (n : Nat) (u v : List (Nat × Op)) :
    pieces n (u ++ v) = pieces n u ++ pieces (n + u.length) v := by
  simp [pieces, List.zipIdx_append]

mutual

/-- The lines of a step are its pieces, and the depth behind it is that before it. -/
theorem lines_toOps (step : Step) (n depth : Nat) (rest : List Op) :
    lines n depth (step.toOps ++ rest) =
      pieces n (step.placed depth) ++ lines (n + step.toOps.length) depth rest := by
  cases step with
  | act action => rfl
  | block statement body =>
    have hops : (Step.block statement body).toOps ++ rest =
        .enter statement :: (Step.allToOps body ++ .exit :: rest) := by simp [Step.toOps]
    have hlength : n + (Step.block statement body).toOps.length =
        n + 1 + (Step.allToOps body).length + 1 := by simp [Step.toOps]; omega
    have hplaced : (Step.allPlaced (depth + 1) body).length = (Step.allToOps body).length := by
      rw [← Step.allPlaced_ops body (depth + 1), List.length_map]
    have henter : lines n depth (.enter statement :: (Step.allToOps body ++ .exit :: rest)) =
        line n depth (.enter statement) ::
          lines (n + 1) (depth + 1) (Step.allToOps body ++ .exit :: rest) := rfl
    have hexit (m : Nat) : lines m (depth + 1) (.exit :: rest) =
        line m depth .exit :: lines (m + 1) depth rest := rfl
    rw [hops, henter, lines_allToOps body, hexit, hlength, Step.placed, List.cons_append,
      pieces_cons, pieces_append, hplaced, pieces_cons]
    simp [pieces]

theorem lines_allToOps (steps : List Step) (n depth : Nat) (rest : List Op) :
    lines n depth (Step.allToOps steps ++ rest) =
      pieces n (Step.allPlaced depth steps) ++
        lines (n + (Step.allToOps steps).length) depth rest := by
  cases steps with
  | nil => rfl
  | cons step steps =>
    have hplaced : (step.placed depth).length = step.toOps.length := by
      rw [← Step.placed_ops step depth, List.length_map]
    rw [Step.allToOps, List.append_assoc, lines_toOps step, lines_allToOps steps, Step.allPlaced,
      pieces_append, hplaced, List.append_assoc, List.length_append, Nat.add_assoc]

end

end Listing

theorem Program.listing_of_allToOps {p : Program} {steps : List Step}
    (h : p.ops = Step.allToOps steps) :
    p.listing = (Listing.pieces 0 (Step.allPlaced 0 steps)).flatten := by
  have hlines := Listing.lines_allToOps steps 0 0 []
  rw [List.append_nil] at hlines
  rw [listing, h, hlines, Listing.lines, List.append_nil]

/-! A piece is a line where its operation is shown on one. -/

theorem Text.not_mem_toDigits {base : Nat} (hbase : 1 < base) (hle : base ≤ 16) (n : Nat) :
    '\n' ∉ Nat.toDigits base n := by
  have hdigits : ∀ d : Fin 16, '\n' ∉ [d.val.digitChar] := by decide
  induction n using Nat.strongRecOn with
  | ind n ih =>
    rw [Nat.toDigits_eq_if hbase]
    split
    · next hlt => exact hdigits ⟨n, hlt.trans_le hle⟩
    · have hlt : n / base < n := Nat.div_lt_self (by omega) hbase
      have hmod : n % base < base := Nat.mod_lt n (by omega)
      exact List.not_mem_append (ih _ hlt) (hdigits ⟨n % base, hmod.trans_le hle⟩)

theorem Text.not_mem_ofNat (n : Nat) : '\n' ∉ ofNat n := not_mem_toDigits (by decide) (by decide) n

theorem Text.not_mem_ofBool (b : Bool) : '\n' ∉ ofBool b := by cases b <;> decide

theorem Quoted.not_mem_encode (t : Text) : '\n' ∉ encode t := by
  have hcode (c : Char) : '\n' ∉ codePoint c :=
    List.not_mem_append
      (List.not_mem_append (by decide) (Text.not_mem_toDigits (by decide) le_rfl _)) (by decide)
  have hchar (c : Char) : '\n' ∉ ofChar c := by
    unfold ofChar
    split_ifs with _ _ hfeed
    all_goals first
      | exact hcode c
      | decide
      | exact List.not_mem_cons_of_ne_of_not_mem (Ne.symm hfeed) List.not_mem_nil
  have hbody : '\n' ∉ t.flatMap ofChar := by
    intro hmem
    obtain ⟨c, -, hc⟩ := List.mem_flatMap.mp hmem
    exact hchar c hc
  rw [encode]
  simp [hbody]

namespace Listing

theorem not_mem_index (n : Nat) : '\n' ∉ index n := by
  have hblank : '\n' ∉ List.replicate (4 - (Text.ofNat n).length) ' ' := by simp
  exact List.not_mem_append hblank (Text.not_mem_ofNat n)

/-- Besides the line feed at its end, a piece has those that its operation is shown with. -/
theorem count_line (n depth : Nat) (op : Op) :
    (line n depth op).count '\n' = op.describe.count '\n' + 1 := by
  have hindex := List.count_eq_zero_of_not_mem (not_mem_index n)
  simp [line, hindex, List.count_replicate]

theorem le_count_lines (n depth : Nat) (ops : List Op) :
    ops.length ≤ (lines n depth ops).flatten.count '\n' := by
  induction ops generalizing n depth with
  | nil => exact Nat.zero_le _
  | cons op ops ih =>
    have hrest := ih (n + 1) (depths depth op).2
    rw [lines, List.flatten_cons, List.count_append, count_line, List.length_cons]
    omega

/-- There are as many line feeds as operations if and only if each is shown on one line. -/
theorem count_lines_iff (n depth : Nat) (ops : List Op) :
    (lines n depth ops).flatten.count '\n' = ops.length ↔ ∀ op ∈ ops, '\n' ∉ op.describe := by
  induction ops generalizing n depth with
  | nil => simp [lines]
  | cons op ops ih =>
    have hle := le_count_lines (n + 1) (depths depth op).2 ops
    rw [List.forall_mem_cons, ← ih (n + 1) (depths depth op).2, ← List.count_eq_zero, lines,
      List.flatten_cons, List.count_append, count_line, List.length_cons]
    omega

end Listing

/-! Attributes and doctypes are all that can keep an operation from being shown on one line. -/

/-- No line feed in the code and the names of an operation. -/
def Op.Legible : Op → Prop
  | act (.literal _ _) => True
  | act (.expr code _ _ _ _) => '\n' ∉ code
  | act (.openTag name _ _ _) => '\n' ∉ name
  | act (.closeTag name _) => '\n' ∉ name
  | act (.selfClose name _ _ _ _) => '\n' ∉ name
  | act (.filter name _ _) => '\n' ∉ name
  | act (.doctype _) => True
  | enter statement => '\n' ∉ statement.code
  | exit => True

/-- No line feed in the attributes of a tag that are known beforehand, and none in a doctype. -/
def Op.Plain : Op → Prop
  | act (.openTag _ attributes _ _) => attributes.base.Unbroken
  | act (.selfClose _ attributes _ _ _) => attributes.base.Unbroken
  | act (.doctype text) => '\n' ∉ text
  | _ => True

theorem Flow.not_mem_name (flow : Flow) : '\n' ∉ flow.name := by cases flow <;> decide

/-- Where names and code are on one line, an operation is shown on one if it is plain. -/
theorem Op.not_mem_describe_iff {op : Op} (h : op.Legible) : '\n' ∉ op.describe ↔ op.Plain := by
  have hrender (b : Bag) : '\n' ∉ b.render {} ↔ b.Unbroken :=
    Bag.not_mem_render_iff (show ({} : Options).attrWrapper ≠ '\n' by decide)
  have hfixed {s : String} (hs : '\n' ∉ s.toList) : '\n' ∈ s.toList ↔ False := iff_false_intro hs
  cases op with
  | act a =>
    change '\n' ∉ a.describe ↔ (act a).Plain
    unfold Action.describe
    cases a with
    | literal text flow =>
      simp (disch := decide) only [List.mem_append, hfixed, Quoted.not_mem_encode,
        Flow.not_mem_name, or_false, not_false_iff, Plain]
    | expr code escape preserve flow line =>
      have hcode : '\n' ∉ code := h
      simp (disch := decide) only [List.mem_append, hfixed, hcode, Text.not_mem_ofBool,
        Flow.not_mem_name, or_false, not_false_iff, Plain]
    | openTag name attributes flags line =>
      have hname : '\n' ∉ name := h
      simp (disch := decide) only [List.mem_append, hfixed, hname, Text.not_mem_ofBool,
        Text.not_mem_ofNat, or_false, false_or, hrender, Plain]
    | closeTag name flags =>
      have hname : '\n' ∉ name := h
      simp (disch := decide) only [List.mem_append, hfixed, hname, or_false, not_false_iff, Plain]
    | selfClose name attributes nukeOuter nukeInner line =>
      have hname : '\n' ∉ name := h
      simp (disch := decide) only [List.mem_append, hfixed, hname, Text.not_mem_ofBool,
        Text.not_mem_ofNat, or_false, false_or, hrender, Plain]
    | filter name segments line =>
      have hname : '\n' ∉ name := h
      simp (disch := decide) only [List.mem_append, hfixed, hname, Text.not_mem_ofNat, or_false,
        not_false_iff, Plain]
    | doctype text =>
      simp (disch := decide) only [List.mem_append, hfixed, false_or, Plain]
  | enter statement =>
    have hcode : '\n' ∉ statement.code := h
    have hmark : '\n' ∉ (if statement.continues then " (continues)" else "").toList := by
      split <;> decide
    change '\n' ∉ "EnterBlock `".toList ++ statement.code ++ "`".toList ++
      (if statement.continues then " (continues)" else "").toList ↔ True
    simp (disch := decide) only [List.mem_append, hfixed, hcode, hmark, or_false, not_false_iff]
  | exit => exact iff_of_true (by decide) trivial

end Haml
