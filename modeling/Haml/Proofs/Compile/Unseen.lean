import Haml.Proofs.Compile.Forest
import Haml.Proofs.Compile.Renumbered
import Haml.Proofs.Outline.Unseen

/-! Compiling a source with silent comments and blank lines put into it. The program is the same
but for line numbers, unless a comment carries the continuation marker: then the line behind it is
joined to the comment, or missing. -/

namespace Haml

open Outline (Place Steps State Reads)

/-- Silent comments and blank lines in front of a line, or at the end of a source, are compiled to
nothing. They shift the lines behind them. -/
theorem Program.compile_unseen {source source' : Text} {above below inserted : List Text}
    {indent : Text} (hplace : Place source above below indent)
    (hlines : Text.lines source = above ++ below)
    (hlines' : Text.lines source' = above ++ inserted ++ below)
    (hinserted : Unseen Uncontinued indent inserted) {o : Options} {r : Registry} {p : Program}
    (h : compile source o r = .ok p) :
    compile source' o r =
      .ok ⟨p.ops.map (Op.renumbered (shiftBehind above.length inserted.length)), o⟩ := by
  obtain ⟨-, entries, hread, hops⟩ := compile_eq_ok h
  have hread' := Outline.read_unseen hplace hlines hlines' hinserted hread
  rw [hread] at hread'
  have hforest := Compile.nodes_renumbered (o := o) (r := r)
    (shiftBehind above.length inserted.length) (Entry.forest entries)
  rw [hops, Node.renumberedAll_eq_map, ← Entry.forest_renumbered] at hforest
  rw [compile, Document.read, hread']
  dsimp only [Outline.renumbered, Except.mapError, Except.map]
  rw [hforest]
  rfl

/-- The comment is the first line that is indented, and no unit fits the lines of its block. -/
theorem Program.compile_unseen_list :
    let above : List Text := ["%ul"]
    let inserted : List Text := ["", "  -# \x7b a", "   - b |", " ", "\t \tc", "  -#"]
    let below : List Text := ["  %li= d", "e"]
    let o : Options := { autoclose := ⟨[]⟩, preserve := ⟨[]⟩ }
    ∃ p, compile ((above ++ below).flatMap (· ++ ['\n'])) o .builtin = .ok p ∧ p.ops.length = 6 ∧
      compile ((above ++ inserted ++ below).flatMap (· ++ ['\n'])) o .builtin =
        .ok ⟨p.ops.map (Op.renumbered (shiftBehind 1 6)), o⟩ := by
  intro above inserted below o
  obtain ⟨p, hp, hops⟩ : ∃ p, compile ((above ++ below).flatMap (· ++ ['\n'])) o .builtin = .ok p ∧
      p.ops.length = 6 := Outcome.exists_of_map_eq_ok (by decide +kernel)
  let ul : Element := ⟨"ul", [], none, [], none, false, false, false, .none⟩
  have hitem : Item.read ⟨1, 1, [], "%ul"⟩ [⟨2, "  %li= d"⟩, ⟨3, "e"⟩] =
      .ok (some (.element ul), [⟨2, "  %li= d"⟩, ⟨3, "e"⟩]) := by decide +kernel
  have hreads : Reads ((above ++ below).flatMap (· ++ ['\n'])) ⟨2, 2, "  ", "%li= d"⟩ :=
    ⟨_, _, _, .cons (.read rfl rfl rfl hitem) (.refl _), rfl⟩
  let block : List Text := ["   - b |", " ", "\t \tc"]
  have hcomment : Uncontinued " \x7b a" := by decide
  have hbare : Uncontinued [] := by decide
  have hblock : ∀ t ∈ block,
      Text.isBlank t = true ∨ 2 < (t.takeWhile PhysicalLine.isIndentMark).length := by decide
  have hlast : Unseen Uncontinued "  " (("  ".toList ++ '-' :: '#' :: []) :: ([] ++ [])) :=
    .comment hbare (List.forall_mem_nil _) .nil
  have hfirst : Unseen Uncontinued "  "
      (("  ".toList ++ '-' :: '#' :: " \x7b a".toList) :: (block ++ ["  -#".toList])) :=
    .comment hcomment hblock hlast
  have hinserted : Unseen Uncontinued "  " inserted := .blank rfl hfirst
  have hlines : Text.lines ((above ++ below).flatMap (· ++ ['\n'])) = above ++ below := by decide
  have hlines' : Text.lines ((above ++ inserted ++ below).flatMap (· ++ ['\n'])) =
      above ++ inserted ++ below := by decide
  exact ⟨p, hp, hops, compile_unseen (.line hreads rfl) hlines hlines' hinserted hp⟩

/-- A comment that ends in a pipe and a blank takes the line behind it with it, if that line carries
the continuation marker. -/
theorem Program.compile_continued_comment : ¬∀ (source source' indent : Text)
    (above below inserted : List Text), Place source above below indent →
    Text.lines source = above ++ below → Text.lines source' = above ++ inserted ++ below →
    Unseen (fun text => text.getLast? ≠ some '|') indent inserted →
    ∀ (o : Options) (r : Registry) (p : Program), compile source o r = .ok p →
      compile source' o r =
        .ok ⟨p.ops.map (Op.renumbered (shiftBehind above.length inserted.length)), o⟩ := by
  intro h
  let o : Options := { autoclose := ⟨[]⟩, preserve := ⟨[]⟩ }
  obtain ⟨p, hp, hops⟩ : ∃ p, compile "%p b |\n%i c" o .builtin = .ok p ∧ p.ops.length = 6 :=
    Outcome.exists_of_map_eq_ok (by decide +kernel)
  have hreads : Reads "%p b |\n%i c" ⟨1, 1, [], "%p b"⟩ := ⟨_, _, _, .refl _, rfl⟩
  have hblank : " a | ".toList.getLast? ≠ some '|' := by decide
  have hinserted : Unseen (fun text => text.getLast? ≠ some '|') []
      ((([] : Text) ++ '-' :: '#' :: " a | ".toList) :: ([] ++ [])) :=
    .comment hblank (List.forall_mem_nil _) .nil
  have hsource := h _ "-# a | \n%p b |\n%i c" _ [] _ _ (.line hreads rfl) rfl (by decide) hinserted
    o .builtin p hp
  have hlength : (compile "-# a | \n%p b |\n%i c" o .builtin).map (·.ops.length) = .ok 3 := by
    decide +kernel
  rw [hsource] at hlength
  simp [Except.map, hops] at hlength

end Haml
