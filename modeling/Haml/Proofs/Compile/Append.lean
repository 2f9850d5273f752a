import Haml.Proofs.Compile.Forest
import Haml.Proofs.Compile.Raised
import Haml.Proofs.Line.Source
import Haml.Proofs.Outline.Append

/-! Compiling sources one behind the other. A line without indentation closes all that is open, so
that the documents of two sources stand side by side if both indent by one unit. -/

namespace Haml

/-- The forests of outlines one behind the other, the second of which starts at no depth. -/
theorem Entry.forest_append {before after : List Entry} (hbefore : IsOutline before)
    (hafter : ∀ e ∈ after.head?, e.depth = 0) :
    forest (before ++ after) = forest before ++ forest after := by
  have hroot : ∀ p ∈ (after.foldr attach []).head?, p.1 ≤ 0 := by
    cases after with
    | nil => nofun
    | cons e rest =>
      intro p hp
      obtain rfl := Option.some.inj hp
      exact (hafter e rfl).le
  have hwalk := (Node.walkAll_forest hbefore).1
  have hfold := Node.foldr_attach_walkAll (forest before) hroot
  rw [hwalk] at hfold
  rw [forest, List.foldr_append, hfold, List.map_append, List.map_map]
  simp [forest, Function.comp_def]

theorem Compile.nodes_append {o : Options} {r : Registry} {f g : List Node} {u v : List Op}
    (hf : nodes o r f = .ok u) (hg : nodes o r g = .ok v) : nodes o r (f ++ g) = .ok (u ++ v) := by
  induction f generalizing u with
  | nil =>
    rw [nodes] at hf
    obtain rfl := Except.ok.inj hf
    exact hg
  | cons n f ih =>
    obtain ⟨first, more, hn, hmore, rfl⟩ := nodes_cons_eq_ok hf
    rw [List.cons_append, nodes, hn, ih hmore, List.append_assoc]
    rfl

/-- Sources that compile do so one behind the other, if they indent by one unit or one of them does
not indent at all. The operations are those of the first source and then those of the second one,
as many lines further down as the first one has. -/
theorem Program.compile_append {first last : List Text} (hfirst : ∀ t ∈ first, Text.OneLine t)
    (hlast : ∀ t ∈ last, Text.OneLine t) {o : Options} {r : Registry} {p q : Program}
    (hp : compile (first.flatMap (· ++ ['\n'])) o r = .ok p)
    (hq : compile (last.flatMap (· ++ ['\n'])) o r = .ok q)
    (hunits : Outline.unit (first.flatMap (· ++ ['\n'])) = Outline.unit (last.flatMap (· ++ ['\n'])) ∨
      Outline.unit (first.flatMap (· ++ ['\n'])) = none ∨
      Outline.unit (last.flatMap (· ++ ['\n'])) = none) :
    compile ((first ++ last).flatMap (· ++ ['\n'])) o r =
      .ok ⟨p.ops ++ q.ops.map (Op.raised first.length), o⟩ := by
  obtain ⟨-, before, hreadFirst, hopsFirst⟩ := compile_eq_ok hp
  obtain ⟨-, after, hreadLast, hopsLast⟩ := compile_eq_ok hq
  have hrun := Outline.readFrom_eq_ok_iff.mp hreadFirst
  have hrun' := Outline.readFrom_eq_ok_iff.mp hreadLast
  have hroot := (Outline.isOutline_of_read hreadLast).root
  unfold Outline.unit at hunits
  unfold PhysicalLine.ofSource at hrun hrun' hunits
  rw [Text.lines_flatMap hfirst] at hrun hunits
  rw [Text.lines_flatMap hlast] at hrun' hunits
  have hread : Outline.read ((first ++ last).flatMap (· ++ ['\n'])) =
      .ok (before ++ after.map (Entry.raised first.length)) := by
    unfold Outline.read PhysicalLine.ofSource
    rw [Text.lines_flatMap (List.forall_mem_append.mpr ⟨hfirst, hlast⟩),
      PhysicalLine.numbered_append, PhysicalLine.numbered_raised]
    exact (hrun.append_raised hrun' hunits first.length).readFrom_eq
  have hforest : Entry.forest (before ++ after.map (Entry.raised first.length)) =
      Entry.forest before ++ Node.raisedAll first.length (Entry.forest after) := by
    rw [Entry.forest_append (Outline.isOutline_of_read hreadFirst), Entry.forest_raised,
      Node.raisedAll_eq_map]
    intro e he
    rw [List.head?_map] at he
    obtain ⟨e', he', rfl⟩ := Option.map_eq_some_iff.mp he
    exact hroot e' he'
  have hraised : Compile.nodes o r (Node.raisedAll first.length (Entry.forest after)) =
      .ok (q.ops.map (Op.raised first.length)) := by
    rw [Compile.nodes_raised, hopsLast]
    rfl
  unfold compile Document.read
  rw [hread]
  dsimp only [Except.map]
  rw [hforest, Compile.nodes_append hopsFirst hraised]

section Example

/-- The filter at the end of the first source does not take the blank lines of the second one. -/
theorem Program.compile_append_list :
    let first : List Text := ["%ul", "  %li= a", "  :plain", "    b", ""]
    let last : List Text := ["", "- c", "  %p= d"]
    let o : Options := { autoclose := ⟨[]⟩, preserve := ⟨[]⟩ }
    ∃ p q, compile (first.flatMap (· ++ ['\n'])) o .builtin = .ok p ∧
      compile (last.flatMap (· ++ ['\n'])) o .builtin = .ok q ∧
      Outline.unit (first.flatMap (· ++ ['\n'])) = some ⟨' ', 2, by decide⟩ ∧
      Outline.unit (last.flatMap (· ++ ['\n'])) = some ⟨' ', 2, by decide⟩ ∧
      p.ops.length = 6 ∧ q.ops.length = 5 ∧
      compile ((first ++ last).flatMap (· ++ ['\n'])) o .builtin =
        .ok ⟨p.ops ++ q.ops.map (Op.raised 5), o⟩ := by
  intro first last o
  obtain ⟨p, hp, hpops⟩ : ∃ p, compile (first.flatMap (· ++ ['\n'])) o .builtin = .ok p ∧
      p.ops.length = 6 := Outcome.exists_of_map_eq_ok (by decide +kernel)
  obtain ⟨q, hq, hqops⟩ : ∃ q, compile (last.flatMap (· ++ ['\n'])) o .builtin = .ok q ∧
      q.ops.length = 5 := Outcome.exists_of_map_eq_ok (by decide +kernel)
  have hfirst : Outline.unit (first.flatMap (· ++ ['\n'])) = some ⟨' ', 2, by decide⟩ := by
    decide +kernel
  have hlast : Outline.unit (last.flatMap (· ++ ['\n'])) = some ⟨' ', 2, by decide⟩ := by
    decide +kernel
  have h := compile_append (by decide) (by decide) hp hq (.inl (hfirst.trans hlast.symm))
  exact ⟨p, q, hp, hq, hfirst, hlast, hpops, hqops, h⟩

end Example

end Haml
