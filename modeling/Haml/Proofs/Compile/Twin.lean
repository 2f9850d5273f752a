import Haml.Compile
import Haml.Proofs.Line.Led
import Haml.Proofs.Outline.Run

/-! Two forms of the first line of a source. Items are twins if nothing behind the reading of a line
can tell them apart: they refuse children for the same reason and are compiled to the same
operations. Sources that start with twins and go on alike are compiled alike. -/

namespace Haml

/-- Items with the same meaning for a document. -/
structure Item.Twin (i j : Item) : Prop where
  refusal : i.refusal = j.refusal
  compile : ∀ o r line childless body,
    Compile.item o r line childless body i = Compile.item o r line childless body j

theorem Item.Twin.refl (i : Item) : i.Twin i := ⟨rfl, fun _ _ _ _ _ => rfl⟩

/-- Lines that are both refused for one reason, or declare twins and leave the same lines. -/
inductive Item.ReadAlike : Except ReadError (Option Item × List PhysicalLine) →
    Except ReadError (Option Item × List PhysicalLine) → Prop
  | error (e : ReadError) : ReadAlike (.error e) (.error e)
  | ok {i j : Item} (h : i.Twin j) (left : List PhysicalLine) :
      ReadAlike (.ok (some i, left)) (.ok (some j, left))

namespace Path

variable {path path' inner : Path} {depth : Nat}

/-- Only the refusals of open items decide what can be entered. -/
theorem enter_of_refusals (h : path.map Item.refusal = path'.map Item.refusal) (depth : Nat) :
    (path.enter depth).map (List.map Item.refusal) =
      (path'.enter depth).map (List.map Item.refusal) := by
  have hlength : path.length = path'.length := by simpa using congrArg List.length h
  have hempty : path.isEmpty = path'.isEmpty := by
    rw [← List.isEmpty_map, h, List.isEmpty_map]
  have hdrop : (path.drop (path.length - depth)).map Item.refusal =
      (path'.drop (path'.length - depth)).map Item.refusal := by
    rw [List.map_drop, List.map_drop, h, hlength]
  have htop (p : Path) : p.head?.bind Item.refusal = ((p.map Item.refusal).head?).join := by
    cases p <;> rfl
  rw [Path.enter, Path.enter, hlength, hempty]
  split
  · rfl
  · dsimp only
    rw [htop, htop, ← hlength, hdrop, hlength]
    split
    · rfl
    · exact congrArg Except.ok (hlength ▸ hdrop)

theorem enter_eq_error_of_refusals {fault : SyntaxFault}
    (h : path.map Item.refusal = path'.map Item.refusal)
    (henter : path.enter depth = .error fault) : path'.enter depth = .error fault := by
  have hentered := enter_of_refusals h depth
  rw [henter] at hentered
  exact Outcome.eq_error_of_map hentered.symm

theorem exists_enter_of_refusals (h : path.map Item.refusal = path'.map Item.refusal)
    (henter : path.enter depth = .ok inner) :
    ∃ inner', path'.enter depth = .ok inner' ∧
      inner.map Item.refusal = inner'.map Item.refusal := by
  have hentered := enter_of_refusals h depth
  rw [henter] at hentered
  obtain ⟨inner', henter', hinner⟩ := Outcome.exists_of_map_eq_ok hentered.symm
  exact ⟨inner', henter', hinner.symm⟩

end Path

namespace Outline

variable {known : Indentation} {path path' : Path} {raws : List PhysicalLine}

/-- Items that are open count by their refusals only. -/
theorem readFrom_of_refusals (h : path.map Item.refusal = path'.map Item.refusal) :
    readFrom known path raws = readFrom known path' raws := by
  fun_induction readFrom known path raws generalizing path' with
  | case1 known path raws hline => exact (readFrom_done hline).symm
  | case2 known path raws e rest hline => exact (readFrom_unread hline).symm
  | case3 known path raws line rest hline fault after hdepth =>
    exact (readFrom_unmeasured hline hdepth).symm
  | case4 known path raws line rest hline depth after hdepth fault henter =>
    exact (readFrom_refused hline hdepth (Path.enter_eq_error_of_refusals h henter)).symm
  | case5 known path raws line rest hline depth after hdepth inner henter e hread =>
    obtain ⟨inner', henter', -⟩ := Path.exists_enter_of_refusals h henter
    rw [readFrom_step hline hdepth, henter', hread]
    rfl
  | case6 known path raws line rest hline depth after hdepth inner henter left hread _ ih =>
    obtain ⟨inner', henter', hinner⟩ := Path.exists_enter_of_refusals h henter
    rw [readFrom_comment hline hdepth henter' hread]
    exact ih hinner
  | case7 known path raws line rest hline depth after hdepth inner henter item left hread _ ih =>
    obtain ⟨inner', henter', hinner⟩ := Path.exists_enter_of_refusals h henter
    have hpath : (item :: inner).map Item.refusal = (item :: inner').map Item.refusal :=
      congrArg (item.refusal :: ·) hinner
    rw [readFrom_item hline hdepth henter' hread, ih hpath]

end Outline

namespace Program

variable {o : Options} {r : Registry} {i j : Item}

/-- Twins in front of the same outline. -/
theorem nodes_twin (h : i.Twin j) (line : Nat) (entries : List Entry) :
    Compile.nodes o r (Entry.forest (⟨0, line, i⟩ :: entries)) =
      Compile.nodes o r (Entry.forest (⟨0, line, j⟩ :: entries)) := by
  change Compile.nodes o r (.mk line i _ :: _) = Compile.nodes o r (.mk line j _ :: _)
  rw [Compile.nodes, Compile.nodes, Compile.node, Compile.node, h.compile]

/-- Sources that start with twins and go on alike are compiled alike. -/
theorem compile_twin {source source' : Text} {line : Nat} {m : Except ReadError (List Entry)}
    (h : i.Twin j) (hread : Outline.read source = m.map (⟨0, line, i⟩ :: ·))
    (hread' : Outline.read source' = m.map (⟨0, line, j⟩ :: ·)) :
    compile source o r = compile source' o r := by
  rw [compile, compile, Document.read, Document.read, hread, hread']
  cases m with
  | error e => rfl
  | ok entries =>
    dsimp only [Except.map]
    rw [nodes_twin h]

/-- Texts that lead to twins, whatever is behind them, can stand for each other at the start of a
source. -/
theorem compile_lead {a b t : Text} (ha : Text.Leads a) (hb : Text.Leads b)
    (hmark : Line.isContinued (a ++ Line.firstBehind t) =
      Line.isContinued (b ++ Line.firstBehind t))
    (hread : ∀ (line : Line) left, (∀ c ∈ line.text.head?, c = ' ' ∨ c ∈ t.head?) →
      Item.ReadAlike (Item.read (line.led a) left) (Item.read (line.led b) left)) :
    compile (a ++ t) o r = compile (b ++ t) o r := by
  have hnext := Line.next?_lead ha t
  have hnext' := Line.next?_lead hb t
  rw [← hmark] at hnext'
  rcases hbehind : Line.behind (Line.isContinued (a ++ Line.firstBehind t)) t with ⟨e | line, left⟩
  · rw [hbehind] at hnext hnext'
    have hsource : Outline.read (a ++ t) = .error (.lex e) := Outline.readFrom_unread hnext
    have hsource' : Outline.read (b ++ t) = .error (.lex e) := Outline.readFrom_unread hnext'
    rw [compile, compile, Document.read, Document.read, hsource, hsource']
  · rw [hbehind] at hnext hnext'
    obtain ⟨-, hindent, hhead⟩ := Line.of_behind hbehind
    have hdepth {x : Text} : Indentation.depth none (line.led x).indent = (.ok 0, none) := by
      change Indentation.depth none line.indent = _
      rw [hindent]
      rfl
    have hentered : Path.enter 0 [] = .ok [] := rfl
    have hsource : Outline.read (a ++ t) = _ := Outline.readFrom_step hnext hdepth
    have hsource' : Outline.read (b ++ t) = _ := Outline.readFrom_step hnext' hdepth
    have halike := hread line left hhead
    rw [hentered] at hsource hsource'
    generalize Item.read (line.led a) left = x at halike hsource
    generalize Item.read (line.led b) left = y at halike hsource'
    cases halike with
    | error e => rw [compile, compile, Document.read, Document.read, hsource, hsource']; rfl
    | @ok i j hij left =>
      have hrest : Outline.readFrom none [i] left = Outline.readFrom none [j] left :=
        Outline.readFrom_of_refusals (congrArg (fun refusal => [refusal]) hij.refusal)
      exact compile_twin hij hsource (hsource'.trans (congrArg (Except.map _) hrest.symm))

end Program

end Haml
