import Haml.Document
import Haml.Proofs.Outcome
import Haml.Proofs.Outline.Walk

/-! Reading an outline as steps. Each step reads one logical line, with the physical lines that
belong to it, and a run ends where only blank lines are left. -/

namespace Haml.Outline

variable {known after : Indentation} {path inner : Path} {raws rest left : List PhysicalLine}
  {line : Line} {depth : Nat} {entries : List Entry}

theorem readFrom_done (h : Line.next? raws = none) : readFrom known path raws = .ok [] := by
  rw [readFrom]
  split
  · rfl
  · simp_all
  · simp_all

theorem readFrom_unread {e : LexError} (h : Line.next? raws = some (.error e, rest)) :
    readFrom known path raws = .error (.lex e) := by
  rw [readFrom]
  split <;> simp_all

theorem readFrom_unmeasured {fault : LexFault} (hline : Line.next? raws = some (.ok line, rest))
    (hdepth : known.depth line.indent = (.error fault, after)) :
    readFrom known path raws = .error (.lex ⟨fault, line.number⟩) := by
  rw [readFrom]
  split <;> simp_all

theorem readFrom_step (hline : Line.next? raws = some (.ok line, rest))
    (hdepth : known.depth line.indent = (.ok depth, after)) : readFrom known path raws =
      ((path.enter depth).mapError (ReadError.invalid · line.number)).bind fun inner =>
        (Item.read line rest).bind fun (item?, left) =>
          match item? with
          | none => readFrom after inner left
          | some item =>
            (readFrom after (item :: inner) left).map (⟨depth, line.number, item⟩ :: ·) := by
  rw [readFrom]
  split
  · simp_all
  · simp_all
  · next line' rest' hline' =>
    obtain ⟨rfl, rfl⟩ : line = line' ∧ rest = rest' := by simpa [hline] using hline'
    rw [hdepth]
    dsimp only
    cases path.enter depth with
    | error fault => rfl
    | ok inner =>
      -- The matched equations bound the recursion, so that they stay in the goal up to here.
      dsimp only [Except.mapError, Except.bind]
      split <;> simp_all

theorem readFrom_refused {fault : SyntaxFault} (hline : Line.next? raws = some (.ok line, rest))
    (hdepth : known.depth line.indent = (.ok depth, after))
    (henter : path.enter depth = .error fault) :
    readFrom known path raws = .error (.invalid fault line.number) := by
  rw [readFrom_step hline hdepth, henter]
  rfl

theorem readFrom_comment (hline : Line.next? raws = some (.ok line, rest))
    (hdepth : known.depth line.indent = (.ok depth, after)) (henter : path.enter depth = .ok inner)
    (hread : Item.read line rest = .ok (none, left)) :
    readFrom known path raws = readFrom after inner left := by
  rw [readFrom_step hline hdepth, henter, hread]
  rfl

theorem readFrom_item {item : Item} (hline : Line.next? raws = some (.ok line, rest))
    (hdepth : known.depth line.indent = (.ok depth, after)) (henter : path.enter depth = .ok inner)
    (hread : Item.read line rest = .ok (some item, left)) :
    readFrom known path raws =
      (readFrom after (item :: inner) left).map (⟨depth, line.number, item⟩ :: ·) := by
  rw [readFrom_step hline hdepth, henter, hread]
  rfl

/-- The steps by which lines are read as an outline. -/
inductive Run : Indentation → Path → List PhysicalLine → List Entry → Prop
  | done {known : Indentation} {path : Path} {raws : List PhysicalLine}
      (hline : Line.next? raws = none) : Run known path raws []
  | comment {known after : Indentation} {path inner : Path} {raws rest left : List PhysicalLine}
      {line : Line} {depth : Nat} {entries : List Entry}
      (hline : Line.next? raws = some (.ok line, rest))
      (hdepth : known.depth line.indent = (.ok depth, after))
      (henter : path.enter depth = .ok inner) (hread : Item.read line rest = .ok (none, left))
      (hrest : Run after inner left entries) : Run known path raws entries
  | item {known after : Indentation} {path inner : Path} {raws rest left : List PhysicalLine}
      {line : Line} {depth : Nat} {entries : List Entry} {item : Item}
      (hline : Line.next? raws = some (.ok line, rest))
      (hdepth : known.depth line.indent = (.ok depth, after))
      (henter : path.enter depth = .ok inner) (hread : Item.read line rest = .ok (some item, left))
      (hrest : Run after (item :: inner) left entries) :
      Run known path raws (⟨depth, line.number, item⟩ :: entries)

theorem Run.eq_nil (h : Run known path [] entries) : entries = [] := by
  cases h with
  | done => rfl
  | comment hline => cases hline
  | item hline => cases hline

theorem Run.readFrom_eq (h : Run known path raws entries) :
    readFrom known path raws = .ok entries := by
  induction h with
  | done hline => exact readFrom_done hline
  | comment hline hdepth henter hread hrest ih =>
    rw [readFrom_comment hline hdepth henter hread, ih]
  | item hline hdepth henter hread hrest ih =>
    rw [readFrom_item hline hdepth henter hread, ih]
    rfl

theorem readFrom_eq_ok_iff :
    readFrom known path raws = .ok entries ↔ Run known path raws entries := by
  refine ⟨fun h => ?_, Run.readFrom_eq⟩
  fun_induction readFrom known path raws generalizing entries with
  | case1 =>
    rename_i hline
    obtain rfl : [] = entries := Except.ok.inj h
    exact .done hline
  | case2 => cases h
  | case3 => cases h
  | case4 => cases h
  | case5 => cases h
  | case6 =>
    rename_i hline _ _ hdepth _ henter _ hread _ ih
    exact .comment hline hdepth henter hread (ih h)
  | case7 =>
    rename_i hline _ _ hdepth _ henter _ _ hread _ ih
    obtain ⟨more, hmore, rfl⟩ := Outcome.exists_of_map_eq_ok h
    exact .item hline hdepth henter hread (ih hmore)

theorem enter_eq_ok (h : path.enter depth = .ok inner) : depth ≤ path.length ∧
    inner = path.drop (path.length - depth) ∧ ∀ top ∈ inner.head?, top.refusal = none := by
  rw [Path.enter] at h
  split at h
  · cases h
  · next hdepth =>
    dsimp only at h
    split at h
    · cases h
    · next hnone =>
      obtain rfl := Except.ok.inj h
      refine ⟨by omega, rfl, ?_⟩
      intro top htop
      simpa [Option.mem_def.mp htop] using hnone

/-- An entry can stand below the open items that it leaves open. -/
def Fits (path : Path) (e : Entry) : Prop :=
  e.depth < path.length ∨ e.depth = path.length ∧ ∀ top ∈ path.head?, top.refusal = none

theorem fits_of_enter (h : path.enter depth = .ok inner) (line : Nat) (item : Item) :
    Fits path ⟨depth, line, item⟩ := by
  obtain ⟨hdepth, rfl, htop⟩ := enter_eq_ok h
  rcases Nat.lt_or_eq_of_le hdepth with hlt | rfl
  · exact .inl hlt
  · rw [Nat.sub_self, List.drop_zero] at htop
    exact .inr ⟨rfl, htop⟩

theorem Fits.of_enter {e : Entry} (h : path.enter depth = .ok inner) (hfits : Fits inner e) :
    Fits path e := by
  obtain ⟨hdepth, rfl, -⟩ := enter_eq_ok h
  rw [Fits, List.length_drop] at hfits
  rcases hfits with hlt | ⟨heq, htop⟩
  · exact .inl (by omega)
  -- Either some items were closed, or the innermost one is the same.
  · rcases Nat.lt_or_eq_of_le hdepth with hlt | rfl
    · exact .inl (by omega)
    · rw [Nat.sub_self, List.drop_zero] at htop
      exact .inr ⟨by omega, htop⟩

theorem Fits.follows {item : Item} {e : Entry} (h : path.enter depth = .ok inner)
    (hfits : Fits (item :: inner) e) (line : Nat) : Entry.Follows ⟨depth, line, item⟩ e := by
  obtain ⟨hdepth, rfl, -⟩ := enter_eq_ok h
  rw [Fits, List.length_cons, List.length_drop] at hfits
  rcases hfits with hlt | ⟨heq, htop⟩
  · exact .inl (by dsimp only; omega)
  · exact .inr ⟨by dsimp only; omega, htop item rfl⟩

theorem Run.chain (h : Run known path raws entries) :
    entries.IsChain Entry.Follows ∧ ∀ e ∈ entries.head?, Fits path e := by
  induction h with
  | done hline => exact ⟨.nil, nofun⟩
  | comment hline hdepth henter hread hrest ih =>
    exact ⟨ih.1, fun e he => (ih.2 e he).of_enter henter⟩
  | item hline hdepth henter hread hrest ih =>
    refine ⟨List.isChain_cons.mpr ⟨fun e he => (ih.2 e he).follows henter _, ih.1⟩, ?_⟩
    intro e he
    obtain rfl := Option.some.inj he
    exact fits_of_enter henter _ _

theorem isOutline_of_read {source : Text} (h : read source = .ok entries) :
    Entry.IsOutline entries := by
  obtain ⟨hchain, hfirst⟩ := (readFrom_eq_ok_iff.mp h).chain
  refine ⟨?_, hchain⟩
  intro e he
  rcases hfirst e he with hlt | ⟨heq, -⟩
  · exact absurd hlt (Nat.not_lt_zero _)
  · exact heq

end Haml.Outline
