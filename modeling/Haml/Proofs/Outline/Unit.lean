import Haml.Proofs.Line.Indent
import Haml.Proofs.Outline.Run

/-! The unit that a source indents by. Reading starts without one and keeps the first one that it
meets, so that lines are read alike wherever their own unit is known already, or where they fix
none and any other one is. -/

namespace Haml

variable {u : IndentUnit} {known after : Indentation} {path inner : Path}
  {raws rest left : List PhysicalLine} {line : Line} {entries : List Entry} {item? : Option Item}

/-- Measuring leaves a unit that is known as it is. -/
theorem Indentation.eq_of_depth {t : Text} {result : Except LexFault Nat}
    (h : known.depth t = (result, after)) (hknown : known = some u) : after = some u := by
  subst hknown
  cases t with
  | nil => exact (Prod.mk.inj h).2.symm
  | cons mark rest =>
    unfold depth at h
    dsimp only at h
    split at h
    · exact (Prod.mk.inj h).2.symm
    · split at h
      · exact (Prod.mk.inj h).2.symm
      · split at h <;> exact (Prod.mk.inj h).2.symm

namespace Outline

/-- What is known of the unit where the reading of lines ends. -/
def unitFrom (known : Indentation) (raws : List PhysicalLine) : Indentation :=
  match hline : Line.next? raws with
  | none => known
  | some (.error _, _) => known
  | some (.ok line, rest) =>
    match hitem : Item.read line rest with
    | .error _ => (known.depth line.indent).2
    | .ok (_, left) =>
      have : left.length < raws.length :=
        Nat.lt_of_le_of_lt (Item.suffix_of_read hitem).length_le (Line.length_lt_of_next? hline)
      unitFrom (known.depth line.indent).2 left
  termination_by raws.length

/-- The unit of a source, if one of its lines is indented. -/
def unit (source : Text) : Indentation := unitFrom none (PhysicalLine.ofSource source)

theorem unitFrom_done (h : Line.next? raws = none) : unitFrom known raws = known := by
  rw [unitFrom]
  split <;> simp_all

theorem unitFrom_step (hline : Line.next? raws = some (.ok line, rest))
    (hread : Item.read line rest = .ok (item?, left)) :
    unitFrom known raws = unitFrom (known.depth line.indent).2 left := by
  rw [unitFrom]
  split
  · simp_all
  · simp_all
  · next line' rest' hline' =>
    obtain ⟨rfl, rfl⟩ : line = line' ∧ rest = rest' := by simpa [hline] using hline'
    split <;> simp_all

/-- A unit that is known stays the same. -/
theorem Run.unitFrom_known (h : Run known path raws entries) (hknown : known = some u) :
    unitFrom known raws = some u := by
  induction h with
  | done hline => rw [unitFrom_done hline, hknown]
  | comment hline hdepth henter hread hrest ih =>
    rw [unitFrom_step hline hread, hdepth]
    exact ih (Indentation.eq_of_depth hdepth hknown)
  | item hline hdepth henter hread hrest ih =>
    rw [unitFrom_step hline hread, hdepth]
    exact ih (Indentation.eq_of_depth hdepth hknown)

/-- Does what is known in the end allow for the unit? -/
def Allows (u : IndentUnit) (known : Indentation) : Prop := ∀ v ∈ known, v = u

theorem depth_of_allows {t : Text} {depth : Nat} (hdepth : known.depth t = (.ok depth, after))
    (hafter : Allows u after) : Indentation.depth (some u) t = (.ok depth, some u) := by
  rcases Indentation.depth_eq_ok hdepth with ⟨rfl, rfl, -⟩ | ⟨v, rfl, -, rfl, -⟩
  · rfl
  · obtain rfl := hafter v rfl
    exact Indentation.depth_indent v depth

theorem Run.allows (h : Run known path raws entries) (hunit : Allows u (unitFrom known raws)) :
    Allows u known := by
  intro v hv
  rw [h.unitFrom_known hv] at hunit
  exact hunit v rfl

/-- Lines are read alike where a unit is known that theirs, if they fix one, is the same as. -/
theorem Run.of_allows (h : Run known path raws entries) (hunit : Allows u (unitFrom known raws)) :
    Run (some u) path raws entries := by
  induction h with
  | done hline => exact .done hline
  | comment hline hdepth henter hread hrest ih =>
    rw [unitFrom_step hline hread, hdepth] at hunit
    exact .comment hline (depth_of_allows hdepth (hrest.allows hunit)) henter hread (ih hunit)
  | item hline hdepth henter hread hrest ih =>
    rw [unitFrom_step hline hread, hdepth] at hunit
    exact .item hline (depth_of_allows hdepth (hrest.allows hunit)) henter hread (ih hunit)

/-- Where nothing is open, the first line stands at no depth. -/
theorem enter_nil {depth : Nat} (h : Path.enter depth [] = .ok inner) : depth = 0 ∧ inner = [] := by
  obtain ⟨hdepth, rfl, -⟩ := enter_eq_ok h
  exact ⟨Nat.le_zero.mp hdepth, List.drop_nil⟩

theorem enter_zero (path : Path) : path.enter 0 = .ok [] := by
  unfold Path.enter
  simp

/-- What is read where nothing is open is read behind any open items. -/
theorem Run.inside (h : Run known [] raws entries) (path : Path) :
    Run known path raws entries := by
  cases h with
  | done hline => exact .done hline
  | comment hline hdepth henter hread hrest =>
    obtain ⟨rfl, rfl⟩ := enter_nil henter
    exact .comment hline hdepth (enter_zero path) hread hrest
  | item hline hdepth henter hread hrest =>
    obtain ⟨rfl, rfl⟩ := enter_nil henter
    exact .item hline hdepth (enter_zero path) hread hrest

/-- What is read on its own is read behind other lines, provided that the units agree. -/
theorem Run.behind (h : Run none [] raws entries)
    (hunits : known = unitFrom none raws ∨ known = none ∨ unitFrom none raws = none)
    (path : Path) : Run known path raws entries := by
  cases known with
  | none => exact h.inside path
  | some u =>
    refine (h.of_allows ?_).inside path
    rcases hunits with heq | hnone | hnone
    · intro v hv
      rw [← heq] at hv
      exact (Option.some.inj hv).symm
    · cases hnone
    · intro v hv
      rw [hnone] at hv
      cases hv

end Outline

end Haml
