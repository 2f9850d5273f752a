import Haml.Proofs.Line.Raised
import Haml.Proofs.Outline.Run

/-! The outline of lines further down has its entries that much further down. -/

namespace Haml

variable (k : Nat)

def Entry.raised (e : Entry) : Entry := { e with line := e.line + k }

namespace Outline

theorem readFrom_raised (known : Indentation) (path : Path) (raws : List PhysicalLine) :
    readFrom known path (raws.map (PhysicalLine.raised k)) =
      ((readFrom known path raws).mapError (ReadError.raised k)).map
        (List.map (Entry.raised k)) := by
  have hnext := Line.next?_raised k raws
  fun_induction readFrom known path raws with
  | case1 known path raws hline =>
    rw [hline] at hnext
    exact readFrom_done hnext
  | case2 known path raws e rest hline =>
    rw [hline] at hnext
    exact readFrom_unread hnext
  | case3 known path raws line rest hline fault after hdepth =>
    rw [hline] at hnext
    exact readFrom_unmeasured hnext hdepth
  | case4 known path raws line rest hline depth after hdepth fault henter =>
    rw [hline] at hnext
    rw [readFrom_step hnext hdepth, henter]
    rfl
  | case5 known path raws line rest hline depth after hdepth inner henter e hread =>
    have hraised := Item.read_raised k line rest
    rw [hline] at hnext
    rw [hread] at hraised
    rw [readFrom_step hnext hdepth, henter, hraised]
    rfl
  | case6 known path raws line rest hline depth after hdepth inner henter left hread hlength ih =>
    have hraised := Item.read_raised k line rest
    rw [hline] at hnext
    rw [hread] at hraised
    rw [readFrom_comment hnext hdepth henter hraised]
    exact ih (Line.next?_raised k left)
  | case7 known path raws line rest hline depth after hdepth inner henter item left hread hlength
      ih =>
    have hraised := Item.read_raised k line rest
    rw [hline] at hnext
    rw [hread] at hraised
    rw [readFrom_item hnext hdepth henter hraised, ih (Line.next?_raised k left)]
    cases readFrom after (item :: inner) left <;> rfl

theorem Run.raised {known : Indentation} {path : Path} {raws : List PhysicalLine}
    {entries : List Entry} (h : Run known path raws entries) :
    Run known path (raws.map (PhysicalLine.raised k)) (entries.map (Entry.raised k)) := by
  rw [← readFrom_eq_ok_iff, readFrom_raised, h.readFrom_eq]
  rfl

end Outline

end Haml
