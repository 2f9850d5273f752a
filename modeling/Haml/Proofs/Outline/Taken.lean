import Haml.Document
import Haml.Proofs.Outcome
import Mathlib.Data.List.TakeWhile

/-! Which physical lines an item takes with it. A header takes lines as long as a group is open, a
filter and a silent comment take the block below them, no other item takes any. An item reads
nothing but the lines that it takes. -/

namespace Haml

namespace Header

variable {implicitDiv : Bool} {line : Nat} {text : Text} {raws rest : List PhysicalLine}
  {header : Header}

def gather (text : Text) (raws : List PhysicalLine) : Text :=
  raws.foldl (fun text raw => text ++ ' ' :: Text.trim raw.text) text

/-- Each of the lines stands where a group is open. -/
def Unclosed (implicitDiv : Bool) (line : Nat) (text : Text) (taken : List PhysicalLine) : Prop :=
  ∀ before raw after, taken = before ++ raw :: after →
    Header.read implicitDiv line (gather text before) = .error .unclosed

theorem unclosed_cons {raw : PhysicalLine} {taken : List PhysicalLine}
    (h : Header.read implicitDiv line text = .error .unclosed)
    (htaken : Unclosed implicitDiv line (text ++ ' ' :: Text.trim raw.text) taken) :
    Unclosed implicitDiv line text (raw :: taken) := by
  intro before raw' after heq
  cases before with
  | nil => exact h
  | cons first before =>
    obtain ⟨rfl, rfl⟩ := List.cons.inj heq
    exact htaken before raw' after rfl

theorem readLines_of_ok (raws : List PhysicalLine)
    (h : Header.read implicitDiv line text = .ok header) :
    readLines implicitDiv line text raws = .ok (header, raws) := by
  rw [readLines.eq_def, h]

theorem readLines_cons (raw : PhysicalLine) (raws : List PhysicalLine)
    (h : Header.read implicitDiv line text = .error .unclosed) :
    readLines implicitDiv line text (raw :: raws) =
      readLines implicitDiv line (text ++ ' ' :: Text.trim raw.text) raws := by
  rw [readLines.eq_def, h]

theorem exists_of_readLines (h : readLines implicitDiv line text raws = .ok (header, rest)) :
    ∃ taken, raws = taken ++ rest ∧ Unclosed implicitDiv line text taken ∧
      readLines implicitDiv line text taken = .ok (header, []) := by
  fun_induction readLines implicitDiv line text raws with
  | case1 text raws header' hread =>
    obtain ⟨rfl, rfl⟩ := Prod.mk.inj (Except.ok.inj h)
    exact ⟨[], rfl, by simp [Unclosed], readLines_of_ok [] hread⟩
  | case2 => cases h
  | case3 => cases h
  | case4 text raw raws hread ih =>
    obtain ⟨taken, rfl, htaken, hrest⟩ := ih h
    exact ⟨raw :: taken, rfl, unclosed_cons hread htaken,
      (readLines_cons raw taken hread).trans hrest⟩

end Header

/-- Lines that an item takes, by the marker of its line. -/
def Line.Takes (line : Line) (taken : List PhysicalLine) : Prop :=
  match Marker.classify line.text with
  | (.element, payload) => Header.Unclosed false line.number payload taken
  | (.div, payload) => Header.Unclosed true line.number payload taken
  | (.filter, _) => ∀ raw ∈ taken, raw.isBelow line.indent = true
  | (.silentComment, _) => ∀ raw ∈ taken, raw.isBelow line.indent = true
  | _ => taken = []

namespace Item

variable {line : Line} {raws left : List PhysicalLine} {item? : Option Item}

theorem exists_of_readElement {implicitDiv : Bool} {number : Nat} {payload : Text}
    (h : readElement implicitDiv number payload raws = .ok (item?, left)) :
    ∃ taken, raws = taken ++ left ∧ Header.Unclosed implicitDiv number payload taken ∧
      readElement implicitDiv number payload taken = .ok (item?, []) ∧ item? ≠ none := by
  obtain ⟨⟨header, rest⟩, hlines, h⟩ := Outcome.exists_of_bind_eq_ok h
  obtain ⟨element, helement, h⟩ := Outcome.exists_of_bind_eq_ok h
  obtain ⟨rfl, rfl⟩ := Prod.mk.inj (Except.ok.inj h)
  obtain ⟨taken, hraws, htaken, hread⟩ := Header.exists_of_readLines hlines
  refine ⟨taken, hraws, htaken, ?_, Option.some_ne_none _⟩
  simp only [readElement, hread, helement, bind, Except.bind]
  rfl

/-- A filter that takes the block at the front of its lines takes all of that block alone. -/
theorem exists_of_readFilter {payload : Text}
    (h : readFilter line payload raws = .ok (item?, left)) :
    ∃ taken, raws = taken ++ left ∧ (∀ raw ∈ taken, raw.isBelow line.indent = true) ∧
      readFilter line payload taken = .ok (item?, []) ∧ item? ≠ none := by
  let below := PhysicalLine.isBelow line.indent
  have hall : ∀ raw ∈ raws.takeWhile below, below raw = true := fun raw hraw =>
    List.mem_takeWhile_imp hraw
  rw [readFilter] at h
  dsimp only at h
  split at h
  · cases h
  · next hname =>
    split at h
    · cases h
    · next segments hsegments =>
      obtain ⟨rfl, rfl⟩ := Prod.mk.inj (Except.ok.inj h)
      refine ⟨raws.takeWhile below, List.takeWhile_append_dropWhile.symm, hall, ?_,
        Option.some_ne_none _⟩
      have htake : (raws.takeWhile below).takeWhile below = raws.takeWhile below :=
        List.takeWhile_eq_self_iff.mpr hall
      have hdrop : (raws.takeWhile below).dropWhile below = [] :=
        List.dropWhile_eq_nil_iff.mpr hall
      rw [readFilter, if_neg hname]
      dsimp only
      rw [htake, hdrop, hsegments]

/-- Reading an item is reading it from the lines that it takes. -/
theorem exists_of_read (h : read line raws = .ok (item?, left)) :
    ∃ taken, raws = taken ++ left ∧ line.Takes taken ∧ read line taken = .ok (item?, []) ∧
      (item? = none → (Marker.classify line.text).1 = .silentComment) := by
  have halone {i : Except ReadError Item}
      (hi : i.map (fun i => (some i, raws)) = .ok (item?, left)) :
      raws = [] ++ left ∧ i.map (fun i => (some i, ([] : List PhysicalLine))) = .ok (item?, []) ∧
        item? ≠ none := by
    obtain ⟨i, rfl, hread⟩ := Outcome.exists_of_map_eq_ok hi
    obtain ⟨rfl, rfl⟩ := Prod.mk.inj hread
    exact ⟨rfl, rfl, Option.some_ne_none _⟩
  rw [read] at h
  simp only [Line.Takes, read]
  generalize Marker.classify line.text = classified at h ⊢
  obtain ⟨marker, payload⟩ := classified
  cases marker
  case element =>
    obtain ⟨taken, hraws, htaken, hread, hsome⟩ := exists_of_readElement h
    exact ⟨taken, hraws, htaken, hread, fun hnone => absurd hnone hsome⟩
  case div =>
    obtain ⟨taken, hraws, htaken, hread, hsome⟩ := exists_of_readElement h
    exact ⟨taken, hraws, htaken, hread, fun hnone => absurd hnone hsome⟩
  case filter =>
    obtain ⟨taken, hraws, htaken, hread, hsome⟩ := exists_of_readFilter h
    exact ⟨taken, hraws, htaken, hread, fun hnone => absurd hnone hsome⟩
  case silentComment =>
    obtain ⟨rfl, rfl⟩ := Prod.mk.inj (Except.ok.inj h)
    have hall : ∀ raw ∈ raws.takeWhile (PhysicalLine.isBelow line.indent),
        raw.isBelow line.indent = true := fun raw hraw => List.mem_takeWhile_imp hraw
    refine ⟨_, List.takeWhile_append_dropWhile.symm, hall, ?_, fun _ => rfl⟩
    rw [List.dropWhile_eq_nil_iff.mpr hall]
  -- All other items are read from their own line.
  all_goals
    obtain ⟨hraws, hread, hsome⟩ := halone h
    exact ⟨[], hraws, rfl, hread, fun hnone => absurd hnone hsome⟩

end Item

end Haml
