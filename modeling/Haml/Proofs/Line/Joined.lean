import Haml.Line.Logical

/-! Which physical lines a logical line is made of: the first one with content, and those that are
joined to it. -/

namespace Haml.Line

def join (line : Line) (raw : PhysicalLine) : Line :=
  line.extend raw.number (stripMarker (Text.trim raw.text))

/-- The line of a first physical line and of others that are joined to it. -/
def ofJoined (first : PhysicalLine) (joined : List PhysicalLine) : Line :=
  if isContinued first.content then
    joined.foldl join ⟨first.number, first.number, first.indent, stripMarker first.content⟩
  else ⟨first.number, first.number, first.indent, first.content⟩

/-- Lines are joined to a line that has content and the continuation marker, if they have it too. -/
structure Joins (first : PhysicalLine) (joined : List PhysicalLine) : Prop where
  filled : first.isBlank = false
  first : joined ≠ [] → isContinued first.content = true
  joined : ∀ raw ∈ joined, isContinued (Text.trim raw.text) = true

variable {line joinedLine : Line} {raws rest joined : List PhysicalLine} {first raw : PhysicalLine}

theorem foldl_join (line : Line) (joined : List PhysicalLine) :
    (joined.foldl join line).number = line.number ∧
      (joined.foldl join line).indent = line.indent := by
  induction joined generalizing line with
  | nil => exact ⟨rfl, rfl⟩
  | cons raw rest ih => exact ih _

@[simp] theorem number_ofJoined (first : PhysicalLine) (joined : List PhysicalLine) :
    (ofJoined first joined).number = first.number := by
  rw [ofJoined]
  split
  · exact (foldl_join _ joined).1
  · rfl

@[simp] theorem indent_ofJoined (first : PhysicalLine) (joined : List PhysicalLine) :
    (ofJoined first joined).indent = first.indent := by
  rw [ofJoined]
  split
  · exact (foldl_join _ joined).2
  · rfl

theorem exists_of_joinContinued (h : joinContinued line raws = (.ok joinedLine, rest)) :
    ∃ joined, raws = joined ++ rest ∧
      (∀ raw ∈ joined, isContinued (Text.trim raw.text) = true) ∧
      joinedLine = joined.foldl join line := by
  fun_induction joinContinued line raws with
  | case1 => cases h
  | case2 => cases h
  | case3 line raw raws text hblank hcontinued ih =>
    obtain ⟨joined, rfl, hjoined, rfl⟩ := ih h
    exact ⟨raw :: joined, rfl, List.forall_mem_cons.mpr ⟨hcontinued, hjoined⟩, rfl⟩
  | case4 line raw raws =>
    obtain ⟨hline, rfl⟩ := Prod.mk.inj h
    exact ⟨[], rfl, List.forall_mem_nil _, (Except.ok.inj hline).symm⟩

theorem exists_of_next? (h : next? raws = some (.ok line, rest)) :
    ∃ blanks first joined, raws = blanks ++ (first :: joined) ++ rest ∧
      (∀ raw ∈ blanks, raw.isBlank = true) ∧ Joins first joined ∧ line = ofJoined first joined := by
  induction raws with
  | nil => cases h
  | cons first raws ih =>
    rw [next?] at h
    split at h
    · next hblank =>
      obtain ⟨blanks, first', joined, rfl, hblanks, hjoins, hline⟩ := ih h
      exact ⟨first :: blanks, first', joined, rfl, List.forall_mem_cons.mpr ⟨hblank, hblanks⟩,
        hjoins, hline⟩
    · next hfilled =>
      have hfilled : first.isBlank = false := by simpa using hfilled
      split at h
      · next hcontinued =>
        obtain ⟨joined, rfl, hjoined, rfl⟩ := exists_of_joinContinued (Option.some.inj h)
        refine ⟨[], first, joined, rfl, List.forall_mem_nil _,
          ⟨hfilled, fun _ => hcontinued, hjoined⟩, ?_⟩
        rw [ofJoined, if_pos hcontinued]
      · next hcontinued =>
        obtain ⟨hline, rfl⟩ := Prod.mk.inj (Option.some.inj h)
        refine ⟨[], first, [], rfl, List.forall_mem_nil _,
          ⟨hfilled, fun hne => absurd rfl hne, List.forall_mem_nil _⟩, ?_⟩
        rw [ofJoined, if_neg hcontinued]
        exact (Except.ok.inj hline).symm

theorem isBlank_of_next?_eq_none (h : next? raws = none) : ∀ raw ∈ raws, raw.isBlank = true := by
  induction raws with
  | nil => exact List.forall_mem_nil _
  | cons first raws ih =>
    rw [next?] at h
    split at h
    · next hblank => exact List.forall_mem_cons.mpr ⟨hblank, ih h⟩
    · split at h <;> cases h

/-- A line that ends in something else than a pipe is not continued. -/
theorem isContinued_of_getLast? {t : Text} (hend : Text.trimEnd t = t)
    (hmark : t.getLast? ≠ some '|') : isContinued t = false := by
  rw [isContinued, hend]
  split
  · next hreverse =>
    rw [List.getLast?_eq_head?_reverse, hreverse] at hmark
    exact absurd rfl hmark
  · rfl

theorem next?_cons (hfilled : raw.isBlank = false) (hcontinued : isContinued raw.content = false)
    (raws : List PhysicalLine) : next? (raw :: raws) =
      some (.ok ⟨raw.number, raw.number, raw.indent, raw.content⟩, raws) := by
  rw [next?, if_neg (by simp [hfilled]), if_neg (by simp [hcontinued])]

theorem eq_of_next?_singleton (h : next? [raw] = some (.ok line, rest)) :
    raw.isBlank = false ∧ isContinued raw.content = false ∧
      line = ⟨raw.number, raw.number, raw.indent, raw.content⟩ ∧ rest = [] := by
  rw [next?] at h
  split at h
  · cases h
  · next hfilled =>
    split at h
    · cases h
    · next hcontinued =>
      obtain ⟨hline, rfl⟩ := Prod.mk.inj (Option.some.inj h)
      exact ⟨by simpa using hfilled, by simpa using hcontinued, (Except.ok.inj hline).symm, rfl⟩

end Haml.Line
