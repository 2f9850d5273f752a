import Haml.Proofs.Line.Partition
import Haml.Proofs.Outline.Append
import Haml.Proofs.Outline.Renumbered
import Haml.Proofs.Outline.Reported

/-! Where the reading of an outline gets to. What is read up to a place is told apart from what is
read behind it, and stays the same if other lines stand there, provided that they end what the lines
there ended: the groups of continued lines and the blocks in front of them. -/

namespace Haml

open PhysicalLine (Ends)

/-- Lines that can stand in place of others behind what was read. -/
structure Replaces (tail below : List PhysicalLine) : Prop where
  filled : ∀ raw ∈ tail.head?, raw.isBlank = false
  nonempty : below ≠ [] → tail ≠ []
  ends : ∀ indent, Ends indent below → Ends indent tail
  unmarked : (∀ raw ∈ below.head?, Line.isContinued (Text.trim raw.text) = false) →
    ∀ raw ∈ tail.head?, Line.isContinued (Text.trim raw.text) = false

namespace Line

variable {line joined : Line} {above below tail blanks rest raws : List PhysicalLine}

theorem isContinued_blank {raw : PhysicalLine} (h : raw.isBlank = true) :
    isContinued (Text.trim raw.text) = false := by
  have hstart : Text.trimStart raw.text = [] :=
    List.dropWhile_eq_nil_iff.mpr (List.all_eq_true.mp h)
  rw [Text.trim, hstart]
  rfl

theorem joinContinued_stop (hfilled : ¬raws.all PhysicalLine.isBlank = true)
    (hstop : ∀ raw ∈ raws.head?, isContinued (Text.trim raw.text) = false) :
    joinContinued line raws = (.ok line, raws) := by
  cases raws with
  | nil => exact absurd rfl hfilled
  | cons raw raws =>
    have hends : ¬isContinued (Text.trim raw.text) = true := by simp [hstop raw rfl]
    rw [joinContinued, if_neg hfilled]
    exact if_neg hends

theorem stop_of_joinContinued (h : joinContinued line raws = (.ok joined, raws)) :
    ¬raws.all PhysicalLine.isBlank = true ∧
      (∀ raw ∈ raws.head?, isContinued (Text.trim raw.text) = false) ∧ joined = line := by
  cases raws with
  | nil => cases h
  | cons raw raws =>
    rw [joinContinued] at h
    split at h
    · cases h
    · next hfilled =>
      split at h
      · next hcontinued =>
        have hlength := (joinContinued_suffix
          (line.extend raw.number (stripMarker (Text.trim raw.text))) raws).length_le
        rw [h, List.length_cons] at hlength
        omega
      · next hends =>
        obtain ⟨hline, -⟩ := Prod.mk.inj h
        refine ⟨hfilled, ?_, (Except.ok.inj hline).symm⟩
        rintro raw' ⟨⟩
        simpa using hends

section Replaced

variable (hreplaces : Replaces tail below) (hblanks : ∀ raw ∈ blanks, raw.isBlank = true)

include hreplaces

theorem filled_of_replaces (above : List PhysicalLine)
    (h : ¬(above ++ below).all PhysicalLine.isBlank = true) :
    ¬(above ++ (blanks ++ tail)).all PhysicalLine.isBlank = true := by
  have hbelow : ¬below.all PhysicalLine.isBlank = true →
      ¬tail.all PhysicalLine.isBlank = true := by
    intro hbelow
    have hne : tail ≠ [] := hreplaces.nonempty (by rintro rfl; exact hbelow rfl)
    obtain ⟨first, tail, rfl⟩ := List.exists_cons_of_ne_nil hne
    simp [hreplaces.filled first rfl]
  simp only [List.all_append, Bool.and_eq_true, not_and_or] at h ⊢
  exact h.imp_right fun h => .inr (hbelow h)

include hblanks

theorem joinContinued_replaced
    (h : joinContinued line (above ++ below) = (.ok joined, rest ++ below)) :
    joinContinued line (above ++ (blanks ++ tail)) = (.ok joined, rest ++ (blanks ++ tail)) := by
  induction above generalizing line with
  | nil =>
    obtain rfl : rest = [] := by
      have hlength := (joinContinued_suffix line below).length_le
      rw [List.nil_append] at h
      rw [h, List.length_append] at hlength
      exact List.eq_nil_of_length_eq_zero (by omega)
    obtain ⟨hfilled, hstop, rfl⟩ := stop_of_joinContinued h
    refine joinContinued_stop (filled_of_replaces hreplaces [] hfilled) ?_
    -- The group ends at a blank line, or where it ended at the line that is replaced.
    cases blanks with
    | nil => exact hreplaces.unmarked hstop
    | cons blank blanks =>
      rintro raw ⟨⟩
      exact isContinued_blank (hblanks blank List.mem_cons_self)
  | cons raw above ih =>
    rw [List.cons_append, joinContinued] at h
    split at h
    · cases h
    · next hfilled =>
      have hfilled' : ¬(raw :: (above ++ (blanks ++ tail))).all PhysicalLine.isBlank = true :=
        filled_of_replaces hreplaces (raw :: above) hfilled
      rw [List.cons_append, joinContinued, if_neg hfilled']
      split at h
      · next hcontinued =>
        refine (if_pos hcontinued).trans ?_
        exact ih h
      · next hends =>
        obtain ⟨hline, hrest⟩ := Prod.mk.inj h
        obtain rfl : raw :: above = rest := List.append_cancel_right hrest
        refine (if_neg hends).trans ?_
        rw [hline]
        rfl

theorem next?_replaced (h : next? (above ++ below) = some (.ok line, rest ++ below)) :
    next? (above ++ (blanks ++ tail)) = some (.ok line, rest ++ (blanks ++ tail)) := by
  induction above with
  | nil =>
    have hlength := length_lt_of_next? h
    rw [List.nil_append, List.length_append] at hlength
    omega
  | cons raw above ih =>
    rw [List.cons_append, next?] at h
    rw [List.cons_append, next?]
    split at h
    · next hblank =>
      rw [if_pos hblank]
      exact ih h
    · next hfilled =>
      rw [if_neg hfilled]
      split at h
      · next hcontinued =>
        rw [if_pos hcontinued,
          joinContinued_replaced hreplaces hblanks (Option.some.inj h)]
      · next hends =>
        obtain ⟨hline, hrest⟩ := Prod.mk.inj (Option.some.inj h)
        obtain rfl : above = rest := List.append_cancel_right hrest
        rw [if_neg hends, hline]

end Replaced

end Line

namespace Outline

/-- Where the reading of lines stands: what is known of the unit, the items that are open and the
lines that are left. -/
structure State where
  known : Indentation
  path : Path
  raws : List PhysicalLine

namespace State

def start (source : Text) : State := ⟨none, [], PhysicalLine.ofSource source⟩

/-- The outline of the lines that are left. -/
def read (s : State) : Except ReadError (List Entry) := readFrom s.known s.path s.raws

end State

/-- One logical line is read, and taken into the outline unless it is a silent comment. -/
inductive Step : State → Option Entry → State → Prop
  | read {known after : Indentation} {path inner : Path} {raws rest left : List PhysicalLine}
      {line : Line} {depth : Nat} {item? : Option Item}
      (hline : Line.next? raws = some (.ok line, rest))
      (hdepth : known.depth line.indent = (.ok depth, after))
      (henter : path.enter depth = .ok inner) (hread : Item.read line rest = .ok (item?, left)) :
      Step ⟨known, path, raws⟩ (item?.map fun item => ⟨depth, line.number, item⟩)
        ⟨after, item?.toList ++ inner, left⟩

/-- Logical lines are read one after the other. -/
inductive Steps : State → List Entry → State → Prop
  | refl (s : State) : Steps s [] s
  | cons {s t u : State} {e? : Option Entry} {entries : List Entry} (hstep : Step s e? t)
      (hrest : Steps t entries u) : Steps s (e?.toList ++ entries) u

/-- The line is one that the reading of a source comes to. -/
def Reads (source : Text) (line : Line) : Prop :=
  ∃ entries s rest, Steps (.start source) entries s ∧ Line.next? s.raws = some (.ok line, rest)

variable {s t : State} {e? : Option Entry} {entries : List Entry}
  {above below left spare blanks tail : List PhysicalLine}

theorem Step.read_eq (h : Step s e? t) : s.read = t.read.map (e?.toList ++ ·) := by
  cases h with
  | @read _ _ _ _ _ _ _ _ _ item? hline hdepth henter hread =>
    cases item? with
    | none =>
      rw [State.read, State.read, readFrom_comment hline hdepth henter hread]
      exact (congrFun Except.map_id _).symm
    | some item => exact readFrom_item hline hdepth henter hread

theorem Steps.read_eq (h : Steps s entries t) : s.read = t.read.map (entries ++ ·) := by
  induction h with
  | refl s => exact (congrFun Except.map_id _).symm
  | cons hstep hrest ih =>
    rw [hstep.read_eq, ih, Outcome.map_append]

theorem Step.suffix (h : Step s e? t) : t.raws <:+ s.raws := by
  cases h with
  | read hline hdepth henter hread =>
    exact (Item.suffix_of_read hread).trans (Line.reported_of_next? hline).2

theorem Steps.suffix (h : Steps s entries t) : t.raws <:+ s.raws := by
  induction h with
  | refl => exact List.suffix_rfl
  | cons hstep hrest ih => exact ih.trans hstep.suffix

/-- Lines that a step leaves were left by the logical line, too. -/
theorem Step.exists_above (h : Step s e? t) (hs : s.raws = above ++ below)
    (ht : t.raws = left ++ below) : left <:+ above ∧
      ∀ e ∈ e?, ∃ raw ∈ above, raw.number = e.line := by
  cases h with
  | @read _ _ _ _ _ rest _ line depth item? hline hdepth henter hread =>
    obtain rfl : _ = left ++ below := ht
    obtain ⟨taken, rfl, -⟩ := Item.exists_of_read hread
    obtain ⟨blanks, first, joined, hraws, -, -, rfl⟩ := Line.exists_of_next? hline
    have habove : above = blanks ++ (first :: joined) ++ (taken ++ left) := by
      refine List.append_cancel_right (hs.symm.trans (hraws.trans ?_))
      simp only [List.append_assoc]
    refine ⟨?_, fun e he => ⟨first, by simp [habove], ?_⟩⟩
    · rw [habove, ← List.append_assoc]
      exact List.suffix_append _ _
    · obtain ⟨item, -, rfl⟩ := Option.map_eq_some_iff.mp he
      exact (Line.number_ofJoined first joined).symm

/-- A step is the same in front of other lines. It may take blank lines that stand there. -/
theorem Step.exists_replaced (h : Step s e? t) (hs : s.raws = above ++ below)
    (ht : t.raws = left ++ below) (hreplaces : Replaces tail below)
    (hblanks : ∀ raw ∈ blanks, raw.isBlank = true) :
    ∃ blanks', (∀ raw ∈ blanks', raw.isBlank = true) ∧
      Step ⟨s.known, s.path, above ++ (blanks ++ tail)⟩ e?
        ⟨t.known, t.path, left ++ (blanks' ++ tail)⟩ := by
  cases h with
  | read hline hdepth henter hread =>
    obtain rfl : _ = above ++ below := hs
    obtain rfl : _ = left ++ below := ht
    obtain ⟨taken, rfl, -⟩ := Item.exists_of_read hread
    rw [← List.append_assoc] at hline hread
    obtain ⟨blanks', hblanks', hread'⟩ :=
      Item.exists_read_replaced hread hreplaces.ends hblanks
    have hline' := Line.next?_replaced hreplaces hblanks hline
    exact ⟨blanks', hblanks', .read hline' hdepth henter hread'⟩

theorem Steps.exists_left (h : Steps s entries t) (ht : t.raws = spare ++ below) :
    ∃ left, s.raws = left ++ below := by
  obtain ⟨taken, hraws⟩ := h.suffix
  exact ⟨taken ++ spare, by rw [← hraws, ht, List.append_assoc]⟩

/-- What was read stands in front of the lines that are left. -/
theorem Steps.number_mem (h : Steps s entries t) (hs : s.raws = above ++ below)
    (ht : t.raws = spare ++ below) : ∀ e ∈ entries, ∃ raw ∈ above, raw.number = e.line := by
  induction h generalizing above with
  | refl => exact List.forall_mem_nil _
  | cons hstep hrest ih =>
    obtain ⟨left, hleft⟩ := hrest.exists_left ht
    obtain ⟨hsuffix, hentry⟩ := hstep.exists_above hs hleft
    refine List.forall_mem_append.mpr ⟨fun e he => hentry e (Option.mem_toList.mp he), ?_⟩
    intro e he
    obtain ⟨raw, hraw, hnumber⟩ := ih hleft ht e he
    exact ⟨raw, hsuffix.subset hraw, hnumber⟩

/-- What was read is read in front of other lines, too, and these as they are read from there on. -/
theorem Steps.readFrom_replaced (h : Steps s entries t) (hs : s.raws = above ++ below)
    (ht : t.raws = spare ++ below) (hreplaces : Replaces tail below)
    (hspare : ∀ raw ∈ spare, raw.isBlank = true) (hblanks : ∀ raw ∈ blanks, raw.isBlank = true) :
    readFrom s.known s.path (above ++ (blanks ++ tail)) =
      (readFrom t.known t.path tail).map (entries ++ ·) := by
  induction h generalizing above blanks with
  | refl s =>
    obtain rfl : above = spare := List.append_cancel_right (hs.symm.trans ht)
    rw [← List.append_assoc, readFrom_blanks (List.forall_mem_append.mpr ⟨hspare, hblanks⟩)]
    exact (congrFun Except.map_id _).symm
  | cons hstep hrest ih =>
    obtain ⟨left, hleft⟩ := hrest.exists_left ht
    obtain ⟨blanks', hblanks', hstep'⟩ := hstep.exists_replaced hs hleft hreplaces hblanks
    rw [← Outcome.map_append, ← ih hleft ht hblanks']
    exact hstep'.read_eq

/-- All of an outline is read where only blank lines are left. -/
theorem Run.exists_steps {known : Indentation} {path : Path} {raws : List PhysicalLine}
    (h : Run known path raws entries) :
    ∃ t, Steps ⟨known, path, raws⟩ entries t ∧ ∀ raw ∈ t.raws, raw.isBlank = true := by
  induction h with
  | done hline => exact ⟨_, .refl _, Line.isBlank_of_next?_eq_none hline⟩
  | comment hline hdepth henter hread hrest ih =>
    obtain ⟨t, hsteps, hblank⟩ := ih
    exact ⟨t, .cons (.read hline hdepth henter hread) hsteps, hblank⟩
  | item hline hdepth henter hread hrest ih =>
    obtain ⟨t, hsteps, hblank⟩ := ih
    exact ⟨t, .cons (.read hline hdepth henter hread) hsteps, hblank⟩

section Numbered

variable {source source' : Text} {texts texts' : List Text} {line : Line} {n k : Nat}

open PhysicalLine (numbered ofSource raised)

/-- The lines of a source up to one of them, by its number. -/
theorem eq_of_ofSource {before after : List PhysicalLine} {first : PhysicalLine}
    (hlines : Text.lines source = texts ++ texts')
    (hsplit : ofSource source = before ++ first :: after)
    (hnumber : first.number = texts.length + 1) :
    first :: after = numbered (texts.length + 1) texts' := by
  have hlength : before.length = texts.length := by
    have hconsecutive := PhysicalLine.consecutive_ofSource source
    rw [hsplit] at hconsecutive
    have hfirst := hconsecutive.append.2.cons.1
    omega
  rw [ofSource, hlines, PhysicalLine.numbered_append, Nat.add_comm 1] at hsplit
  refine (List.append_inj hsplit ?_).2.symm
  rw [PhysicalLine.length_numbered, hlength]

/-- Reading comes to a line with all that is in front of it behind it, blank lines apart. -/
theorem Reads.exists_steps (h : Reads source line) (hlines : Text.lines source = texts ++ texts')
    (hnumber : line.number = texts.length + 1) : ∃ entries t spare first after rest,
      Steps (.start source) entries t ∧ t.raws = spare ++ numbered (texts.length + 1) texts' ∧
      (∀ raw ∈ spare, raw.isBlank = true) ∧
      numbered (texts.length + 1) texts' = first :: after ∧ first.isBlank = false ∧
      first.indent = line.indent ∧ Line.next? (first :: after) = some (.ok line, rest) := by
  obtain ⟨entries, t, rest, hsteps, hnext⟩ := h
  obtain ⟨taken, htaken⟩ := hsteps.suffix
  obtain ⟨spare, first, joined, hraws, hspare, hjoins, rfl⟩ := Line.exists_of_next? hnext
  rw [Line.number_ofJoined] at hnumber
  have hraws' : t.raws = spare ++ first :: (joined ++ rest) := by
    rw [hraws, List.append_assoc, List.cons_append]
  have hsplit : ofSource source = (taken ++ spare) ++ first :: (joined ++ rest) := by
    rw [List.append_assoc, ← hraws']
    exact htaken.symm
  rw [hraws', Line.next?_blanks hspare] at hnext
  rw [← eq_of_ofSource hlines hsplit hnumber]
  exact ⟨entries, t, spare, first, joined ++ rest, rest, hsteps, hraws', hspare, rfl,
    hjoins.filled, (Line.indent_ofJoined first joined).symm, hnext⟩

/-- Lines behind a number are read further down, and all others are where they were. -/
theorem readFrom_shifted {known : Indentation} {path : Path} {raws : List PhysicalLine}
    (hraws : ∀ raw ∈ raws, n < raw.number) :
    readFrom known path (raws.map (raised k)) =
      renumbered (shiftBehind n k) (readFrom known path raws) := by
  rw [readFrom_raised]
  cases hread : readFrom known path raws with
  | error e =>
    obtain ⟨raw, hraw, -, hline⟩ := reported_of_readFrom hread
    have hshift : shiftBehind n k e.line = e.line + k :=
      shiftBehind_of_lt (hline ▸ hraws raw hraw)
    refine congrArg Except.error ?_
    cases e with
    | lex e => exact congrArg (fun line => ReadError.lex { e with line }) hshift.symm
    | invalid fault line => exact congrArg (ReadError.invalid fault) hshift.symm
  | ok entries =>
    refine congrArg Except.ok (List.map_congr_left fun e he => ?_)
    have hmem := (readFrom_eq_ok_iff.mp hread).sublist.subset (List.mem_map_of_mem he)
    obtain ⟨raw, hraw, hline⟩ := List.mem_map.mp hmem
    have hshift : shiftBehind n k e.line = e.line + k :=
      shiftBehind_of_lt (hline ▸ hraws raw (List.mem_of_mem_filter hraw))
    exact congrArg (fun line => { e with line }) hshift.symm

theorem renumbered_append {f : Nat → Nat} (hf : ∀ e ∈ entries, f e.line = e.line)
    (result : Except ReadError (List Entry)) :
    renumbered f (result.map (entries ++ ·)) = (renumbered f result).map (entries ++ ·) := by
  have hentries : entries.map (Entry.renumbered f) = entries :=
    (List.map_congr_left fun e he => congrArg (fun line => { e with line }) (hf e he)).trans
      (List.map_id entries)
  cases result with
  | error e => rfl
  | ok more =>
    refine congrArg Except.ok ?_
    rw [List.map_append, hentries]

/-- A source with other lines from one line on. What is read of these in place of the others, with
the numbers behind that line shifted, is read of the whole source. -/
theorem Steps.read_replaced (h : Steps (.start source) entries t)
    (hlines : Text.lines source = texts ++ texts') (hlength : texts.length ≤ n)
    (ht : t.raws = spare ++ numbered (texts.length + 1) texts')
    (hspare : ∀ raw ∈ spare, raw.isBlank = true)
    (hsource : ofSource source' = numbered 1 texts ++ (blanks ++ tail))
    (hblanks : ∀ raw ∈ blanks, raw.isBlank = true)
    (hreplaces : Replaces tail (numbered (texts.length + 1) texts'))
    (htail : readFrom t.known t.path tail = renumbered (shiftBehind n k)
      (readFrom t.known t.path (numbered (texts.length + 1) texts'))) :
    read source' = renumbered (shiftBehind n k) (read source) := by
  have hstart : (State.start source).raws =
      numbered 1 texts ++ numbered (texts.length + 1) texts' := by
    rw [State.start, ofSource, hlines, PhysicalLine.numbered_append, Nat.add_comm 1]
  have hkept : ∀ e ∈ entries, shiftBehind n k e.line = e.line := by
    intro e he
    obtain ⟨raw, hraw, hnumber⟩ := h.number_mem hstart ht e he
    obtain ⟨-, htext⟩ := PhysicalLine.getElem?_of_mem_numbered hraw
    obtain ⟨hlt, -⟩ := List.getElem?_eq_some_iff.mp htext
    exact shiftBehind_of_le (by omega)
  have hread : read source = (readFrom t.known t.path
      (numbered (texts.length + 1) texts')).map (entries ++ ·) := by
    refine h.read_eq.trans ?_
    rw [State.read, ht, readFrom_blanks hspare]
  have hread' : read source' = (readFrom t.known t.path tail).map (entries ++ ·) := by
    rw [read, hsource]
    exact h.readFrom_replaced hstart ht hreplaces hspare hblanks
  rw [hread, renumbered_append hkept, hread', htail]

end Numbered

end Outline

end Haml
