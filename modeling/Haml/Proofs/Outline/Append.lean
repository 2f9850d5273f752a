import Haml.Proofs.Line.Joined
import Haml.Proofs.Outline.Raised
import Haml.Proofs.Outline.Taken
import Haml.Proofs.Outline.Unit

/-! Reading lines one behind the other. Lines that are followed by a line without indentation are
read as they are on their own: continued lines and open groups have ended before, and the block of a
filter or a silent comment ends there, with the blank lines in front. -/

namespace Haml

variable {raws rest left : List PhysicalLine} {line : Line} {item? : Option Item}

theorem Header.readLines_append {implicitDiv : Bool} {number : Nat} {text : Text} {header : Header}
    (h : readLines implicitDiv number text raws = .ok (header, rest)) (more : List PhysicalLine) :
    readLines implicitDiv number text (raws ++ more) = .ok (header, rest ++ more) := by
  fun_induction readLines implicitDiv number text raws with
  | case1 text header' raws hread =>
    obtain ⟨rfl, rfl⟩ := Prod.mk.inj (Except.ok.inj h)
    exact readLines_of_ok (raws ++ more) hread
  | case2 => cases h
  | case3 => cases h
  | case4 text raw raws hread ih =>
    rw [List.cons_append, readLines_cons raw (raws ++ more) hread]
    exact ih h

namespace Line

variable {joined : Line}

theorem joinContinued_append (h : joinContinued line raws = (.ok joined, rest))
    (more : List PhysicalLine) :
    joinContinued line (raws ++ more) = (.ok joined, rest ++ more) := by
  fun_induction joinContinued line raws with
  | case1 => cases h
  | case2 => cases h
  | case3 line raw raws text hfilled hcontinued ih =>
    have hfilled' : ¬(raw :: (raws ++ more)).all PhysicalLine.isBlank = true := by
      rw [← List.cons_append, List.all_append]
      simp [hfilled]
    rw [List.cons_append, joinContinued, if_neg hfilled']
    exact (if_pos hcontinued).trans (ih h)
  | case4 line raw raws text hfilled hends =>
    have hfilled' : ¬(raw :: (raws ++ more)).all PhysicalLine.isBlank = true := by
      rw [← List.cons_append, List.all_append]
      simp [hfilled]
    obtain ⟨hline, rfl⟩ := Prod.mk.inj h
    rw [List.cons_append, joinContinued, if_neg hfilled']
    refine (if_neg hends).trans ?_
    rw [hline]

theorem next?_append (h : next? raws = some (.ok line, rest)) (more : List PhysicalLine) :
    next? (raws ++ more) = some (.ok line, rest ++ more) := by
  induction raws with
  | nil => cases h
  | cons raw raws ih =>
    rw [next?] at h
    rw [List.cons_append, next?]
    split at h
    · next hblank =>
      rw [if_pos hblank]
      exact ih h
    · next hfilled =>
      rw [if_neg hfilled]
      split at h
      · next hcontinued =>
        rw [if_pos hcontinued, joinContinued_append (Option.some.inj h)]
      · next hends =>
        obtain ⟨hline, rfl⟩ := Prod.mk.inj (Option.some.inj h)
        rw [if_neg hends, hline]

theorem next?_blanks {blanks : List PhysicalLine} (h : ∀ raw ∈ blanks, raw.isBlank = true)
    (raws : List PhysicalLine) : next? (blanks ++ raws) = next? raws := by
  induction blanks with
  | nil => rfl
  | cons raw blanks ih =>
    obtain ⟨hraw, hblanks⟩ := List.forall_mem_cons.mp h
    rw [List.cons_append, next?, if_pos hraw, ih hblanks]

end Line

/-- Lines that start without indentation, if there are any. -/
def Flush (tail : List PhysicalLine) : Prop :=
  ∀ raw ∈ tail.head?, raw.isBlank = false ∧ raw.indent = []

namespace PhysicalLine

variable {blanks tail : List PhysicalLine}

theorem dropBlankEnd_append (block : List PhysicalLine) (h : ∀ raw ∈ blanks, raw.isBlank = true) :
    dropBlankEnd (block ++ blanks) = dropBlankEnd block := by
  have hdrop : blanks.reverse.dropWhile isBlank = [] :=
    List.dropWhile_eq_nil_iff.mpr fun raw hraw => h raw (List.mem_reverse.mp hraw)
  rw [dropBlankEnd, dropBlankEnd, List.reverse_append, List.dropWhile_append, hdrop]
  rfl

/-- No block below a line with the indentation goes on here. -/
def Ends (indent : Text) (raws : List PhysicalLine) : Prop :=
  ∀ raw ∈ raws.head?, raw.isBelow indent = false

variable {indent : Text} {raws behind behind' : List PhysicalLine}

theorem ends_empty (indent : Text) : Ends indent [] :=
  fun raw hraw => absurd hraw (Option.not_mem_none raw)

theorem ends_flush (indent : Text) (h : Flush tail) : Ends indent tail := by
  intro raw hraw
  obtain ⟨hfilled, hindent⟩ := h raw hraw
  simp [isBelow, hfilled, hindent]

theorem span_of_ends (hraws : ∀ raw ∈ raws, raw.isBelow indent = true) (h : Ends indent behind) :
    (raws ++ behind).takeWhile (isBelow indent) = raws ∧
      (raws ++ behind).dropWhile (isBelow indent) = behind := by
  have hstop : behind.takeWhile (isBelow indent) = [] ∧
      behind.dropWhile (isBelow indent) = behind := by
    cases behind with
    | nil => exact ⟨rfl, rfl⟩
    | cons first behind =>
      have hfirst : ¬isBelow indent first = true := by simp [h first rfl]
      exact ⟨List.takeWhile_cons_of_neg hfirst, List.dropWhile_cons_of_neg hfirst⟩
  rw [List.takeWhile_append_of_pos hraws, List.dropWhile_append_of_pos hraws, hstop.1, hstop.2,
    List.append_nil]
  exact ⟨rfl, rfl⟩

theorem of_dropWhile_below (h : (raws ++ behind).dropWhile (isBelow indent) = behind) :
    (∀ raw ∈ raws, raw.isBelow indent = true) ∧ Ends indent behind := by
  have htake : (raws ++ behind).takeWhile (isBelow indent) = raws := by
    have hsplit := List.takeWhile_append_dropWhile (p := isBelow indent) (l := raws ++ behind)
    rw [h] at hsplit
    exact List.append_cancel_right hsplit
  refine ⟨fun raw hraw => List.mem_takeWhile_imp (htake.symm ▸ hraw), fun raw hraw => ?_⟩
  have hhead := List.head?_dropWhile_not (isBelow indent) (raws ++ behind)
  rw [h, Option.mem_def.mp hraw] at hhead
  simpa using hhead

/-- The block below a line takes blank lines behind it, and ends where it ended before. -/
theorem span_blanks (h : (raws ++ behind).dropWhile (isBelow indent) = behind)
    (hends : Ends indent behind → Ends indent behind')
    (hblanks : ∀ raw ∈ blanks, raw.isBlank = true) :
    (raws ++ behind).takeWhile (isBelow indent) = raws ∧
      (raws ++ (blanks ++ behind')).takeWhile (isBelow indent) = raws ++ blanks ∧
      (raws ++ (blanks ++ behind')).dropWhile (isBelow indent) = behind' := by
  obtain ⟨hraws, hbehind⟩ := of_dropWhile_below h
  have hall : ∀ raw ∈ raws ++ blanks, raw.isBelow indent = true := by
    refine List.forall_mem_append.mpr ⟨hraws, fun raw hraw => ?_⟩
    simp [isBelow, hblanks raw hraw]
  rw [← List.append_assoc]
  exact ⟨(span_of_ends hraws hbehind).1, span_of_ends hall (hends hbehind)⟩

end PhysicalLine

namespace Item

variable {blanks tail behind behind' : List PhysicalLine}

/-- An element that takes all lines is the same in front of others. -/
theorem readElement_append {implicitDiv : Bool} {number : Nat} {payload : Text}
    (h : readElement implicitDiv number payload raws = .ok (item?, []))
    (behind : List PhysicalLine) :
    readElement implicitDiv number payload (raws ++ behind) = .ok (item?, behind) := by
  obtain ⟨⟨header, rest⟩, hlines, h⟩ := Outcome.exists_of_bind_eq_ok h
  obtain ⟨element, helement, h⟩ := Outcome.exists_of_bind_eq_ok h
  obtain ⟨rfl, rfl⟩ := Prod.mk.inj (Except.ok.inj h)
  simp only [readElement, Header.readLines_append hlines, helement, bind, Except.bind]
  rfl

/-- A filter is the same in front of other lines that end its block as well, without the blank lines
in front of them. -/
theorem readFilter_blanks {payload : Text}
    (h : readFilter line payload (raws ++ behind) = .ok (item?, behind))
    (hends : PhysicalLine.Ends line.indent behind → PhysicalLine.Ends line.indent behind')
    (hblanks : ∀ raw ∈ blanks, raw.isBlank = true) :
    readFilter line payload (raws ++ (blanks ++ behind')) = .ok (item?, behind') := by
  rw [readFilter] at h
  dsimp only at h
  split at h
  · cases h
  · next hname =>
    split at h
    · cases h
    · next segments hsegments =>
      obtain ⟨rfl, hdrop⟩ := Prod.mk.inj (Except.ok.inj h)
      obtain ⟨htake, htake', hdrop'⟩ := PhysicalLine.span_blanks hdrop hends hblanks
      rw [htake] at hsegments
      rw [readFilter, if_neg hname]
      dsimp only
      rw [htake', hdrop', PhysicalLine.dropBlankEnd_append raws hblanks, hsegments]

/-- An item is the same in front of other lines that end its block as well. It takes blank lines in
front of them all or leaves them all. -/
theorem exists_read_behind (h : Item.read line (raws ++ behind) = .ok (item?, behind))
    (hends : ∀ indent, PhysicalLine.Ends indent behind → PhysicalLine.Ends indent behind')
    (hblanks : ∀ raw ∈ blanks, raw.isBlank = true) :
    ∃ blanks', (blanks' = blanks ∨ blanks' = []) ∧
      Item.read line (raws ++ (blanks ++ behind')) = .ok (item?, blanks' ++ behind') := by
  obtain ⟨taken, hraws, htaken, hown, -⟩ := exists_of_read h
  obtain rfl : raws = taken := List.append_cancel_right hraws
  have halone {i : Except ReadError Item} (hnil : raws = [])
      (hi : i.map (fun i => (some i, raws)) = .ok (item?, [])) :
      ∃ blanks', (blanks' = blanks ∨ blanks' = []) ∧
        i.map (fun i => (some i, raws ++ (blanks ++ behind'))) =
          .ok (item?, blanks' ++ behind') := by
    obtain ⟨i, rfl, hread⟩ := Outcome.exists_of_map_eq_ok hi
    obtain ⟨rfl, -⟩ := Prod.mk.inj hread
    exact ⟨blanks, .inl rfl, by rw [hnil]; rfl⟩
  rw [read] at h hown ⊢
  rw [Line.Takes] at htaken
  generalize Marker.classify line.text = classified at h hown htaken ⊢
  obtain ⟨marker, payload⟩ := classified
  cases marker
  case element => exact ⟨blanks, .inl rfl, readElement_append hown _⟩
  case div => exact ⟨blanks, .inl rfl, readElement_append hown _⟩
  case silentComment =>
    obtain ⟨rfl, hdrop⟩ := Prod.mk.inj (Except.ok.inj h)
    obtain ⟨-, -, hdrop'⟩ := PhysicalLine.span_blanks hdrop (hends line.indent) hblanks
    exact ⟨[], .inr rfl, congrArg (fun left => Except.ok (none, left)) hdrop'⟩
  case filter => exact ⟨[], .inr rfl, readFilter_blanks h (hends line.indent) hblanks⟩
  all_goals exact halone htaken hown

/-- An item is the same if lines behind all that it takes are replaced by others, with blank lines
in front, that end its block as well. -/
theorem exists_read_replaced {below : List PhysicalLine}
    (h : Item.read line (raws ++ below) = .ok (item?, left ++ below))
    (hends : ∀ indent, PhysicalLine.Ends indent below → PhysicalLine.Ends indent tail)
    (hblanks : ∀ raw ∈ blanks, raw.isBlank = true) :
    ∃ blanks', (∀ raw ∈ blanks', raw.isBlank = true) ∧
      Item.read line (raws ++ (blanks ++ tail)) = .ok (item?, left ++ (blanks' ++ tail)) := by
  obtain ⟨taken, hraws, -⟩ := exists_of_read h
  obtain rfl : raws = taken ++ left := by
    rw [← List.append_assoc] at hraws
    exact List.append_cancel_right hraws
  rw [List.append_assoc] at h ⊢
  cases left with
  | nil =>
    obtain ⟨blanks', rfl | rfl, hread⟩ := exists_read_behind h hends hblanks
    · exact ⟨blanks', hblanks, hread⟩
    · exact ⟨[], List.forall_mem_nil _, hread⟩
  | cons first left =>
    -- What the item left stays in front of the lines.
    obtain ⟨blanks', hblanks', hread⟩ : ∃ blanks', (blanks' = [] ∨ blanks' = []) ∧
        Item.read line (taken ++ ([] ++ (first :: left ++ (blanks ++ tail)))) =
          .ok (item?, blanks' ++ (first :: left ++ (blanks ++ tail))) :=
      exists_read_behind h (fun _ hends => hends) (List.forall_mem_nil _)
    obtain rfl : blanks' = [] := hblanks'.elim id id
    exact ⟨blanks, hblanks, hread⟩

/-- An item is the same in front of lines that start without indentation, of which it may take the
blank lines. -/
theorem exists_read_append (h : Item.read line raws = .ok (item?, left))
    (hblanks : ∀ raw ∈ blanks, raw.isBlank = true) (htail : Flush tail) :
    ∃ blanks', (∀ raw ∈ blanks', raw.isBlank = true) ∧
      Item.read line (raws ++ (blanks ++ tail)) = .ok (item?, left ++ (blanks' ++ tail)) := by
  rw [← List.append_nil raws, ← List.append_nil left] at h
  exact exists_read_replaced h (fun indent _ => PhysicalLine.ends_flush indent htail) hblanks

end Item

namespace Outline

variable {known : Indentation} {path : Path} {raws' first last tail blanks : List PhysicalLine}
  {entries before after more : List Entry}

/-- Nothing but the next logical line is looked at. -/
theorem readFrom_of_next? (hnext : Line.next? raws' = Line.next? raws) :
    readFrom known path raws' = readFrom known path raws := by
  rcases hline : Line.next? raws with - | ⟨e | line, rest⟩
  · rw [readFrom_done hline, readFrom_done (hnext.trans hline)]
  · rw [readFrom_unread hline, readFrom_unread (hnext.trans hline)]
  · rcases hdepth : known.depth line.indent with ⟨fault | depth, after⟩
    · rw [readFrom_unmeasured hline hdepth, readFrom_unmeasured (hnext.trans hline) hdepth]
    · rw [readFrom_step hline hdepth, readFrom_step (hnext.trans hline) hdepth]

theorem readFrom_blanks (hblanks : ∀ raw ∈ blanks, raw.isBlank = true) :
    readFrom known path (blanks ++ raws) = readFrom known path raws :=
  readFrom_of_next? (Line.next?_blanks hblanks raws)

theorem Run.of_next? (h : Run known path raws entries)
    (hnext : Line.next? raws' = Line.next? raws) : Run known path raws' entries :=
  readFrom_eq_ok_iff.mp ((readFrom_of_next? hnext).trans h.readFrom_eq)

/-- Lines, and further ones behind them that are read whatever is open then. -/
theorem Run.append (h : Run known path raws entries)
    (hmore : ∀ path, Run (unitFrom known raws) path tail more) (htail : Flush tail)
    (hblanks : ∀ raw ∈ blanks, raw.isBlank = true) :
    Run known path (raws ++ (blanks ++ tail)) (entries ++ more) := by
  induction h generalizing blanks with
  | done hline =>
    rw [unitFrom_done hline] at hmore
    rw [← List.append_assoc]
    refine (hmore _).of_next? (Line.next?_blanks (List.forall_mem_append.mpr ⟨?_, hblanks⟩) tail)
    exact Line.isBlank_of_next?_eq_none hline
  | comment hline hdepth henter hread hrest ih =>
    rw [unitFrom_step hline hread, hdepth] at hmore
    obtain ⟨blanks', hblanks', hread'⟩ := Item.exists_read_append hread hblanks htail
    exact .comment (Line.next?_append hline _) hdepth henter hread' (ih hmore hblanks')
  | item hline hdepth henter hread hrest ih =>
    rw [unitFrom_step hline hread, hdepth] at hmore
    obtain ⟨blanks', hblanks', hread'⟩ := Item.exists_read_append hread hblanks htail
    exact .item (Line.next?_append hline _) hdepth henter hread' (ih hmore hblanks')

theorem flush_of_next? {line : Line} {rest : List PhysicalLine} {depth : Nat}
    {measured : Indentation} {inner : Path} (hline : Line.next? raws = some (.ok line, rest))
    (hdepth : known.depth line.indent = (.ok depth, measured))
    (henter : Path.enter depth [] = .ok inner) :
    ∃ blanks tail, raws = blanks ++ tail ∧ (∀ raw ∈ blanks, raw.isBlank = true) ∧ Flush tail := by
  obtain ⟨rfl, -⟩ := enter_nil henter
  obtain ⟨blanks, top, joined, rfl, hblanks, hjoins, rfl⟩ := Line.exists_of_next? hline
  rw [Line.indent_ofJoined] at hdepth
  have hindent : top.indent = [] := by
    rcases Indentation.depth_eq_ok hdepth with ⟨hnil, -⟩ | ⟨u, -, -, hunit, hmark⟩
    · exact hnil
    · rw [hunit, IndentUnit.indent_eq] at hmark
      simp at hmark
  refine ⟨blanks, top :: (joined ++ rest), List.append_assoc _ _ _, hblanks, ?_⟩
  intro raw hraw
  obtain rfl := Option.some.inj hraw
  exact ⟨hjoins.filled, hindent⟩

/-- What is read where nothing is open starts without indentation behind its first blank lines. -/
theorem Run.exists_flush (h : Run known [] raws entries) :
    ∃ blanks tail, raws = blanks ++ tail ∧ (∀ raw ∈ blanks, raw.isBlank = true) ∧ Flush tail := by
  cases h with
  | done hline =>
    exact ⟨raws, [], (List.append_nil raws).symm, Line.isBlank_of_next?_eq_none hline, nofun⟩
  | comment hline hdepth henter => exact flush_of_next? hline hdepth henter
  | item hline hdepth henter => exact flush_of_next? hline hdepth henter

/-- Do two lists of lines indent alike, as far as they do? -/
def UnitsAgree (first last : List PhysicalLine) : Prop :=
  unitFrom none first = unitFrom none last ∨ unitFrom none first = none ∨ unitFrom none last = none

theorem Run.append_raised (hfirst : Run none [] first before) (hlast : Run none [] last after)
    (hunits : UnitsAgree first last) (k : Nat) :
    Run none [] (first ++ last.map (PhysicalLine.raised k))
      (before ++ after.map (Entry.raised k)) := by
  have hbehind (path : Path) :
      Run (unitFrom none first) path (last.map (PhysicalLine.raised k))
        (after.map (Entry.raised k)) := (hlast.behind hunits path).raised k
  obtain ⟨blanks, tail, heq, hblanks, htail⟩ := (hlast.raised k).exists_flush
  rw [heq] at hbehind ⊢
  refine hfirst.append (fun path => ?_) htail hblanks
  exact (hbehind path).of_next? (Line.next?_blanks hblanks tail).symm

end Outline

end Haml
