import Haml.Proofs.Outline.Reached

/-! Lines that leave nothing in an outline: blank ones, and silent comments with the blocks below
them. In front of a line with their indentation, or at the end of a source, reading passes over
them. They may fix the unit and close items, but only as the line behind them does. -/

namespace Haml

open PhysicalLine (Ends numbered isIndentMark)

/-- Blank lines, and silent comments at an indentation with the blocks below them. -/
inductive Unseen (allowed : Text → Prop) (indent : Text) : List Text → Prop
  | nil : Unseen allowed indent []
  | blank {t : Text} {rest : List Text} (ht : Text.isBlank t = true)
      (hrest : Unseen allowed indent rest) : Unseen allowed indent (t :: rest)
  | comment {text : Text} {block rest : List Text} (htext : allowed text)
      (hblock : ∀ t ∈ block,
        Text.isBlank t = true ∨ indent.length < (t.takeWhile isIndentMark).length)
      (hrest : Unseen allowed indent rest) :
      Unseen allowed indent ((indent ++ '-' :: '#' :: text) :: (block ++ rest))

/-- A comment of the text does not carry the continuation marker. -/
def Uncontinued (text : Text) : Prop := Line.isContinued ('-' :: '#' :: text) = false

instance : DecidablePred Uncontinued := fun _ => inferInstanceAs (Decidable (_ = _))

variable {known after : Indentation} {path inner : Path} {depth n : Nat}
  {indent text t : Text} {raws rest tail : List PhysicalLine} {texts : List Text}

theorem Marker.classify_comment (text : Text) :
    ∃ payload, classify (Text.trimEnd ('-' :: '#' :: text)) = (silentComment, payload) := by
  have hsharp : Unicode.isBlank '#' = false := by decide
  rw [Text.trimEnd, List.reverse_cons, List.reverse_cons, List.append_assoc, List.dropWhile_append]
  split
  · exact ⟨[], by simp [hsharp, classify]⟩
  · exact ⟨(text.reverse.dropWhile Unicode.isBlank).reverse, by simp [classify]⟩

theorem Indentation.depth_again (h : known.depth t = (.ok depth, after)) :
    after.depth t = (.ok depth, after) := by
  rcases Indentation.depth_eq_ok h with ⟨rfl, rfl, rfl⟩ | ⟨u, rfl, -, rfl, -⟩
  · rfl
  · exact Indentation.depth_indent u depth

theorem Path.enter_again (h : path.enter depth = .ok inner) : inner.enter depth = .ok inner := by
  obtain ⟨hdepth, hinner, htop⟩ := Outline.enter_eq_ok h
  have hlength : inner.length = depth := by
    rw [hinner, List.length_drop]
    omega
  have hrefusal : inner.head?.bind Item.refusal = none := by
    cases hhead : inner.head? with
    | none => rfl
    | some top => exact htop top hhead
  rw [enter, if_neg (by omega), hlength, Nat.sub_self, List.drop_zero]
  dsimp only
  rw [hrefusal]

namespace Outline

/-- A silent comment takes the block below it. -/
theorem readFrom_unseen (hindent : ∀ c ∈ indent, isIndentMark c = true)
    (hdepth : known.depth indent = (.ok depth, after)) (henter : path.enter depth = .ok inner)
    (htext : Uncontinued text) (n : Nat) (raws : List PhysicalLine) :
    readFrom known path (⟨n, indent ++ '-' :: '#' :: text⟩ :: raws) =
      readFrom after inner (raws.dropWhile (PhysicalLine.isBelow indent)) := by
  obtain ⟨payload, hclassify⟩ := Marker.classify_comment text
  have hmark : Unicode.isBlank '-' = false := by decide
  have hline := (PhysicalLine.indented hindent hmark n ('#' :: text)).next?_eq htext raws
  refine readFrom_comment hline hdepth henter ?_
  rw [Item.read, hclassify]

/-- Where a line was measured and items were closed for it, it is read as it is read before. -/
theorem readFrom_again {line : Line} (hline : Line.next? raws = some (.ok line, rest))
    (hdepth : known.depth line.indent = (.ok depth, after))
    (henter : path.enter depth = .ok inner) :
    readFrom after inner raws = readFrom known path raws := by
  rw [readFrom_step hline hdepth, readFrom_step hline (Indentation.depth_again hdepth), henter,
    Path.enter_again henter]

end Outline

namespace Unseen

variable {allowed : Text → Prop}

theorem isBelow_of_block (hblock : ∀ t ∈ texts,
    Text.isBlank t = true ∨ indent.length < (t.takeWhile isIndentMark).length) :
    ∀ raw ∈ numbered n texts, raw.isBelow indent = true := by
  induction texts generalizing n with
  | nil => exact List.forall_mem_nil _
  | cons t texts ih =>
    obtain ⟨ht, htexts⟩ := List.forall_mem_cons.mp hblock
    refine List.forall_mem_cons.mpr ⟨?_, ih htexts⟩
    rw [PhysicalLine.isBelow, Bool.or_eq_true, decide_eq_true_eq]
    exact ht

/-- In front of the first comment, or of the lines behind, there are blank lines only. -/
theorem exists_blanks (h : Unseen Uncontinued indent texts)
    (hindent : ∀ c ∈ indent, isIndentMark c = true) (htail : Ends indent tail) (n : Nat) :
    ∃ blanks rest, numbered n texts ++ tail = blanks ++ rest ∧
      (∀ raw ∈ blanks, raw.isBlank = true) ∧ Ends indent rest ∧
      ∀ raw ∈ rest.head?, raw ∈ tail.head? ∨ Line.isContinued (Text.trim raw.text) = false := by
  induction h generalizing n with
  | nil => exact ⟨[], tail, rfl, List.forall_mem_nil _, htail, fun raw hraw => .inl hraw⟩
  | @blank t texts ht hrest ih =>
    obtain ⟨blanks, rest, heq, hblanks, hends⟩ := ih (n + 1)
    refine ⟨⟨n, t⟩ :: blanks, rest, ?_, List.forall_mem_cons.mpr ⟨ht, hblanks⟩, hends⟩
    rw [numbered, List.cons_append, List.cons_append, heq]
  | @comment text block texts htext =>
    have hmark : Unicode.isBlank '-' = false := by decide
    obtain ⟨hparts, hfilled, -, htrim⟩ := PhysicalLine.indented hindent hmark n ('#' :: text)
    refine ⟨[], _, rfl, List.forall_mem_nil _, ?_, ?_⟩
    · rintro raw ⟨⟩
      rw [PhysicalLine.isBelow, hfilled, hparts]
      simp
    · rintro raw ⟨⟩
      rw [htrim, Line.isContinued_trimEnd]
      exact .inr htext

/-- Reading passes over the lines if what is behind them is read alike once it was measured. -/
theorem readFrom_eq (h : Unseen Uncontinued indent texts)
    (hindent : ∀ c ∈ indent, isIndentMark c = true) (htail : Ends indent tail)
    (hdepth : known.depth indent = (.ok depth, after)) (henter : path.enter depth = .ok inner)
    (hagain : Outline.readFrom after inner tail = Outline.readFrom known path tail) (n : Nat) :
    Outline.readFrom known path (numbered n texts ++ tail) = Outline.readFrom known path tail := by
  induction h generalizing known path n with
  | nil => rfl
  | @blank t texts ht hrest ih =>
    have hblank : ∀ raw ∈ [PhysicalLine.mk n t], raw.isBlank = true :=
      List.forall_mem_singleton.mpr ht
    exact (Outline.readFrom_blanks hblank).trans (ih hdepth henter hagain (n + 1))
  | @comment text block texts htext hblock hrest ih =>
    have hrest' := ih (Indentation.depth_again hdepth) (Path.enter_again henter) rfl
      (n + 1 + block.length)
    obtain ⟨blanks, rest, heq, hblanks, hends, -⟩ :=
      hrest.exists_blanks hindent htail (n + 1 + block.length)
    have hbelow : ∀ raw ∈ numbered (n + 1) block ++ blanks, raw.isBelow indent = true := by
      refine List.forall_mem_append.mpr ⟨isBelow_of_block hblock, fun raw hraw => ?_⟩
      simp [PhysicalLine.isBelow, hblanks raw hraw]
    -- The comment takes its block and the blank lines behind it.
    rw [numbered, List.cons_append, Outline.readFrom_unseen hindent hdepth henter htext,
      PhysicalLine.numbered_append, List.append_assoc, heq, ← List.append_assoc,
      (PhysicalLine.span_of_ends hbelow hends).2, ← Outline.readFrom_blanks hblanks, ← heq, hrest',
      hagain]

end Unseen

namespace Outline

open PhysicalLine (ofSource raised)

variable {source source' : Text} {above below inserted : List Text} {entries : List Entry}
  {t : State} {spare : List PhysicalLine}

/-- A place among the lines of a source: in front of a logical line that is read, with its
indentation, or at the end, where nothing is indented. -/
inductive Place (source : Text) (above below : List Text) : Text → Prop
  | line {line : Line} (hreads : Reads source line) (hnumber : line.number = above.length + 1) :
      Place source above below line.indent
  | last (hbelow : below = []) : Place source above below []

theorem ends_raised (k : Nat) (h : Ends indent raws) : Ends indent (raws.map (raised k)) := by
  intro raw hraw
  rw [List.head?_map] at hraw
  obtain ⟨raw', hraw', rfl⟩ := Option.map_eq_some_iff.mp hraw
  exact h raw' hraw'

/-- Unseen lines, and what was behind them further down, can stand in place of what was behind. -/
theorem replaces_unseen {blanks : List PhysicalLine} {k : Nat}
    (heq : tail ++ raws.map (raised k) = blanks ++ rest)
    (hblanks : ∀ raw ∈ blanks, raw.isBlank = true) (hends : Ends indent rest)
    (hcontinued : ∀ raw ∈ rest.head?,
      raw ∈ (raws.map (raised k)).head? ∨ Line.isContinued (Text.trim raw.text) = false)
    (hraws : Ends indent raws) (hmargin : ∀ other, Ends other raws → indent.length ≤ other.length) :
    Replaces rest raws where
  filled raw hraw := (Bool.or_eq_false_iff.mp (hends raw hraw)).1
  nonempty hne := by
    rintro rfl
    obtain ⟨first, more, rfl⟩ := List.exists_cons_of_ne_nil hne
    have hmem : first.raised k ∈ blanks := by
      rw [← List.append_nil blanks, ← heq]
      exact List.mem_append_right _ List.mem_cons_self
    have hfilled : first.isBlank = false := (Bool.or_eq_false_iff.mp (hraws first rfl)).1
    exact absurd (hblanks _ hmem) (by simpa [PhysicalLine.isBlank, raised] using hfilled)
  ends other hother raw hraw := by
    obtain ⟨hfilled, hindent⟩ := Bool.or_eq_false_iff.mp (hends raw hraw)
    have hle := hmargin other hother
    rw [decide_eq_false_iff_not] at hindent
    rw [PhysicalLine.isBelow, hfilled, Bool.false_or, decide_eq_false_iff_not]
    omega
  unmarked hunmarked raw hraw := by
    rcases hcontinued raw hraw with hmem | hends
    · rw [List.head?_map] at hmem
      obtain ⟨raw', hraw', rfl⟩ := Option.map_eq_some_iff.mp hmem
      exact hunmarked raw' hraw'
    · exact hends

theorem Steps.read_unseen (h : Steps (.start source) entries t)
    (hlines : Text.lines source = above ++ below)
    (hlines' : Text.lines source' = above ++ inserted ++ below)
    (ht : t.raws = spare ++ numbered (above.length + 1) below)
    (hspare : ∀ raw ∈ spare, raw.isBlank = true) (hindent : ∀ c ∈ indent, isIndentMark c = true)
    (hdepth : t.known.depth indent = (.ok depth, after)) (henter : t.path.enter depth = .ok inner)
    (hagain : readFrom after inner (numbered (above.length + 1) below) =
      readFrom t.known t.path (numbered (above.length + 1) below))
    (hbelow : Ends indent (numbered (above.length + 1) below))
    (hmargin : ∀ other, Ends other (numbered (above.length + 1) below) →
      indent.length ≤ other.length)
    (hinserted : Unseen Uncontinued indent inserted) :
    read source' = renumbered (shiftBehind above.length inserted.length) (read source) := by
  have hbelow' := ends_raised inserted.length hbelow
  have hagain' : readFrom after inner
      ((numbered (above.length + 1) below).map (raised inserted.length)) =
      readFrom t.known t.path
        ((numbered (above.length + 1) below).map (raised inserted.length)) := by
    rw [readFrom_raised, readFrom_raised, hagain]
  obtain ⟨blanks, rest, heq, hblanks, hends, hcontinued⟩ :=
    hinserted.exists_blanks hindent hbelow' (above.length + 1)
  have hsource : ofSource source' = numbered 1 above ++ (blanks ++ rest) := by
    rw [ofSource, hlines', List.append_assoc, PhysicalLine.numbered_append, Nat.add_comm 1,
      PhysicalLine.numbered_append, PhysicalLine.numbered_raised inserted.length, heq]
  have hraws : ∀ raw ∈ numbered (above.length + 1) below, above.length < raw.number :=
    fun raw hraw => (PhysicalLine.getElem?_of_mem_numbered hraw).1
  refine h.read_replaced hlines le_rfl ht hspare hsource hblanks
    (replaces_unseen heq hblanks hends hcontinued hbelow hmargin) ?_
  rw [← readFrom_shifted hraws,
    ← hinserted.readFrom_eq hindent hbelow' hdepth henter hagain' (above.length + 1), heq,
    readFrom_blanks hblanks]

theorem Run.exists_enter {line : Line} (h : Run known path raws entries)
    (hline : Line.next? raws = some (.ok line, rest)) : ∃ depth after inner,
      known.depth line.indent = (.ok depth, after) ∧ path.enter depth = .ok inner := by
  cases h with
  | done hline' =>
    rw [hline] at hline'
    cases hline'
  | comment hline' hdepth henter =>
    obtain ⟨rfl, -⟩ : _ = line ∧ _ = rest := by simpa [hline] using hline'.symm
    exact ⟨_, _, _, hdepth, henter⟩
  | item hline' hdepth henter =>
    obtain ⟨rfl, -⟩ : _ = line ∧ _ = rest := by simpa [hline] using hline'.symm
    exact ⟨_, _, _, hdepth, henter⟩

/-- Unseen lines that are put into a source shift the numbers of the lines behind them. -/
theorem read_unseen (hplace : Place source above below indent)
    (hlines : Text.lines source = above ++ below)
    (hlines' : Text.lines source' = above ++ inserted ++ below)
    (hinserted : Unseen Uncontinued indent inserted) (h : read source = .ok entries) :
    read source' = renumbered (shiftBehind above.length inserted.length) (read source) := by
  cases hplace with
  | @line line hreads hnumber =>
    obtain ⟨before, t, spare, first, more, rest, hsteps, ht, hspare, hfirst, hfilled, hindent,
      hline⟩ := hreads.exists_steps hlines hnumber
    have hrun : ∃ after, Run t.known t.path (first :: more) after := by
      have hread := hsteps.read_eq.symm.trans h
      obtain ⟨after, hafter, -⟩ := Outcome.exists_of_map_eq_ok hread
      rw [State.read, ht, readFrom_blanks hspare, hfirst] at hafter
      exact ⟨after, readFrom_eq_ok_iff.mp hafter⟩
    obtain ⟨after, hrun⟩ := hrun
    obtain ⟨depth, known, inner, hdepth, henter⟩ := hrun.exists_enter hline
    have hmarks : ∀ c ∈ line.indent, isIndentMark c = true := by
      rw [← hindent]
      exact fun c hc => List.mem_takeWhile_imp hc
    refine hsteps.read_unseen hlines hlines' ht hspare hmarks hdepth henter ?_ ?_ ?_ hinserted
    · rw [hfirst]
      exact readFrom_again hline hdepth henter
    · rw [hfirst, ← hindent]
      rintro raw ⟨⟩
      simp [PhysicalLine.isBelow, hfilled]
    · intro other hother
      rw [hfirst] at hother
      rw [← hindent]
      simpa [PhysicalLine.isBelow, hfilled] using hother first rfl
  | last hbelow =>
    obtain rfl := hbelow
    obtain ⟨t, hsteps, hblank⟩ := (readFrom_eq_ok_iff.mp h).exists_steps
    exact hsteps.read_unseen hlines hlines' (List.append_nil _).symm hblank (List.forall_mem_nil _)
      rfl (enter_zero t.path) (by rw [numbered, readFrom_done rfl, readFrom_done rfl])
      (PhysicalLine.ends_empty []) (fun _ _ => Nat.zero_le _) hinserted

end Outline

end Haml
