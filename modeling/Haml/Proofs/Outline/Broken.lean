import Haml.Proofs.Header.Opened
import Haml.Proofs.Outline.Reached
import Haml.Proofs.Render.Literal

/-! Headers on several lines. A header that is broken inside its groups is read as on one line,
whatever follows, and what follows it is read further down. -/

namespace Haml

open PhysicalLine (numbered isIndentMark raised raisedAfter)

variable {t first payload : Text} {implicitDiv : Bool} {raws conts below : List PhysicalLine}

namespace Marker

theorem eq_of_classify_element (h : classify t = (element, payload)) : t = '%' :: payload := by
  unfold classify at h
  split at h
  all_goals try cases h
  · rfl
  · split_ifs at h <;> cases h

theorem eq_of_classify_div (h : classify t = (div, payload)) : payload = t ∧
    ∃ mark second rest, t = mark :: second :: rest ∧
      (mark = '.' ∨ mark = '#') ∧ isNameChar second = true := by
  unfold classify at h
  split at h
  all_goals try cases h
  split_ifs at h with hmark
  all_goals cases h
  rw [Bool.and_eq_true, Bool.or_eq_true, decide_eq_true_eq, decide_eq_true_eq] at hmark
  exact ⟨rfl, _, _, _, rfl, hmark⟩

end Marker

namespace Line

/-- The header of a line that declares an element: is the tag left out, and its text. -/
def header? (t : Text) : Option (Bool × Text) :=
  match Marker.classify t with
  | (.element, payload) => some (false, payload)
  | (.div, payload) => some (true, payload)
  | _ => none

theorem header?_append (h : header? t = some (implicitDiv, payload)) (more : Text) :
    header? (t ++ more) = some (implicitDiv, payload ++ more) := by
  rw [header?] at h
  split at h
  · next heq =>
    obtain ⟨rfl, rfl⟩ := Prod.mk.inj (Option.some.inj h)
    rw [Marker.eq_of_classify_element heq]
    rfl
  · next heq =>
    obtain ⟨rfl, rfl⟩ := Prod.mk.inj (Option.some.inj h)
    obtain ⟨rfl, mark, second, rest, rfl, hmark, hsecond⟩ := Marker.eq_of_classify_div heq
    rcases hmark with rfl | rfl <;> simp [header?, Marker.classify, hsecond]
  · cases h

/-- The text of a line that declares an element stops inside a group of its header. -/
def StopsInside (t : Text) : Prop :=
  ∃ implicitDiv payload, header? t = some (implicitDiv, payload) ∧
    Header.StopsInside implicitDiv payload

end Line

namespace Item

theorem read_header {line : Line} (h : Line.header? line.text = some (implicitDiv, payload))
    (raws : List PhysicalLine) :
    read line raws = readElement implicitDiv line.number payload raws := by
  rw [Line.header?] at h
  split at h
  · next heq =>
    obtain ⟨rfl, rfl⟩ := Prod.mk.inj (Option.some.inj h)
    rw [read, heq]
  · next heq =>
    obtain ⟨rfl, rfl⟩ := Prod.mk.inj (Option.some.inj h)
    rw [read, heq]
  · cases h

/-- The lines behind an element may stand further down. -/
theorem readElement_below (k number : Nat) (payload : Text) (raws : List PhysicalLine) :
    readElement implicitDiv number payload (raws.map (raised k)) =
      (readElement implicitDiv number payload raws).map (raisedAfter k) := by
  rw [readElement, readElement, Header.readLines_below]
  rcases Header.readLines implicitDiv number payload raws with e | ⟨header, left⟩
  · rfl
  · simp only [bind, Except.bind, Except.map, raisedAfter]
    cases ofHeader number header <;> rfl

/-- The text of an element that is broken inside its groups is gathered again. -/
theorem read_gathered {n k : Nat} {indent : Text}
    (hstops : ∀ before raw after, conts = before ++ raw :: after →
      Line.StopsInside (Header.gather first before))
    (helement : Line.header? (Header.gather first conts) = some (implicitDiv, payload)) :
    read ⟨n, n, indent, first⟩ (conts ++ below.map (raised k)) =
      (read ⟨n, n, indent, Header.gather first conts⟩ below).map (raisedAfter k) := by
  obtain ⟨implicitDiv', payload', hfirst⟩ :
      ∃ implicitDiv' payload', Line.header? first = some (implicitDiv', payload') := by
    cases conts with
    | nil => exact ⟨implicitDiv, payload, helement⟩
    | cons raw conts =>
      obtain ⟨implicitDiv', payload', hfirst, -⟩ := hstops [] raw conts rfl
      exact ⟨implicitDiv', payload', hfirst⟩
  have hgather (raws : List PhysicalLine) : Line.header? (Header.gather first raws) =
      some (implicitDiv', Header.gather payload' raws) := by
    rw [Header.gather_eq first, Header.gather_eq payload']
    exact Line.header?_append hfirst _
  have hinside : ∀ before raw after, conts = before ++ raw :: after →
      Header.StopsInside implicitDiv' (Header.gather payload' before) := by
    intro before raw after heq
    obtain ⟨_, _, hheader, hstops⟩ := hstops before raw after heq
    obtain ⟨rfl, rfl⟩ := Prod.mk.inj (Option.some.inj (hheader.symm.trans (hgather before)))
    exact hstops
  rw [read_header hfirst, read_header (hgather conts), ← readElement_below, readElement,
    readElement, Header.readLines_gather hinside]

end Item

namespace Outline

/-- Lines are read alike but further down if their first logical lines are. -/
theorem readFrom_alike {known : Indentation} {path : Path} {raws' rest rest' : List PhysicalLine}
    {line line' : Line} {k : Nat} (hline : Line.next? raws = some (.ok line, rest))
    (hline' : Line.next? raws' = some (.ok line', rest')) (hnumber : line'.number = line.number)
    (hindent : line'.indent = line.indent)
    (hread : Item.read line' rest' = (Item.read line rest).map (raisedAfter k))
    (herror : ∀ e, Item.read line rest = .error e → e.line = line.number)
    (hrest : ∀ raw ∈ rest, line.number < raw.number) :
    readFrom known path raws' =
      renumbered (shiftBehind line.number k) (readFrom known path raws) := by
  have hkept : shiftBehind line.number k line.number = line.number := shiftBehind_of_le le_rfl
  have hfailed {e : ReadError} (he : e.line = line.number) :
      Except.error e = renumbered (shiftBehind line.number k) (.error e) :=
    congrArg Except.error (ReadError.renumbered_eq_self _ (he ▸ hkept)).symm
  rcases hdepth : known.depth line.indent with ⟨fault | depth, after⟩
  · rw [readFrom_unmeasured hline hdepth, readFrom_unmeasured hline' (hindent ▸ hdepth), hnumber]
    exact hfailed rfl
  rw [readFrom_step hline hdepth, readFrom_step hline' (hindent ▸ hdepth), hnumber]
  cases henter : path.enter depth with
  | error fault => exact hfailed rfl
  | ok inner =>
    cases hitem : Item.read line rest with
    | error e =>
      rw [hread, hitem]
      exact hfailed (herror e hitem)
    | ok read =>
      obtain ⟨item?, left⟩ := read
      have hleft : ∀ raw ∈ left, line.number < raw.number :=
        fun raw hraw => hrest raw ((Item.suffix_of_read hitem).subset hraw)
      rw [hread, hitem]
      cases item? with
      | none => exact readFrom_shifted hleft
      | some item =>
        have hentry : ∀ e ∈ [Entry.mk depth line.number item],
            shiftBehind line.number k e.line = e.line := List.forall_mem_singleton.mpr hkept
        exact (congrArg (Except.map _) (readFrom_shifted hleft)).trans
          (renumbered_append hentry _).symm

end Outline

/-- A text and further ones behind it, trimmed and set apart by single spaces. -/
def Text.spaced (first : Text) (more : List Text) : Text :=
  first ++ more.flatMap fun t => ' ' :: trim t

theorem Header.gather_eq_spaced (text : Text) (raws : List PhysicalLine) :
    gather text raws = text.spaced (raws.map PhysicalLine.text) := by
  induction raws generalizing text with
  | nil => exact (List.append_nil text).symm
  | cons raw raws ih =>
    rw [gather, List.foldl_cons, ← gather, ih]
    simp [Text.spaced]

theorem PhysicalLine.map_text_numbered (n : Nat) (texts : List Text) :
    (numbered n texts).map text = texts := by
  induction texts generalizing n with
  | nil => rfl
  | cons t rest ih => rw [numbered, List.map_cons, ih]

/-- The text of a line that declares an element, and lines that it is broken into. It is broken at
spaces inside the groups of its header, and the lines may be indented in any way. -/
structure Broken (whole first : Text) (more : List Text) : Prop where
  spaced : whole = Text.spaced first more
  element : (Line.header? whole).isSome = true
  trimmed : Text.trim whole = whole ∧ Text.trim first = first
  unmarked : whole.getLast? ≠ some '|' ∧ first.getLast? ≠ some '|'
  inside : ∀ i < more.length, Line.StopsInside (Text.spaced first (more.take i))

namespace Line

theorem exists_first_of_header? (h : (header? t).isSome = true) :
    ∃ c rest, t = c :: rest ∧ Unicode.isBlank c = false := by
  obtain ⟨⟨implicitDiv, payload⟩, h⟩ := Option.isSome_iff_exists.mp h
  rw [header?] at h
  split at h
  · next heq => exact ⟨'%', _, Marker.eq_of_classify_element heq, by decide⟩
  · next heq =>
    obtain ⟨-, mark, second, rest, rfl, hmark, -⟩ := Marker.eq_of_classify_div heq
    rcases hmark with rfl | rfl <;> exact ⟨_, _, rfl, by decide⟩
  · cases h

/-- A line of an element, on its own. -/
theorem next?_element {indent : Text} (hindent : ∀ c ∈ indent, isIndentMark c = true)
    (helement : (header? t).isSome = true) (htrim : Text.trim t = t) (hmark : t.getLast? ≠ some '|')
    (n : Nat) (raws : List PhysicalLine) :
    PhysicalLine.Indented ⟨n, indent ++ t⟩ indent t ∧ isContinued t = false ∧
      next? (⟨n, indent ++ t⟩ :: raws) = some (.ok ⟨n, n, indent, t⟩, raws) := by
  obtain ⟨c, rest, rfl, hc⟩ := exists_first_of_header? helement
  have hparts := PhysicalLine.indented hindent hc n rest
  have hend : Text.trimEnd (c :: rest) = c :: rest :=
    Text.trimEnd_eq_self_iff.mpr (Text.trim_eq_self_iff.mp htrim).2
  have hcontinued : isContinued (c :: rest) = false := isContinued_of_getLast? hend hmark
  have hnext := hparts.next?_eq hcontinued raws
  rw [hend] at hnext
  exact ⟨hparts, hcontinued, hnext⟩

end Line

namespace Broken

variable {whole : Text} {more : List Text}

theorem first_element (h : Broken whole first more) : (Line.header? first).isSome = true := by
  cases more with
  | nil =>
    have hwhole : whole = first := h.spaced.trans (List.append_nil first)
    exact hwhole ▸ h.element
  | cons t more =>
    obtain ⟨implicitDiv, payload, hheader, -⟩ := h.inside 0 (Nat.succ_pos _)
    rw [List.take_zero, Text.spaced, List.flatMap_nil, List.append_nil] at hheader
    rw [hheader]
    rfl

theorem read_eq (h : Broken whole first more) (n k : Nat) (indent : Text)
    (below : List PhysicalLine) :
    Item.read ⟨n, n, indent, first⟩ (numbered (n + 1) more ++ below.map (raised k)) =
      (Item.read ⟨n, n, indent, whole⟩ below).map (raisedAfter k) := by
  have hgather : Header.gather first (numbered (n + 1) more) = whole := by
    rw [Header.gather_eq_spaced, PhysicalLine.map_text_numbered, h.spaced]
  obtain ⟨⟨implicitDiv, payload⟩, helement⟩ := Option.isSome_iff_exists.mp h.element
  rw [← hgather] at helement ⊢
  refine Item.read_gathered (fun before raw after heq => ?_) helement
  have hmore : before.map PhysicalLine.text ++ raw.text :: after.map PhysicalLine.text = more := by
    rw [← PhysicalLine.map_text_numbered (n + 1) more, heq, List.map_append, List.map_cons]
  have hinside := h.inside (before.map PhysicalLine.text).length (by rw [← hmore]; simp)
  rw [← hmore, List.take_left] at hinside
  rwa [Header.gather_eq_spaced]

end Broken

namespace Outline

open PhysicalLine (ofSource)

variable {source source' indent whole : Text} {above more below : List Text}

theorem replaces_of_head {first other : PhysicalLine} {below below' : List PhysicalLine}
    (hfilled : other.isBlank = false) (hindent : other.indent = first.indent)
    (hfirst : first.isBlank = false)
    (hcontinued : Line.isContinued (Text.trim other.text) = false) :
    Replaces (other :: below') (first :: below) where
  filled := by
    rintro raw ⟨⟩
    exact hfilled
  nonempty _ := List.cons_ne_nil _ _
  ends indent hends := by
    rintro raw ⟨⟩
    have hbelow := hends first rfl
    rw [PhysicalLine.isBelow, hfirst, ← hindent] at hbelow
    rw [PhysicalLine.isBelow, hfilled]
    exact hbelow
  unmarked _ := by
    rintro raw ⟨⟩
    exact hcontinued

/-- The reading of a source comes to the line behind the given ones, or fails on them, whatever
stands behind. -/
def Meets (source : Text) (above : List Text) : Prop :=
  (∃ line, Reads source line ∧ line.number = above.length + 1) ∨
    ∃ e, ∀ raws, readFrom none [] (numbered 1 above ++ raws) = .error e

theorem read_of_fails {e : ReadError}
    (hfails : ∀ raws, readFrom none [] (numbered 1 above ++ raws) = .error e)
    (hlines : Text.lines source = above ++ below) :
    read source = .error e ∧ e.line ≤ above.length := by
  have herror := hfails []
  rw [List.append_nil] at herror
  obtain ⟨raw, hraw, -, hline⟩ := reported_of_readFrom herror
  obtain ⟨-, htext⟩ := PhysicalLine.getElem?_of_mem_numbered hraw
  obtain ⟨hlt, -⟩ := List.getElem?_eq_some_iff.mp htext
  refine ⟨?_, by omega⟩
  rw [read, ofSource, hlines, PhysicalLine.numbered_append, hfails]

/-- An element on several lines is read as on one line. -/
theorem read_of_broken (hbroken : Broken whole first more)
    (hindent : ∀ c ∈ indent, isIndentMark c = true)
    (hlines : Text.lines source = above ++ (indent ++ whole) :: below)
    (hlines' : Text.lines source' = above ++ (indent ++ first) :: (more ++ below))
    (hmeets : Meets source above) :
    read source' = renumbered (shiftBehind (above.length + 1) more.length) (read source) := by
  rcases hmeets with ⟨line, hreads, hnumber⟩ | ⟨e, hfails⟩
  case inr =>
    obtain ⟨hread, hline⟩ := read_of_fails hfails hlines
    rw [hread, (read_of_fails hfails hlines').1]
    have hkept : shiftBehind (above.length + 1) more.length e.line = e.line :=
      shiftBehind_of_le (by omega)
    exact congrArg Except.error (ReadError.renumbered_eq_self _ hkept).symm
  obtain ⟨entries, t, spare, -, -, -, hsteps, ht, hspare, -⟩ := hreads.exists_steps hlines hnumber
  obtain ⟨implicitDiv, hheader⟩ := Option.isSome_iff_exists.mp hbroken.element
  obtain ⟨hwhole, -, hnext⟩ := Line.next?_element hindent hbroken.element hbroken.trimmed.1
    hbroken.unmarked.1 (above.length + 1) (numbered (above.length + 2) below)
  obtain ⟨hfirst, hcontinued, hnext'⟩ := Line.next?_element hindent hbroken.first_element
    hbroken.trimmed.2 hbroken.unmarked.2 (above.length + 1)
    (numbered (above.length + 2) more ++
      (numbered (above.length + 2) below).map (raised more.length))
  have hsource : ofSource source' = numbered 1 above ++ ([] ++
      (⟨above.length + 1, indent ++ first⟩ :: (numbered (above.length + 2) more ++
        (numbered (above.length + 2) below).map (raised more.length)))) := by
    rw [ofSource, hlines', PhysicalLine.numbered_append, Nat.add_comm 1, numbered,
      PhysicalLine.numbered_append, PhysicalLine.numbered_raised more.length, List.nil_append]
  have hunmarked : Line.isContinued (Text.trim (indent ++ first)) = false := by
    rwa [hfirst.trim, Line.isContinued_trimEnd]
  refine hsteps.read_replaced hlines (Nat.le_succ _) ht hspare hsource (List.forall_mem_nil _)
    (replaces_of_head hfirst.filled (hfirst.indent.trans hwhole.indent.symm) hwhole.filled
      hunmarked) ?_
  refine readFrom_alike hnext hnext' rfl rfl (hbroken.read_eq _ _ _ _) (fun e he => ?_) ?_
  · rw [Item.read_header hheader] at he
    exact Item.line_of_readElement he
  · exact fun raw hraw => (PhysicalLine.getElem?_of_mem_numbered hraw).1

end Outline

/-- A document with an element on several lines, broken inside the groups of its header, is the
document with the element on one line, and is refused with it. The lines behind are further down. -/
theorem Document.read_broken {source source' indent whole : Text} {above more below : List Text}
    (hbroken : Broken whole first more)
    (hindent : ∀ c ∈ indent, isIndentMark c = true)
    (hlines : Text.lines source = above ++ (indent ++ whole) :: below)
    (hlines' : Text.lines source' = above ++ (indent ++ first) :: (more ++ below))
    (hmeets : Outline.Meets source above) :
    read source' =
      ((read source).mapError
        (ReadError.renumbered (shiftBehind (above.length + 1) more.length))).map
          (List.map (Node.renumbered (shiftBehind (above.length + 1) more.length))) := by
  rw [read, read, Outline.read_of_broken hbroken hindent hlines hlines' hmeets]
  cases Outline.read source with
  | error e => rfl
  | ok entries => exact congrArg Except.ok (Entry.forest_renumbered _ entries)

/-- A hash that is broken within a string and within brackets. -/
theorem Document.read_broken_list :
    let whole : Text := "%li\x7b:a => \"b c\", :d => [1, 2]\x7d e"
    let first : Text := "%li\x7b:a => \"b"
    let more : List Text := ["      c\", :d => [1,", "\t2]\x7d e"]
    let above : List Text := ["%ul"]
    let below : List Text := ["  = f"]
    ∃ forest,
      read ((above ++ ("  ".toList ++ whole) :: below).flatMap (· ++ ['\n'])) = .ok forest ∧
      read ((above ++ ("  ".toList ++ first) :: (more ++ below)).flatMap (· ++ ['\n'])) =
        .ok (forest.map (Node.renumbered (shiftBehind 2 2))) := by
  intro whole first more above below
  obtain ⟨forest, hforest⟩ : ∃ forest,
      read ((above ++ ("  ".toList ++ whole) :: below).flatMap (· ++ ['\n'])) = .ok forest :=
    Outcome.exists_of_isOk (by decide +kernel)
  have hlead : Header.IsLead false "li" :=
    ⟨"li", [], rfl, by decide, nofun, List.forall_mem_nil _⟩
  have hstops (inside : Text) (hinside : Brackets.all.body 0 .outside inside = none) :
      Line.StopsInside ("%li\x7b".toList ++ inside) :=
    ⟨false, _, rfl, "li", [], '{', inside, rfl, hlead, List.forall_mem_nil _, rfl, hinside⟩
  have hbroken : Broken whole first more := by
    refine ⟨by decide, by decide, by decide, by decide, fun i hi => ?_⟩
    obtain rfl | rfl : i = 0 ∨ i = 1 := by
      change i < 2 at hi
      omega
    · exact hstops ":a => \"b" (by decide)
    · exact hstops ":a => \"b c\", :d => [1," (by decide)
  let ul : Element := ⟨"ul", [], none, [], none, false, false, false, .none⟩
  let rest : List PhysicalLine := [⟨2, "  ".toList ++ whole⟩, ⟨3, "  = f"⟩]
  have hitem : Item.read ⟨1, 1, [], "%ul"⟩ rest = .ok (some (.element ul), rest) := by
    decide +kernel
  have hreads : Outline.Reads ((above ++ ("  ".toList ++ whole) :: below).flatMap (· ++ ['\n']))
      ⟨2, 2, "  ", whole⟩ :=
    ⟨_, _, _, .cons (.read rfl rfl rfl hitem) (.refl _), rfl⟩
  have hmeets : Outline.Meets ((above ++ ("  ".toList ++ whole) :: below).flatMap (· ++ ['\n']))
      above := .inl ⟨_, hreads, rfl⟩
  have hindent : ∀ c ∈ "  ".toList, isIndentMark c = true := List.all_eq_true.mp rfl
  have hlines : Text.lines ((above ++ ("  ".toList ++ whole) :: below).flatMap (· ++ ['\n'])) =
      above ++ ("  ".toList ++ whole) :: below := by decide
  have hlines' :
      Text.lines ((above ++ ("  ".toList ++ first) :: (more ++ below)).flatMap (· ++ ['\n'])) =
        above ++ ("  ".toList ++ first) :: (more ++ below) := by decide
  refine ⟨forest, hforest, ?_⟩
  rw [Document.read_broken hbroken hindent hlines hlines' hmeets, hforest]
  rfl

end Haml
