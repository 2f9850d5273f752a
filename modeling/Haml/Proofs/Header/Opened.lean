import Haml.Proofs.Header.Groups
import Haml.Proofs.Header.RoundTrip
import Haml.Proofs.Line.Raised
import Haml.Proofs.Outline.Taken

/-! Headers that stop inside a group. What is in front of the group is read of such a header as it
is read of a longer one. If it is refused, the longer one is refused for the same reason; if not,
the header is found to be open, whatever the group has inside up to there. -/

namespace Haml

/-- A text that goes on with a group. -/
def OpensGroup (t : Text) : Prop :=
  ∃ opener rest, t = opener :: rest ∧ Brackets.all.opens opener = true

variable {t : Text}

theorem OpensGroup.starts (h : OpensGroup t) : Starts ['{', '(', '['] t := by
  obtain ⟨opener, rest, rfl, hopens⟩ := h
  exact Starts.cons (by simpa [Brackets.all] using hopens)

namespace Shorthand

variable {shorthands : List Shorthand}

theorem starts_behind (shorthands : List Shorthand) (ht : OpensGroup t) :
    Starts ['.', '#', '{', '(', '['] (shorthands.flatMap write ++ t) :=
  ((starts_writeAll shorthands).mono (by simp)).append (ht.starts.mono (by simp))

theorem readAll_named {mark : Char} {name rest : Text} {allowed : List Char}
    (hmark : mark = '.' ∨ mark = '#') (hname : name.all isNameChar = true)
    (hrest : Starts allowed rest) (hallowed : allowed.any isNameChar = false) :
    readAll (mark :: (name ++ rest)) =
      if name.isEmpty then .error .missingShorthandName
      else (readAll rest).map fun (more, left) =>
        ((if mark = '.' then className name else id name) :: more, left) := by
  rw [readAll, if_pos hmark]
  simp only [hrest.takeWhile_append hname hallowed, hrest.dropWhile_append hname hallowed]

/-- In front of a group, shorthands are read as they are written if each of them has a name. -/
theorem readAll_behind (h : ∀ s ∈ shorthands, s.name.all isNameChar = true) :
    (∀ t, OpensGroup t → readAll (shorthands.flatMap write ++ t) = .error .missingShorthandName) ∨
      ∀ t, OpensGroup t → readAll (shorthands.flatMap write ++ t) = .ok (shorthands, t) := by
  by_cases hnames : ∀ s ∈ shorthands, s.name ≠ []
  · refine .inr fun t ht => readAll_write (fun s hs => ⟨hnames s hs, h s hs⟩) ht.starts ?_ ?_
    · decide
    · decide
  -- Shorthands in front of the one without a name are read, but nothing is made of them.
  refine .inl fun t ht => ?_
  induction shorthands with
  | nil => exact absurd (List.forall_mem_nil _) hnames
  | cons s more ih =>
    obtain ⟨hs, hmore⟩ := List.forall_mem_cons.mp h
    obtain ⟨mark, hmark, hwrite⟩ := s.exists_write_eq
    rw [List.flatMap_cons, hwrite, List.cons_append, List.cons_append, List.append_assoc,
      readAll_named hmark hs (starts_behind more ht) (by decide)]
    split
    · rfl
    · next hname =>
      have hrest : ¬∀ s ∈ more, s.name ≠ [] := by
        intro hrest
        exact hnames (List.forall_mem_cons.mpr ⟨by simpa using hname, hrest⟩)
      rw [ih hmore hrest]
      rfl

end Shorthand

namespace Groups

variable {line : Nat} {groups : Groups} {written : List BracketGroup}

/-- Groups that are closed are read one after the other. -/
theorem readAll_written (h : ∀ g ∈ written, g.Shut Brackets.Any) (rest : Text) :
    readAll line groups (written.flatMap BracketGroup.text ++ rest) =
      ((addAll line groups written).mapError HeaderError.invalid).bind fun groups =>
        readAll line groups rest := by
  induction written generalizing groups with
  | nil => rfl
  | cons g written ih =>
    obtain ⟨hg, hwritten⟩ := List.forall_mem_cons.mp h
    rw [List.flatMap_cons, List.append_assoc, BracketGroup.text_append,
      readAll_cons hg.opens (hg.body _), addAll, List.foldlM_cons]
    cases hadd : groups.add line g.opener g.inside with
    | error e => rfl
    | ok groups => exact ih hwritten

end Groups

namespace Header

variable {implicitDiv : Bool} {lead text : Text}

/-- What can stand in front of the groups of a header: a tag name, where it is not left out, and
classes and ids. If one of the names is missing, the header is refused. -/
def IsLead (implicitDiv : Bool) (lead : Text) : Prop :=
  ∃ (tag : Text) (shorthands : List Shorthand), lead = tag ++ shorthands.flatMap Shorthand.write ∧
    tag.all isTagChar = true ∧ (implicitDiv = true → tag = []) ∧
    ∀ s ∈ shorthands, s.name.all isNameChar = true

/-- The text of a header stops inside a group, be it of attributes or a reference. -/
def StopsInside (implicitDiv : Bool) (text : Text) : Prop :=
  ∃ (lead : Text) (written : List BracketGroup) (opener : Char) (inside : Text),
    text = lead ++ (written.flatMap BracketGroup.text ++ opener :: inside) ∧
    IsLead implicitDiv lead ∧ (∀ g ∈ written, g.Shut Brackets.Any) ∧
    Brackets.all.opens opener = true ∧ Brackets.all.body 0 .outside inside = none

theorem readTag_behind {tag t : Text} (htag : tag.all isTagChar = true)
    (himplicit : implicitDiv = true → tag = []) (shorthands : List Shorthand)
    (ht : OpensGroup t) :
    readTag implicitDiv (tag ++ (shorthands.flatMap Shorthand.write ++ t)) =
      if implicitDiv then .ok ("div", shorthands.flatMap Shorthand.write ++ t)
      else if tag.isEmpty then .error .missingTagName
      else .ok (tag, shorthands.flatMap Shorthand.write ++ t) := by
  have hstarts := Shorthand.starts_behind shorthands ht
  rw [readTag, hstarts.takeWhile_append htag (by decide),
    hstarts.dropWhile_append htag (by decide)]
  split
  · next hdiv => rw [himplicit hdiv, List.nil_append]
  · rfl

/-- In front of a group, a lead is refused, or it is read and the groups decide. -/
theorem read_behind (h : IsLead implicitDiv lead) (line : Nat) :
    (∃ e, ∀ t, OpensGroup t → read implicitDiv line (lead ++ t) = .error (.invalid e)) ∨
      ∀ t e, OpensGroup t → Groups.readAll line {} t = .error e →
        read implicitDiv line (lead ++ t) = .error e := by
  obtain ⟨tag, shorthands, rfl, htag, himplicit, hshorthands⟩ := h
  have hreadTag {t : Text} (ht : OpensGroup t) := readTag_behind htag himplicit shorthands ht
  by_cases hname : implicitDiv = false ∧ tag.isEmpty = true
  · refine .inl ⟨.invalid .missingTagName line, fun t ht => ?_⟩
    rw [List.append_assoc, read, hreadTag ht, hname.1, hname.2]
    rfl
  obtain ⟨name, hname⟩ : ∃ name, ∀ t, OpensGroup t →
      readTag implicitDiv (tag ++ (shorthands.flatMap Shorthand.write ++ t)) =
        .ok (name, shorthands.flatMap Shorthand.write ++ t) := by
    cases implicitDiv with
    | true => exact ⟨_, fun t ht => (hreadTag ht).trans (if_pos rfl)⟩
    | false =>
      have hwritten : ¬tag.isEmpty = true := fun hempty => hname ⟨rfl, hempty⟩
      exact ⟨tag, fun t ht => (hreadTag ht).trans (if_neg hwritten)⟩
  rcases Shorthand.readAll_behind hshorthands with herror | hok
  · refine .inl ⟨.invalid .missingShorthandName line, fun t ht => ?_⟩
    rw [List.append_assoc, read, hname t ht]
    simp only [atLine, bind, Except.bind, herror t ht]
  · refine .inr fun t e ht hgroups => ?_
    rw [List.append_assoc, read, hname t ht]
    simp only [atLine, bind, Except.bind, hok t ht, hgroups]

/-- A header that stops inside a group is open, or it is refused as all that goes on like it. -/
theorem read_stopped (h : StopsInside implicitDiv text) (line : Nat) :
    read implicitDiv line text = .error .unclosed ∨
      ∃ e, ∀ more, read implicitDiv line (text ++ more) = .error (.invalid e) := by
  obtain ⟨lead, written, opener, inside, rfl, hlead, hwritten, hopens, hinside⟩ := h
  have hgroup (more : Text) : OpensGroup (written.flatMap BracketGroup.text ++
      (opener :: (inside ++ more))) := by
    cases written with
    | nil => exact ⟨opener, inside ++ more, rfl, hopens⟩
    | cons g written =>
      rw [List.flatMap_cons, List.append_assoc, BracketGroup.text_append]
      exact ⟨g.opener, _, rfl, (hwritten g List.mem_cons_self).opens⟩
  have happend (more : Text) :
      lead ++ (written.flatMap BracketGroup.text ++ opener :: inside) ++ more =
        lead ++ (written.flatMap BracketGroup.text ++ (opener :: (inside ++ more))) := by simp
  simp only [happend]
  rcases read_behind hlead line with ⟨e, he⟩ | hread
  · exact .inr ⟨e, fun more => he _ (hgroup more)⟩
  cases hadd : Groups.addAll line {} written with
  | error e =>
    refine .inr ⟨e, fun more => hread _ _ (hgroup more) ?_⟩
    rw [Groups.readAll_written hwritten, hadd]
    rfl
  | ok groups =>
    have hstops : Groups.readAll line {} (written.flatMap BracketGroup.text ++ opener :: inside) =
        .error .unclosed := by
      rw [Groups.readAll_written hwritten, hadd]
      exact Groups.readAll_unclosed hopens hinside
    have hopen := hgroup []
    rw [List.append_nil] at hopen
    exact .inl (hread _ _ hopen hstops)

section Lines

variable {line : Nat} {below raws : List PhysicalLine}

theorem gather_append (first text : Text) (raws : List PhysicalLine) :
    gather (first ++ text) raws = first ++ gather text raws := by
  induction raws generalizing text with
  | nil => rfl
  | cons raw raws ih =>
    rw [gather, List.foldl_cons, ← gather, List.append_assoc, ih]
    rfl

theorem gather_eq (text : Text) (raws : List PhysicalLine) :
    gather text raws = text ++ gather [] raws := by
  rw [← gather_append, List.append_nil]

theorem readLines_of_invalid {e : ReadError} (h : read implicitDiv line text = .error (.invalid e))
    (raws : List PhysicalLine) : readLines implicitDiv line text raws = .error e := by
  rw [readLines.eq_def, h]

/-- Lines that go on with a header inside its groups are read as the rest of its line. -/
theorem readLines_gather (h : ∀ before raw after, raws = before ++ raw :: after →
      StopsInside implicitDiv (gather text before)) :
    readLines implicitDiv line text (raws ++ below) =
      readLines implicitDiv line (gather text raws) below := by
  induction raws generalizing text with
  | nil => rfl
  | cons raw raws ih =>
    have hstops : StopsInside implicitDiv text := h [] raw raws rfl
    rcases read_stopped hstops line with hopen | ⟨e, he⟩
    · rw [List.cons_append, readLines_cons raw (raws ++ below) hopen]
      refine ih fun before raw' after heq => ?_
      exact h (raw :: before) raw' after (by rw [heq, List.cons_append])
    · have hinvalid := he []
      rw [List.append_nil] at hinvalid
      rw [readLines_of_invalid hinvalid, gather_eq, readLines_of_invalid (he _)]

/-- The lines that go on with a header may stand further down. -/
theorem readLines_below (k : Nat) (text : Text) (raws : List PhysicalLine) :
    readLines implicitDiv line text (raws.map (PhysicalLine.raised k)) =
      (readLines implicitDiv line text raws).map (PhysicalLine.raisedAfter k) := by
  induction raws generalizing text with
  | nil =>
    rw [List.map_nil, readLines.eq_def]
    rcases read implicitDiv line text with (_ | e) | header <;> rfl
  | cons raw raws ih =>
    rw [readLines.eq_def, readLines.eq_def implicitDiv line text (raw :: raws)]
    rcases read implicitDiv line text with (_ | e) | header
    · exact ih _
    · rfl
    · rfl

end Lines

end Header

end Haml
