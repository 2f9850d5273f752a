import Haml.Proofs.Outline.Unbroken
import Haml.Proofs.Text.Bracketed

/-! The groups of a header, as they are written. What is in front of them opens no bracket, and each
group is a bracketed text between an opening bracket and a closing one. The opening bracket says
what the group is; the closing one is not looked at, so that it may be of another kind. -/

namespace Haml

/-- A group as it is written. -/
structure BracketGroup where
  opener : Char
  inside : Text
  closer : Char
  deriving DecidableEq, Repr

namespace BracketGroup

def text (g : BracketGroup) : Text := g.opener :: (g.inside ++ [g.closer])

/-- All brackets of the group are closed, by those that may close them. -/
structure Shut (Closes : Char → Char → Prop) (g : BracketGroup) : Prop where
  opens : Brackets.all.opens g.opener = true
  closes : Brackets.all.closes g.closer = true
  pair : Closes g.opener g.closer
  inside : Bracketed Closes g.inside

/-- All of a group but the bracket that closes it. -/
def opened (g : BracketGroup) : Char × Text := (g.opener, g.inside)

/-- No group stands here. -/
def Stops (t : Text) : Prop := ∀ c ∈ t.head?, Brackets.all.opens c = false

theorem stops_nil : Stops [] := nofun

variable {Closes : Char → Char → Prop} {g : BracketGroup} {written written' : List BracketGroup}
  {rest rest' : Text}

theorem Shut.any (h : g.Shut Closes) : g.Shut Brackets.Any :=
  ⟨h.opens, h.closes, trivial, h.inside.mono fun _ _ _ => trivial⟩

theorem text_append (g : BracketGroup) (rest : Text) :
    g.text ++ rest = g.opener :: (g.inside ++ g.closer :: rest) := by simp [text]

theorem Shut.body (h : g.Shut Brackets.Any) (rest : Text) :
    Brackets.all.body 0 .outside (g.inside ++ g.closer :: rest) = some (g.inside, rest) :=
  h.inside.closed.body h.closes rest

theorem Stops.not_group (h : Stops (g.text ++ rest)) (hg : g.Shut Closes) : False := by
  have hopens := h g.opener (by simp [text])
  rw [hg.opens] at hopens
  cases hopens

/-- Groups can be cut off a text in one way. -/
theorem eq_of_flatMap (h : ∀ g ∈ written, g.Shut Brackets.Any)
    (h' : ∀ g ∈ written', g.Shut Brackets.Any) (hrest : Stops rest) (hrest' : Stops rest')
    (heq : written.flatMap text ++ rest = written'.flatMap text ++ rest') :
    written = written' ∧ rest = rest' := by
  induction written generalizing written' with
  | nil =>
    cases written' with
    | nil => exact ⟨rfl, heq⟩
    | cons g' written' =>
      obtain rfl : rest = g'.text ++ (written'.flatMap text ++ rest') := by simpa using heq
      exact (hrest.not_group (h' g' List.mem_cons_self)).elim
  | cons g written ih =>
    obtain ⟨hg, hwritten⟩ := List.forall_mem_cons.mp h
    cases written' with
    | nil =>
      obtain rfl : g.text ++ (written.flatMap text ++ rest) = rest' := by simpa using heq
      exact (hrest'.not_group hg).elim
    | cons g' written' =>
      obtain ⟨hg', hwritten'⟩ := List.forall_mem_cons.mp h'
      rw [List.flatMap_cons, List.flatMap_cons, List.append_assoc, List.append_assoc, text_append,
        text_append] at heq
      obtain ⟨hopener, htail⟩ := List.cons.inj heq
      have hbody := (hg.body (written.flatMap text ++ rest)).symm.trans
        ((congrArg (Brackets.all.body 0 .outside) htail).trans (hg'.body _))
      obtain ⟨hinside, hmore⟩ := Prod.mk.inj (Option.some.inj hbody)
      obtain ⟨rfl, rfl⟩ := ih hwritten hwritten' hmore
      rw [hinside] at htail
      have hcloser := (List.cons.inj (List.append_cancel_left htail)).1
      obtain ⟨opener, inside, closer⟩ := g
      obtain ⟨opener', inside', closer'⟩ := g'
      obtain rfl : opener = opener' := hopener
      obtain rfl : inside = inside' := hinside
      obtain rfl : closer = closer' := hcloser
      exact ⟨rfl, rfl⟩

/-- A text as it is cut into groups, with what stands around them. -/
structure Cut (Closes : Char → Char → Prop) (t lead : Text) (written : List BracketGroup)
    (rest : Text) : Prop where
  eq : t = lead ++ (written.flatMap text ++ rest)
  lead : ∀ c ∈ lead, Brackets.all.opens c = false
  shut : ∀ g ∈ written, g.Shut Closes
  rest : Stops rest

theorem shut_of_opened (h : ∀ g ∈ written, g.Shut Brackets.Any)
    (hopened : written'.map opened = written.map opened)
    (hcloses : ∀ g ∈ written', Brackets.all.closes g.closer = true) :
    ∀ g ∈ written', g.Shut Brackets.Any := by
  intro g' hg'
  have hmem : g'.opened ∈ written.map opened := hopened ▸ List.mem_map_of_mem hg'
  obtain ⟨g, hg, heq⟩ := List.mem_map.mp hmem
  obtain ⟨hopener, hinside⟩ := Prod.mk.inj heq
  exact ⟨hopener ▸ (h g hg).opens, hcloses g' hg', trivial, hinside ▸ (h g hg).inside⟩

theorem head?_of_opened (hopened : written'.map opened = written.map opened) :
    (written'.flatMap text ++ rest).head? = (written.flatMap text ++ rest).head? := by
  cases written with
  | nil =>
    obtain rfl : written' = [] := by simpa using hopened
    rfl
  | cons g written =>
    cases written' with
    | nil => cases hopened
    | cons g' written' =>
      have hopener : g'.opener = g.opener := (Prod.mk.inj (List.cons.inj hopened).1).1
      simp [text, hopener]

end BracketGroup

namespace Groups

open BracketGroup (Stops stops_nil)

variable {line : Nat} {groups after : Groups} {written : List BracketGroup} {text rest : Text}

/-- Takes in groups one after the other. -/
def addAll (line : Nat) (groups : Groups) (written : List BracketGroup) : Except ReadError Groups :=
  written.foldlM (fun groups g => groups.add line g.opener g.inside) groups

theorem addAll_of_opened {written' : List BracketGroup}
    (h : written'.map BracketGroup.opened = written.map BracketGroup.opened) :
    addAll line groups written' = addAll line groups written := by
  have hmap (gs : List BracketGroup) : addAll line groups gs =
      (gs.map BracketGroup.opened).foldlM (fun groups (o, t) => groups.add line o t) groups := by
    rw [List.foldlM_map]
    rfl
  rw [hmap, hmap, h]

theorem readAll_of_stops (h : Stops text) : readAll line groups text = .ok (groups, text) := by
  cases text with
  | nil => rw [readAll]
  | cons c text => rw [readAll, if_neg (by simp [h c rfl])]

/-- Groups are read exactly where they are written, and added by what is inside. -/
theorem readAll_eq_ok_iff : readAll line groups text = .ok (after, rest) ↔
    ∃ written, text = written.flatMap BracketGroup.text ++ rest ∧
      (∀ g ∈ written, g.Shut Brackets.Any) ∧ Stops rest ∧
      addAll line groups written = .ok after := by
  constructor
  · intro h
    fun_induction readAll line groups text with
    | case1 =>
      obtain ⟨rfl, rfl⟩ := Prod.mk.inj (Except.ok.inj h)
      exact ⟨[], rfl, List.forall_mem_nil _, stops_nil, rfl⟩
    | case2 => cases h
    | case3 => cases h
    | case4 groups opener text hopens inside more hbody added hadd _ ih =>
      obtain ⟨written, rfl, hwritten, hrest, hall⟩ := ih h
      obtain ⟨closer, hcloses, hinside, rfl⟩ := Bracketed.body_eq_some_iff.mp hbody
      refine ⟨⟨opener, inside, closer⟩ :: written, ?_, ?_, hrest, ?_⟩
      · simp [BracketGroup.text]
      · exact List.forall_mem_cons.mpr ⟨⟨hopens, hcloses, trivial, hinside⟩, hwritten⟩
      · rw [addAll, List.foldlM_cons, hadd]
        exact hall
    | case5 groups opener text hopens =>
      obtain ⟨rfl, rfl⟩ := Prod.mk.inj (Except.ok.inj h)
      refine ⟨[], rfl, List.forall_mem_nil _, ?_, rfl⟩
      rintro c ⟨⟩
      simpa using hopens
  · rintro ⟨written, rfl, hwritten, hrest, hall⟩
    induction written generalizing groups with
    | nil =>
      obtain rfl : groups = after := Except.ok.inj hall
      exact readAll_of_stops hrest
    | cons g written ih =>
      obtain ⟨hg, hwritten⟩ := List.forall_mem_cons.mp hwritten
      rw [addAll, List.foldlM_cons] at hall
      obtain ⟨added, hadd, hall⟩ := Outcome.exists_of_bind_eq_ok hall
      rw [List.flatMap_cons, List.append_assoc, BracketGroup.text_append,
        readAll_cons hg.opens (hg.body _), hadd]
      exact ih hwritten hall

end Groups

/-- The end of what a reader takes is told by the character behind it. -/
theorem span_append {p : Char → Bool} {t rest : Text} (h : rest.head? = (t.dropWhile p).head?) :
    (t.takeWhile p ++ rest).takeWhile p = t.takeWhile p ∧
      (t.takeWhile p ++ rest).dropWhile p = rest := by
  have htaken : ∀ c ∈ t.takeWhile p, p c = true := fun c hc => List.mem_takeWhile_imp hc
  have hstop : rest.takeWhile p = [] ∧ rest.dropWhile p = rest := by
    have hhead := List.head?_dropWhile_not p t
    rw [← h] at hhead
    cases rest with
    | nil => exact ⟨rfl, rfl⟩
    | cons c rest =>
      have hc : ¬p c = true := by simpa using hhead
      exact ⟨List.takeWhile_cons_of_neg hc, List.dropWhile_cons_of_neg hc⟩
  rw [List.takeWhile_append_of_pos htaken, List.dropWhile_append_of_pos htaken, hstop.1, hstop.2,
    List.append_nil]
  exact ⟨rfl, rfl⟩

/-- A reader takes a text without brackets and looks at one character behind it. -/
structure Takes {α : Type} (read : Text → Except SyntaxFault (α × Text)) (a : α)
    (lead rest : Text) : Prop where
  free : ∀ c ∈ lead, Brackets.all.opens c = false
  read : ∀ rest', rest'.head? = rest.head? → read (lead ++ rest') = .ok (a, rest')

theorem opens_eq_false_of_isTagChar {c : Char} (h : Header.isTagChar c = true) :
    Brackets.all.opens c = false := by
  rw [Bool.eq_false_iff]
  intro hopens
  obtain rfl | rfl | rfl := Brackets.eq_of_opens hopens
  all_goals exact absurd h (by decide)

namespace Header

variable {implicitDiv : Bool} {line : Nat} {text rest : Text}

theorem exists_takes_tag {tag : Text} (h : readTag implicitDiv text = .ok (tag, rest)) :
    ∃ lead, text = lead ++ rest ∧ Takes (readTag implicitDiv) tag lead rest := by
  rw [readTag] at h
  split at h
  · next himplicit =>
    obtain ⟨rfl, rfl⟩ := Prod.mk.inj (Except.ok.inj h)
    exact ⟨[], rfl, List.forall_mem_nil _, fun rest' _ => by rw [readTag, if_pos himplicit]; rfl⟩
  · next himplicit =>
    split at h
    · cases h
    · next hname =>
      obtain ⟨rfl, rfl⟩ := Prod.mk.inj (Except.ok.inj h)
      refine ⟨text.takeWhile isTagChar, List.takeWhile_append_dropWhile.symm, ?_, ?_⟩
      · exact fun c hc => opens_eq_false_of_isTagChar (List.mem_takeWhile_imp hc)
      · intro rest' hhead
        obtain ⟨htake, hdrop⟩ := span_append hhead
        rw [readTag, if_neg himplicit, htake, hdrop, if_neg hname]

end Header

theorem Shorthand.exists_takes {text rest : Text} {shorthands : List Shorthand}
    (h : readAll text = .ok (shorthands, rest)) :
    ∃ lead, text = lead ++ rest ∧ Takes readAll shorthands lead rest := by
  fun_induction readAll text generalizing shorthands with
  | case1 =>
    obtain ⟨rfl, rfl⟩ := Prod.mk.inj (Except.ok.inj h)
    refine ⟨[], rfl, List.forall_mem_nil _, fun rest' hhead => ?_⟩
    obtain rfl : rest' = [] := by simpa using hhead
    rw [List.nil_append, readAll]
  | case2 => cases h
  | case3 opener text hopener name hname =>
    rename_i ih
    obtain ⟨⟨more, rest'⟩, hmore, heq⟩ := Outcome.exists_of_map_eq_ok h
    obtain ⟨rfl, rfl⟩ := Prod.mk.inj heq
    obtain ⟨lead, hdrop, htakes⟩ := ih hmore
    have htext : text = text.takeWhile isNameChar ++ (lead ++ rest') := by
      rw [← hdrop, List.takeWhile_append_dropWhile]
    refine ⟨opener :: (text.takeWhile isNameChar ++ lead), ?_, ?_, ?_⟩
    · rw [List.cons_append, List.append_assoc, ← htext]
    · refine List.forall_mem_cons.mpr ⟨?_, fun c hc => ?_⟩
      · rcases hopener with rfl | rfl <;> decide
      rcases List.mem_append.mp hc with hc | hc
      · have hname : isNameChar c = true := List.mem_takeWhile_imp hc
        exact opens_eq_false_of_isTagChar (by simp [Header.isTagChar, hname])
      · exact htakes.free c hc
    · intro rest hhead
      have hspan : (lead ++ rest).head? = (text.dropWhile isNameChar).head? := by
        rw [hdrop, List.head?_append, List.head?_append, hhead]
      obtain ⟨htake, hdrop'⟩ := span_append hspan
      rw [List.cons_append, List.append_assoc, readAll, if_pos hopener]
      dsimp only
      rw [htake, hdrop', if_neg hname, htakes.read rest hhead]
      rfl
  | case4 opener text hopener =>
    obtain ⟨rfl, rfl⟩ := Prod.mk.inj (Except.ok.inj h)
    refine ⟨[], rfl, List.forall_mem_nil _, fun rest' hhead => ?_⟩
    obtain ⟨tail, rfl⟩ := List.head?_eq_some_iff.mp hhead
    rw [List.nil_append, readAll, if_neg hopener]

namespace Header

open BracketGroup (Stops)

variable {implicitDiv : Bool} {line : Nat} {text : Text} {header : Header}

/-- In front of the groups stand the tag and the shorthands. They are read in the same way before
any text that opens alike, and all else of a header is read of the groups and of what is behind. -/
theorem exists_of_read (h : read implicitDiv line text = .ok header) :
    ∃ lead behind groups rest, text = lead ++ behind ∧
      (∀ c ∈ lead, Brackets.all.opens c = false) ∧
      Groups.readAll line {} behind = .ok (groups, rest) ∧
      groups.attributes = header.attributes ∧ groups.reference = header.reference ∧
      ∀ behind', behind'.head? = behind.head? →
        Groups.readAll line {} behind' = .ok (groups, rest) →
        read implicitDiv line (lead ++ behind') = .ok header := by
  obtain ⟨⟨tag, afterTag⟩, htag, h⟩ := Outcome.exists_of_bind_eq_ok h
  obtain ⟨⟨shorthands, behind⟩, hshorthands, h⟩ := Outcome.exists_of_bind_eq_ok h
  obtain ⟨⟨groups, rest⟩, hgroups, h⟩ := Outcome.exists_of_bind_eq_ok h
  obtain ⟨tail, htail, h⟩ := Outcome.exists_of_bind_eq_ok h
  obtain rfl := Except.ok.inj h
  obtain ⟨lead, rfl, htakesTag⟩ := exists_takes_tag (atLine_eq_ok htag)
  obtain ⟨lead', rfl, htakes⟩ := Shorthand.exists_takes (atLine_eq_ok hshorthands)
  refine ⟨lead ++ lead', behind, groups, rest, (List.append_assoc _ _ _).symm, ?_, hgroups, rfl,
    rfl, ?_⟩
  · intro c hc
    rcases List.mem_append.mp hc with hc | hc
    · exact htakesTag.free c hc
    · exact htakes.free c hc
  · intro behind' hhead hbehind
    have hlead : (lead' ++ behind').head? = (lead' ++ behind).head? := by
      rw [List.head?_append, List.head?_append, hhead]
    have htag' := htakesTag.read _ hlead
    have hshorthands' := htakes.read _ hhead
    have htail' : readTail (!(rest.takeWhile isFlag).isEmpty) (readSlash (rest.dropWhile isFlag)).1
        (readSlash (rest.dropWhile isFlag)).2 = .ok tail := atLine_eq_ok htail
    rw [List.append_assoc, read, htag']
    simp only [atLine, bind, Except.bind, hshorthands', hbehind, htail', pure, Except.pure]
    rfl

/-- The groups of a header, by which it is read: there is one way to cut them off, and which bracket
closes one of them makes no difference. -/
theorem exists_groups (h : read implicitDiv line text = .ok header) :
    ∃ lead written groups rest, BracketGroup.Cut Brackets.Any text lead written rest ∧
      Groups.addAll line {} written = .ok groups ∧
      groups.attributes = header.attributes ∧ groups.reference = header.reference ∧
      (∀ (Closes : Char → Char → Prop) (written' : List BracketGroup) (rest' : Text),
        BracketGroup.Cut Closes text lead written' rest' → written' = written ∧ rest' = rest) ∧
      ∀ written' : List BracketGroup,
        written'.map BracketGroup.opened = written.map BracketGroup.opened →
        (∀ g ∈ written', Brackets.all.closes g.closer = true) →
        read implicitDiv line (lead ++ (written'.flatMap BracketGroup.text ++ rest)) =
          .ok header := by
  obtain ⟨lead, behind, groups, rest, rfl, hlead, hgroups, hattributes, hreference, hread⟩ :=
    exists_of_read h
  obtain ⟨written, rfl, hwritten, hrest, hall⟩ := Groups.readAll_eq_ok_iff.mp hgroups
  refine ⟨lead, written, groups, rest, ⟨rfl, hlead, hwritten, hrest⟩, hall, hattributes,
    hreference, ?_, ?_⟩
  · intro Closes written' rest' hcut
    have hany : ∀ g ∈ written', g.Shut Brackets.Any := fun g hg => (hcut.shut g hg).any
    exact BracketGroup.eq_of_flatMap hany hwritten hcut.rest hrest
      (List.append_cancel_left hcut.eq).symm
  · intro written' hopened hcloses
    have hany := BracketGroup.shut_of_opened hwritten hopened hcloses
    have hall' := (Groups.addAll_of_opened hopened).trans hall
    exact hread _ (BracketGroup.head?_of_opened hopened)
      (Groups.readAll_eq_ok_iff.mpr ⟨written', rfl, hany, hrest, hall'⟩)

theorem exists_groups_nested : ∃ lead written groups rest,
    BracketGroup.Cut Brackets.Any "a.b\x7b:t => f([1], \")\")\x7d[@u]/" lead written rest ∧
      Groups.addAll 1 {} written = .ok groups := by
  have hread : (read false 1 "a.b\x7b:t => f([1], \")\")\x7d[@u]/").isOk = true := by decide +kernel
  obtain ⟨header, hread⟩ := Outcome.exists_of_isOk hread
  obtain ⟨lead, written, groups, rest, hcut, hall, -⟩ := exists_groups hread
  exact ⟨lead, written, groups, rest, hcut, hall⟩

/-- A hash that a parenthesis closes. -/
theorem read_closed_by_parenthesis : ¬∀ (line : Nat) (text : Text) (header : Header),
    read false line text = .ok header →
      ∀ (lead rest : Text) (written : List BracketGroup),
        BracketGroup.Cut Brackets.Any text lead written rest →
        ∀ g ∈ written, Brackets.Own g.opener g.closer := by
  intro h
  let hash : BracketGroup := ⟨'{', ":a => 1", ')'⟩
  have hread : read false 1 "p\x7b:a => 1)" = .ok ⟨"p", [], none,
      [.fixed "a" (.number "1")], none, false, false, false, .none⟩ := by decide +kernel
  have hclosed : Brackets.all.Closed hash.inside := by decide
  have hshut : hash.Shut Brackets.Any := ⟨rfl, rfl, trivial, Bracketed.of_closed hclosed⟩
  have hlead : ∀ c ∈ ['p'], Brackets.all.opens c = false := List.forall_mem_singleton.mpr rfl
  have hcut : BracketGroup.Cut Brackets.Any "p\x7b:a => 1)" ['p'] [hash] [] :=
    ⟨by decide, hlead, by simpa using hshut, nofun⟩
  have hown := h 1 _ _ hread _ _ _ hcut hash List.mem_cons_self
  exact absurd hown (by decide)

end Header

end Haml
