import Haml.Proofs.Header.Groups
import Haml.Proofs.Header.Spelled
import Haml.Proofs.Outline.Shut

/-! The grammar of headers. The parts of a header stand in one order, no character between them, and
each part ends where the next one can start. So a header is read exactly where its parts are written
one behind the other, and what it declares is read off the parts. -/

namespace Haml

theorem Shorthand.eq_of_readAll {shorthands : List Shorthand} {text rest : Text}
    (h : readAll text = .ok (shorthands, rest)) :
    text = shorthands.flatMap write ++ rest ∧ ∀ s ∈ shorthands, IsName s.name := by
  fun_induction readAll text generalizing shorthands with
  | case1 =>
    obtain ⟨rfl, rfl⟩ := Prod.mk.inj (Except.ok.inj h)
    exact ⟨rfl, List.forall_mem_nil _⟩
  | case2 => cases h
  | case3 opener text hopener name hname =>
    rename_i ih
    obtain ⟨⟨more, rest'⟩, hmore, heq⟩ := Outcome.exists_of_map_eq_ok h
    obtain ⟨rfl, rfl⟩ := Prod.mk.inj heq
    obtain ⟨hdrop, hnames⟩ := ih hmore
    have htext : text = name ++ (more.flatMap write ++ rest') := by
      rw [← hdrop, List.takeWhile_append_dropWhile]
    have hchars : name.all isNameChar = true := List.all_takeWhile
    have hname' : IsName name := ⟨by simpa using hname, hchars⟩
    rw [List.flatMap_cons, List.append_assoc, htext]
    rcases hopener with rfl | rfl
    · exact ⟨rfl, List.forall_mem_cons.mpr ⟨hname', hnames⟩⟩
    · exact ⟨rfl, List.forall_mem_cons.mpr ⟨hname', hnames⟩⟩
  | case4 opener text hopener =>
    obtain ⟨rfl, rfl⟩ := Prod.mk.inj (Except.ok.inj h)
    exact ⟨rfl, List.forall_mem_nil _⟩

namespace Groups

variable {line : Nat} {groups after : Groups} {opener : Char} {body : Text}
  {written : List BracketGroup}

/-- A group is added where there is no reference yet and no group of its kind. -/
theorem add_eq_ok (h : groups.add line opener body = .ok after) : groups.reference = none ∧
    ((opener = '[' ∧ ∃ r, after = { groups with reference := some r }) ∨
      (opener = '{' ∧ groups.hash = false ∧
        ∃ attributes, after = { groups with attributes, hash := true }) ∨
      (opener ≠ '[' ∧ opener ≠ '{' ∧ groups.list = false ∧
        ∃ attributes, after = { groups with attributes, list := true })) := by
  unfold add at h
  by_cases href : groups.reference.isSome = true
  · rw [if_pos href, if_pos href] at h
    split at h <;> cases h
  rw [if_neg href, if_neg href] at h
  refine ⟨by simpa using href, ?_⟩
  split at h
  · next hbracket =>
    obtain ⟨r, -, rfl⟩ := Outcome.exists_of_map_eq_ok h
    exact .inl ⟨hbracket, r, rfl⟩
  · next hbracket =>
    split at h
    · next hbrace =>
      split at h
      · cases h
      · next hhash =>
        obtain ⟨sources, -, rfl⟩ := Outcome.exists_of_map_eq_ok h
        exact .inr (.inl ⟨hbrace, by simpa using hhash, _, rfl⟩)
    · next hbrace =>
      split at h
      · cases h
      · next hlist =>
        obtain ⟨sources, -, rfl⟩ := Outcome.exists_of_map_eq_ok h
        exact .inr (.inr ⟨hbracket, hbrace, by simpa using hlist, _, rfl⟩)

/-- Can a group with the given opening bracket be added? -/
def admits (groups : Groups) (opener : Char) : Bool :=
  groups.reference.isNone &&
    (opener == '[' || opener == '{' && !groups.hash || opener == '(' && !groups.list)

/-- A group that is added takes its place, and a reference all places. -/
theorem admits_of_add (hopens : Brackets.all.opens opener = true)
    (h : groups.add line opener body = .ok after) : groups.admits opener = true ∧
      ∀ c, after.admits c = (groups.admits c && (c != opener && opener != '[')) := by
  obtain ⟨href, ⟨rfl, r, rfl⟩ | ⟨rfl, hhash, attributes, rfl⟩ |
    ⟨hbracket, hbrace, hlist, attributes, rfl⟩⟩ := add_eq_ok h
  · exact ⟨by simp [admits, href], fun c => by simp [admits]⟩
  · refine ⟨by simp [admits, href, hhash], fun c => ?_⟩
    by_cases hc : c = '{'
    · simp [admits, hc]
    · simp [admits, href, bne, beq_false_of_ne hc]
  · obtain rfl : opener = '(' := by simpa [hbracket, hbrace] using Brackets.eq_of_opens hopens
    refine ⟨by simp [admits, href, hlist], fun c => ?_⟩
    by_cases hc : c = '('
    · simp [admits, hc]
    · simp [admits, href, bne, beq_false_of_ne hc]

/-- There is at most one group of each kind, and the reference is the last. -/
theorem sublist_of_addAll (hopens : ∀ g ∈ written, Brackets.all.opens g.opener = true)
    (h : addAll line groups written = .ok after) :
    (written.map BracketGroup.opener).Sublist (['{', '(', '['].filter groups.admits) ∨
      (written.map BracketGroup.opener).Sublist (['(', '{', '['].filter groups.admits) := by
  induction written generalizing groups with
  | nil => exact .inl (List.nil_sublist _)
  | cons g written ih =>
    obtain ⟨hg, hwritten⟩ := List.forall_mem_cons.mp hopens
    rw [addAll, List.foldlM_cons] at h
    obtain ⟨added, hadd, h⟩ := Outcome.exists_of_bind_eq_ok h
    obtain ⟨hadmits, hadded⟩ := admits_of_add hg hadd
    have hfilter (order : List Char) : order.filter added.admits =
        (order.filter fun c => c != g.opener && g.opener != '[').filter groups.admits := by
      rw [List.filter_filter]
      exact congrArg (order.filter ·) (funext hadded)
    have hrest := ih hwritten h
    rw [hfilter, hfilter] at hrest
    rw [List.map_cons]
    rcases Brackets.eq_of_opens hg with hopener | hopener | hopener <;>
      rw [hopener] at hadmits hrest ⊢
    · left
      rw [List.filter_cons_of_pos hadmits]
      exact (hrest.elim id id).cons_cons '{'
    · right
      rw [List.filter_cons_of_pos hadmits]
      exact (hrest.elim id id).cons_cons '('
    · left
      rw [List.sublist_nil.mp (hrest.elim id id), List.singleton_sublist]
      exact List.mem_filter.mpr ⟨by decide, hadmits⟩

end Groups

/-- What a tail starts with, if there is one. -/
def Tail.starts : List Char := [' ', '\t', '&', '!', '=', '~']

theorem Tail.starts_of_read {text : Text} {tail : Tail} (h : read text = .ok tail) :
    Starts starts text := by
  unfold read at h
  split at h
  case h_1 => exact Starts.nil
  case h_6 first rest _ _ _ _ =>
    split at h
    · next hblank => exact Starts.cons (by rcases hblank with rfl | rfl <;> decide)
    · cases h
  all_goals exact Starts.cons (by decide)

namespace Header

variable {implicitDiv : Bool} {line : Nat}

theorem readTail_eq_ok_iff {flagged selfClosing : Bool} {text : Text} {tail : Tail} :
    readTail flagged selfClosing text = .ok tail ↔
      Tail.read text = .ok tail ∧ (selfClosing = true → tail = .none) := by
  constructor
  · intro h
    refine ⟨tail_of_readTail h, fun hself => ?_⟩
    rw [hself] at h
    exact eq_none_of_readTail h rfl
  · rintro ⟨hread, hclosed⟩
    have hnone : Tail.starts.any (fun c => c == '.' || c == '#' || Brackets.all.opens c) =
        false := by decide
    rw [readTail, if_neg, hread]
    · exact if_neg (by simpa using hclosed)
    · rw [Option.any_eq_true]
      rintro ⟨c, hc, hout⟩
      exact Bool.false_ne_true (((Tail.starts_of_read hread).eq_false hnone hc).symm.trans hout)

theorem append_readSlash (text : Text) :
    (if (readSlash text).1 then ['/'] else []) ++ (readSlash text).2 = text := by
  unfold readSlash
  split <;> rfl

theorem exists_of_readTag {text tag rest : Text} (h : readTag implicitDiv text = .ok (tag, rest)) :
    ∃ name : Option Text, name.isNone = implicitDiv ∧
      (∀ t ∈ name, t ≠ [] ∧ t.all isTagChar = true) ∧ text = name.getD [] ++ rest ∧
      tag = name.getD "div" := by
  rw [readTag] at h
  split at h
  · next himplicit =>
    obtain ⟨rfl, rfl⟩ := Prod.mk.inj (Except.ok.inj h)
    exact ⟨none, himplicit.symm, by simp, rfl, rfl⟩
  · next himplicit =>
    split at h
    · cases h
    · next hname =>
      obtain ⟨rfl, rfl⟩ := Prod.mk.inj (Except.ok.inj h)
      refine ⟨some (text.takeWhile isTagChar), by simpa using himplicit, ?_, ?_, rfl⟩
      · rintro t ⟨⟩
        exact ⟨by simpa using hname, List.all_takeWhile⟩
      · exact List.takeWhile_append_dropWhile.symm

/-- A header taken apart. There is no tag where it is left out. -/
structure Parts where
  tag : Option Text
  shorthands : List Shorthand
  groups : List BracketGroup
  flags : Text
  slash : Bool
  tail : Text

namespace Parts

/-- What is written behind the flags, behind the groups, and so on. -/
def behindFlags (p : Parts) : Text := (if p.slash then ['/'] else []) ++ p.tail

def behindGroups (p : Parts) : Text := p.flags ++ p.behindFlags

def behindShorthands (p : Parts) : Text := p.groups.flatMap BracketGroup.text ++ p.behindGroups

def behindTag (p : Parts) : Text := p.shorthands.flatMap Shorthand.write ++ p.behindShorthands

def text (p : Parts) : Text := p.tag.getD [] ++ p.behindTag

/-- Each part is written as it has to be. There is at most one group of each kind; a hash and a list
come in either order, and a reference behind them. -/
structure Proper (implicitDiv : Bool) (p : Parts) : Prop where
  implicit : p.tag.isNone = implicitDiv
  tag : ∀ t ∈ p.tag, t ≠ [] ∧ t.all isTagChar = true
  names : ∀ s ∈ p.shorthands, IsName s.name
  shut : ∀ g ∈ p.groups, g.Shut Brackets.Any
  order : (p.groups.map BracketGroup.opener).Sublist ['{', '(', '['] ∨
    (p.groups.map BracketGroup.opener).Sublist ['(', '{', '[']
  flags : p.flags.all isFlag = true
  tail : Starts Tail.starts p.tail

/-- What a header declares is what its parts say. -/
structure IsReadAs (line : Nat) (p : Parts) (h : Header) : Prop where
  tag : h.tag = p.tag.getD "div"
  classes : h.classes = p.shorthands.filterMap Shorthand.className?
  id : h.id = (p.shorthands.filterMap Shorthand.id?).getLast?
  groups : ∃ groups, Groups.addAll line {} p.groups = .ok groups ∧
    h.attributes = groups.attributes ∧ h.reference = groups.reference
  nukeOuter : h.nukeOuter = true ↔ '>' ∈ p.flags
  nukeInner : h.nukeInner = true ↔ '<' ∈ p.flags
  selfClosing : h.selfClosing = p.slash
  tail : Tail.read p.tail = .ok h.tail
  closed : h.selfClosing = true → h.tail = .none

namespace Proper

variable {p q : Parts}

theorem starts_behindFlags (hp : p.Proper implicitDiv) :
    Starts ('/' :: Tail.starts) p.behindFlags := by
  apply Starts.append
  · split
    · exact Starts.cons List.mem_cons_self
    · exact Starts.nil
  · exact hp.tail.mono (List.subset_cons_self _ _)

theorem starts_behindGroups (hp : p.Proper implicitDiv) :
    Starts ('<' :: '>' :: '/' :: Tail.starts) p.behindGroups := by
  apply Starts.append
  · intro c hc
    have hflag := List.all_eq_true.mp hp.flags c (List.mem_of_mem_head? hc)
    rcases Bool.or_eq_true_iff.mp hflag with h | h <;> simp [eq_of_beq h]
  · exact hp.starts_behindFlags.mono (by decide)

theorem starts_behindShorthands (hp : p.Proper implicitDiv) :
    Starts ('{' :: '(' :: '[' :: '<' :: '>' :: '/' :: Tail.starts) p.behindShorthands := by
  apply Starts.append
  · cases hgroups : p.groups with
    | nil => exact Starts.nil
    | cons g groups =>
      have hg := hp.shut g (hgroups ▸ List.mem_cons_self)
      refine Starts.cons ?_
      rcases Brackets.eq_of_opens hg.opens with h | h | h <;> rw [h] <;> decide
  · exact hp.starts_behindGroups.mono (by decide)

theorem readTag (hp : p.Proper implicitDiv) :
    readTag implicitDiv p.text = .ok (p.tag.getD "div", p.behindTag) := by
  have hbegins : Begins implicitDiv (p.tag.getD []) (p.tag.getD "div") := by
    rw [← hp.implicit]
    cases htag : p.tag with
    | none => exact .implicit
    | some t =>
      obtain ⟨hne, hchars⟩ := hp.tag t htag
      exact .explicit hne hchars
  have hstart : Starts ('.' :: '#' :: '{' :: '(' :: '[' :: '<' :: '>' :: '/' :: Tail.starts)
      p.behindTag :=
    ((Shorthand.starts_writeAll _).mono (by decide)).append
      (hp.starts_behindShorthands.mono (by decide))
  exact hbegins.readTag fun c hc => hstart.eq_false (by decide) hc

theorem readAll_shorthands (hp : p.Proper implicitDiv) :
    Shorthand.readAll p.behindTag = .ok (p.shorthands, p.behindShorthands) :=
  Shorthand.readAll_write hp.names hp.starts_behindShorthands (by decide) (by decide)

theorem stops (hp : p.Proper implicitDiv) : BracketGroup.Stops p.behindGroups :=
  fun c hc => hp.starts_behindGroups.eq_false (by decide) hc

theorem takeWhile_flags (hp : p.Proper implicitDiv) : p.behindGroups.takeWhile isFlag = p.flags :=
  hp.starts_behindFlags.takeWhile_append hp.flags (by decide)

theorem dropWhile_flags (hp : p.Proper implicitDiv) :
    p.behindGroups.dropWhile isFlag = p.behindFlags :=
  hp.starts_behindFlags.dropWhile_append hp.flags (by decide)

theorem readSlash (hp : p.Proper implicitDiv) : readSlash p.behindFlags = (p.slash, p.tail) := by
  unfold behindFlags
  cases p.slash with
  | true => rfl
  | false =>
    have hslash : ∀ rest, p.tail ≠ '/' :: rest := by
      intro rest htail
      have hstart := hp.tail '/' (by rw [htail]; rfl)
      revert hstart
      decide
    change Header.readSlash p.tail = _
    rw [Header.readSlash]
    exact hslash

/-- A header can be taken apart in one way. -/
theorem eq_of_text (hp : p.Proper implicitDiv) (hq : q.Proper implicitDiv)
    (h : p.text = q.text) : p = q := by
  have htags := hp.readTag.symm.trans ((congrArg (Header.readTag implicitDiv) h).trans hq.readTag)
  obtain ⟨htag, hbehindTag⟩ := Prod.mk.inj (Except.ok.inj htags)
  have hall := hp.readAll_shorthands.symm.trans
    ((congrArg Shorthand.readAll hbehindTag).trans hq.readAll_shorthands)
  obtain ⟨hshorthands, hbehind⟩ := Prod.mk.inj (Except.ok.inj hall)
  obtain ⟨hgroups, hgroups'⟩ :=
    BracketGroup.eq_of_flatMap hp.shut hq.shut hp.stops hq.stops hbehind
  have hflags := hp.takeWhile_flags.symm.trans
    ((congrArg (List.takeWhile isFlag) hgroups').trans hq.takeWhile_flags)
  have hbehindFlags := hp.dropWhile_flags.symm.trans
    ((congrArg (List.dropWhile isFlag) hgroups').trans hq.dropWhile_flags)
  have hslashes := hp.readSlash.symm.trans
    ((congrArg Header.readSlash hbehindFlags).trans hq.readSlash)
  obtain ⟨hslash, htail⟩ := Prod.mk.inj hslashes
  have hname : p.tag = q.tag := by
    have himplicit : p.tag.isNone = q.tag.isNone := hp.implicit.trans hq.implicit.symm
    cases hptag : p.tag <;> cases hqtag : q.tag <;> simp_all
  obtain ⟨tag, shorthands, groups, flags, slash, tail⟩ := p
  obtain ⟨tag', shorthands', groups', flags', slash', tail'⟩ := q
  obtain rfl : tag = tag' := hname
  obtain rfl : shorthands = shorthands' := hshorthands
  obtain rfl : groups = groups' := hgroups
  obtain rfl : flags = flags' := hflags
  obtain rfl : slash = slash' := hslash
  obtain rfl : tail = tail' := htail
  rfl

end Proper

theorem IsReadAs.read_eq {p : Parts} {header : Header} (h : p.IsReadAs line header)
    (hp : p.Proper implicitDiv) : read implicitDiv line p.text = .ok header := by
  obtain ⟨groups, hall, hattributes, hreference⟩ := h.groups
  have hgroups : Groups.readAll line {} p.behindShorthands = .ok (groups, p.behindGroups) :=
    Groups.readAll_eq_ok_iff.mpr ⟨p.groups, rfl, hp.shut, hp.stops, hall⟩
  have htail : readTail (!p.flags.isEmpty) header.selfClosing p.tail = .ok header.tail :=
    readTail_eq_ok_iff.mpr ⟨h.tail, h.closed⟩
  have hOuter : p.flags.contains '>' = header.nukeOuter := by
    rw [Bool.eq_iff_iff, List.contains_iff_mem, h.nukeOuter]
  have hInner : p.flags.contains '<' = header.nukeInner := by
    rw [Bool.eq_iff_iff, List.contains_iff_mem, h.nukeInner]
  simp only [read, hp.readTag, hp.readAll_shorthands, hgroups, hp.takeWhile_flags,
    hp.dropWhile_flags, hp.readSlash, htail, hOuter, hInner, atLine, bind, Except.bind, pure,
    Except.pure, ← h.tag, ← h.classes, ← h.id, ← hattributes, ← hreference, ← h.selfClosing]

theorem exists_of_read {text : Text} {header : Header}
    (h : read implicitDiv line text = .ok header) :
    ∃ p : Parts, p.Proper implicitDiv ∧ p.text = text ∧ p.IsReadAs line header := by
  obtain ⟨⟨tag, behindTag⟩, htag, h⟩ := Outcome.exists_of_bind_eq_ok h
  obtain ⟨⟨shorthands, behindShorthands⟩, hshorthands, h⟩ := Outcome.exists_of_bind_eq_ok h
  obtain ⟨⟨groups, rest⟩, hgroups, h⟩ := Outcome.exists_of_bind_eq_ok h
  obtain ⟨tail, htail, h⟩ := Outcome.exists_of_bind_eq_ok h
  obtain rfl := Except.ok.inj h
  obtain ⟨name, himplicit, hname, rfl, rfl⟩ := exists_of_readTag (atLine_eq_ok htag)
  obtain ⟨rfl, hnames⟩ := Shorthand.eq_of_readAll (atLine_eq_ok hshorthands)
  obtain ⟨written, rfl, hshut, -, hall⟩ := Groups.readAll_eq_ok_iff.mp hgroups
  obtain ⟨hread, hclosed⟩ := readTail_eq_ok_iff.mp (atLine_eq_ok htail)
  have hopens : ∀ g ∈ written, Brackets.all.opens g.opener = true := fun g hg => (hshut g hg).opens
  refine ⟨⟨name, shorthands, written, rest.takeWhile isFlag, (readSlash (rest.dropWhile isFlag)).1,
    (readSlash (rest.dropWhile isFlag)).2⟩, ?_, ?_, ?_⟩
  · exact ⟨himplicit, hname, hnames, hshut, Groups.sublist_of_addAll hopens hall,
      List.all_takeWhile, Tail.starts_of_read hread⟩
  · have hrest : rest.takeWhile isFlag ++ rest.dropWhile isFlag = rest :=
      List.takeWhile_append_dropWhile
    simp only [text, behindTag, behindShorthands, behindGroups, behindFlags, append_readSlash,
      hrest]
  · exact ⟨rfl, rfl, rfl, ⟨groups, hall, rfl, rfl⟩, List.contains_iff_mem, List.contains_iff_mem,
      rfl, hread, hclosed⟩

end Parts

variable {text : Text} {header : Header}

/-- A header is read where its parts stand in order, each one properly written and nothing between
them. It declares what they say. -/
theorem read_iff_parts : read implicitDiv line text = .ok header ↔
    ∃! p : Parts, p.Proper implicitDiv ∧ p.text = text ∧ p.IsReadAs line header := by
  constructor
  · intro h
    obtain ⟨p, hp, htext, hread⟩ := Parts.exists_of_read h
    refine ⟨p, ⟨hp, htext, hread⟩, ?_⟩
    rintro q ⟨hq, htext', -⟩
    exact hq.eq_of_text hp (htext'.trans htext.symm)
  · rintro ⟨p, ⟨hp, rfl, hread⟩, -⟩
    exact hread.read_eq hp

example : (⟨some "a", [.className "b", .id "c"], [⟨'(', "t", ')'⟩, ⟨'{', ":u => 1", '}'⟩], ['<'],
    false, " d"⟩ : Parts).text = "a.b#c(t)\x7b:u => 1\x7d< d" := by decide

end Header

end Haml
