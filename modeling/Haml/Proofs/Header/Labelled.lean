import Haml.Proofs.Attribute.Labels
import Haml.Proofs.Header.Groups
import Haml.Proofs.Header.Spelled

/-! Classes and ids of a tag written behind its name, and written as a hash of attributes. Both are
read off the front of a header, and what is behind them is read as it would be alone. Names have no
quotation mark, backslash or bracket in them, so that a string of them says what it shows. -/

namespace Haml

/-- What a header goes on with behind its name, its classes and ids, and its groups. -/
def Header.Past (t : Text) : Prop :=
  ∀ c ∈ t.head?, isNameChar c = false ∧ c ∉ ['.', '#', '{', '(', '[']

/-- A name, and a text of characters of names and spaces. -/
structure IsLabel (p : Text × Text) : Prop where
  name : IsName p.1
  text : ∀ c ∈ p.2, c = ' ' ∨ isNameChar c = true

/-- A name and a text as they are spelled in a group: the text in single quotes. -/
def inQuotes (p : Text × Text) : Text × Text := (p.1, Quote.string '\'' p.2)

namespace IsLabel

variable {p : Text × Text} {labels : List (Text × Text)}

theorem not_mem (h : IsLabel p) {c : Char} (hspace : c ≠ ' ') (hc : isNameChar c = false) :
    c ∉ p.2 := by
  intro hmem
  rcases h.text c hmem with heq | hname
  · exact hspace heq
  · rw [hc] at hname
    cases hname

theorem isBody (h : IsLabel p) : Quote.IsBody '\'' p.2 ∧ Quote.unescape '\'' p.2 = p.2 :=
  Quote.isBody_of_not_mem (h.not_mem (by decide) (by decide)) (h.not_mem (by decide) (by decide))

theorem ofValue (h : IsLabel p) (line : Nat) :
    AttributeSource.ofValue line p.1 (Quote.string '\'' p.2) = .ok (.fixed p.1 (.str p.2)) := by
  obtain ⟨hbody, hescapes⟩ := h.isBody
  have hplain : ¬['#', '{'] <:+: p.2 := fun hopen =>
    h.not_mem (by decide) (by decide) (hopen.subset List.mem_cons_self)
  rw [AttributeSource.ofValue_string rfl hbody, AttributeSource.ofQuoted_plain hplain, hescapes]

theorem spellable (h : ∀ p ∈ labels, IsLabel p) : Spellable (labels.map inQuotes) := by
  intro p hp
  obtain ⟨label, hlabel, rfl⟩ := List.mem_map.mp hp
  exact ⟨(h label hlabel).name, .string rfl (h label hlabel).isBody.1⟩

theorem ofPairs (h : ∀ p ∈ labels, IsLabel p) (line : Nat) :
    AttributeSource.ofPairs line (labels.map inQuotes) =
      .ok (labels.map fun (name, text) => .fixed name (.str text)) := by
  induction labels with
  | nil => rfl
  | cons p labels ih =>
    obtain ⟨hp, hmore⟩ := List.forall_mem_cons.mp h
    rw [List.map_cons, AttributeSource.ofPairs_cons, inQuotes, hp.ofValue, ih hmore]
    rfl

/-- No line ends within a hash of labels. -/
theorem not_mem_group (h : ∀ p ∈ labels, IsLabel p) :
    '\n' ∉ (Spelling.hash .symbol).group (labels.map inQuotes) := by
  intro hmem
  rw [Spelling.group, writeGroup] at hmem
  rcases List.mem_append.mp (List.mem_of_ne_of_mem (by decide) hmem) with hmem | hmem
  · rcases Text.mem_join hmem with hmem | ⟨entry, hentry, hmem⟩
    · exact absurd hmem (by decide)
    · obtain ⟨q, hq, rfl⟩ := List.mem_map.mp hentry
      obtain ⟨p, hp, rfl⟩ := List.mem_map.mp hq
      have hname : '\n' ∉ p.1 := (h p hp).name.not_mem (by decide)
      have htext : '\n' ∉ p.2 := (h p hp).not_mem (by decide) (by decide)
      simp [KeySpelling.entry, KeySpelling.key, KeySpelling.sign, Hash.Key.write, inQuotes,
        Quote.string, hname, htext] at hmem
  · exact absurd hmem (by decide)

end IsLabel

namespace Shorthand

/-- Classes and ids as names and texts of attributes: all classes in one text, and the last id. -/
def labels (shorthands : List Shorthand) : List (Text × Text) :=
  Element.labels (shorthands.filterMap className?) (shorthands.filterMap id?).getLast?

/-- Classes and ids as a hash: `:class =>` and `:id =>`, each with a string in single quotes. -/
def hash (shorthands : List Shorthand) : Text :=
  (Spelling.hash .symbol).group ((labels shorthands).map inQuotes)

variable {shorthands : List Shorthand}

section Names

variable (hnames : ∀ s ∈ shorthands, IsName s.name)

include hnames

theorem isName_of_mem {name : Text}
    (h : name ∈ shorthands.filterMap className? ∨ name ∈ shorthands.filterMap id?) :
    IsName name := by
  rcases h with h | h
  all_goals
    obtain ⟨s, hs, hname⟩ := List.mem_filterMap.mp h
    cases s <;> cases hname
    exact hnames _ hs

theorem isLabel_of_mem_labels : ∀ p ∈ labels shorthands, IsLabel p := by
  intro p hp
  rcases List.mem_append.mp hp with hp | hp
  · split at hp
    · cases hp
    · obtain rfl := List.mem_singleton.mp hp
      have hclass : IsName "class" := by decide
      refine ⟨hclass, fun c hc => ?_⟩
      rcases Text.mem_join hc with hc | ⟨name, hname, hc⟩
      · exact .inl (List.mem_singleton.mp hc)
      · exact .inr ((isName_of_mem hnames (.inl hname)).isNameChar_of_mem hc)
  · obtain ⟨name, hname, rfl⟩ := Option.map_eq_some_iff.mp (Option.mem_toList.mp hp)
    have hid : IsName "id" := by decide
    have hlast := isName_of_mem hnames (.inr (List.mem_of_getLast? hname))
    exact ⟨hid, fun c hc => .inr (hlast.isNameChar_of_mem hc)⟩

theorem exists_writeAll_eq (hne : shorthands ≠ []) : ∃ mark c more,
    (mark = '.' ∨ mark = '#') ∧ isNameChar c = true ∧
      shorthands.flatMap write = mark :: c :: more := by
  obtain ⟨s, others, rfl⟩ := List.exists_cons_of_ne_nil hne
  obtain ⟨mark, hmark, hwrite⟩ := s.exists_write_eq
  have hs := hnames s List.mem_cons_self
  obtain ⟨c, more, hname⟩ := List.exists_cons_of_ne_nil hs.ne_nil
  refine ⟨mark, c, more ++ others.flatMap write, hmark, ?_, ?_⟩
  · exact hs.isNameChar_of_mem (by rw [hname]; exact List.mem_cons_self)
  · rw [List.flatMap_cons, hwrite, hname]
    rfl

theorem not_mem_write : '\n' ∉ shorthands.flatMap write := by
  intro hmem
  obtain ⟨s, hs, hc⟩ := List.mem_flatMap.mp hmem
  have hfree : '\n' ∉ s.name := (hnames s hs).not_mem (by decide)
  obtain ⟨mark, hmark, hwrite⟩ := s.exists_write_eq
  have hfeed : '\n' ≠ mark := by rcases hmark with rfl | rfl <;> decide
  exact List.not_mem_cons_of_ne_of_not_mem hfeed hfree (hwrite ▸ hc)

theorem getLast?_write (hne : shorthands ≠ []) :
    ∀ c ∈ (shorthands.flatMap write).getLast?, isNameChar c = true := by
  obtain ⟨init, s, rfl⟩ := (List.eq_nil_or_concat' shorthands).resolve_left hne
  have hs : IsName s.name := hnames s (by simp)
  obtain ⟨mark, -, hwrite⟩ := s.exists_write_eq
  have hlast : ((init ++ [s]).flatMap write).getLast? = s.name.getLast? := by
    rw [List.flatMap_append, List.flatMap_singleton, hwrite, List.append_cons,
      List.getLast?_append_of_ne_nil _ hs.ne_nil]
  intro c hc
  rw [hlast] at hc
  exact hs.isNameChar_of_mem (List.mem_of_getLast? hc)

end Names

end Shorthand

namespace Header

variable {line : Nat} {tag t : Text} {shorthands : List Shorthand}

theorem Past.out (h : Past t) {c : Char} (hc : c ∈ t.head?) :
    c ≠ '.' ∧ c ≠ '#' ∧ c ≠ '{' ∧ c ≠ '(' ∧ c ≠ '[' := by simpa using (h c hc).2

/-- What is behind a header's groups is read without any, or refused on this line. -/
theorem read_past (h : Past t) (line : Nat) : ∃ m : Except ReadError Header,
    read true line t = m.mapError HeaderError.invalid ∧
      ∀ header, m = .ok header → header.attributes = [] ∧ header.reference = none := by
  have hshorthands := Shorthand.readAll_of_none fun c hc => ⟨(h.out hc).1, (h.out hc).2.1⟩
  have hgroups : Groups.readAll line {} t = .ok ({}, t) :=
    Groups.readAll_of_stops fun c hc => by simp [Brackets.all, h.out hc]
  have hdiv : readTag true t = .ok ("div".toList, t) := rfl
  simp only [read, hdiv, hshorthands, hgroups, atLine, bind, Except.bind]
  cases readTail (!(t.takeWhile isFlag).isEmpty) (readSlash (t.dropWhile isFlag)).1
    (readSlash (t.dropWhile isFlag)).2 with
  | error fault =>
    refine ⟨.error (.invalid fault line), rfl, ?_⟩
    rintro header ⟨⟩
  | ok tail =>
    refine ⟨.ok _, rfl, ?_⟩
    rintro header ⟨⟩
    exact ⟨rfl, rfl⟩

/-- The header with a tag, and classes and ids behind it, in front. -/
def ledBy (tag : Text) (shorthands : List Shorthand) (h : Header) : Header :=
  { h with
    tag
    classes := shorthands.filterMap Shorthand.className?
    id := (shorthands.filterMap Shorthand.id?).getLast? }

/-- The header with a tag and a hash of the same classes and ids in front. -/
def labelled (tag : Text) (shorthands : List Shorthand) (h : Header) : Header :=
  { h with
    tag
    classes := []
    id := none
    attributes := (Shorthand.labels shorthands).map fun (name, text) => .fixed name (.str text) }

section Read

variable (hnames : ∀ s ∈ shorthands, IsName s.name) (ht : Past t) {m : Except ReadError Header}
  (hm : read true line t = m.mapError HeaderError.invalid)

include hnames ht hm

theorem read_shorthands {implicitDiv : Bool} {lead : Text} (hlead : Begins implicitDiv lead tag)
    (hne : shorthands ≠ []) :
    read implicitDiv line (lead ++ (shorthands.flatMap Shorthand.write ++ t)) =
      (m.map (ledBy tag shorthands)).mapError HeaderError.invalid := by
  have hmark : ∀ c ∈ (shorthands.flatMap Shorthand.write ++ t).head?, isTagChar c = false := by
    obtain ⟨mark, first, more, hmark, -, hwrite⟩ := Shorthand.exists_writeAll_eq hnames hne
    rw [hwrite]
    rintro c ⟨⟩
    rcases hmark with rfl | rfl <;> decide
  have hrest (c : Char) (hc : c ∈ t.head?) : isNameChar c = false ∧ c ≠ '.' ∧ c ≠ '#' :=
    ⟨(ht c hc).1, (ht.out hc).1, (ht.out hc).2.1⟩
  rw [read_lead hlead hnames hmark hrest, hm, Outcome.mapError_map]
  rfl

theorem read_labels (hlead : Begins false tag tag) :
    read false line (tag ++ (Shorthand.hash shorthands ++ t)) =
      (m.map (labelled tag shorthands)).mapError HeaderError.invalid := by
  have hlabels := Shorthand.isLabel_of_mem_labels hnames
  have hsymbol : (Spelling.hash .symbol).Proper := trivial
  have hrest (c : Char) (hc : c ∈ t.head?) : c ∉ ['{', '(', '.', '#'] := by simp [ht.out hc]
  have hbrace : ∀ c ∈ (Shorthand.hash shorthands ++ t).head?, c = '{' := by
    rintro c ⟨⟩
    rfl
  have htag : read false line (tag ++ (Shorthand.hash shorthands ++ t)) =
      (read true line (Shorthand.hash shorthands ++ t)).map fun h =>
        { h with tag, classes := [], id := none } := by
    refine read_lead hlead (List.forall_mem_nil _) (fun c hc => ?_) fun c hc => ?_
    all_goals
      rw [hbrace c hc]
      decide
  rw [htag, Shorthand.hash, read_group hsymbol (IsLabel.spellable hlabels) hrest,
    IsLabel.ofPairs hlabels, hm]
  cases m <;> rfl

end Read

end Header

end Haml
