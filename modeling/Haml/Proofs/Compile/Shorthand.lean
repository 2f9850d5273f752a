import Haml.Proofs.Compile.Twin
import Haml.Proofs.Header.Labelled
import Haml.Proofs.Outline.Broken

/-! Elements with classes and ids behind their tags, and with a hash of them. Both are settled the
same, so that whatever follows them is compiled the same. Only the continuation marker can come in
between: white space behind a pipe does not take it away, and the letters `do` at the end of a class
can make the pipe the end of a block's arguments. -/

namespace Haml

open Text (Leads)

namespace Header

/-- The element that a header declares, with what it has on its line. -/
def element (h : Header) (content : Content) : Element where
  tag := h.tag
  classes := h.classes
  id := h.id
  attributes := h.attributes
  reference := h.reference
  nukeOuter := h.nukeOuter
  nukeInner := h.nukeInner
  selfClosing := h.selfClosing
  content

theorem element_labelled {h : Header} (hattributes : h.attributes = []) (tag : Text)
    (shorthands : List Shorthand) (content : Content) :
    (h.labelled tag shorthands).element content =
      ((h.ledBy tag shorthands).element content).explicit := by
  simp [Element.explicit, element, labelled, ledBy, hattributes, Shorthand.labels]

end Header

/-- What the tail of a header gives to its element. -/
def Tail.content (line : Nat) : Tail → Except ReadError Content
  | .none => .ok .none
  | .script output => .ok (.script output)
  | .text written =>
    match Segment.scan line written with
    | .error e => .error (.lex e)
    | .ok segments => .ok (.text segments)

namespace Item

variable {implicitDiv : Bool} {line : Nat} {text : Text}

theorem ofHeader_eq (line : Nat) (h : Header) :
    ofHeader line h = (h.tail.content line).map fun content => element (h.element content) := by
  rw [ofHeader]
  cases h.tail with
  | none => rfl
  | script output => rfl
  | text written =>
    rw [Tail.content]
    dsimp only
    cases Segment.scan line written <;> rfl

/-- A header that stops inside no group is read from its own line. -/
theorem readElement_of_read {m : Except ReadError Header}
    (h : Header.read implicitDiv line text = m.mapError HeaderError.invalid)
    (raws : List PhysicalLine) : readElement implicitDiv line text raws =
      m.bind fun header => (ofHeader line header).map fun item => (some item, raws) := by
  have hlines : Header.readLines implicitDiv line text raws =
      m.map fun header => (header, raws) := by
    rw [Header.readLines.eq_def, h]
    cases m <;> cases raws <;> rfl
  rw [readElement, hlines]
  cases m with
  | error e => rfl
  | ok header =>
    change (ofHeader line header).bind _ = (ofHeader line header).map _
    cases ofHeader line header <;> rfl

/-- Texts in front of a line that change nothing but its header, and not the tail of it. They are
read alike if the elements are twins, whatever they have on the line. -/
theorem readAlike_led {line : Line} {a b payload payload' : Text} {implicitDiv implicitDiv' : Bool}
    {m : Except ReadError Header} {f g : Header → Header}
    (ha : Line.header? (a ++ line.text) = some (implicitDiv, payload))
    (hb : Line.header? (b ++ line.text) = some (implicitDiv', payload'))
    (hread : Header.read implicitDiv line.number payload = (m.map f).mapError HeaderError.invalid)
    (hread' : Header.read implicitDiv' line.number payload' =
      (m.map g).mapError HeaderError.invalid)
    (htail : ∀ header, (f header).tail = (g header).tail)
    (htwin : ∀ header, m = .ok header → ∀ content,
      (element ((f header).element content)).Twin (element ((g header).element content)))
    (left : List PhysicalLine) : ReadAlike (read (line.led a) left) (read (line.led b) left) := by
  have hone : read (line.led a) left = _ :=
    (read_header ha left).trans (readElement_of_read hread left)
  have hother : read (line.led b) left = _ :=
    (read_header hb left).trans (readElement_of_read hread' left)
  rw [hone, hother]
  cases m with
  | error e => exact .error e
  | ok header =>
    change ReadAlike (Except.map _ (ofHeader line.number (f header)))
      (Except.map _ (ofHeader line.number (g header)))
    rw [ofHeader_eq, ofHeader_eq, htail]
    cases (g header).tail.content line.number with
    | error e => exact .error e
    | ok content => exact .ok (htwin header rfl content) left

/-- An element and its explicit form are the same to a document. -/
theorem twin_explicit {e : Element} (hclasses : ∀ c ∈ e.classes, Text.IsWord c)
    (hreference : e.reference = none) : (element e).Twin (element e.explicit) where
  refusal := rfl
  compile o _ line childless body :=
    (Compile.element_explicit hclasses hreference o line childless body).symm

end Item

namespace Shorthand

variable {tag : Text} {shorthands : List Shorthand}

theorem not_isBlank_mark {mark : Char} (h : mark = '.' ∨ mark = '#') :
    Unicode.isBlank mark = false := by
  rcases h with rfl | rfl <;> decide

/-- A tag with classes and ids behind its name. -/
def tagged (tag : Text) (shorthands : List Shorthand) : Text :=
  '%' :: (tag ++ shorthands.flatMap write)

/-- A tag with a hash of classes and ids behind its name. -/
def explicit (tag : Text) (shorthands : List Shorthand) : Text := '%' :: (tag ++ hash shorthands)

theorem leads_tag (hchars : tag.all Header.isTagChar = true) {t : Text} (hne : t ≠ [])
    (hlast : ∀ c ∈ t.getLast?, Unicode.isBlank c = false ∧ c ≠ '|') (hfree : '\n' ∉ t) :
    Leads ('%' :: (tag ++ t)) := by
  have hfeed : ¬Header.isTagChar '\n' = true := by decide
  have htag : '\n' ∉ tag := fun hmem => hfeed (List.all_eq_true.mp hchars '\n' hmem)
  refine ⟨List.cons_ne_nil _ _, fun c hc => ?_, fun c hc => hlast c ?_, ?_⟩
  · exact Option.some.inj hc ▸ (by decide)
  · rwa [← List.cons_append, List.getLast?_append_of_ne_nil _ hne] at hc
  · simp [htag, hfree]

section Leads

variable (hne : shorthands ≠ []) (hnames : ∀ s ∈ shorthands, IsName s.name)

include hnames

theorem leads_explicit (hchars : tag.all Header.isTagChar = true) :
    Leads (explicit tag shorthands) := by
  have hlast : (hash shorthands).getLast? = some '}' := by
    rw [hash, Spelling.group, writeGroup, ← List.cons_append, List.getLast?_concat]
  refine leads_tag hchars (List.cons_ne_nil _ _) (fun c hc => ?_)
    (IsLabel.not_mem_group (isLabel_of_mem_labels hnames))
  rw [hlast] at hc
  exact Option.some.inj hc ▸ (by decide)

include hne

theorem leads_write : Leads (shorthands.flatMap write) := by
  obtain ⟨mark, c, more, hmark, -, hwrite⟩ := exists_writeAll_eq hnames hne
  refine ⟨by simp [hwrite], fun d hd => ?_, fun d hd => ?_, not_mem_write hnames⟩
  · rw [hwrite] at hd
    exact Option.some.inj hd ▸ not_isBlank_mark hmark
  · have hname := getLast?_write hnames hne d hd
    refine ⟨not_isBlank_of_isNameChar hname, ?_⟩
    rintro rfl
    cases hname

theorem leads_tagged (hchars : tag.all Header.isTagChar = true) : Leads (tagged tag shorthands) :=
  have hwrite := leads_write hne hnames
  leads_tag hchars hwrite.ne_nil hwrite.last hwrite.unbroken

end Leads

end Shorthand

namespace Line

variable {c : Char}

theorem header?_tag (tag t u : Text) :
    header? ('%' :: (tag ++ t) ++ u) = some (false, tag ++ (t ++ u)) := by
  rw [← List.append_assoc]
  rfl

theorem opensArguments_div (hc : c = '.' ∨ c = '#') (more : Text) :
    opensArguments ("%div" ++ c :: more) = opensArguments (c :: more) := by
  have hlast : Text.afterLast "do" ("%div".toList ++ c :: more) =
      Text.afterLast "do" (c :: more) := by
    rcases hc with rfl | rfl <;> simp [Text.afterLast, List.isPrefixOf?]
  rw [opensArguments, opensArguments, hlast]

/-- The name of a `div` has no part in the marker. -/
theorem isContinued_div {mark : Char} (hmark : mark = '.' ∨ mark = '#')
    (hc : Unicode.isBlank c = false) (more : Text) :
    isContinued ("%div" ++ mark :: c :: more) = isContinued (mark :: c :: more) := by
  have htrim : Text.trimEnd (mark :: c :: more) = mark :: c :: Text.trimEnd more :=
    Text.rdropWhile_append (a := [mark, c]) (List.cons_ne_nil _ _) (by simpa using hc) more
  have htrim' : Text.trimEnd ("%div" ++ mark :: c :: more) =
      "%div" ++ mark :: c :: Text.trimEnd more :=
    Text.rdropWhile_append (a := "%div" ++ [mark, c]) (List.cons_ne_nil _ _) (by simpa using hc)
      more
  -- The last character is behind the mark, and there is another one in front of it.
  obtain ⟨inner, last, hend⟩ :=
    (List.eq_nil_or_concat' (c :: Text.trimEnd more)).resolve_left (List.cons_ne_nil _ _)
  obtain ⟨before, body, hbody⟩ := List.exists_cons_of_ne_nil
    (List.reverse_ne_nil_iff.mpr (List.cons_ne_nil mark inner))
  have hreverse : (mark :: c :: Text.trimEnd more).reverse = last :: before :: body := by
    rw [hend, ← List.cons_append, List.reverse_append, hbody]
    rfl
  have hopens : opensArguments (before :: (body ++ "%div".toList.reverse)).reverse =
      opensArguments (before :: body).reverse := by
    rw [← List.cons_append, ← hbody, List.reverse_append, List.reverse_reverse,
      List.reverse_reverse]
    exact opensArguments_div hmark inner
  rw [isContinued, isContinued, htrim, htrim', List.reverse_append, hreverse]
  by_cases hpipe : last = '|'
  · subst hpipe
    exact congrArg (fun b => PhysicalLine.isIndentMark before && !b) hopens
  · simp [hpipe]

end Line

section Lines

variable {tag t : Text} {shorthands : List Shorthand} {line : Line}

theorem Header.Past.of_head? (ht : Past t) (h : ∀ c ∈ line.text.head?, c = ' ' ∨ c ∈ t.head?) :
    Past line.text := by
  intro c hc
  rcases h c hc with rfl | hc
  · decide
  · exact ht c hc

variable (hne : shorthands ≠ []) (hnames : ∀ s ∈ shorthands, IsName s.name)
  (ht : Header.Past line.text)

include hne hnames ht

namespace Item

/-- A line is read alike with classes and ids behind a tag and with a hash of them. -/
theorem readAlike_explicit (htag : tag ≠ []) (hchars : tag.all Header.isTagChar = true)
    (left : List PhysicalLine) :
    ReadAlike (read (line.led (Shorthand.tagged tag shorthands)) left)
      (read (line.led (Shorthand.explicit tag shorthands)) left) := by
  obtain ⟨m, hm, hbare⟩ := Header.read_past ht line.number
  have hbegins : Header.Begins false tag tag := .explicit htag hchars
  refine readAlike_led (Line.header?_tag tag _ _) (Line.header?_tag tag _ _)
    (Header.read_shorthands hnames ht hm hbegins hne) (Header.read_labels hnames ht hm hbegins)
    (fun _ => rfl) (fun header hheader content => ?_) left
  obtain ⟨hattributes, hreference⟩ := hbare header hheader
  rw [Header.element_labelled hattributes]
  exact twin_explicit (fun c hc => (Shorthand.isName_of_mem hnames (.inl hc)).isWord) hreference

/-- A line is read alike with `div` and without it. -/
theorem readAlike_div (left : List PhysicalLine) :
    ReadAlike (read (line.led (shorthands.flatMap Shorthand.write)) left)
      (read (line.led (Shorthand.tagged "div" shorthands)) left) := by
  obtain ⟨m, hm, -⟩ := Header.read_past ht line.number
  have hbegins : Header.Begins false "div" "div" := .explicit (by decide) (by decide)
  obtain ⟨mark, c, more, hmark, hc, hwrite⟩ := Shorthand.exists_writeAll_eq hnames hne
  have hheader : Line.header? (shorthands.flatMap Shorthand.write ++ line.text) =
      some (true, shorthands.flatMap Shorthand.write ++ line.text) := by
    rw [hwrite]
    rcases hmark with rfl | rfl <;> simp [Line.header?, Marker.classify, hc]
  exact readAlike_led hheader (Line.header?_tag "div" _ _)
    (Header.read_shorthands hnames ht hm .implicit hne)
    (Header.read_shorthands hnames ht hm hbegins hne)
    (fun _ => rfl) (fun _ _ _ => Twin.refl _) left

end Item

end Lines

/-- Classes and ids behind a tag are compiled like a hash of them, and a `div` with classes or ids
like them alone. Where the line ends in a pipe, it must be a marker for both or for none. -/
theorem Program.compile_shorthand {tag t : Text} {shorthands : List Shorthand} (htag : tag ≠ [])
    (hchars : tag.all Header.isTagChar = true) (hne : shorthands ≠ [])
    (hnames : ∀ s ∈ shorthands, IsName s.name) (ht : Header.Past t)
    (hmark : (Text.trimEnd (Line.firstBehind t)).getLast? = some '|' →
      Line.isContinued (Shorthand.tagged tag shorthands ++ Line.firstBehind t) =
        Line.isContinued (Shorthand.explicit tag shorthands ++ Line.firstBehind t))
    (o : Options) (r : Registry) :
    compile (Shorthand.tagged tag shorthands ++ t) o r =
        compile (Shorthand.explicit tag shorthands ++ t) o r ∧
      (tag = "div".toList → compile (shorthands.flatMap Shorthand.write ++ t) o r =
        compile (Shorthand.tagged tag shorthands ++ t) o r) := by
  have htagged := Shorthand.leads_tagged hne hnames hchars
  have hexplicit := Shorthand.leads_explicit hnames hchars
  have hwrite := Shorthand.leads_write hne hnames
  refine ⟨compile_lead htagged hexplicit ?_ fun line left hline => ?_, ?_⟩
  · by_cases hpipe : (Text.trimEnd (Line.firstBehind t)).getLast? = some '|'
    · exact hmark hpipe
    · rw [Line.isContinued_lead htagged hpipe, Line.isContinued_lead hexplicit hpipe]
  · exact Item.readAlike_explicit hne hnames (ht.of_head? hline) htag hchars left
  · rintro rfl
    refine compile_lead hwrite htagged ?_ fun line left hline => ?_
    · obtain ⟨mark, c, more, hmark, hc, hcons⟩ := Shorthand.exists_writeAll_eq hnames hne
      have hdiv : Shorthand.tagged "div" shorthands ++ Line.firstBehind t =
          "%div" ++ (shorthands.flatMap Shorthand.write ++ Line.firstBehind t) := rfl
      rw [hdiv, hcons]
      exact (Line.isContinued_div hmark (not_isBlank_of_isNameChar hc) _).symm
    · exact Item.readAlike_div hne hnames (ht.of_head? hline) left

/-- A class twice, and a line that ends in what could be the arguments of a block. -/
theorem Program.compile_shorthand_block :
    let o : Options := { autoclose := ⟨[]⟩, preserve := ⟨[]⟩ }
    let shorthands := [Shorthand.className "a", .className "b-c", .className "a", .id "x"]
    let t := "< to do |y |\n%z\n  %i\n".toList
    (∀ s ∈ shorthands, IsName s.name) ∧ Header.Past t ∧
    (Text.trimEnd (Line.firstBehind t)).getLast? = some '|' ∧
    Line.isContinued (Shorthand.tagged "div" shorthands ++ Line.firstBehind t) =
      Line.isContinued (Shorthand.explicit "div" shorthands ++ Line.firstBehind t) ∧
    compile "%div.a.b-c.a#x< to do |y |\n%z\n  %i\n" o .builtin =
      compile "%div\x7b:class => 'a b-c a', :id => 'x'\x7d< to do |y |\n%z\n  %i\n" o .builtin ∧
    compile ".a.b-c.a#x< to do |y |\n%z\n  %i\n" o .builtin =
      compile "%div.a.b-c.a#x< to do |y |\n%z\n  %i\n" o .builtin ∧
    (compile ".a.b-c.a#x< to do |y |\n%z\n  %i\n" o .builtin).map (·.ops.length) = .ok 7 := by
  intro o shorthands t
  have hnames : ∀ s ∈ shorthands, IsName s.name := by decide
  have ht : Header.Past t := by rintro c ⟨⟩; decide
  have hmark : Line.isContinued (Shorthand.tagged "div" shorthands ++ Line.firstBehind t) =
      Line.isContinued (Shorthand.explicit "div" shorthands ++ Line.firstBehind t) := by decide
  obtain ⟨hexplicit, hdiv⟩ := compile_shorthand (by decide) (by decide) (List.cons_ne_nil _ _)
    hnames ht (fun _ => hmark) o .builtin
  exact ⟨hnames, ht, by decide, hmark, hexplicit, hdiv rfl, by decide +kernel⟩

/-- The letters `do` at the end of a class and a pipe behind it open a block's arguments, which a
pipe and white space can close. In a hash the quotation mark comes in between, so that the same
pipe is the continuation marker. -/
theorem Program.compile_block_class : ¬∀ (tag t : Text) (shorthands : List Shorthand),
    tag ≠ [] → tag.all Header.isTagChar = true → shorthands ≠ [] →
    (∀ s ∈ shorthands, IsName s.name) → Header.Past t → '\n' ∉ t → t.getLast? ≠ some '|' →
    ∀ (o : Options) (r : Registry), compile (Shorthand.tagged tag shorthands ++ t) o r =
      compile (Shorthand.explicit tag shorthands ++ t) o r := by
  intro h
  let o : Options := { autoclose := ⟨[]⟩, preserve := ⟨[]⟩ }
  have hpast : Header.Past " |x | " := by rintro c ⟨⟩; decide
  have hcompiled := h "p" " |x | " [.className "todo"] (by decide) (by decide)
    (List.cons_ne_nil _ _) (by decide) hpast (by decide) (by decide) o .builtin
  have hlength : (compile "%p.todo |x | " o .builtin).map (·.ops.length) = .ok 3 := by
    decide +kernel
  have hfault : (compile "%p\x7b:class => 'todo'\x7d |x | " o .builtin).map (·.ops.length) =
      .error (.read (.lex ⟨.unterminatedMultiline, 1⟩)) := by
    decide +kernel
  have hlength' : (compile "%p.todo |x | " o .builtin).map (·.ops.length) = _ :=
    (congrArg (Except.map _) hcompiled).trans hfault
  rw [hlength] at hlength'
  cases hlength'

end Haml
