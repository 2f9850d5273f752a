import Haml.Proofs.Line.Joined
import Haml.Proofs.Outline.Order
import Haml.Proofs.Outline.Run
import Haml.Proofs.Segment.Solid
import Haml.Proofs.Text.Trim

/-! What is read of lines holds no line feed but those between the lines of a filter, and the last
line of these is not blank. So neither text nor filters end in a line feed. -/

namespace Haml

variable {c : Char} {t : Text}

namespace Text

theorem mem_of_mem_trimEnd (h : c ∈ trimEnd t) : c ∈ t := (isPrefix_trimEnd t).subset h

theorem mem_of_mem_trim (h : c ∈ trim t) : c ∈ t :=
  (List.dropWhile_suffix Unicode.isBlank).subset (mem_of_mem_trimEnd h)

theorem not_mem_of_mem_lines {source : Text} (h : t ∈ lines source) : '\n' ∉ t := by
  fun_induction lines source generalizing t with
  | case1 => cases h
  | case2 rest ih =>
    rcases List.mem_cons.mp h with rfl | h
    · exact List.not_mem_nil
    · exact ih h
  | case3 rest ih =>
    rcases List.mem_cons.mp h with rfl | h
    · exact List.not_mem_nil
    · exact ih h
  | case4 c rest hfeed hreturn hlines ih =>
    obtain rfl := List.mem_singleton.mp h
    simpa using fun heq => hfeed heq.symm
  | case5 c rest hfeed hreturn line more hlines ih =>
    rw [hlines] at ih
    rcases List.mem_cons.mp h with rfl | h
    · refine List.not_mem_cons_of_ne_of_not_mem (fun heq => hfeed heq.symm) ?_
      exact ih List.mem_cons_self
    · exact ih (List.mem_cons_of_mem line h)

end Text

namespace PhysicalLine

/-- No line feed stands in the lines. -/
def Unbroken (raws : List PhysicalLine) : Prop := ∀ raw ∈ raws, '\n' ∉ raw.text

theorem unbroken_numbered {n : Nat} {texts : List Text} (h : ∀ t ∈ texts, '\n' ∉ t) :
    Unbroken (numbered n texts) := by
  induction texts generalizing n with
  | nil => exact nofun
  | cons t texts ih =>
    obtain ⟨ht, htexts⟩ := List.forall_mem_cons.mp h
    exact List.forall_mem_cons.mpr ⟨ht, ih htexts⟩

theorem unbroken_ofSource (source : Text) : Unbroken (ofSource source) :=
  unbroken_numbered fun _ ht => Text.not_mem_of_mem_lines ht

theorem Unbroken.suffix {raws rest : List PhysicalLine} (h : Unbroken raws)
    (hrest : rest <:+ raws) : Unbroken rest := fun raw hraw => h raw (hrest.subset hraw)

theorem mem_of_mem_content {raw : PhysicalLine} (h : c ∈ raw.content) : c ∈ raw.text :=
  (List.dropWhile_suffix isIndentMark).subset (Text.mem_of_mem_trimEnd h)

end PhysicalLine

namespace Line

theorem mem_of_mem_stripMarker (h : c ∈ stripMarker t) : c ∈ t := by
  have hmem := Text.mem_of_mem_trim h
  have hdrop := (List.dropWhile_suffix (· == '|')).subset (List.mem_reverse.mp hmem)
  exact Text.mem_of_mem_trimEnd (List.mem_reverse.mp hdrop)

theorem foldl_join_unbroken {line : Line} {joined : List PhysicalLine} (hline : '\n' ∉ line.text)
    (hjoined : PhysicalLine.Unbroken joined) : '\n' ∉ (joined.foldl join line).text := by
  induction joined generalizing line with
  | nil => exact hline
  | cons raw rest ih =>
    obtain ⟨hraw, hrest⟩ := List.forall_mem_cons.mp hjoined
    refine ih (List.not_mem_append hline ?_) hrest
    refine List.not_mem_cons_of_ne_of_not_mem (by decide) fun hmem => hraw ?_
    exact Text.mem_of_mem_trim (mem_of_mem_stripMarker hmem)

theorem suffix_of_next? {line : Line} {raws rest : List PhysicalLine}
    (h : next? raws = some (.ok line, rest)) : rest <:+ raws := by
  obtain ⟨blanks, first, joined, rfl, -⟩ := exists_of_next? h
  exact List.suffix_append _ rest

theorem text_unbroken {line : Line} {raws rest : List PhysicalLine}
    (h : next? raws = some (.ok line, rest)) (hraws : PhysicalLine.Unbroken raws) :
    '\n' ∉ line.text := by
  obtain ⟨blanks, first, joined, rfl, -, -, rfl⟩ := exists_of_next? h
  have hfirst : '\n' ∉ first.content := fun hmem =>
    hraws first (by simp) (PhysicalLine.mem_of_mem_content hmem)
  unfold ofJoined
  split
  · refine foldl_join_unbroken (fun hmem => hfirst (mem_of_mem_stripMarker hmem)) ?_
    exact fun raw hraw => hraws raw (by simp [hraw])
  · exact hfirst

end Line

theorem Marker.mem_of_mem_classify (h : c ∈ (classify t).2) : c ∈ t := by
  unfold classify at h
  split at h
  all_goals first
    | exact h
    | exact List.mem_cons_of_mem _ h
    | exact List.mem_cons_of_mem _ (List.mem_cons_of_mem _ h)
    | exact List.mem_cons_of_mem _ (List.mem_cons_of_mem _ (List.mem_cons_of_mem _ h))
    | skip
  split at h
  · exact h
  · split at h
    · exact List.mem_cons_of_mem _ h
    · exact h

namespace Item

/-- Text and filters that do not end in a line feed, nor any piece of the text. -/
def Solid : Item → Prop
  | text segments _ => ∀ t, .literal t ∈ segments → t.Solid
  | filter _ segments => ∀ t, Segment.literalText? segments = some t → t ≠ [] → t.Solid
  | _ => True

theorem ofText_solid {line : Nat} {payload : Text} {escape : Escape} {item : Item}
    (h : ofText line payload escape = .ok item) (hpayload : '\n' ∉ payload) : item.Solid := by
  unfold ofText at h
  split at h
  · cases h
  · next segments hscan =>
    obtain rfl := Except.ok.inj h
    intro t ht
    obtain ⟨hne, hmem⟩ := Segment.scanAfter_literals hscan List.not_mem_nil hpayload t ht
    exact Text.solid_of_not_mem hne hmem

end Item

namespace PhysicalLine

theorem isBlank_of_mem_base {block : List PhysicalLine} (h : c ∈ base block) :
    Unicode.isBlank c = true := by
  unfold base at h
  cases hfind : block.find? fun raw => !raw.isBlank with
  | none =>
    rw [hfind] at h
    cases h
  | some raw =>
    rw [hfind] at h
    have hmark : isIndentMark c = true := List.mem_takeWhile_imp h
    have hcases : c = ' ' ∨ c = '\t' := by simpa [isIndentMark] using hmark
    rcases hcases with rfl | rfl <;> rfl

variable {base : Text} {raw : PhysicalLine}

theorem mem_of_mem_unindent (h : c ∈ raw.unindent base) : c ∈ raw.text := by
  unfold unindent at h
  cases hmarked : base.isPrefixOf? raw.text with
  | none =>
    rw [hmarked] at h
    exact (List.dropWhile_suffix Unicode.isBlank).subset h
  | some rest =>
    rw [hmarked] at h
    obtain hrest := List.isPrefixOf?_eq_some_iff_append_eq.mp hmarked
    rw [← hrest]
    exact List.mem_append_right base h

/-- A line with content has some behind the indentation too. -/
theorem unindent_ne_nil (hbase : ∀ c ∈ base, Unicode.isBlank c = true)
    (hfilled : raw.isBlank = false) : raw.unindent base ≠ [] := by
  intro hnil
  have hblank : raw.isBlank = true := by
    unfold isBlank Text.isBlank
    rw [List.all_eq_true]
    unfold unindent at hnil
    cases hmarked : base.isPrefixOf? raw.text with
    | none =>
      rw [hmarked] at hnil
      exact List.dropWhile_eq_nil_iff.mp hnil
    | some rest =>
      rw [hmarked] at hnil
      obtain rfl : rest = [] := hnil
      have hrest := List.isPrefixOf?_eq_some_iff_append_eq.mp hmarked
      rw [List.append_nil] at hrest
      rw [← hrest]
      exact hbase
  rw [hfilled] at hblank
  cases hblank

theorem getLast?_dropBlankEnd (block : List PhysicalLine) :
    ∀ raw ∈ (dropBlankEnd block).getLast?, raw.isBlank = false := by
  have hhead := List.head?_dropWhile_not isBlank block.reverse
  intro raw hraw
  rw [dropBlankEnd, List.getLast?_reverse] at hraw
  rw [Option.mem_def.mp hraw] at hhead
  simpa using hhead

theorem mem_of_mem_dropBlankEnd {block : List PhysicalLine} (h : raw ∈ dropBlankEnd block) :
    raw ∈ block :=
  List.mem_reverse.mp ((List.dropWhile_suffix isBlank).subset (List.mem_reverse.mp h))

end PhysicalLine

namespace Item

theorem exists_of_filterSegments {base : Text} {raw : PhysicalLine} {rest : List PhysicalLine}
    {segments : List Segment} (h : filterSegments base (raw :: rest) = .ok segments) :
    ∃ first more, (raw.isBlank = false → Segment.scan raw.number (raw.unindent base) = .ok first) ∧
      filterSegments base rest = .ok more ∧
      segments = first ++ if rest.isEmpty then more else .literal ['\n'] :: more := by
  rw [filterSegments] at h
  cases hblank : raw.isBlank with
  | true =>
    rw [hblank] at h
    obtain ⟨more, hmore, h⟩ := Outcome.exists_of_bind_eq_ok h
    exact ⟨[], more, nofun, hmore, (Except.ok.inj h).symm⟩
  | false =>
    rw [hblank] at h
    obtain ⟨first, hfirst, h⟩ := Outcome.exists_of_bind_eq_ok h
    obtain ⟨more, hmore, h⟩ := Outcome.exists_of_bind_eq_ok h
    exact ⟨first, more, fun _ => hfirst, hmore, (Except.ok.inj h).symm⟩

/-- Lines of which the last is not blank end in something else than a line feed. -/
theorem filterSegments_solid {base : Text} {block : List PhysicalLine} {segments : List Segment}
    (h : filterSegments base block = .ok segments) (hbase : ∀ c ∈ base, Unicode.isBlank c = true)
    (hblock : PhysicalLine.Unbroken block)
    (hlast : ∀ raw ∈ block.getLast?, raw.isBlank = false)
    (hliteral : Segment.literalText? segments = some t) : block ≠ [] → t.Solid := by
  induction block generalizing segments t with
  | nil => exact fun hne => absurd rfl hne
  | cons raw rest ih =>
    intro _
    obtain ⟨hraw, hrest⟩ := List.forall_mem_cons.mp hblock
    obtain ⟨first, more, hfirst, hmore, rfl⟩ := exists_of_filterSegments h
    obtain ⟨a, b, ha, hb, rfl⟩ := Segment.literalText?_append hliteral
    cases rest with
    | nil =>
      have hfilled : raw.isBlank = false := hlast raw rfl
      have hfirst := hfirst hfilled
      obtain rfl : [] = more := Except.ok.inj hmore
      obtain rfl := Option.some.inj hb
      have hunbroken : '\n' ∉ raw.unindent base := fun hmem =>
        hraw (PhysicalLine.mem_of_mem_unindent hmem)
      have hne := Segment.scanAfter_ne_nil hfirst ha
        (.inr (PhysicalLine.unindent_ne_nil hbase hfilled))
      have hliterals := Segment.scanAfter_literals hfirst List.not_mem_nil hunbroken
      rw [List.append_nil]
      exact Text.solid_of_not_mem hne
        (Segment.not_mem_of_literalText? ha fun u hu => (hliterals u hu).2)
    | cons next rest =>
      obtain ⟨b, hb', rfl⟩ := Option.map_eq_some_iff.mp hb
      rw [List.getLast?_cons_cons] at hlast
      have hsolid := ih hmore hrest hlast hb' (List.cons_ne_nil next rest)
      exact Text.solid_append a (Text.solid_append _ hsolid)

theorem readFilter_solid {line : Line} {payload : Text} {raws left : List PhysicalLine}
    {item : Item} (h : readFilter line payload raws = .ok (some item, left))
    (hraws : PhysicalLine.Unbroken raws) : item.Solid := by
  unfold readFilter at h
  dsimp only at h
  split at h
  · cases h
  · split at h
    · cases h
    · next segments hsegments =>
      obtain ⟨hitem, -⟩ := Prod.mk.inj (Except.ok.inj h)
      obtain rfl := Option.some.inj hitem
      intro t ht hne
      rw [Segment.literalText?_merge] at ht
      refine filterSegments_solid hsegments (fun c hc => PhysicalLine.isBlank_of_mem_base hc) ?_
        (PhysicalLine.getLast?_dropBlankEnd _) ht ?_
      · intro raw hraw
        have hbelow := PhysicalLine.mem_of_mem_dropBlankEnd hraw
        exact hraws raw ((List.takeWhile_prefix _).subset hbelow)
      · intro hnil
        rw [hnil] at hsegments
        obtain rfl := Except.ok.inj hsegments
        exact hne (Option.some.inj ht).symm

theorem ofHeader_eq_ok {line : Nat} {header : Header} {item : Item}
    (h : ofHeader line header = .ok item) : ∃ e, item = .element e ∧ e.tag = header.tag ∧
      ∀ segments, e.content = .text segments →
        ∃ written, header.tail = .text written ∧ Segment.scan line written = .ok segments := by
  rw [ofHeader] at h
  cases htail : header.tail with
  | none =>
    rw [htail] at h
    exact ⟨_, (Except.ok.inj h).symm, rfl, nofun⟩
  | script output =>
    rw [htail] at h
    exact ⟨_, (Except.ok.inj h).symm, rfl, nofun⟩
  | text written =>
    rw [htail] at h
    dsimp only at h
    split at h
    · cases h
    · next segments hscan =>
      refine ⟨_, (Except.ok.inj h).symm, rfl, fun segments' hsegments => ?_⟩
      obtain rfl := Content.text.inj hsegments
      exact ⟨written, rfl, hscan⟩

theorem ofScript_eq_ok {line : Nat} {payload : Text} {escape : Escape} {preserve : Bool}
    {item : Item} (h : ofScript line payload escape preserve = .ok item) :
    ∃ s, item = .script s := by
  unfold ofScript at h
  dsimp only at h
  split at h
  · cases h
  · exact ⟨_, (Except.ok.inj h).symm⟩

theorem ofSilent_eq_ok {line : Nat} {payload : Text} {item : Item}
    (h : ofSilent line payload = .ok item) : ∃ code, item = .silent code := by
  unfold ofSilent at h
  dsimp only at h
  split at h
  · cases h
  · exact ⟨_, (Except.ok.inj h).symm⟩

/-- The text between the brackets of a comment's condition, and the text behind it, are in what
follows the marker. -/
theorem ofComment_eq_ok {line : Nat} {payload : Text} {item : Item}
    (h : ofComment line payload = .ok item) : ∃ condition text, item = .comment condition text ∧
      (∀ t ∈ condition, t ⊆ payload) ∧ ∀ t ∈ text, t ⊆ payload := by
  have htext {t u : Text} (ht : t ∈ commentText? u) : t ⊆ u := by
    unfold commentText? at ht
    split at ht
    · cases ht
    · exact Option.some.inj ht ▸ fun c hc => Text.mem_of_mem_trim hc
  rw [ofComment.eq_def] at h
  split at h
  · next rest =>
    split at h
    · cases h
    · next mark after hdrop =>
      refine ⟨_, _, (Except.ok.inj h).symm, fun t ht c hc => ?_, fun t ht c hc => ?_⟩
      · obtain rfl := Option.some.inj ht
        exact List.mem_cons_of_mem _ ((List.takeWhile_prefix _).subset (Text.mem_of_mem_trim hc))
      · have hafter : c ∈ rest.dropWhile (· != ']') := by
          rw [hdrop]
          exact List.mem_cons_of_mem mark (htext ht hc)
        exact List.mem_cons_of_mem _ ((List.dropWhile_suffix _).subset hafter)
  · exact ⟨_, _, (Except.ok.inj h).symm, nofun, fun t ht => htext ht⟩

/-- Where an item comes from. It is read from what follows the marker of its line, with further
lines for an element and a filter. -/
theorem read_cases {line : Line} {raws left : List PhysicalLine} {item : Item}
    (h : Item.read line raws = .ok (some item, left)) : ∃ payload, payload ⊆ line.text ∧
      ((∃ implicitDiv header,
          Header.readLines implicitDiv line.number payload raws = .ok (header, left) ∧
          ofHeader line.number header = .ok item) ∨
        (∃ escape, ofText line.number payload escape = .ok item) ∨
        (∃ escape preserve, ofScript line.number payload escape preserve = .ok item) ∨
        ofSilent line.number payload = .ok item ∨
        ofComment line.number payload = .ok item ∨
        (∃ args, item = .doctype args) ∨
        readFilter line payload raws = .ok (some item, left)) := by
  refine ⟨(Marker.classify line.text).2, fun c hc => Marker.mem_of_mem_classify hc, ?_⟩
  have halone {i : Except ReadError Item}
      (h : i.map (fun i => (some i, raws)) = .ok (some item, left)) : i = .ok item := by
    obtain ⟨i', hi', hread⟩ := Outcome.exists_of_map_eq_ok h
    obtain ⟨hitem, -⟩ := Prod.mk.inj hread
    exact Option.some.inj hitem ▸ hi'
  have helement {implicitDiv : Bool} {payload : Text}
      (h : readElement implicitDiv line.number payload raws = .ok (some item, left)) :
      ∃ header, Header.readLines implicitDiv line.number payload raws = .ok (header, left) ∧
        ofHeader line.number header = .ok item := by
    obtain ⟨⟨header, rest⟩, hlines, h⟩ := Outcome.exists_of_bind_eq_ok h
    obtain ⟨element, helement, h⟩ := Outcome.exists_of_bind_eq_ok h
    obtain ⟨hitem, rfl⟩ := Prod.mk.inj (Except.ok.inj h)
    exact ⟨header, hlines, Option.some.inj hitem ▸ helement⟩
  rw [Item.read] at h
  generalize Marker.classify line.text = classified at h
  obtain ⟨marker, payload⟩ := classified
  cases marker with
  | element => exact .inl ⟨false, helement h⟩
  | div => exact .inl ⟨true, helement h⟩
  | script => exact .inr (.inr (.inl ⟨_, _, halone h⟩))
  | escapedScript => exact .inr (.inr (.inl ⟨_, _, halone h⟩))
  | unescapedScript => exact .inr (.inr (.inl ⟨_, _, halone h⟩))
  | preservedScript => exact .inr (.inr (.inl ⟨_, _, halone h⟩))
  | plain => exact .inr (.inl ⟨_, halone h⟩)
  | escapedText => exact .inr (.inl ⟨_, halone h⟩)
  | unescapedText => exact .inr (.inl ⟨_, halone h⟩)
  | silent => exact .inr (.inr (.inr (.inl (halone h))))
  | silentComment => cases h
  | comment => exact .inr (.inr (.inr (.inr (.inl (halone h)))))
  | doctype =>
    exact .inr (.inr (.inr (.inr (.inr (.inl ⟨_, (Except.ok.inj (halone h)).symm⟩)))))
  | filter => exact .inr (.inr (.inr (.inr (.inr (.inr h)))))

theorem read_solid {line : Line} {raws left : List PhysicalLine} {item : Item}
    (h : Item.read line raws = .ok (some item, left)) (hline : '\n' ∉ line.text)
    (hraws : PhysicalLine.Unbroken raws) : item.Solid := by
  obtain ⟨payload, hsub, hcases⟩ := read_cases h
  rcases hcases with ⟨_, header, -, h⟩ | ⟨_, h⟩ | ⟨_, _, h⟩ | h | h | ⟨args, rfl⟩ | h
  · obtain ⟨e, rfl, -⟩ := ofHeader_eq_ok h
    trivial
  · exact ofText_solid h fun hmem => hline (hsub hmem)
  · obtain ⟨s, rfl⟩ := ofScript_eq_ok h
    trivial
  · obtain ⟨code, rfl⟩ := ofSilent_eq_ok h
    trivial
  · obtain ⟨condition, text, rfl, -⟩ := ofComment_eq_ok h
    trivial
  · trivial
  · exact readFilter_solid h hraws

end Item

/-- Every item of an outline was read from a line, with lines behind it, that have no line feed in
them. -/
theorem Outline.Run.exists_read {known : Indentation} {path : Path} {raws : List PhysicalLine}
    {entries : List Entry} (h : Run known path raws entries) (hraws : PhysicalLine.Unbroken raws) :
    ∀ e ∈ entries, ∃ line behind left, Item.read line behind = .ok (some e.item, left) ∧
      '\n' ∉ line.text ∧ PhysicalLine.Unbroken behind := by
  induction h with
  | done hline => exact nofun
  | comment hline hdepth henter hread hrest ih =>
    exact ih ((hraws.suffix (Line.suffix_of_next? hline)).suffix (Item.suffix_of_read hread))
  | item hline hdepth henter hread hrest ih =>
    have hrest := hraws.suffix (Line.suffix_of_next? hline)
    refine List.forall_mem_cons.mpr ⟨?_, ih (hrest.suffix (Item.suffix_of_read hread))⟩
    exact ⟨_, _, _, hread, Line.text_unbroken hline hraws, hrest⟩

theorem Outline.exists_read {source : Text} {entries : List Entry} (h : read source = .ok entries) :
    ∀ e ∈ entries, ∃ line behind left, Item.read line behind = .ok (some e.item, left) ∧
      '\n' ∉ line.text ∧ PhysicalLine.Unbroken behind :=
  (readFrom_eq_ok_iff.mp h).exists_read (PhysicalLine.unbroken_ofSource source)

theorem Outline.entry_mem_of_read {source : Text} {entries : List Entry}
    (h : read source = .ok entries) {n : Node} (hn : n ∈ Entry.forest entries) :
    Node.entry (0, n) ∈ entries :=
  Node.entry_mem_of_mem_walkAll (isOutline_of_read h) (Node.mem_walkAll hn 0)

/-- All nodes of a document at no depth are solid. -/
theorem Outline.solid_of_read {source : Text} {entries : List Entry}
    (h : read source = .ok entries) : ∀ n ∈ Entry.forest entries, n.item.Solid := by
  intro n hn
  obtain ⟨line, behind, left, hread, hline, hbehind⟩ := exists_read h _ (entry_mem_of_read h hn)
  exact Item.read_solid hread hline hbehind

end Haml
