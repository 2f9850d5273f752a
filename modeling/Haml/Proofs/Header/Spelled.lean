import Haml.Proofs.Header.Decoded
import Haml.Proofs.Header.Keyed
import Haml.Proofs.Text.Words

/-! Groups of attributes in all their spellings. A hash is cut at its commas and a list is read from
the left, but the values that have no comma, bracket or white space outside strings end at the same
place for both, and the keys of a hash name what a list names. So a group is read as its names and
values say, whichever way it is spelled, and what is behind it is read as it would be alone. -/

namespace Haml

/-- A value that needs no code to be read: a string between its marks, or a word without commas,
quotation marks and brackets. -/
inductive IsOperand : Text → Prop
  | string {mark : Char} {body : Text} (hmark : Quote.isMark mark = true)
      (hbody : Quote.IsBody mark body) : IsOperand (Quote.string mark body)
  | word {word : Text} (hword : Text.IsWord word) (hplain : word.all Passed.isPlain = true) :
      IsOperand word

/-- The spellings of a key in a hash: `:name =>`, `'name' =>`, `name:` and `'name':`. -/
inductive KeySpelling
  | symbol
  | arrow (mark : Char)
  | bare
  | colon (mark : Char)

/-- The spellings of a group of attributes. -/
inductive Spelling
  | hash (key : KeySpelling)
  | list

namespace KeySpelling

def key : KeySpelling → Text → Hash.Key
  | symbol, name => .symbol name
  | arrow mark, name => .string mark name
  | bare, name => .bare name
  | colon mark, name => .string mark name

/-- What stands between a key and its value. -/
def sign : KeySpelling → Text
  | symbol | arrow _ => " => "
  | bare | colon _ => ": "

def entry (k : KeySpelling) (p : Text × Text) : Text := (k.key p.1).write ++ (k.sign ++ p.2)

/-- Strings stand between quotation marks. -/
def Proper : KeySpelling → Prop
  | symbol | bare => True
  | arrow mark | colon mark => Quote.isMark mark = true

end KeySpelling

/-- An attribute of a list. -/
def AttributeList.entry (p : Text × Text) : Text := p.1 ++ '=' :: p.2

namespace Spelling

def Proper : Spelling → Prop
  | hash k => k.Proper
  | list => True

/-- The attributes with the given names and values, as one group. -/
def group (s : Spelling) (pairs : List (Text × Text)) : Text :=
  match s with
  | hash k => writeGroup '{' '}' (pairs.map k.entry)
  | list => '(' :: (Text.join [' '] (pairs.map AttributeList.entry) ++ [')'])

end Spelling

/-- Names and values that can be spelled as a group. -/
def Spellable (pairs : List (Text × Text)) : Prop := ∀ p ∈ pairs, IsName p.1 ∧ IsOperand p.2

/-- What the values are read as, under their names. -/
def AttributeSource.ofPairs (line : Nat) (pairs : List (Text × Text)) :
    Except ReadError (List AttributeSource) :=
  pairs.mapM fun (name, value) => ofValue line name value

variable {line : Nat} {name value rest : Text} {pairs : List (Text × Text)}

theorem AttributeSource.ofPairs_cons (p : Text × Text) (pairs : List (Text × Text)) :
    ofPairs line (p :: pairs) =
      (ofValue line p.1 p.2).bind fun source => (ofPairs line pairs).map (source :: ·) := by
  rw [ofPairs, List.mapM_cons]
  rfl

section Characters

variable {c : Char}

theorem isPlain_of_isNameChar (h : isNameChar c = true) : Passed.isPlain c = true := by
  have hne (d : Char) (hd : isNameChar d = false) : c ≠ d := by
    rintro rfl
    rw [h] at hd
    cases hd
  simp [Passed.isPlain, Quote.isMark, Brackets.all, hne '"' (by decide), hne '\'' (by decide),
    hne '{' (by decide), hne '(' (by decide), hne '[' (by decide), hne '}' (by decide),
    hne ')' (by decide), hne ']' (by decide), hne ',' (by decide)]

theorem not_isBlank_of_isNameChar (h : isNameChar c = true) : Unicode.isBlank c = false := by
  by_contra hblank
  rw [isNameChar_of_isBlank (by simpa using hblank)] at h
  cases h

end Characters

namespace IsName

variable (h : IsName name)

include h

theorem isNameChar_of_mem {c : Char} (hc : c ∈ name) : isNameChar c = true :=
  List.all_eq_true.mp h.chars c hc

theorem passed : Passed .outside .outside name :=
  Passed.plain (List.all_eq_true.mpr fun _ hc => isPlain_of_isNameChar (h.isNameChar_of_mem hc))

theorem isWord : Text.IsWord name :=
  ⟨h.ne_nil, fun _ hc => not_isBlank_of_isNameChar (h.isNameChar_of_mem hc)⟩

theorem head_not_isBlank : ∀ c ∈ name.head?, Unicode.isBlank c = false := fun c hc =>
  h.isWord.2 c (List.mem_of_mem_head? hc)

theorem not_mem {c : Char} (hc : isNameChar c = false) : c ∉ name := by
  intro hmem
  rw [h.isNameChar_of_mem hmem] at hc
  cases hc

end IsName

/-- A text with neither its mark nor a backslash is the body of a string, and has no escapes. -/
theorem Quote.isBody_of_not_mem {mark : Char} (hmark : mark ∉ name) (hslash : '\\' ∉ name) :
    IsBody mark name ∧ unescape mark name = name := by
  induction name with
  | nil => exact ⟨rfl, rfl⟩
  | cons c name ih =>
    obtain ⟨hc, hmark⟩ := List.ne_and_not_mem_of_not_mem_cons hmark
    obtain ⟨hback, hslash⟩ := List.ne_and_not_mem_of_not_mem_cons hslash
    obtain ⟨hbody, hescapes⟩ := ih hmark hslash
    have hnext : (inside mark).next c = inside mark := by
      rw [next, if_neg hback.symm, if_neg hc.symm]
    refine ⟨?_, ?_⟩
    · rw [IsBody, after?, hnext]
      exact hbody
    · rw [unescape, hescapes]
      · exact fun _ heq _ => hback heq.symm
      · exact fun _ _ heq _ => hback heq.symm

theorem IsValue.trimStart_append (h : IsValue value) (rest : Text) :
    Text.trimStart (value ++ rest) = value ++ rest := by
  obtain ⟨c, more, rfl⟩ := List.exists_cons_of_ne_nil h.ne_nil
  exact Text.trimStart_eq_self_iff.mpr (Text.trim_eq_self_iff.mp h.trimmed).1

theorem IsOperand.isValue (h : IsOperand value) : IsValue value := by
  cases h with
  | string hmark hbody => exact Quote.isValue_string hmark hbody
  | word hword hplain =>
    exact ⟨hword.1, Text.trim_eq_self_of_forall hword.2, Passed.plain hplain⟩

namespace KeySpelling

variable {k : KeySpelling}

theorem proper_key (hk : k.Proper) (hname : IsName name) :
    (k.key name).Proper ∧ (k.key name).name = name := by
  have hstring {mark : Char} (hmark : Quote.isMark mark = true) :
      Quote.IsBody mark name ∧ Quote.unescape mark name = name := by
    refine Quote.isBody_of_not_mem (hname.not_mem ?_) (hname.not_mem (by decide))
    obtain rfl | rfl := Quote.isMark_iff.mp hmark
    all_goals decide
  cases k with
  | symbol | bare => exact ⟨hname, rfl⟩
  | arrow mark | colon mark => exact ⟨⟨hk, (hstring hk).1⟩, (hstring hk).2⟩

theorem entry_keyed (k : KeySpelling) (p : Text × Text) :
    Hash.Keyed (k.key p.1) (k.entry p) (Text.trim p.2) := by
  have hblank : ∀ c ∈ [' '], Unicode.isBlank c = true := List.forall_mem_singleton.mpr rfl
  have hnone : ∀ c ∈ ([] : Text), Unicode.isBlank c = true := nofun
  have hvalue : (' ' :: p.2).head? ≠ some ':' := by simp
  rw [← Text.trim_blank_cons (hblank ' ' List.mem_cons_self) p.2]
  cases k with
  | symbol => exact Hash.Keyed.symbol hblank
  | arrow mark => exact Hash.Keyed.arrow hblank
  | bare => exact Hash.Keyed.bare hvalue
  | colon mark => exact Hash.Keyed.colon hnone

theorem splitEntry_entry (hk : k.Proper) {p : Text × Text} (hname : IsName p.1)
    (hvalue : IsOperand p.2) : Hash.splitEntry (k.entry p) = some p := by
  obtain ⟨hkey, hkeyname⟩ := k.proper_key hk hname
  rw [(k.entry_keyed p).split hkey, hkeyname, hvalue.isValue.trimmed]

theorem write_key (hk : k.Proper) (hname : IsName name) :
    (∃ c more, (k.key name).write = c :: more ∧ Unicode.isBlank c = false) ∧
      Passed .outside .outside (k.key name).write := by
  have hplain : Passed .outside .outside [':'] := Passed.plain (by decide)
  cases k with
  | symbol => exact ⟨⟨':', name, rfl, by decide⟩, hplain.append hname.passed⟩
  | bare =>
    obtain ⟨c, more, rfl⟩ := List.exists_cons_of_ne_nil hname.ne_nil
    exact ⟨⟨c, more, rfl, hname.head_not_isBlank c rfl⟩, hname.passed⟩
  | arrow mark | colon mark =>
    have hblank : Unicode.isBlank mark = false := by
      obtain rfl | rfl := Quote.isMark_iff.mp hk
      all_goals decide
    exact ⟨⟨mark, _, rfl, hblank⟩,
      Quote.passed_string hk (proper_key (k := .arrow mark) hk hname).1.2⟩

theorem isValue_entry (hk : k.Proper) {p : Text × Text} (hname : IsName p.1)
    (hvalue : IsOperand p.2) : IsValue (k.entry p) := by
  obtain ⟨⟨c, more, hkey, hblank⟩, hpassed⟩ := write_key hk hname
  have hsign : Passed .outside .outside k.sign := by
    cases k <;> exact Passed.plain rfl
  have hvalue := hvalue.isValue
  refine ⟨?_, ?_, hpassed.append (hsign.append hvalue.passed)⟩
  · rw [entry, hkey]
    exact List.cons_ne_nil _ _
  · have hstart : Text.trimStart (c :: (more ++ k.sign) ++ p.2) = c :: (more ++ k.sign) ++ p.2 :=
      Text.trimStart_eq_cons_iff.mpr ⟨[], rfl, nofun, hblank⟩
    have happend : k.entry p = c :: (more ++ k.sign) ++ p.2 := by simp [entry, hkey]
    rw [happend]
    exact Text.trim_append hstart hvalue.ne_nil hvalue.trimmed

theorem ofEntries_eq_ofPairs (hk : k.Proper) (hpairs : Spellable pairs) {pieces : List Text}
    (hpieces : pieces.map Text.trim = pairs.map k.entry) :
    Hash.ofEntries line pieces = (AttributeSource.ofPairs line pairs).map some := by
  induction pairs generalizing pieces with
  | nil =>
    obtain rfl : pieces = [] := List.map_eq_nil_iff.mp hpieces
    rfl
  | cons p pairs ih =>
    obtain ⟨⟨hname, hvalue⟩, hpairs⟩ := List.forall_mem_cons.mp hpairs
    obtain ⟨piece, more, rfl, hpiece, hmore⟩ := List.map_eq_cons_iff.mp hpieces
    have hempty : (k.entry p).isEmpty = false := by
      simpa using (isValue_entry hk hname hvalue).ne_nil
    rw [Hash.ofEntries, hpiece, if_neg (by simp [hempty]), splitEntry_entry hk hname hvalue,
      AttributeSource.ofPairs_cons]
    dsimp only
    rw [ih hpairs hmore]
    cases AttributeSource.ofValue line p.1 p.2 with
    | error e => rfl
    | ok source => cases AttributeSource.ofPairs line pairs <;> rfl

theorem read_join (hk : k.Proper) (hpairs : Spellable pairs) :
    Hash.read line (Text.join ", " (pairs.map k.entry)) = AttributeSource.ofPairs line pairs := by
  have hentries : Hash.ofEntries line
      (splitCommas 0 .outside (Text.join ", " (pairs.map k.entry))) =
        (AttributeSource.ofPairs line pairs).map some := by
    cases pairs with
    | nil => rfl
    | cons p pairs =>
      refine ofEntries_eq_ofPairs hk hpairs (splitCommas_join (List.cons_ne_nil _ _) ?_)
      intro t ht
      obtain ⟨q, hq, rfl⟩ := List.mem_map.mp ht
      exact isValue_entry hk (hpairs q hq).1 (hpairs q hq).2
  rw [Hash.read, hentries]
  cases AttributeSource.ofPairs line pairs <;> rfl

end KeySpelling

namespace AttributeList

theorem readValue_operand (h : IsOperand value) (hrest : Starts [' '] rest) :
    readValue line name (value ++ rest) =
      (AttributeSource.ofValue line name value).map fun source => (source, rest) := by
  cases h with
  | string hmark hbody =>
    rw [readValue_string hmark hbody, AttributeSource.ofValue_string hmark hbody]
  | word hword hplain =>
    obtain ⟨c, more, rfl⟩ := List.exists_cons_of_ne_nil hword.1
    have hmark : Quote.isMark c = false := by
      have hc := List.all_eq_true.mp hplain c List.mem_cons_self
      simp only [Passed.isPlain, Bool.and_eq_true, Bool.not_eq_true'] at hc
      exact hc.1.1.1
    have hstring : ¬Quote.IsString (c :: more) := fun h => by
      have hopens : Quote.isMark c = true := h.1
      rw [hmark] at hopens
      cases hopens
    have hopens : ¬Quote.opensIn (c :: more ++ rest) = true := by
      simpa [Quote.opensIn] using hmark
    have hall : (c :: more).all (!Unicode.isBlank ·) = true := by
      simpa using hword.2
    have hstop : [' '].any (!Unicode.isBlank ·) = false := by decide
    rw [AttributeSource.ofValue_ofWord hword.1 hstring, readValue, if_neg (by simp), if_neg hopens,
      hrest.takeWhile_append hall hstop, hrest.dropWhile_append hall hstop]
    rfl

/-- A list is read attribute by attribute, each with a blank in front of it. -/
theorem read_entries (hpairs : Spellable pairs) :
    read line (pairs.flatMap fun p => ' ' :: entry p) = AttributeSource.ofPairs line pairs := by
  induction pairs with
  | nil => exact read_nil rfl
  | cons p pairs ih =>
    obtain ⟨⟨hname, hvalue⟩, hmore⟩ := List.forall_mem_cons.mp hpairs
    obtain ⟨name, value⟩ := p
    obtain ⟨first, more, rfl⟩ := List.exists_cons_of_ne_nil hname.ne_nil
    have hlist : AttributeText.IsAttributeName (first :: more) := by
      refine ⟨List.cons_ne_nil _ _, List.all_eq_true.mpr fun c hc => ?_⟩
      simp [isListName, hname.isNameChar_of_mem hc]
    have hstart : Starts [' '] (pairs.flatMap fun p => ' ' :: entry p) := by
      cases pairs with
      | nil => exact Starts.nil
      | cons q pairs => exact Starts.cons List.mem_cons_self
    have htrim : Text.trimStart
        (' ' :: entry (first :: more, value) ++ pairs.flatMap fun p => ' ' :: entry p) =
        first :: (more ++ '=' :: (value ++ pairs.flatMap fun p => ' ' :: entry p)) :=
      Text.trimStart_eq_cons_iff.mpr
        ⟨[' '], by simp [entry], List.forall_mem_singleton.mpr rfl, hname.head_not_isBlank first rfl⟩
    rw [List.flatMap_cons, read_cons htrim,
      readAttribute_equals hlist (hvalue.isValue.trimStart_append _),
      readValue_operand hvalue hstart, AttributeSource.ofPairs_cons]
    cases AttributeSource.ofValue line (first :: more) value with
    | error e => rfl
    | ok source => exact congrArg (Except.map (source :: ·)) (ih hmore)

theorem read_congr {t u : Text} (h : Text.trimStart t = Text.trimStart u) :
    read line t = read line u := by
  cases hu : Text.trimStart u with
  | nil => rw [read_nil (h.trans hu), read_nil hu]
  | cons first rest => rw [read_cons (h.trans hu), read_cons hu]

theorem read_join (hpairs : Spellable pairs) :
    read line (Text.join [' '] (pairs.map entry)) = AttributeSource.ofPairs line pairs := by
  rw [← read_entries hpairs]
  cases pairs with
  | nil => rfl
  | cons p pairs =>
    rw [List.map_cons, Text.join_cons, List.flatMap_map, List.flatMap_cons]
    refine read_congr ?_
    exact (List.dropWhile_cons_of_pos (by decide)).symm

theorem passed_join (hpairs : Spellable pairs) :
    Passed .outside .outside (Text.join [' '] (pairs.map entry)) := by
  have hblank : Passed .outside .outside [' '] := Passed.plain (by decide)
  have hequals : Passed .outside .outside ['='] := Passed.plain (by decide)
  have hentry (p : Text × Text) (hp : IsName p.1 ∧ IsOperand p.2) :
      Passed .outside .outside (entry p) := hp.1.passed.append (hequals.append hp.2.isValue.passed)
  cases pairs with
  | nil => exact Passed.nil .outside
  | cons p pairs =>
    obtain ⟨hp, hmore⟩ := List.forall_mem_cons.mp hpairs
    rw [List.map_cons, Text.join_cons, List.flatMap_map]
    exact (hentry p hp).append (Passed.flatMap fun q hq => hblank.append (hentry q (hmore q hq)))

end AttributeList

namespace Groups

variable {g after : Groups} {s : Spelling} {opener : Char} {body : Text}
  {sources : List AttributeSource}

/-- Groups with the attributes of one group, which is spelled like this. -/
def spelled (g : Groups) (s : Spelling) (sources : List AttributeSource) : Groups :=
  match s with
  | .hash _ => { g with attributes := sources, hash := true }
  | .list => { g with attributes := sources, list := true }

theorem attributes_spelled (g : Groups) (s : Spelling) (sources : List AttributeSource) :
    (g.spelled s sources).attributes = sources := by cases s <;> rfl

theorem reference_spelled (g : Groups) (s : Spelling) (sources : List AttributeSource) :
    (g.spelled s sources).reference = g.reference := by cases s <;> rfl

/-- A reference, and what stands behind one, is read without regard to attributes. -/
theorem add_spelled (h : g.reference.isSome = true ∨ opener = '[') :
    (g.spelled s sources).add line opener body =
      (g.add line opener body).map fun g => g.spelled s sources := by
  rw [add, add, reference_spelled]
  by_cases hopener : opener = '['
  · rw [if_pos hopener, if_pos hopener]
    split
    · rfl
    · cases Reference.read line body with
      | error e => rfl
      | ok r => cases s <;> rfl
  · have hsome := h.resolve_right hopener
    rw [if_neg hopener, if_neg hopener, if_pos hsome, if_pos hsome]
    rfl

theorem isSome_reference_of_add (h : g.reference.isSome = true ∨ opener = '[')
    (hadd : g.add line opener body = .ok after) : after.reference.isSome = true := by
  rw [add] at hadd
  by_cases hopener : opener = '['
  · rw [if_pos hopener] at hadd
    split at hadd
    · cases hadd
    · obtain ⟨r, -, rfl⟩ := Outcome.exists_of_map_eq_ok hadd
      rfl
  · rw [if_neg hopener, if_pos (h.resolve_right hopener)] at hadd
    cases hadd

theorem readAll_spelled
    (h : g.reference.isSome = true ∨ ∀ c ∈ rest.head?, Brackets.all.opens c = true → c = '[') :
    readAll line (g.spelled s sources) rest =
      (readAll line g rest).map fun (g, rest) => (g.spelled s sources, rest) := by
  fun_induction readAll line g rest with
  | case1 => rw [readAll]; rfl
  | case2 g opener rest hopens hbody => rw [readAll_unclosed hopens hbody]; rfl
  | case3 g opener rest hopens inside more hbody e hadd =>
    have hopener := h.imp_right fun h => h opener rfl hopens
    rw [readAll_cons hopens hbody, add_spelled hopener, hadd]
    rfl
  | case4 g opener rest hopens inside more hbody added hadd _ ih =>
    have hopener := h.imp_right fun h => h opener rfl hopens
    rw [readAll_cons hopens hbody, add_spelled hopener, hadd]
    exact ih (.inl (isSome_reference_of_add hopener hadd))
  | case5 g opener rest hopens => rw [readAll, if_neg hopens]; rfl

/-- A group is read by its names and values, however it is spelled. -/
theorem readAll_spelling (hs : s.Proper) (hpairs : Spellable pairs) (rest : Text) :
    readAll line {} (s.group pairs ++ rest) =
      ((AttributeSource.ofPairs line pairs).mapError HeaderError.invalid).bind fun sources =>
        readAll line (spelled {} s sources) rest := by
  cases s with
  | hash k =>
    have hbody : Brackets.all.body 0 .outside (Text.join ", " (pairs.map k.entry) ++ '}' :: rest) =
        some (Text.join ", " (pairs.map k.entry), rest) := by
      refine body_join (fun t ht => ?_) (by decide) rest
      obtain ⟨p, hp, rfl⟩ := List.mem_map.mp ht
      exact KeySpelling.isValue_entry hs (hpairs p hp).1 (hpairs p hp).2
    rw [Spelling.group, writeGroup, List.cons_append, List.append_assoc, List.singleton_append,
      readAll_cons (by decide) hbody, add, if_neg (by decide), if_neg (by decide), if_pos rfl,
      if_neg (by decide), KeySpelling.read_join hs hpairs]
    cases AttributeSource.ofPairs line pairs <;> rfl
  | list =>
    have hbody := (AttributeList.passed_join hpairs).body (')' :: rest)
    have hclose : Brackets.all.body 0 .outside (')' :: rest) = some ([], rest) :=
      Brackets.closed_nil.body (by decide) rest
    rw [hclose, Option.map_some] at hbody
    simp only [List.append_nil] at hbody
    rw [Spelling.group, List.cons_append, List.append_assoc, List.singleton_append,
      readAll_cons (by decide) hbody, add, if_neg (by decide), if_neg (by decide),
      if_neg (by decide), if_neg (by decide), AttributeList.read_join hpairs]
    cases AttributeSource.ofPairs line pairs <;> rfl

end Groups

theorem Shorthand.readAll_of_none (h : ∀ c ∈ rest.head?, c ≠ '.' ∧ c ≠ '#') :
    readAll rest = .ok ([], rest) := by
  cases rest with
  | nil => rw [readAll]
  | cons c rest => rw [readAll, if_neg (not_or.mpr (h c rfl))]

namespace Header

variable {implicitDiv : Bool} {lead tag : Text} {s : Spelling} {shorthands : List Shorthand}

/-- How a header begins: with a tag, or with nothing where the tag is left out. -/
inductive Begins : Bool → Text → Text → Prop
  | implicit : Begins true [] "div"
  | explicit {tag : Text} (hne : tag ≠ []) (hchars : tag.all isTagChar = true) :
      Begins false tag tag

theorem Begins.readTag (h : Begins implicitDiv lead tag)
    (hrest : ∀ c ∈ rest.head?, isTagChar c = false) :
    readTag implicitDiv (lead ++ rest) = .ok (tag, rest) := by
  cases h with
  | implicit => rfl
  | explicit hne hchars =>
    have hstart : Starts rest.head?.toList rest := by simp [Starts]
    have hstop : rest.head?.toList.any isTagChar = false := by simpa using hrest
    rw [Header.readTag, if_neg Bool.false_ne_true, hstart.takeWhile_append hchars hstop,
      hstart.dropWhile_append hchars hstop, if_neg (by simpa using hne)]

/-- Tag, classes and id are read off what stands in front of the groups, and nothing else is. -/
theorem read_lead (hlead : Begins implicitDiv lead tag)
    (hnames : ∀ s ∈ shorthands, IsName s.name)
    (htag : ∀ c ∈ (shorthands.flatMap Shorthand.write ++ rest).head?, isTagChar c = false)
    (hrest : ∀ c ∈ rest.head?, isNameChar c = false ∧ c ≠ '.' ∧ c ≠ '#') :
    read implicitDiv line (lead ++ (shorthands.flatMap Shorthand.write ++ rest)) =
      (read true line rest).map fun h => { h with
        tag
        classes := shorthands.filterMap Shorthand.className?
        id := (shorthands.filterMap Shorthand.id?).getLast? } := by
  have hstart : Starts rest.head?.toList rest := by simp [Starts]
  have hnone : ∀ c ∈ rest.head?.toList, isNameChar c = false ∧ c ≠ '.' ∧ c ≠ '#' := by
    simpa using hrest
  have hshorthands :
      Shorthand.readAll (shorthands.flatMap Shorthand.write ++ rest) = .ok (shorthands, rest) := by
    refine Shorthand.readAll_write hnames hstart ?_ ?_
    · refine List.any_eq_false.mpr fun c hc => ?_
      rcases List.mem_cons.mp hc with rfl | hc
      · decide
      · rcases List.mem_cons.mp hc with rfl | hc
        · decide
        · simp [(hnone c hc).1]
    · exact ⟨fun hdot => (hnone _ hdot).2.1 rfl, fun hhash => (hnone _ hhash).2.2 rfl⟩
  have hbare := Shorthand.readAll_of_none fun c hc => (hrest c hc).2
  have hdiv : readTag true rest = .ok ("div".toList, rest) := rfl
  simp only [read, hlead.readTag htag, hdiv, hshorthands, hbare, atLine, bind, Except.bind]
  cases Groups.readAll line {} rest with
  | error e => rfl
  | ok p =>
    dsimp only
    cases readTail (!(p.2.takeWhile isFlag).isEmpty) (readSlash (p.2.dropWhile isFlag)).1
      (readSlash (p.2.dropWhile isFlag)).2 <;> rfl

/-- Attributes are read off their group, and nothing else is. -/
theorem read_group (hs : s.Proper) (hpairs : Spellable pairs)
    (hrest : ∀ c ∈ rest.head?, c ∉ ['{', '(', '.', '#']) :
    read true line (s.group pairs ++ rest) =
      ((AttributeSource.ofPairs line pairs).mapError HeaderError.invalid).bind fun attributes =>
        (read true line rest).map fun h => { h with attributes } := by
  have hout (c : Char) (hc : c ∈ rest.head?) : c ≠ '{' ∧ c ≠ '(' ∧ c ≠ '.' ∧ c ≠ '#' := by
    simpa using hrest c hc
  have hgroup : Shorthand.readAll (s.group pairs ++ rest) = .ok ([], s.group pairs ++ rest) :=
    Shorthand.readAll_of_none fun c hc => by cases s <;> cases hc <;> decide
  have hbare := Shorthand.readAll_of_none fun c hc => (hout c hc).2.2
  have hreference : ∀ c ∈ rest.head?, Brackets.all.opens c = true → c = '[' := by
    intro c hc hopens
    simpa [Brackets.all, (hout c hc).1, (hout c hc).2.1] using hopens
  have hdiv (t : Text) : readTag true t = .ok ("div".toList, t) := rfl
  simp only [read, hdiv, hgroup, hbare, atLine, bind, Except.bind,
    Groups.readAll_spelling hs hpairs]
  cases AttributeSource.ofPairs line pairs with
  | error e => rfl
  | ok sources =>
    simp only [Except.mapError, Groups.readAll_spelled (.inr hreference)]
    cases Groups.readAll line {} rest with
    | error e => rfl
    | ok p =>
      simp only [Except.map, Groups.attributes_spelled, Groups.reference_spelled]
      cases readTail (!(p.2.takeWhile isFlag).isEmpty) (readSlash (p.2.dropWhile isFlag)).1
        (readSlash (p.2.dropWhile isFlag)).2 <;> rfl

/-- A header with a group of attributes is read as its parts say, or fails as they do. The spelling
of the group makes no difference. -/
theorem read_spelled (line : Nat) (hlead : Begins implicitDiv lead tag)
    (hnames : ∀ s ∈ shorthands, IsName s.name) (hs : s.Proper) (hpairs : Spellable pairs)
    (hrest : ∀ c ∈ rest.head?, c ∉ ['{', '(', '.', '#']) :
    read implicitDiv line
        (lead ++ (shorthands.flatMap Shorthand.write ++ (s.group pairs ++ rest))) =
      ((AttributeSource.ofPairs line pairs).mapError HeaderError.invalid).bind fun attributes =>
        (read true line rest).map fun h => { h with
          tag
          classes := shorthands.filterMap Shorthand.className?
          id := (shorthands.filterMap Shorthand.id?).getLast?
          attributes } := by
  have hopener : ∀ c ∈ (s.group pairs ++ rest).head?, c = '{' ∨ c = '(' := by
    intro c hc
    cases s <;> cases hc <;> decide
  have htag : ∀ c ∈ (shorthands.flatMap Shorthand.write ++ (s.group pairs ++ rest)).head?,
      isTagChar c = false := by
    intro c hc
    have hmem : c ∈ ['.', '#', '{', '('] :=
      ((Shorthand.starts_writeAll shorthands).mono (by decide)).append
        (fun c hc => by rcases hopener c hc with rfl | rfl <;> decide) c hc
    have hnone : ['.', '#', '{', '('].all (!isTagChar ·) = true := by decide
    simpa using List.all_eq_true.mp hnone c hmem
  have hgroup : ∀ c ∈ (s.group pairs ++ rest).head?,
      isNameChar c = false ∧ c ≠ '.' ∧ c ≠ '#' := by
    intro c hc
    rcases hopener c hc with rfl | rfl <;> decide
  rw [read_lead hlead hnames htag hgroup, read_group hs hpairs hrest]
  cases AttributeSource.ofPairs line pairs with
  | error e => rfl
  | ok sources =>
    change ((read true line rest).map _).map _ = (read true line rest).map _
    cases read true line rest <;> rfl

/-- A hash and a list with the same string and the same word. -/
theorem read_spelled_string :
    let pairs := [("a".toList, "\"x, \\\"#\x7by\x7d\"".toList), ("b-c".toList, "v.w".toList)]
    Begins false "p" "p" ∧ (∀ s ∈ [Shorthand.className "k"], IsName s.name) ∧
    (Spelling.hash (.arrow '\'')).Proper ∧ Spelling.list.Proper ∧ Spellable pairs ∧
    (∀ c ∈ "= z".toList.head?, c ∉ ['{', '(', '.', '#']) ∧
    read false 1 "p.k\x7b'a' => \"x, \\\"#\x7by\x7d\", 'b-c' => v.w\x7d= z" =
      read false 1 "p.k(a=\"x, \\\"#\x7by\x7d\" b-c=v.w)= z" ∧
    AttributeSource.ofPairs 1 pairs = .ok
      [.interpolated "a" [.literal "x, \"", .expression "y"], .dynamic "b-c" "v.w"] := by
  intro pairs
  have hlead : Begins false "p" "p" := .explicit (by decide) (by decide)
  have hnames : ∀ s ∈ [Shorthand.className "k"], IsName s.name := by decide
  have hhash : (Spelling.hash (.arrow '\'')).Proper := rfl
  have hlist : Spelling.list.Proper := trivial
  have hbody : Quote.IsBody '"' "x, \\\"#\x7by\x7d" := rfl
  have hstring : IsOperand "\"x, \\\"#\x7by\x7d\"" := .string rfl hbody
  have hword : IsOperand "v.w" := .word (by decide) (by decide)
  have hpairs : Spellable pairs := List.forall_mem_cons.mpr
    ⟨⟨by decide, hstring⟩, List.forall_mem_singleton.mpr ⟨by decide, hword⟩⟩
  have hrest : ∀ c ∈ "= z".toList.head?, c ∉ ['{', '(', '.', '#'] := by rintro c ⟨⟩; decide
  have hread := (read_spelled 1 hlead hnames hhash hpairs hrest).trans
    (read_spelled 1 hlead hnames hlist hpairs hrest).symm
  exact ⟨hlead, hnames, hhash, hlist, hpairs, hrest, hread, by decide +kernel⟩

end Header

end Haml
