import Haml.Proofs.Header.RoundTrip
import Haml.Proofs.Text.Names

/-! Keys of hash entries. An entry has a key if it starts with a symbol, a string or a bare name and
with the mark that sets a value apart. A hash is read entry by entry if all of them have one, and is
code as a whole otherwise. Whether code opens in a string does not matter to its being a key. -/

namespace Haml.Hash

/-- The spellings of a key. -/
inductive Key
  | symbol (name : Text)
  | quotedSymbol (mark : Char) (body : Text)
  | string (mark : Char) (body : Text)
  | bare (name : Text)

namespace Key

def write : Key → Text
  | symbol name => ':' :: name
  | quotedSymbol mark body => ':' :: Quote.string mark body
  | string mark body => Quote.string mark body
  | bare name => name

/-- The attribute that a key names. -/
def name : Key → Text
  | symbol name => name
  | quotedSymbol mark body => Quote.unescape mark body
  | string mark body => Quote.unescape mark body
  | bare name => name

/-- Names have characters of names, and strings end where their marks are. -/
def Proper : Key → Prop
  | symbol name => IsName name
  | quotedSymbol mark body => Quote.isMark mark = true ∧ Quote.IsBody mark body
  | string mark body => Quote.isMark mark = true ∧ Quote.IsBody mark body
  | bare name => IsName name

end Key

/-- An entry that consists of a key, what sets the value apart, and the value with white space
around it. Symbols and strings have an arrow for this, strings and bare names a colon. That of a
bare name stands right behind it, with no other colon after it. -/
inductive Keyed : Key → Text → Text → Prop
  | symbol {name blanks value : Text} (hblanks : ∀ c ∈ blanks, Unicode.isBlank c = true) :
      Keyed (.symbol name) ((Key.symbol name).write ++ (blanks ++ '=' :: '>' :: value))
        (Text.trim value)
  | quotedSymbol {mark : Char} {body blanks value : Text}
      (hblanks : ∀ c ∈ blanks, Unicode.isBlank c = true) :
      Keyed (.quotedSymbol mark body)
        ((Key.quotedSymbol mark body).write ++ (blanks ++ '=' :: '>' :: value)) (Text.trim value)
  | arrow {mark : Char} {body blanks value : Text}
      (hblanks : ∀ c ∈ blanks, Unicode.isBlank c = true) :
      Keyed (.string mark body) ((Key.string mark body).write ++ (blanks ++ '=' :: '>' :: value))
        (Text.trim value)
  | colon {mark : Char} {body blanks value : Text}
      (hblanks : ∀ c ∈ blanks, Unicode.isBlank c = true) :
      Keyed (.string mark body) ((Key.string mark body).write ++ (blanks ++ ':' :: value))
        (Text.trim value)
  | bare {name value : Text} (hvalue : value.head? ≠ some ':') :
      Keyed (.bare name) ((Key.bare name).write ++ ':' :: value) (Text.trim value)

variable {line : Nat} {entry name value text rest body : Text} {mark : Char}

theorem afterArrow?_eq_some_iff : afterArrow? text = some value ↔
    ∃ blanks rest, text = blanks ++ '=' :: '>' :: rest ∧
      (∀ c ∈ blanks, Unicode.isBlank c = true) ∧ Text.trim rest = value := by
  rw [afterArrow?, Option.map_eq_some_iff]
  constructor
  · rintro ⟨rest, hrest, rfl⟩
    have htrim : Text.trimStart text = '=' :: '>' :: rest :=
      (List.isPrefixOf?_eq_some_iff_append_eq.mp hrest).symm
    obtain ⟨blanks, rfl, hblanks, -⟩ := Text.trimStart_eq_cons_iff.mp htrim
    exact ⟨blanks, rest, rfl, hblanks, rfl⟩
  · rintro ⟨blanks, rest, rfl, hblanks, rfl⟩
    refine ⟨rest, ?_, rfl⟩
    rw [Text.trimStart_eq_cons_iff.mpr ⟨blanks, rfl, hblanks, by decide⟩]
    exact List.isPrefixOf?_eq_some_iff_append_eq.mpr rfl

theorem readString_eq_some_iff (hopens : Quote.opensIn text = true) :
    readString text = some (name, rest) ↔ ∃ mark body, text = Quote.string mark body ++ rest ∧
      Quote.isMark mark = true ∧ Quote.IsBody mark body ∧ Quote.unescape mark body = name := by
  rw [readString, Option.map_eq_some_iff]
  constructor
  · rintro ⟨⟨mark, body, after⟩, hread, heq⟩
    obtain ⟨rfl, rfl⟩ := Prod.mk.inj heq
    have hmark : Quote.isMark mark = true := by
      cases text with
      | nil => cases hread
      | cons c text =>
        obtain ⟨_, _, heq⟩ := Option.map_eq_some_iff.mp hread
        obtain rfl : c = mark := (Prod.mk.inj heq).1
        exact hopens
    obtain ⟨rfl, hbody⟩ := (Quote.read_eq_some_iff (Quote.ne_slash_of_isMark hmark)).mp hread
    exact ⟨mark, body, rfl, hmark, hbody, rfl⟩
  · rintro ⟨mark, body, rfl, hmark, hbody, rfl⟩
    exact ⟨_, hbody.read (Quote.ne_slash_of_isMark hmark) rest, rfl⟩

section Name

variable (hname : IsName name) (hrest : ∀ c ∈ rest.head?, isNameChar c = false)

include hname

theorem opensIn_name_append (rest : Text) : Quote.opensIn (name ++ rest) = false := by
  obtain ⟨c, more, rfl⟩ := List.exists_cons_of_ne_nil hname.ne_nil
  have hc : isNameChar c = true := List.all_eq_true.mp hname.chars c List.mem_cons_self
  rw [List.cons_append, Quote.opensIn, ← Bool.not_eq_true]
  intro hmark
  obtain rfl | rfl := Quote.isMark_iff.mp hmark
  all_goals revert hc; decide

include hrest

theorem takeWhile_name_append : (name ++ rest).takeWhile isNameChar = name := by
  have hstart : Starts rest.head?.toList rest := by simp [Starts]
  exact Starts.takeWhile_append hname.chars hstart (by simpa using hrest)

theorem dropWhile_name_append : (name ++ rest).dropWhile isNameChar = rest := by
  have hstart : Starts rest.head?.toList rest := by simp [Starts]
  exact Starts.dropWhile_append hname.chars hstart (by simpa using hrest)

end Name

theorem isName_takeWhile (hempty : ¬(text.takeWhile isNameChar).isEmpty = true) :
    IsName (text.takeWhile isNameChar) :=
  ⟨by simpa using hempty, List.all_takeWhile⟩

/-- Neither white space nor an arrow belongs to the name in front of them. -/
theorem head?_blanks_append {blanks : Text} (hblanks : ∀ c ∈ blanks, Unicode.isBlank c = true)
    (rest : Text) : ∀ c ∈ (blanks ++ '=' :: rest).head?, isNameChar c = false := by
  intro c hc
  cases blanks with
  | nil =>
    obtain rfl : '=' = c := by simpa using hc
    decide
  | cons d blanks =>
    obtain rfl : d = c := by simpa using hc
    exact isNameChar_of_isBlank (hblanks d List.mem_cons_self)

theorem splitEntry_string_eq_some_iff (hmark : Quote.isMark mark = true)
    (hbody : Quote.IsBody mark body) :
    splitEntry (Quote.string mark body ++ rest) = some (name, value) ↔
      Quote.unescape mark body = name ∧ ∃ text, Text.trim text = value ∧
        (Text.trimStart rest = '=' :: '>' :: text ∨ Text.trimStart rest = ':' :: text) := by
  have hopens : Quote.opensIn (Quote.string mark body ++ rest) = true := hmark
  have hcolon (more : Text) : Quote.string mark body ++ rest ≠ ':' :: more := by
    intro heq
    obtain rfl : mark = ':' := (List.cons.inj heq).1
    cases hmark
  rw [splitEntry, if_pos hopens,
    (readString_eq_some_iff hopens).mpr ⟨mark, body, rfl, hmark, hbody, rfl⟩, Option.bind_eq_bind,
    Option.bind_some]
  · dsimp only
    split
    · next text htext => simp [htext]
    · next text htext => simp [htext]
    · next harrow hset =>
      refine iff_of_false (Option.some_ne_none _).symm ?_
      rintro ⟨-, text, -, htext | htext⟩
      · exact harrow text htext
      · exact hset text htext
  · exact hcolon

theorem Keyed.split {key : Key} (h : Keyed key entry value) (hkey : key.Proper) :
    splitEntry entry = some (key.name, value) := by
  cases h with
  | @symbol name blanks value hblanks =>
    have harrow : afterArrow? (blanks ++ '=' :: '>' :: value) = some (Text.trim value) :=
      afterArrow?_eq_some_iff.mpr ⟨blanks, value, rfl, hblanks, rfl⟩
    have hhead := head?_blanks_append hblanks ('>' :: value)
    rw [Key.write, List.cons_append, splitEntry, opensIn_name_append hkey,
      if_neg Bool.false_ne_true]
    dsimp only
    rw [takeWhile_name_append hkey hhead, dropWhile_name_append hkey hhead, harrow,
      if_neg (by simpa using hkey.ne_nil)]
    rfl
  | @quotedSymbol mark body blanks value hblanks =>
    have harrow : afterArrow? (blanks ++ '=' :: '>' :: value) = some (Text.trim value) :=
      afterArrow?_eq_some_iff.mpr ⟨blanks, value, rfl, hblanks, rfl⟩
    have hopens : Quote.opensIn (Quote.string mark body ++ (blanks ++ '=' :: '>' :: value)) =
        true := hkey.1
    have hread := (readString_eq_some_iff hopens).mpr ⟨mark, body, rfl, hkey.1, hkey.2, rfl⟩
    rw [Key.write, List.cons_append, splitEntry, if_pos hopens, hread]
    simp only [Option.bind_eq_bind, Option.bind_some, harrow]
    rfl
  | @arrow mark body blanks value hblanks =>
    have hsign : Text.trimStart (blanks ++ '=' :: '>' :: value) = '=' :: '>' :: value :=
      Text.trimStart_eq_cons_iff.mpr ⟨blanks, rfl, hblanks, by decide⟩
    exact (splitEntry_string_eq_some_iff hkey.1 hkey.2).mpr ⟨rfl, value, rfl, .inl hsign⟩
  | @colon mark body blanks value hblanks =>
    have hsign : Text.trimStart (blanks ++ ':' :: value) = ':' :: value :=
      Text.trimStart_eq_cons_iff.mpr ⟨blanks, rfl, hblanks, by decide⟩
    exact (splitEntry_string_eq_some_iff hkey.1 hkey.2).mpr ⟨rfl, value, rfl, .inr hsign⟩
  | @bare name value hvalue =>
    have hhead : ∀ c ∈ (':' :: value).head?, isNameChar c = false := by simp; decide
    have hcolon (rest : Text) : name ++ ':' :: value ≠ ':' :: rest := by
      obtain ⟨c, more, rfl⟩ := List.exists_cons_of_ne_nil hkey.ne_nil
      intro heq
      obtain rfl : c = ':' := (List.cons.inj heq).1
      cases hkey.chars
    rw [Key.write, splitEntry, opensIn_name_append hkey, if_neg Bool.false_ne_true]
    · dsimp only
      rw [takeWhile_name_append hkey hhead, dropWhile_name_append hkey hhead,
        if_neg (by simpa using hkey.ne_nil)]
      split
      · next heq => exact absurd (congrArg List.head? (List.cons.inj heq).2) (by simpa using hvalue)
      · next heq => rw [(List.cons.inj heq).2]; rfl
      · next hset => exact absurd rfl (hset value)
    · exact hcolon

theorem exists_keyed_colon (h : splitEntry (':' :: rest) = some (name, value)) :
    ∃ key : Key, key.Proper ∧ Keyed key (':' :: rest) value ∧ key.name = name := by
  rw [splitEntry] at h
  split at h
  · next hopens =>
    obtain ⟨⟨key, after⟩, hread, h⟩ := Option.bind_eq_some_iff.mp h
    obtain ⟨value', harrow, h⟩ := Option.bind_eq_some_iff.mp h
    obtain ⟨rfl, rfl⟩ : key = name ∧ value' = value := by simpa using h
    obtain ⟨mark, body, rfl, hmark, hbody, rfl⟩ := (readString_eq_some_iff hopens).mp hread
    obtain ⟨blanks, value, rfl, hblanks, rfl⟩ := afterArrow?_eq_some_iff.mp harrow
    exact ⟨.quotedSymbol mark body, ⟨hmark, hbody⟩, .quotedSymbol hblanks, rfl⟩
  · dsimp only at h
    split at h
    · cases h
    · next hempty =>
      obtain ⟨value', harrow, heq⟩ := Option.map_eq_some_iff.mp h
      obtain ⟨rfl, rfl⟩ := Prod.mk.inj heq
      obtain ⟨blanks, value, hrest, hblanks, rfl⟩ := afterArrow?_eq_some_iff.mp harrow
      refine ⟨.symbol (rest.takeWhile isNameChar), isName_takeWhile hempty, ?_, rfl⟩
      have hentry : ':' :: rest =
          (Key.symbol (rest.takeWhile isNameChar)).write ++ (blanks ++ '=' :: '>' :: value) := by
        rw [← hrest, Key.write, List.cons_append, List.takeWhile_append_dropWhile]
      rw [hentry]
      exact .symbol hblanks

theorem exists_keyed_string (hopens : Quote.opensIn entry = true)
    (h : splitEntry entry = some (name, value)) :
    ∃ key : Key, key.Proper ∧ Keyed key entry value ∧ key.name = name := by
  obtain ⟨key, after, hread⟩ : ∃ key after, readString entry = some (key, after) := by
    unfold splitEntry at h
    split at h
    · cases hopens
    · rw [if_pos hopens] at h
      obtain ⟨⟨key, after⟩, hread, -⟩ := Option.bind_eq_some_iff.mp h
      exact ⟨key, after, hread⟩
  obtain ⟨mark, body, rfl, hmark, hbody, -⟩ := (readString_eq_some_iff hopens).mp hread
  obtain ⟨hname, text, rfl, hsign | hsign⟩ := (splitEntry_string_eq_some_iff hmark hbody).mp h
  · obtain ⟨blanks, rfl, hblanks, -⟩ := Text.trimStart_eq_cons_iff.mp hsign
    exact ⟨.string mark body, ⟨hmark, hbody⟩, .arrow hblanks, hname⟩
  · obtain ⟨blanks, rfl, hblanks, -⟩ := Text.trimStart_eq_cons_iff.mp hsign
    exact ⟨.string mark body, ⟨hmark, hbody⟩, .colon hblanks, hname⟩

theorem exists_keyed_bare (hcolon : ∀ rest, entry ≠ ':' :: rest)
    (hplain : Quote.opensIn entry = false) (h : splitEntry entry = some (name, value)) :
    ∃ key : Key, key.Proper ∧ Keyed key entry value ∧ key.name = name := by
  rw [splitEntry, hplain, if_neg Bool.false_ne_true] at h
  · dsimp only at h
    split at h
    · cases h
    · next hempty =>
      split at h
      · cases h
      · next sign text hdouble hrest =>
        obtain ⟨rfl, rfl⟩ : entry.takeWhile isNameChar = name ∧ Text.trim text = value := by
          simpa using h
        have hentry : (Key.bare (entry.takeWhile isNameChar)).write ++ ':' :: text = entry := by
          rw [← hrest, Key.write, List.takeWhile_append_dropWhile]
        have htext : text.head? ≠ some ':' := by
          intro hhead
          obtain ⟨more, rfl⟩ := List.head?_eq_some_iff.mp hhead
          exact hdouble more rfl
        have hkeyed : Keyed (.bare (entry.takeWhile isNameChar)) _ (Text.trim text) := .bare htext
        rw [hentry] at hkeyed
        exact ⟨.bare (entry.takeWhile isNameChar), isName_takeWhile hempty, hkeyed, rfl⟩
      · cases h
  · exact hcolon

/-- An entry is split at the key that it has. -/
theorem splitEntry_eq_some_iff : splitEntry entry = some (name, value) ↔
    ∃ key : Key, key.Proper ∧ Keyed key entry value ∧ key.name = name := by
  constructor
  · intro h
    by_cases hcolon : ∃ rest, entry = ':' :: rest
    · obtain ⟨rest, rfl⟩ := hcolon
      exact exists_keyed_colon h
    · cases hopens : Quote.opensIn entry with
      | true => exact exists_keyed_string hopens h
      | false => exact exists_keyed_bare (not_exists.mp hcolon) hopens h
  · rintro ⟨key, hkey, h, rfl⟩
    exact h.split hkey

/-- An entry with a key and a value, however its key is spelled. -/
def IsKeyed (entry : Text) : Prop := ∃ key value, Key.Proper key ∧ Keyed key entry value

theorem isSome_splitEntry_iff : (splitEntry entry).isSome = true ↔ IsKeyed entry := by
  simp only [Option.isSome_iff_exists, Prod.exists, splitEntry_eq_some_iff, IsKeyed]
  constructor
  · rintro ⟨-, value, key, hkey, h, -⟩
    exact ⟨key, value, hkey, h⟩
  · rintro ⟨key, value, hkey, h⟩
    exact ⟨key.name, value, key, hkey, h, rfl⟩

instance (entry : Text) : Decidable (IsKeyed entry) := decidable_of_iff _ isSome_splitEntry_iff

/-- The pieces of a hash that are not blank, trimmed. -/
def present (pieces : List Text) : List Text := (pieces.map Text.trim).filter (!·.isEmpty)

/-- The entries of a hash with the given inside. -/
def entries (body : Text) : List Text := present (splitCommas 0 .outside body)

/-- The source of a single entry: what its value is read as, under the name of its key. -/
def Reads (line : Nat) (entry : Text) (source : AttributeSource) : Prop :=
  ∃ key value, Key.Proper key ∧ Keyed key entry value ∧
    AttributeSource.ofValue line key.name value = .ok source

section Entries

variable {piece : Text} {pieces : List Text} {source : AttributeSource}
  {sources : List AttributeSource} {result : Option (List AttributeSource)}

theorem Reads.isKeyed (h : Reads line entry source) : IsKeyed entry := by
  obtain ⟨key, value, hkey, hentry, -⟩ := h
  exact ⟨key, value, hkey, hentry⟩

theorem reads_iff (h : splitEntry entry = some (name, value)) :
    Reads line entry source ↔ AttributeSource.ofValue line name value = .ok source := by
  constructor
  · rintro ⟨key, value', hkey, hentry, hvalue⟩
    obtain ⟨rfl, rfl⟩ := Prod.mk.inj (Option.some.inj ((hentry.split hkey).symm.trans h))
    exact hvalue
  · intro hvalue
    obtain ⟨key, hkey, hentry, rfl⟩ := splitEntry_eq_some_iff.mp h
    exact ⟨key, value, hkey, hentry, hvalue⟩

theorem present_blank (h : (Text.trim piece).isEmpty = true) :
    present (piece :: pieces) = present pieces := by
  rw [present, List.map_cons, List.filter_cons_of_neg (by simpa using h), present]

theorem present_cons (h : (Text.trim piece).isEmpty = false) :
    present (piece :: pieces) = Text.trim piece :: present pieces := by
  rw [present, List.map_cons, List.filter_cons_of_pos (by simpa using h), present]

theorem ofEntries_blank (h : (Text.trim piece).isEmpty = true) :
    ofEntries line (piece :: pieces) = ofEntries line pieces := by
  rw [ofEntries, if_pos h]

theorem ofEntries_unkeyed (h : (Text.trim piece).isEmpty = false)
    (hkeyed : ¬IsKeyed (Text.trim piece)) : ofEntries line (piece :: pieces) = .ok none := by
  have hsplit : splitEntry (Text.trim piece) = none := by
    rwa [← isSome_splitEntry_iff, Option.not_isSome_iff_eq_none] at hkeyed
  rw [ofEntries, if_neg (by simp [h]), hsplit]

theorem ofEntries_keyed_iff (h : (Text.trim piece).isEmpty = false)
    (hkeyed : IsKeyed (Text.trim piece)) : ofEntries line (piece :: pieces) = .ok result ↔
      ∃ source more, Reads line (Text.trim piece) source ∧ ofEntries line pieces = .ok more ∧
        more.map (source :: ·) = result := by
  obtain ⟨⟨name, value⟩, hsplit⟩ := Option.isSome_iff_exists.mp (isSome_splitEntry_iff.mpr hkeyed)
  rw [ofEntries, if_neg (by simp [h]), hsplit]
  simp only [reads_iff hsplit]
  constructor
  · intro hbind
    obtain ⟨source, hsource, hbind⟩ := Outcome.exists_of_bind_eq_ok hbind
    obtain ⟨more, hmore, hresult⟩ := Outcome.exists_of_bind_eq_ok hbind
    exact ⟨source, more, hsource, hmore, Except.ok.inj hresult⟩
  · rintro ⟨source, more, hsource, hmore, rfl⟩
    rw [hsource, hmore]
    rfl

theorem ofEntries_eq_some_iff : ofEntries line pieces = .ok (some sources) ↔
    List.Forall₂ (Reads line) (present pieces) sources := by
  induction pieces generalizing sources with
  | nil =>
    rw [ofEntries, present, List.map_nil, List.filter_nil, List.forall₂_nil_left_iff]
    simp [eq_comm]
  | cons piece pieces ih =>
    cases hempty : (Text.trim piece).isEmpty with
    | true => rw [ofEntries_blank hempty, present_blank hempty, ih]
    | false =>
      rw [present_cons hempty, List.forall₂_cons_left_iff]
      by_cases hkeyed : IsKeyed (Text.trim piece)
      · rw [ofEntries_keyed_iff hempty hkeyed]
        constructor
        · rintro ⟨source, more, hsource, hmore, hresult⟩
          obtain ⟨sources, rfl, rfl⟩ := Option.map_eq_some_iff.mp hresult
          exact ⟨source, sources, hsource, ih.mp hmore, rfl⟩
        · rintro ⟨source, more, hsource, hmore, rfl⟩
          exact ⟨source, some more, hsource, ih.mpr hmore, rfl⟩
      · rw [ofEntries_unkeyed hempty hkeyed]
        refine iff_of_false (by simp) ?_
        rintro ⟨source, -, hsource, -⟩
        exact hkeyed hsource.isKeyed

/-- Entries that follow the first one without a key are not read. -/
theorem ofEntries_eq_none_iff : ofEntries line pieces = .ok none ↔
    (∃ entry ∈ present pieces, ¬IsKeyed entry) ∧
      ∀ entry ∈ (present pieces).takeWhile (IsKeyed ·), ∃ source, Reads line entry source := by
  induction pieces with
  | nil => exact iff_of_false nofun (by simp [present])
  | cons piece pieces ih =>
    cases hempty : (Text.trim piece).isEmpty with
    | true => rw [ofEntries_blank hempty, present_blank hempty, ih]
    | false =>
      rw [present_cons hempty]
      by_cases hkeyed : IsKeyed (Text.trim piece)
      · rw [ofEntries_keyed_iff hempty hkeyed, List.takeWhile_cons_of_pos (by simpa using hkeyed),
          List.forall_mem_cons, List.exists_mem_cons_iff, or_iff_right (not_not.mpr hkeyed)]
        constructor
        · rintro ⟨source, more, hsource, hmore, hresult⟩
          obtain rfl : more = none := Option.map_eq_none_iff.mp hresult
          obtain ⟨hentry, hbefore⟩ := ih.mp hmore
          exact ⟨hentry, ⟨source, hsource⟩, hbefore⟩
        · rintro ⟨hentry, ⟨source, hsource⟩, hbefore⟩
          exact ⟨source, none, hsource, ih.mpr ⟨hentry, hbefore⟩, rfl⟩
      · rw [ofEntries_unkeyed hempty hkeyed, List.takeWhile_cons_of_neg (by simpa using hkeyed)]
        exact iff_of_true rfl ⟨⟨_, List.mem_cons_self, hkeyed⟩, nofun⟩

theorem read_eq_ok_iff : read line body = .ok sources ↔
    ofEntries line (splitCommas 0 .outside body) = .ok (some sources) ∨
      ofEntries line (splitCommas 0 .outside body) = .ok none ∧
        sources = [.hash ('{' :: body ++ ['}'])] := by
  rw [read]
  rcases ofEntries line (splitCommas 0 .outside body) with e | - | sources'
  · exact iff_of_false (fun h => by cases h) (by simp)
  · simp [bind, Except.bind, pure, Except.pure, eq_comm]
  · simp [bind, Except.bind, pure, Except.pure]

theorem isKeyed_of_forall₂ (h : List.Forall₂ (Reads line) pieces sources) :
    ∀ e ∈ pieces, IsKeyed e := by
  induction h with
  | nil => nofun
  | cons hsource _ ih => exact List.forall_mem_cons.mpr ⟨hsource.isKeyed, ih⟩

end Entries

/-- A hash with an entry that has no key is read as code, if the entries in front of the first such
entry can be read. All other hashes are read as the sources of their entries. A string is a key
whatever is in it. -/
theorem read_by_keys (line : Nat) (body : Text) :
    ((∃ entry ∈ entries body, ¬IsKeyed entry) → ∀ sources, read line body = .ok sources ↔
      sources = [.hash ('{' :: body ++ ['}'])] ∧
        ∀ entry ∈ (entries body).takeWhile (IsKeyed ·), ∃ source, Reads line entry source) ∧
    ((∀ entry ∈ entries body, IsKeyed entry) → ∀ sources, read line body = .ok sources ↔
      List.Forall₂ (Reads line) (entries body) sources) := by
  constructor
  · rintro ⟨entry, hentry, hkeyed⟩ sources
    have hsome : ¬ofEntries line (splitCommas 0 .outside body) = .ok (some sources) := by
      intro hsources
      exact hkeyed (isKeyed_of_forall₂ (ofEntries_eq_some_iff.mp hsources) entry hentry)
    rw [read_eq_ok_iff, or_iff_right hsome, ofEntries_eq_none_iff, and_comm]
    exact and_congr_right' (and_iff_right ⟨entry, hentry, hkeyed⟩)
  · intro h sources
    have hnone : ¬ofEntries line (splitCommas 0 .outside body) = .ok none := by
      rw [ofEntries_eq_none_iff]
      rintro ⟨⟨entry, hentry, hkeyed⟩, -⟩
      exact hkeyed (h entry hentry)
    rw [read_eq_ok_iff, or_iff_left (fun hcode => hnone hcode.1), ofEntries_eq_some_iff]
    rfl

theorem read_call_behind_key :
    (∃ entry ∈ entries "a: 1, f(b)", ¬IsKeyed entry) ∧
    (entries "a: 1, f(b)").takeWhile (IsKeyed ·) = ["a: 1".toList] ∧
    read 3 "a: 1, f(b)" = .ok [.hash "\x7ba: 1, f(b)\x7d"] ∧
    (∀ entry ∈ entries "a: 1, :b => c", IsKeyed entry) ∧
    read 3 "a: 1, :b => c" = .ok [.fixed "a" (.number "1"), .dynamic "b" "c"] := by
  have hone : splitEntry "a: 1" = some ("a".toList, "1".toList) := by decide
  have htwo : splitEntry ":b => c" = some ("b".toList, "c".toList) := by decide
  have hcall : ∃ entry ∈ entries "a: 1, f(b)", ¬IsKeyed entry :=
    ⟨"f(b)".toList, by decide, by decide⟩
  have hbefore : (entries "a: 1, f(b)").takeWhile (IsKeyed ·) = ["a: 1".toList] := by decide
  have hkeyed : ∀ entry ∈ entries "a: 1, :b => c", IsKeyed entry := by decide
  refine ⟨hcall, hbefore, ((read_by_keys 3 _).1 hcall _).mpr ⟨rfl, ?_⟩, hkeyed,
    ((read_by_keys 3 _).2 hkeyed _).mpr ?_⟩
  · intro entry hentry
    obtain rfl : entry = "a: 1".toList := by rwa [hbefore, List.mem_singleton] at hentry
    exact ⟨_, (reads_iff hone).mpr rfl⟩
  · have hentries : entries "a: 1, :b => c" = ["a: 1".toList, ":b => c".toList] := by decide
    rw [hentries]
    exact .cons ((reads_iff hone).mpr rfl) (.cons ((reads_iff htwo).mpr rfl) .nil)

/-- A key is literal if no code opens in it. -/
def Key.IsLiteral (key : Key) : Prop := ¬['#', '{'] <:+: key.write

theorem Keyed.write_isPrefix {key : Key} (h : Keyed key entry value) : key.write <+: entry := by
  cases h with
  | symbol | quotedSymbol | arrow | colon | bare => exact List.prefix_append _ _

/-- The code in a string that is a key becomes part of a name. -/
theorem read_key_with_code : ¬∀ (line : Nat) (body : Text) (sources : List AttributeSource),
    (∃ entry ∈ entries body,
      ¬∃ key value, Key.Proper key ∧ key.IsLiteral ∧ Keyed key entry value) →
    read line body = .ok sources → sources = [.hash ('{' :: body ++ ['}'])] := by
  intro h
  have hentry : "\"x#\x7by\x7d\" => 1".toList ∈ entries "\"x#\x7by\x7d\" => 1" := by decide
  have hread : read 1 "\"x#\x7by\x7d\" => 1" = .ok [.fixed "x#\x7by\x7d" (.number "1")] := by decide
  have hcode : ¬∃ key value, Key.Proper key ∧ key.IsLiteral ∧
      Keyed key "\"x#\x7by\x7d\" => 1" value := by
    rintro ⟨key, value, hkey, hliteral, hkeyed⟩
    obtain ⟨rest, hrest⟩ := hkeyed.write_isPrefix
    cases key with
    | symbol name => cases hrest
    | quotedSymbol mark body => cases hrest
    | string mark body =>
      have hstring := hkey.2.read (Quote.ne_slash_of_isMark hkey.1) rest
      have hquoted : Quote.read "\"x#\x7by\x7d\" => 1" =
          some ('"', "x#\x7by\x7d".toList, " => 1".toList) := by decide
      rw [show Quote.string mark body ++ rest = _ from hrest, hquoted] at hstring
      obtain ⟨rfl, hbody⟩ := Prod.mk.inj (Option.some.inj hstring)
      obtain ⟨rfl, -⟩ := Prod.mk.inj hbody
      exact hliteral (by decide)
    | bare name =>
      obtain ⟨c, more, rfl⟩ := List.exists_cons_of_ne_nil (IsName.ne_nil hkey)
      obtain rfl : c = '"' := (List.cons.inj hrest).1
      cases IsName.chars hkey
  cases h 1 _ _ ⟨_, hentry, hcode⟩ hread

end Haml.Hash
