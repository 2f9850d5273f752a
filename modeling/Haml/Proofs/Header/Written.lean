import Haml.Header.Read
import Haml.Proofs.Header.Passed
import Haml.Proofs.Segment.RoundTrip

/-! Attributes and object references as they are written in a header. Names and texts stand in single
quotes, entries and the parts of a reference are set apart by commas. What is written is read back,
but for code of a qualifier that begins like a string, whatever character its first one is: between
two equal characters it is taken for a string, and a first character of several bytes is cut. -/

namespace Haml

namespace Quote

def IsString (t : Text) : Prop := opensIn t = true ∧ ∃ mark body, read t = some (mark, body, [])

/-- The text stands between two equal characters, whichever they are. -/
def IsEnclosed (t : Text) : Prop := ∃ mark body, read t = some (mark, body, [])

theorem isEnclosed_iff {t : Text} :
    IsEnclosed t ↔ (read t).any (fun (_, _, rest) => rest.isEmpty) = true := by
  rw [IsEnclosed]
  cases read t with
  | none => simp
  | some p =>
    obtain ⟨mark, body, rest⟩ := p
    simp

instance (t : Text) : Decidable (IsEnclosed t) := decidable_of_iff' _ isEnclosed_iff

instance (t : Text) : Decidable (IsString t) :=
  inferInstanceAs (Decidable (opensIn t = true ∧ IsEnclosed t))

end Quote

namespace Literal

def write : Literal → Text
  | str text => Quote.quoted text
  | number spelling => spelling
  | bool b => Text.ofBool b
  | nil => "nil"

/-- Text that is written must not open code, and numbers must be numbers. -/
def Writable : Literal → Prop
  | str text => ¬['#', '{'] <:+: text
  | number spelling => isNumber spelling = true
  | bool _ => True
  | nil => True

instance (value : Literal) : Decidable value.Writable :=
  match value with
  | str text => decidable_of_iff (¬Segment.opensIn text = true)
      (not_congr Segment.opensIn_iff_infix)
  | number spelling => inferInstanceAs (Decidable (isNumber spelling = true))
  | bool _ => isTrue trivial
  | nil => isTrue trivial

end Literal

namespace AttributeSource

def entry (name value : Text) : Text := Quote.quoted name ++ (' ' :: '=' :: '>' :: ' ' :: value)

/-- A source as an entry of a hash. The other two sources have no such entry. -/
def write : AttributeSource → Text
  | fixed name value => entry name value.write
  | dynamic name code => entry name code
  | interpolated _ _ => []
  | hash _ => []

/-- Literal values, and code that is no literal itself. -/
def Writable : AttributeSource → Prop
  | fixed _ value => value.Writable
  | dynamic _ code => IsCode code ∧ Literal.ofWord? code = none ∧ ¬Quote.IsString code
  | interpolated _ _ => False
  | hash _ => False

instance (source : AttributeSource) : Decidable source.Writable :=
  match source with
  | fixed _ value => inferInstanceAs (Decidable value.Writable)
  | dynamic _ code => inferInstanceAs
      (Decidable (IsCode code ∧ Literal.ofWord? code = none ∧ ¬Quote.IsString code))
  | interpolated _ _ => isFalse id
  | hash _ => isFalse id

end AttributeSource

namespace Qualifier

def write : Qualifier → Text
  | literal text => Quote.quoted text
  | code text => text

/-- A colon and characters of names. -/
def IsSymbol (t : Text) : Prop := ∃ name, t = ':' :: name ∧ name.all isNameChar = true

theorem isSymbol_iff {t : Text} :
    IsSymbol t ↔ t.head? = some ':' ∧ t.tail.all isNameChar = true := by
  rw [IsSymbol]
  cases t with
  | nil => simp
  | cons c t => simp

instance (t : Text) : Decidable (IsSymbol t) := decidable_of_iff' _ isSymbol_iff

/-- Any text, or code that is neither a symbol nor a string. -/
def Writable : Qualifier → Prop
  | literal _ => True
  | code text => IsCode text ∧ ¬IsSymbol text ∧ ¬Quote.IsString text

instance (q : Qualifier) : Decidable q.Writable :=
  match q with
  | literal _ => isTrue trivial
  | code text =>
    inferInstanceAs (Decidable (IsCode text ∧ ¬IsSymbol text ∧ ¬Quote.IsString text))

end Qualifier

def writeGroup (opener closer : Char) (pieces : List Text) : Text :=
  opener :: (Text.join ", " pieces ++ [closer])

namespace Reference

def parts (r : Reference) : List Text := r.code :: (r.qualifier.map Qualifier.write).toList

def write (r : Reference) : Text := writeGroup '[' ']' r.parts

structure Writable (r : Reference) : Prop where
  code : IsCode r.code
  qualifier : ∀ q ∈ r.qualifier, q.Writable

theorem Writable.iff {r : Reference} :
    r.Writable ↔ IsCode r.code ∧ ∀ q ∈ r.qualifier, q.Writable :=
  ⟨fun h => ⟨h.code, h.qualifier⟩, fun h => ⟨h.1, h.2⟩⟩

instance (r : Reference) : Decidable r.Writable := decidable_of_iff' _ Writable.iff

/-- The reference that is read where this one is written. -/
def reread (r : Reference) : Reference :=
  { r with qualifier := r.qualifier.map fun q => readQualifier q.write }

/-- Reading the qualifier cuts its first character. -/
def Splits (r : Reference) : Prop := ∃ q ∈ r.qualifier, splitsMark q.write = true

instance (r : Reference) : Decidable r.Splits :=
  decidable_of_iff' ((r.qualifier.any fun q => splitsMark q.write) = true) <| by
    cases h : r.qualifier <;> simp [Splits, h]

end Reference

section Value

/-- A value's text in a hash. -/
structure IsValue (value : Text) : Prop where
  ne_nil : value ≠ []
  trimmed : Text.trim value = value
  passed : Passed .outside .outside value

variable {line : Nat} {name t : Text}

theorem IsCode.isValue (h : IsCode t) : IsValue t := ⟨h.ne_nil, h.trimmed, h.passed⟩

/-- A value alone is not cut. -/
theorem IsValue.split (h : IsValue t) : splitCommas 0 .outside t = [t] := by
  have hpassed := h.passed.split []
  rw [List.append_nil] at hpassed
  rw [hpassed]
  simp [splitCommas, prepend]

theorem Quote.trimStart_string_append {mark : Char} (hmark : isMark mark = true) (t u : Text) :
    Text.trimStart (string mark t ++ u) = string mark t ++ u := by
  rw [Text.trimStart_eq_self_iff]
  intro c hc
  obtain rfl : mark = c := by simpa [string] using hc
  obtain rfl | rfl := isMark_iff.mp hmark
  all_goals decide

theorem Quote.isValue_string {mark : Char} (hmark : isMark mark = true) (h : IsBody mark t) :
    IsValue (string mark t) where
  ne_nil := List.cons_ne_nil _ _
  trimmed := by
    have happend : string mark t = (mark :: t) ++ [mark] := rfl
    have hstart := trimStart_string_append hmark t []
    rw [List.append_nil, happend] at hstart
    rw [happend]
    refine Text.trim_append hstart (List.cons_ne_nil _ _) ?_
    obtain rfl | rfl := isMark_iff.mp hmark
    all_goals decide
  passed := passed_string hmark h

theorem Quote.isValue_quoted (t : Text) : IsValue (quoted t) :=
  isValue_string (by decide) (isBody_escape t)

/-- Characters of numbers have no meaning of their own in a header. -/
theorem plain_of_numeric {c : Char} (h : c.isDigit = true ∨ c = '.' ∨ c = '_' ∨ c = '-') :
    Unicode.isBlank c = false ∧ Quote.isMark c = false ∧ Passed.isPlain c = true := by
  rcases h with hdigit | rfl | rfl | rfl
  · have hne (d : Char) (hd : d.isDigit = false) : c ≠ d := ne_of_isDigit hdigit hd
    have hblank : Unicode.isBlank c = false := by
      have hbounds : 48 ≤ c.toNat ∧ c.toNat ≤ 57 := by
        simpa [Char.isDigit, UInt32.le_iff_toNat_le] using hdigit
      simp only [Unicode.isBlank, Bool.or_eq_false_iff, Bool.and_eq_false_iff,
        decide_eq_false_iff_not, beq_eq_false_iff_ne]
      omega
    simp [hblank, Passed.isPlain, Quote.isMark, Brackets.all, hne]
  all_goals decide

theorem numeric_of_isNumber (h : isNumber t = true) :
    t ≠ [] ∧ ∀ c ∈ t, c.isDigit = true ∨ c = '.' ∨ c = '_' ∨ c = '-' := by
  obtain ⟨first, rest, hfirst, hrest, ht⟩ := exists_digits_of_isNumber h
  have hchars : ∀ c ∈ first :: rest, c.isDigit = true ∨ c = '.' ∨ c = '_' ∨ c = '-' := by
    refine List.forall_mem_cons.mpr ⟨.inl hfirst, fun c hc => ?_⟩
    rcases hrest c hc with h | h | h <;> simp [h]
  rcases ht with rfl | rfl
  · exact ⟨List.cons_ne_nil _ _, hchars⟩
  · exact ⟨List.cons_ne_nil _ _, List.forall_mem_cons.mpr ⟨by simp, hchars⟩⟩

theorem isValue_of_isNumber (h : isNumber t = true) : IsValue t := by
  obtain ⟨hne, hchars⟩ := numeric_of_isNumber h
  refine ⟨hne, ?_, ?_⟩
  · exact Text.trim_eq_self_of_forall fun c hc => (plain_of_numeric (hchars c hc)).1
  · exact Passed.plain (List.all_eq_true.mpr fun c hc => (plain_of_numeric (hchars c hc)).2.2)

theorem isValue_ofBool (b : Bool) : IsValue (Text.ofBool b) := by
  cases b
  · exact ⟨by decide, by decide, Passed.plain (by decide)⟩
  · exact ⟨by decide, by decide, Passed.plain (by decide)⟩

end Value

theorem Hash.readString_quoted (t rest : Text) :
    readString (Quote.quoted t ++ rest) = some (t, rest) := by
  rw [readString, Quote.read_quoted, Option.map_some]
  simp only [Quote.unescape_escape]

theorem Quote.infix_of_infix_escape {t : Text} (h : ['#', '{'] <:+: escape t) :
    ['#', '{'] <:+: t := by
  induction t with
  | nil => exact h
  | cons c t ih =>
    by_cases hc : c = '\\' ∨ c = '\''
    · have hne : c ≠ '#' := by rcases hc with rfl | rfl <;> decide
      rw [escape_cons_special hc, List.infix_cons_iff, List.infix_cons_iff] at h
      have hrest : ['#', '{'] <:+: escape t := by simpa [hne.symm] using h
      exact List.infix_cons (ih hrest)
    · rw [escape_cons_plain hc, List.infix_cons_iff] at h
      rcases h with ⟨tail, htail⟩ | h
      · obtain ⟨rfl, hescape⟩ : '#' = c ∧ '{' :: tail = escape t := List.cons.inj htail
        cases t with
        | nil => cases hescape
        | cons d t =>
          by_cases hd : d = '\\' ∨ d = '\''
          · rw [escape_cons_special hd] at hescape
            cases hescape
          · rw [escape_cons_plain hd] at hescape
            obtain rfl : '{' = d := (List.cons.inj hescape).1
            exact ⟨[], t, rfl⟩
      · exact List.infix_cons (ih h)

namespace AttributeSource

variable {line : Nat} {name value : Text}

theorem isValue_entry (name : Text) (h : IsValue value) : IsValue (entry name value) where
  ne_nil := List.cons_ne_nil _ _
  trimmed := by
    have happend : entry name value =
        (Quote.quoted name ++ [' ', '=', '>', ' ']) ++ value := by simp [entry]
    have hstart : Text.trimStart (entry name value) = entry name value :=
      Quote.trimStart_string_append (by decide) (Quote.escape name)
        (' ' :: '=' :: '>' :: ' ' :: value)
    rw [happend] at hstart ⊢
    exact Text.trim_append hstart h.ne_nil h.trimmed
  passed := by
    have harrow : Passed .outside .outside [' ', '=', '>', ' '] := Passed.plain (by decide)
    exact (Quote.passed_quoted name).append (harrow.append h.passed)

theorem splitEntry_entry (name : Text) (h : IsValue value) :
    Hash.splitEntry (entry name value) = some (name, value) := by
  have hread : Hash.readString (entry name value) =
      some (name, ' ' :: '=' :: '>' :: ' ' :: value) := Hash.readString_quoted _ _
  have hopens : Quote.opensIn (entry name value) = true := rfl
  have harrow : Text.trimStart (' ' :: '=' :: '>' :: ' ' :: value) =
      '=' :: '>' :: ' ' :: value := by
    rw [Text.trimStart, List.dropWhile_cons_of_pos (by decide),
      List.dropWhile_cons_of_neg (by decide)]
  rw [Hash.splitEntry, if_pos hopens, hread]
  · simp only [bind, Option.bind, harrow]
    rw [Text.trim_blank_cons (by decide), h.trimmed]
  · rintro rest hrest
    cases hrest

theorem ofValue_str {text : Text} (h : ¬['#', '{'] <:+: text) :
    ofValue line name (Quote.quoted text) = .ok (fixed name (.str text)) := by
  have hopens : Segment.opensIn (Quote.escape text) = false := by
    rw [← Bool.not_eq_true, Segment.opensIn_iff_infix]
    exact fun hpair => h (Quote.infix_of_infix_escape hpair)
  have hread := Quote.read_quoted text []
  rw [List.append_nil] at hread
  rw [ofValue, if_neg (by simp [Quote.quoted]), if_pos (by rfl), hread]
  dsimp only
  rw [ofQuoted, if_neg (by simp [hopens]), Quote.unescape_escape]

theorem ofValue_ofWord {word : Text} (hne : word ≠ []) (h : ¬Quote.IsString word) :
    ofValue line name word = .ok (ofWord name word) := by
  have hempty : word.isEmpty = false := by simpa using hne
  rw [ofValue, if_neg (by simp [hempty])]
  split
  · next hopens =>
    split
    · next mark body hread => exact absurd ⟨hopens, mark, body, hread⟩ h
    · rfl
  · rfl

theorem ofValue_number {spelling : Text} (h : isNumber spelling = true) :
    ofValue line name spelling = .ok (fixed name (.number spelling)) := by
  obtain ⟨hne, hchars⟩ := numeric_of_isNumber h
  have hstring : ¬Quote.IsString spelling := by
    rintro ⟨hopens, -⟩
    cases spelling with
    | nil => exact hne rfl
    | cons c rest =>
      have hmark : Quote.isMark c = false := (plain_of_numeric (hchars c List.mem_cons_self)).2.1
      rw [Quote.opensIn, hmark] at hopens
      cases hopens
  have hkeyword {word : Text} (hword : isNumber word = false) : spelling ≠ word := by
    rintro rfl
    rw [h] at hword
    cases hword
  rw [ofValue_ofWord hne hstring, ofWord, Literal.ofWord?, if_neg (hkeyword (by decide)),
    if_neg (hkeyword (by decide)), if_neg (hkeyword (by decide)), if_pos h]

theorem ofValue_bool (b : Bool) :
    ofValue line name (Text.ofBool b) = .ok (fixed name (.bool b)) := by cases b <;> rfl

theorem ofValue_nil : ofValue line name "nil" = .ok (fixed name .nil) := rfl

/-- The entry of a source that can be written, and what its value is read as. -/
theorem exists_entry {source : AttributeSource} (h : source.Writable) :
    ∃ name value, source.write = entry name value ∧ IsValue value ∧
      ∀ line, ofValue line name value = .ok source := by
  cases source with
  | fixed name value =>
    refine ⟨name, value.write, rfl, ?_⟩
    cases value with
    | str text => exact ⟨Quote.isValue_quoted text, fun line => ofValue_str h⟩
    | number spelling => exact ⟨isValue_of_isNumber h, fun line => ofValue_number h⟩
    | bool b => exact ⟨isValue_ofBool b, fun line => ofValue_bool b⟩
    | nil => exact ⟨⟨by decide, by decide, Passed.plain (by decide)⟩, fun line => ofValue_nil⟩
  | dynamic name code =>
    obtain ⟨hcode, hword, hstring⟩ := h
    refine ⟨name, code, rfl, hcode.isValue, fun line => ?_⟩
    rw [ofValue_ofWord hcode.ne_nil hstring, ofWord, hword]
  | interpolated name segments => exact h.elim
  | hash code => exact h.elim

end AttributeSource

section Group

variable {line : Nat} {pieces : List Text}

theorem AttributeSource.isValue_write {source : AttributeSource} (h : source.Writable) :
    IsValue source.write := by
  obtain ⟨name, value, hwrite, hvalue, -⟩ := exists_entry h
  rw [hwrite]
  exact isValue_entry name hvalue

theorem join_cons_cons (first second : Text) (rest : List Text) :
    Text.join ", " (first :: second :: rest) =
      first ++ (',' :: ' ' :: Text.join ", " (second :: rest)) := by
  rw [Text.join, List.intercalate_cons_cons]
  simp [Text.join]

theorem splitCommas_join (hne : pieces ≠ []) (h : ∀ p ∈ pieces, IsValue p) :
    (splitCommas 0 .outside (Text.join ", " pieces)).map Text.trim = pieces := by
  induction pieces with
  | nil => exact absurd rfl hne
  | cons first rest ih =>
    obtain ⟨-, htrim, hpassed⟩ := h first List.mem_cons_self
    cases rest with
    | nil =>
      have hjoin : Text.join ", " [first] = first := by simp [Text.join]
      rw [hjoin, (h first List.mem_cons_self).split, List.map_singleton, htrim]
    | cons second rest =>
      have hrest := ih (List.cons_ne_nil _ _) fun p hp => h p (List.mem_cons_of_mem _ hp)
      have hblank : Passed .outside .outside [' '] := Passed.plain (by decide)
      have hcut : splitCommas 0 .outside (',' :: ' ' :: Text.join ", " (second :: rest)) =
          [] :: prepend [' '] (splitCommas 0 .outside (Text.join ", " (second :: rest))) := by
        rw [splitCommas, if_pos ⟨rfl, rfl, rfl⟩]
        exact congrArg _ (hblank.split _)
      rw [join_cons_cons, hpassed.split, hcut]
      obtain ⟨piece, more, hpieces⟩ := List.exists_cons_of_ne_nil
        (splitCommas_ne_nil 0 .outside (Text.join ", " (second :: rest)))
      rw [hpieces] at hrest ⊢
      rw [← hrest]
      simp [prepend, htrim]
      exact Text.trim_blank_cons (by decide) piece

theorem body_join (h : ∀ p ∈ pieces, IsValue p) {close : Char}
    (hclose : Brackets.all.closes close = true) (rest : Text) :
    Brackets.all.body 0 .outside (Text.join ", " pieces ++ close :: rest) =
      some (Text.join ", " pieces, rest) := by
  induction pieces with
  | nil => exact Brackets.closed_nil.body hclose rest
  | cons first more ih =>
    have hfirst := (h first List.mem_cons_self).passed.body
    have hmore := ih fun p hp => h p (List.mem_cons_of_mem _ hp)
    cases more with
    | nil =>
      have hjoin : Text.join ", " [first] = first := by simp [Text.join]
      have hend : Brackets.all.body 0 .outside (close :: rest) = some ([], rest) :=
        Brackets.closed_nil.body hclose rest
      rw [hjoin, hfirst, hend]
      simp
    | cons second more =>
      have hcomma : Brackets.all.after? 0 .outside [',', ' '] = some (0, .outside) := by decide
      have hsecond := Brackets.body_append hcomma
        (Text.join ", " (second :: more) ++ close :: rest)
      rw [hmore] at hsecond
      rw [join_cons_cons, List.append_assoc, hfirst, List.cons_append, List.cons_append]
      exact congrArg _ hsecond

theorem ofEntries_write {sources : List AttributeSource} (h : ∀ a ∈ sources, a.Writable)
    (hpieces : pieces.map Text.trim = sources.map AttributeSource.write) :
    Hash.ofEntries line pieces = .ok (some sources) := by
  induction sources generalizing pieces with
  | nil =>
    obtain rfl : pieces = [] := List.map_eq_nil_iff.mp hpieces
    rfl
  | cons source sources ih =>
    obtain ⟨piece, more, rfl, hpiece, hmore⟩ := List.map_eq_cons_iff.mp hpieces
    obtain ⟨name, value, hwrite, hvalue, hread⟩ :=
      AttributeSource.exists_entry (h source List.mem_cons_self)
    have hentry := AttributeSource.isValue_entry name hvalue
    have hempty : (AttributeSource.entry name value).isEmpty = false := by
      simpa using hentry.ne_nil
    have hrest := ih (fun a ha => h a (List.mem_cons_of_mem _ ha)) hmore
    rw [Hash.ofEntries, hpiece, hwrite, if_neg (by simp [hempty]),
      AttributeSource.splitEntry_entry name hvalue]
    simp only [hread, hrest]
    rfl

/-- Attributes that can be written are read back from the inside of their group. -/
theorem Hash.read_write {sources : List AttributeSource} (hne : sources ≠ [])
    (h : ∀ a ∈ sources, a.Writable) :
    Hash.read line (Text.join ", " (sources.map AttributeSource.write)) = .ok sources := by
  have hvalues : ∀ p ∈ sources.map AttributeSource.write, IsValue p := by
    intro p hp
    obtain ⟨a, ha, rfl⟩ := List.mem_map.mp hp
    exact AttributeSource.isValue_write (h a ha)
  have hsplit := splitCommas_join (by simpa using hne) hvalues
  rw [Hash.read, ofEntries_write h hsplit]
  rfl

namespace Reference

variable {r : Reference}

theorem isValue_parts (h : r.Writable) : ∀ p ∈ r.parts, IsValue p := by
  intro p hp
  rcases List.mem_cons.mp hp with rfl | hp
  · exact h.code.isValue
  · obtain ⟨q, hq, rfl⟩ : ∃ q, r.qualifier = some q ∧ q.write = p := by simpa using hp
    have hwritable := h.qualifier q hq
    cases q with
    | literal text => exact Quote.isValue_quoted text
    | code text => exact hwritable.1.isValue

theorem read_write (h : r.Writable) : Reference.read line (Text.join ", " r.parts) =
    if r.Splits then .error (.invalid .splitMark line) else .ok r.reread := by
  have hne : r.parts ≠ [] := List.cons_ne_nil _ _
  have hsplit := splitCommas_join hne (isValue_parts h)
  rw [Reference.read, hsplit, parts, reread]
  obtain ⟨c, rest, hcode⟩ := List.exists_cons_of_ne_nil h.code.ne_nil
  cases hq : r.qualifier with
  | none => simp [hcode, Splits, hq]
  | some q => simp [hcode, Splits, hq]

theorem splits_iff :
    r.Splits ↔ ∃ code, r.qualifier = some (.code code) ∧ splitsMark code = true := by
  have hquoted (text : Text) : splitsMark (Quote.quoted text) = false := by
    have hread := Quote.read_quoted text []
    rw [List.append_nil] at hread
    rw [splitsMark, hread]
    rfl
  constructor
  · rintro ⟨text | code, hq, hsplits⟩
    · rw [Qualifier.write, hquoted] at hsplits
      cases hsplits
    · exact ⟨code, hq, hsplits⟩
  · rintro ⟨code, hq, hsplits⟩
    exact ⟨.code code, hq, hsplits⟩

theorem readQualifier_quoted (text : Text) :
    readQualifier (Quote.quoted text) = .literal text := by
  have hread := Hash.readString_quoted text []
  rw [List.append_nil] at hread
  rw [readQualifier, readQualifier.ofQuoted, hread]
  rintro name hname
  cases hname

/-- Code of a qualifier is taken for a string exactly if it stands between two equal characters. -/
theorem readQualifier_code {text : Text} (h : ¬Qualifier.IsSymbol text) :
    readQualifier text = .code text ↔ ¬Quote.IsEnclosed text := by
  have hquoted : readQualifier text = readQualifier.ofQuoted text := by
    rw [readQualifier.eq_def]
    split
    · next name =>
      split
      · next hname => exact absurd ⟨name, rfl, hname⟩ h
      · rfl
    · rfl
  rw [hquoted, readQualifier.ofQuoted, Hash.readString, Quote.IsEnclosed]
  rcases Quote.read text with - | ⟨mark, body, - | ⟨c, rest⟩⟩
  · simp
  · simp
  · simp

end Reference

end Group

end Haml
