import Haml.Proofs.Header.Decoded
import Haml.Proofs.Header.Keyed
import Haml.Proofs.Position.Commas
import Haml.Proofs.Position.Value

/-! Groups under offsets and indices. Keys of hash entries are cut where the first other character
stands, attribute lists are read from index to index, and a reference is cut at its comma. Of the
strings in them only a reference's qualifier is read without a look at its first character. -/

namespace Haml

namespace Hash

variable {line : Nat} {entry : Text}

/-- The key and the value's text of an entry. A bare name is cut at the offset of the first
character that is not of a name; a symbol may also end where the entry does. -/
def splitEntryAt? (entry : Text) : Option (Option (Text × Text)) :=
  match entry with
  | ':' :: rest =>
    if Quote.opensIn rest then
      (readStringAt? rest).map fun read => read.bind fun (key, rest) =>
        (afterArrow? rest).map (key, ·)
    else
      let width := (Text.firstOffset? (!isNameChar ·) rest).getD (Text.bytes rest)
      if width = 0 then some none
      else do
        let key ← Text.takeBytes? width rest
        let rest ← Text.dropBytes? width rest
        return (afterArrow? rest).map (key, ·)
  | _ =>
    if Quote.opensIn entry then
      (readStringAt? entry).map fun read => read.bind fun (key, rest) =>
        match Text.trimStart rest with
        | '=' :: '>' :: value => some (key, Text.trim value)
        | ':' :: value => some (key, Text.trim value)
        | _ => none
    else
      match Text.firstOffset? (!isNameChar ·) entry with
      | none => some none
      | some width => do
        let key ← Text.takeBytes? width entry
        let rest ← Text.dropBytes? width entry
        return if key.isEmpty then none
          else
            match rest with
            | ':' :: ':' :: _ => none
            | ':' :: value => some (key, Text.trim value)
            | _ => none

theorem firstOffset?_name_eq_none (h : entry.dropWhile isNameChar = []) :
    Text.firstOffset? (!isNameChar ·) entry = none :=
  Text.firstOffset?_eq_none (by simpa using h)

theorem firstOffset?_name_eq_some (h : entry.dropWhile isNameChar ≠ []) :
    Text.firstOffset? (!isNameChar ·) entry = some (Text.bytes (entry.takeWhile isNameChar)) := by
  have hfirst := Text.firstOffset?_eq_some (p := (!isNameChar ·)) (t := entry) (by simpa using h)
  simpa using hfirst

/-- A name that nothing follows is as wide as the text. -/
theorem width_name (text : Text) :
    (Text.firstOffset? (!isNameChar ·) text).getD (Text.bytes text) =
      Text.bytes (text.takeWhile isNameChar) := by
  by_cases hrest : text.dropWhile isNameChar = []
  · have hwhole := List.takeWhile_append_dropWhile (p := isNameChar) (l := text)
    rw [hrest, List.append_nil] at hwhole
    rw [firstOffset?_name_eq_none hrest, hwhole]
    rfl
  · rw [firstOffset?_name_eq_some hrest]
    rfl

theorem splitEntryAt?_eq (entry : Text) : splitEntryAt? entry = some (splitEntry entry) := by
  rw [splitEntryAt?.eq_def]
  split
  · next rest =>
    rw [splitEntry]
    split
    · next hopens =>
      rw [readStringAt?_of_opensIn hopens]
      cases readString rest with
      | none => rfl
      | some read =>
        obtain ⟨key, rest⟩ := read
        change some ((afterArrow? rest).map (key, ·)) = some ((afterArrow? rest).bind _)
        cases afterArrow? rest <;> rfl
    · dsimp only
      rw [width_name]
      cases hkey : rest.takeWhile isNameChar with
      | nil => rfl
      | cons c key =>
        have hpos := c.utf8Size_pos
        rw [if_neg (by rw [Text.bytes_cons]; omega), ← hkey, Text.takeBytes?_takeWhile,
          Text.dropBytes?_takeWhile, hkey]
        rfl
  · next hcolon =>
    rw [splitEntry]
    case x_1 => exact hcolon
    split
    · next hopens =>
      rw [readStringAt?_of_opensIn hopens]
      cases readString entry <;> rfl
    · by_cases hrest : entry.dropWhile isNameChar = []
      · rw [firstOffset?_name_eq_none hrest, hrest]
        dsimp only
        split <;> rfl
      · rw [firstOffset?_name_eq_some hrest]
        dsimp only
        rw [Text.takeBytes?_takeWhile, Text.dropBytes?_takeWhile]
        rfl

/-- Values of entries have no white space at their end. -/
theorem trimEnd_of_splitEntry {name value : Text} (h : splitEntry entry = some (name, value)) :
    Text.trimEnd value = value := by
  obtain ⟨key, -, hkeyed, -⟩ := splitEntry_eq_some_iff.mp h
  cases hkeyed with
  | symbol | quotedSymbol | arrow | colon | bare => exact Text.trimEnd_of_trim (Text.trim_trim _)

/-- The sources of entries, or none as soon as an entry has no literal key. -/
def ofEntriesAt? (line : Nat) : List Text → Checked ReadError (Option (List AttributeSource))
  | [] => return some []
  | entry :: rest =>
    let entry := Text.trim entry
    if entry.isEmpty then ofEntriesAt? line rest
    else do
      match ← splitEntryAt? entry with
      | none => return none
      | some (name, value) =>
        let source ← AttributeSource.ofValueAt? line name value
        return (← ofEntriesAt? line rest).map (source :: ·)

/-- The sources of a hash with the given inside. -/
def readAt? (line : Nat) (body : Text) : Checked ReadError (List AttributeSource) := do
  let entries ← cut? body
  match ← ofEntriesAt? line entries with
  | some sources => return sources
  | none => return [.hash ('{' :: body ++ ['}'])]

theorem ofEntriesAt?_eq (line : Nat) (entries : List Text) :
    ofEntriesAt? line entries = Checked.whole (ofEntries line entries) := by
  induction entries with
  | nil => rfl
  | cons entry rest ih =>
    rw [ofEntriesAt?, ofEntries]
    split
    · exact ih
    · rw [splitEntryAt?_eq, Checked.cut_bind]
      cases hsplit : splitEntry (Text.trim entry) with
      | none => rfl
      | some keyed =>
        obtain ⟨name, value⟩ := keyed
        dsimp only
        rw [AttributeSource.ofValueAt?_eq (trimEnd_of_splitEntry hsplit), ih, Checked.whole_bind]
        congr 1
        funext source
        rw [Checked.whole_bind]
        rfl

theorem readAt?_eq (line : Nat) (body : Text) :
    readAt? line body = Checked.whole (read line body) := by
  rw [readAt?, read, cut?_eq, Checked.cut_bind, ofEntriesAt?_eq, Checked.whole_bind]
  congr 1
  funext sources
  cases sources <;> rfl

end Hash

namespace AttributeList

variable {line pos : Nat} {chars name : Text} {mark : Char}

/-- The index of the mark that closes a string, or one beyond the text. A backslash takes the reader
two characters on. -/
def stringEnd (mark : Char) (chars : Text) (pos : Nat) : Nat :=
  if h : pos < chars.length then
    if chars[pos] = mark then pos
    else if chars[pos] = '\\' then stringEnd mark chars (pos + 2)
    else stringEnd mark chars (pos + 1)
  else pos
  termination_by chars.length - pos

/-- The source that a value gives, and the index behind the value. -/
def readValueAt? (line : Nat) (name chars : Text) (pos : Nat) :
    Checked ReadError (AttributeSource × Nat) :=
  match chars[pos]? with
  | none => throw (.invalid (.missingValue name) line)
  | some first =>
    if Quote.isMark first then
      let stop := stringEnd first chars (pos + 1)
      if chars.length ≤ stop then throw (.invalid (.unterminatedValue name) line)
      else do
        let value ← Text.between? pos (stop + 1) chars
        return (← AttributeSource.ofValueAt? line name value, stop + 1)
    else do
      let stop := Text.skip (!Unicode.isBlank ·) chars pos
      let value ← Text.between? pos stop chars
      return (← AttributeSource.ofValueAt? line name value, stop)

/-- The attribute at an index, and the index behind it. -/
def readAttributeAt? (line : Nat) (chars : Text) (start : Nat) :
    Checked ReadError (AttributeSource × Nat) :=
  let stop := Text.skip isListName chars start
  if stop = start then do
    let stray ← (chars[start]? : Option Char)
    throw (.invalid (.strayListCharacter stray) line)
  else do
    let name ← Text.between? start stop chars
    let equals := Text.skip Unicode.isBlank chars stop
    if chars[equals]? = some '=' then
      readValueAt? line name chars (Text.skip Unicode.isBlank chars (equals + 1))
    else return (.fixed name (.bool true), stop)

/-- The reader that keeps an index stops at the mark where the string ends, and beyond the text
where it does not end. -/
theorem stringEnd_eq (hmark : mark ≠ '\\') (chars : Text) (pos : Nat) :
    ((Quote.inside mark).body (chars.drop pos)).map (fun (inner, _) => pos + inner.length) =
      if stringEnd mark chars pos < chars.length then some (stringEnd mark chars pos)
      else none := by
  fun_induction stringEnd mark chars pos with
  | case1 pos h hc =>
    have hnext : (Quote.inside mark).next chars[pos] = .outside := by
      rw [Quote.next, hc, if_neg hmark, if_pos rfl]
    rw [List.drop_eq_getElem_cons h, Quote.body, if_pos hnext, if_pos h]
    rfl
  | case2 pos h hc hslash ih =>
    have hnext : (Quote.inside mark).next '\\' = .escaped mark := rfl
    rw [List.drop_eq_getElem_cons h, hslash, Quote.body, hnext, if_neg (by simp), Option.map_map,
      ← ih]
    by_cases hlast : pos + 1 < chars.length
    · rw [List.drop_eq_getElem_cons hlast, Quote.body, Quote.next, if_neg (by simp),
        Option.map_map]
      congr 1
      funext p
      simp only [Function.comp_apply, List.length_cons]
      omega
    · rw [List.drop_eq_nil_of_le (Nat.not_lt.mp hlast), List.drop_eq_nil_of_le (by omega)]
      rfl
  | case3 pos h hc hslash ih =>
    have hnext : (Quote.inside mark).next chars[pos] = .inside mark := by
      rw [Quote.next, if_neg hslash, if_neg hc]
    rw [List.drop_eq_getElem_cons h, Quote.body, hnext, if_neg (by simp), Option.map_map, ← ih]
    congr 1
    funext p
    simp only [Function.comp_apply, List.length_cons]
    omega
  | case4 pos h =>
    rw [List.drop_eq_nil_of_le (Nat.not_lt.mp h), if_neg h]
    rfl

theorem ofValue_word {word : Text} (hne : word ≠ []) (hopens : Quote.opensIn word = false) :
    AttributeSource.ofValue line name word = .ok (.ofWord name word) := by
  rw [AttributeSource.ofValue, if_neg (by simpa using hne), if_neg (by simp [hopens])]

/-- The run up to the next white space, at a character that opens no string. -/
theorem readValueAt?_word (hpos : pos < chars.length) (hmark : Quote.isMark chars[pos] = false)
    (hblank : Unicode.isBlank chars[pos] = false) :
    Text.resume chars <$> readValueAt? line name chars pos =
      Checked.whole (readValue line name (chars.drop pos)) := by
  have hdrop := List.drop_eq_getElem_cons hpos
  have hopens : Quote.opensIn (chars.drop pos) = false := by rw [hdrop]; exact hmark
  have hword : (chars.drop pos).takeWhile (!Unicode.isBlank ·) =
      chars[pos] :: (chars.drop (pos + 1)).takeWhile (!Unicode.isBlank ·) := by
    rw [hdrop, List.takeWhile_cons_of_pos (by simp [hblank])]
  have htrim : Text.trimEnd ((chars.drop pos).takeWhile (!Unicode.isBlank ·)) =
      (chars.drop pos).takeWhile (!Unicode.isBlank ·) := by
    refine Text.trimEnd_of_trim (Text.trim_eq_self_of_forall fun c hc => ?_)
    simpa using List.mem_takeWhile_imp hc
  rw [readValueAt?, List.getElem?_eq_getElem hpos, readValue,
    if_neg (by rw [hdrop]; exact Bool.false_ne_true), if_neg (by simp [hopens])]
  dsimp only
  rw [if_neg (by simp [hmark]), Text.between?_skip _ (Nat.le_of_lt hpos), Checked.cut_bind,
    AttributeSource.ofValueAt?_eq htrim,
    ofValue_word (hword ▸ List.cons_ne_nil _ _) (by rw [hword]; exact hmark)]
  change some (Except.ok (_, chars.drop (Text.skip _ chars pos))) = _
  rw [Text.drop_skip]
  rfl

theorem length_le_stringEnd (hmark : mark ≠ '\\')
    (h : (Quote.inside mark).body (chars.drop pos) = none) :
    chars.length ≤ stringEnd mark chars pos := by
  have hend := stringEnd_eq hmark chars pos
  rw [h] at hend
  split at hend
  · cases hend
  · next hbeyond => exact Nat.not_lt.mp hbeyond

/-- From its mark up to the index where it ends there stands the string. -/
theorem string_of_stringEnd {body rest : Text} (hpos : pos < chars.length)
    (hmark : chars[pos] ≠ '\\')
    (h : (Quote.inside chars[pos]).body (chars.drop (pos + 1)) = some (body, rest)) :
    stringEnd chars[pos] chars (pos + 1) < chars.length ∧
    Text.between? pos (stringEnd chars[pos] chars (pos + 1) + 1) chars =
      some (Quote.string chars[pos] body) ∧
    chars.drop (stringEnd chars[pos] chars (pos + 1) + 1) = rest := by
  obtain ⟨hsplit, -⟩ := Quote.eq_of_body (.inl rfl) h
  have hend := stringEnd_eq hmark chars (pos + 1)
  rw [h] at hend
  split at hend
  · next hwithin =>
    have hstring : chars.drop pos = Quote.string chars[pos] body ++ rest := by
      rw [List.drop_eq_getElem_cons hpos, hsplit]
      simp [Quote.string]
    have hstop : pos + (Quote.string chars[pos] body).length =
        stringEnd chars[pos] chars (pos + 1) + 1 := by
      rw [← Option.some.inj hend]
      simp [Quote.string]
      omega
    rw [← hstop]
    exact ⟨hwithin, Text.between?_drop hstring (Nat.le_of_lt hpos), Text.drop_add hstring⟩
  · cases hend

/-- A value that opens like a string is a string up to where it ends, or has no end. -/
theorem readValueAt?_mark (hpos : pos < chars.length) (hmark : Quote.isMark chars[pos] = true) :
    Text.resume chars <$> readValueAt? line name chars pos =
      Checked.whole (readValue line name (chars.drop pos)) := by
  have hdrop := List.drop_eq_getElem_cons hpos
  have hopens : Quote.opensIn (chars.drop pos) = true := by rw [hdrop]; exact hmark
  have hslash := Quote.ne_slash_of_isMark hmark
  rw [readValueAt?, List.getElem?_eq_getElem hpos, readValue,
    if_neg (by rw [hdrop]; exact Bool.false_ne_true), if_pos hopens, hdrop, Quote.read]
  dsimp only
  rw [if_pos hmark]
  cases hbody : (Quote.inside chars[pos]).body (chars.drop (pos + 1)) with
  | none =>
    rw [if_pos (length_le_stringEnd hslash hbody)]
    rfl
  | some p =>
    obtain ⟨body, rest⟩ := p
    obtain ⟨hwithin, hvalue, hrest⟩ := string_of_stringEnd hpos hslash hbody
    obtain ⟨-, hclosed⟩ := Quote.eq_of_body (.inl rfl) hbody
    have htrim := Text.trimEnd_of_trim (Quote.isValue_string hmark hclosed).trimmed
    rw [if_neg (Nat.not_le.mpr hwithin), hvalue, Checked.cut_bind,
      AttributeSource.ofValueAt?_eq htrim, AttributeSource.ofValue_string hmark hclosed]
    change _ = Checked.whole (Except.map _ _)
    rw [Checked.whole_map]
    simp only [bind_pure_comp, Functor.map_map, Text.resume, hrest]

theorem readValueAt?_eq (htrim : Text.trimStart (chars.drop pos) = chars.drop pos) :
    Text.resume chars <$> readValueAt? line name chars pos =
      Checked.whole (readValue line name (chars.drop pos)) := by
  by_cases hpos : pos < chars.length
  · by_cases hmark : Quote.isMark chars[pos] = true
    · exact readValueAt?_mark hpos hmark
    · have hblank : Unicode.isBlank chars[pos] = false := by
        refine Text.trimStart_eq_self_iff.mp htrim _ ?_
        rw [List.head?_drop, List.getElem?_eq_getElem hpos, Option.mem_some_iff]
      exact readValueAt?_word hpos (by simpa using hmark) hblank
  · rw [readValueAt?, List.getElem?_eq_none (Nat.not_lt.mp hpos),
      List.drop_eq_nil_of_le (Nat.not_lt.mp hpos)]
    rfl

theorem readAttributeAt?_eq {start : Nat} (hstart : start < chars.length) :
    Text.resume chars <$> readAttributeAt? line chars start =
      Checked.whole (readAttribute line chars[start] (chars.drop (start + 1))) := by
  have hdrop := List.drop_eq_getElem_cons hstart
  rw [readAttributeAt?, readAttribute]
  dsimp only
  by_cases hfirst : isListName chars[start] = true
  · have hname : (chars.drop start).takeWhile isListName =
        chars[start] :: (chars.drop (start + 1)).takeWhile isListName := by
      rw [hdrop, List.takeWhile_cons_of_pos hfirst]
    have hstop : chars.drop (Text.skip isListName chars start) =
        (chars.drop (start + 1)).dropWhile isListName := by
      rw [Text.drop_skip, hdrop, List.dropWhile_cons_of_pos hfirst]
    have hne : Text.skip isListName chars start ≠ start := by
      rw [Text.skip_eq, hname, List.length_cons]
      omega
    have hbehind := Text.drop_skip Unicode.isBlank chars (Text.skip isListName chars start)
    rw [hstop] at hbehind
    rw [if_neg hne, if_pos hfirst, Text.between?_skip _ (Nat.le_of_lt hstart), Checked.cut_bind,
      hname, ← List.head?_drop, hbehind]
    cases htail : Text.trimStart ((chars.drop (start + 1)).dropWhile isListName) with
    | nil =>
      rw [Text.trimStart] at htail
      rw [htail, ← hstop]
      rfl
    | cons c value =>
      rw [Text.trimStart] at htail
      rw [htail] at hbehind ⊢
      by_cases hequals : c = '='
      · subst hequals
        have hvalue := Text.drop_succ hbehind
        have htrim := Text.drop_skip Unicode.isBlank chars
          (Text.skip Unicode.isBlank chars (Text.skip isListName chars start) + 1)
        rw [hvalue] at htrim
        rw [List.head?_cons, if_pos rfl]
        change _ = Checked.whole (readValue line _ (Text.trimStart value))
        rw [Text.trimStart, ← htrim]
        apply readValueAt?_eq
        rw [htrim]
        exact List.dropWhile_idempotent Unicode.isBlank value
      · rw [List.head?_cons, if_neg (by simpa using hequals)]
        split
        · next heq => exact absurd (List.cons.inj heq).1 hequals
        · rw [← hstop]
          rfl
  · have hskip : Text.skip isListName chars start = start := by
      rw [Text.skip, dif_pos hstart, if_neg hfirst]
    rw [if_pos hskip, if_neg hfirst, List.getElem?_eq_getElem hstart]
    rfl

theorem le_stringEnd (mark : Char) (chars : Text) (pos : Nat) : pos ≤ stringEnd mark chars pos := by
  fun_induction stringEnd mark chars pos with
  | case1 pos => exact Nat.le_refl pos
  | case2 pos h hc hslash ih => omega
  | case3 pos h hc hslash ih => omega
  | case4 pos => exact Nat.le_refl pos

theorem le_of_readValueAt? {next : Nat} {source : AttributeSource}
    (h : readValueAt? line name chars pos = some (.ok (source, next))) : pos ≤ next := by
  rw [readValueAt?] at h
  split at h
  · cases h
  next first hfirst =>
  split at h
  · have hstop := le_stringEnd first chars (pos + 1)
    dsimp only at h
    split at h
    · cases h
    · obtain ⟨value, -, h⟩ := Checked.bind_eq_ok h
      obtain ⟨source, -, h⟩ := Checked.bind_eq_ok h
      obtain ⟨-, rfl⟩ := Prod.mk.inj (Except.ok.inj (Option.some.inj h))
      omega
  · obtain ⟨value, -, h⟩ := Checked.bind_eq_ok h
    obtain ⟨source, -, h⟩ := Checked.bind_eq_ok h
    obtain ⟨-, rfl⟩ := Prod.mk.inj (Except.ok.inj (Option.some.inj h))
    exact Text.le_skip _ chars pos

/-- An attribute takes at least one character of its name. -/
theorem lt_of_readAttributeAt? {start next : Nat} {source : AttributeSource}
    (h : readAttributeAt? line chars start = some (.ok (source, next))) : start < next := by
  have hname := Text.le_skip isListName chars start
  rw [readAttributeAt?] at h
  dsimp only at h
  split at h
  · obtain ⟨stray, -, h⟩ := Checked.bind_eq_ok h
    cases h
  next hne =>
  obtain ⟨name, -, h⟩ := Checked.bind_eq_ok h
  split at h
  · have hequals := Text.le_skip Unicode.isBlank chars (Text.skip isListName chars start)
    have hvalue := Text.le_skip Unicode.isBlank chars
      (Text.skip Unicode.isBlank chars (Text.skip isListName chars start) + 1)
    have hnext := le_of_readValueAt? h
    omega
  · obtain ⟨-, rfl⟩ := Prod.mk.inj (Except.ok.inj (Option.some.inj h))
    omega

/-- The sources of a list, from an index on. -/
def readAt? (line : Nat) (chars : Text) (pos : Nat) : Checked ReadError (List AttributeSource) :=
  let start := Text.skip Unicode.isBlank chars pos
  if start < chars.length then
    match hread : readAttributeAt? line chars start with
    | none => none
    | some (.error e) => some (.error e)
    | some (.ok (source, next)) =>
      have := lt_of_readAttributeAt? hread
      have := Text.le_skip Unicode.isBlank chars pos
      (source :: ·) <$> readAt? line chars next
  else pure []
  termination_by chars.length - pos

theorem readAt?_eq (line : Nat) (chars : Text) (pos : Nat) :
    readAt? line chars pos = Checked.whole (read line (chars.drop pos)) := by
  -- In front of an attribute both readers take the same step, whatever it gives.
  have hstep {pos : Nat} (h : Text.skip Unicode.isBlank chars pos < chars.length) :
      Checked.whole (read line (chars.drop pos)) =
        (readAttributeAt? line chars (Text.skip Unicode.isBlank chars pos) >>= fun (source, next) =>
          (source :: ·) <$> Checked.whole (read line (chars.drop next))) := by
    have htrim := Text.drop_skip Unicode.isBlank chars pos
    rw [List.drop_eq_getElem_cons h] at htrim
    rw [read_cons htrim.symm]
    change Checked.whole (_ >>= _) = _
    rw [Checked.whole_bind, ← readAttributeAt?_eq h, bind_map_left]
    congr 1
    funext found
    exact Checked.whole_map _ _
  fun_induction readAt? line chars pos with
  | case1 pos start h hread =>
    rw [hstep h, hread]
    rfl
  | case2 pos start h e hread =>
    rw [hstep h, hread]
    rfl
  | case3 pos start h source next hread hlt hle ih =>
    rw [hstep h, hread, ih]
    rfl
  | case4 pos start h =>
    have htrim : Text.trimStart (chars.drop pos) = [] := by
      rw [Text.trimStart, ← Text.drop_skip]
      exact List.drop_eq_nil_of_le (Nat.not_lt.mp h)
    rw [read_nil htrim]
    rfl

end AttributeList

namespace Reference

variable {line : Nat} {body text : Text}

/-- The second part of a reference. Any character at all may open its string. -/
def readQualifierAt? (text : Text) : Option Qualifier :=
  match text with
  | ':' :: name => if name.all isNameChar then some (.literal name) else ofQuotedAt? text
  | _ => ofQuotedAt? text
where
  ofQuotedAt? (text : Text) : Option Qualifier :=
    (Hash.readStringAt? text).map fun
      | some (body, []) => .literal body
      | _ => .code text

/-- The reference with the given inside, cut at its commas. -/
def readAt? (line : Nat) (body : Text) : Checked ReadError Reference := do
  let pieces ← cut? body
  match pieces.map Text.trim with
  | [[]] => throw (.invalid .malformedReference line)
  | [code] => return ⟨code, none⟩
  | [[], _] => throw (.invalid .malformedReference line)
  | [code, qualifier] => return ⟨code, some (← readQualifierAt? qualifier)⟩
  | _ => throw (.invalid .malformedReference line)

theorem ofQuotedAt?_eq (text : Text) : readQualifierAt?.ofQuotedAt? text =
    if splitsMark text then none else some (readQualifier.ofQuoted text) := by
  rw [readQualifierAt?.ofQuotedAt?, Hash.readStringAt?_eq]
  split <;> rfl

/-- A colon is no wide character, so a symbol is always read. -/
theorem readQualifierAt?_eq (text : Text) : readQualifierAt? text =
    if splitsMark text then none else some (readQualifier text) := by
  by_cases hsymbol : ∃ name, text = ':' :: name
  · obtain ⟨name, rfl⟩ := hsymbol
    have hcolon : ¬splitsMark (':' :: name) = true := by
      rw [splitsMark_cons rfl]
      exact Bool.false_ne_true
    rw [readQualifierAt?, readQualifier, ofQuotedAt?_eq, if_neg hcolon, if_neg hcolon]
    split <;> rfl
  · rw [readQualifierAt?, readQualifier]
    · exact ofQuotedAt?_eq text
    all_goals exact fun name h => hsymbol ⟨name, h⟩

theorem readAt?_eq (line : Nat) (body : Text) :
    readAt? line body = Checked.whole (read line body) := by
  rw [readAt?, read, cut?_eq, Checked.cut_bind]
  generalize (splitCommas 0 .outside body).map Text.trim = pieces
  rcases pieces with _ | ⟨_ | ⟨c, code⟩, _ | ⟨qualifier, _ | ⟨third, more⟩⟩⟩
  case cons.cons.cons.nil =>
    change (liftM (readQualifierAt? qualifier) >>= _) =
      Checked.whole (if splitsMark qualifier then _ else _)
    rw [readQualifierAt?_eq]
    split <;> rfl
  all_goals rfl

/-- Reading a reference breaks off at a second part whose first character is wide and closes it. -/
theorem readAt?_eq_none_iff : readAt? line body = none ↔ ∃ code qualifier,
    (splitCommas 0 .outside body).map Text.trim = [code, qualifier] ∧ code ≠ [] ∧
      splitsMark qualifier = true := by
  rw [readAt?_eq, Checked.whole_eq_none_iff, read]
  constructor
  · rintro ⟨e, he, hbreaks⟩
    split at he
    · cases he
      cases hbreaks
    · cases he
    · cases he
      cases hbreaks
    · next code qualifier hcode hpieces =>
      split at he
      · next hsplit => exact ⟨code, qualifier, hpieces, hcode, hsplit⟩
      · cases he
    · cases he
      cases hbreaks
  · rintro ⟨code, qualifier, hpieces, hcode, hsplit⟩
    obtain ⟨c, code, rfl⟩ := List.exists_cons_of_ne_nil hcode
    rw [hpieces]
    exact ⟨.invalid .splitMark line, if_pos hsplit, rfl⟩

end Reference

end Haml
