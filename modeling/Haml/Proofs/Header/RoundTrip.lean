import Haml.Proofs.Header.Written

/-! Headers that are written are read back. Each part of a header is read up to the first character
that cannot belong to it, so what matters of the parts behind is what they can start with. -/

namespace Haml

def Starts (allowed : List Char) (t : Text) : Prop := ∀ c ∈ t.head?, c ∈ allowed

namespace Starts

variable {allowed more : List Char} {t u : Text} {c : Char} {p : Char → Bool}

theorem nil : Starts allowed [] := nofun

theorem cons (h : c ∈ allowed) : Starts allowed (c :: t) := by
  intro d hd
  obtain rfl : c = d := by simpa using hd
  exact h

theorem append (ht : Starts allowed t) (hu : Starts allowed u) : Starts allowed (t ++ u) := by
  cases t with
  | nil => exact hu
  | cons c t => exact cons (ht c rfl)

theorem mono (h : Starts allowed t) (hsub : allowed ⊆ more) : Starts more t :=
  fun c hc => hsub (h c hc)

theorem not_of_any (h : Starts allowed (c :: t)) (hp : allowed.any p = false) : ¬p c = true :=
  List.any_eq_false.mp hp c (h c rfl)

theorem eq_false (h : Starts allowed t) (hp : allowed.any p = false) (hc : c ∈ t.head?) :
    p c = false := by
  simpa using List.any_eq_false.mp hp c (h c hc)

theorem takeWhile_append (ht : t.all p = true) (hu : Starts allowed u)
    (hp : allowed.any p = false) : (t ++ u).takeWhile p = t := by
  rw [List.takeWhile_append_of_pos (List.all_eq_true.mp ht)]
  cases u with
  | nil => simp
  | cons c u => rw [List.takeWhile_cons_of_neg (hu.not_of_any hp), List.append_nil]

theorem dropWhile_append (ht : t.all p = true) (hu : Starts allowed u)
    (hp : allowed.any p = false) : (t ++ u).dropWhile p = u := by
  rw [List.dropWhile_append_of_pos (List.all_eq_true.mp ht)]
  cases u with
  | nil => rfl
  | cons c u => rw [List.dropWhile_cons_of_neg (hu.not_of_any hp)]

end Starts

/-- A class or an id: characters of names, at least one. -/
structure IsName (name : Text) : Prop where
  ne_nil : name ≠ []
  chars : name.all isNameChar = true

instance (name : Text) : Decidable (IsName name) :=
  decidable_of_iff (name ≠ [] ∧ name.all isNameChar = true)
    ⟨fun h => ⟨h.1, h.2⟩, fun h => ⟨h.ne_nil, h.chars⟩⟩

namespace Tail

/-- A tail as it is written. A script's escape and preservation choose the mark in front. -/
def write : Tail → Text
  | none => []
  | text content => ' ' :: content
  | script ⟨code, .force, _⟩ => '&' :: '=' :: ' ' :: code
  | script ⟨code, .raw, _⟩ => '!' :: '=' :: ' ' :: code
  | script ⟨code, .configured, false⟩ => '=' :: ' ' :: code
  | script ⟨code, .configured, true⟩ => '~' :: ' ' :: code

/-- Text and code are trimmed and not empty; only a script with the configured escape preserves. -/
def Writable : Tail → Prop
  | none => True
  | text content => content ≠ [] ∧ Text.trim content = content
  | script s => s.code ≠ [] ∧ Text.trim s.code = s.code ∧
    (s.preserve = true → s.escape = .configured)

instance (tail : Tail) : Decidable tail.Writable :=
  match tail with
  | none => isTrue trivial
  | text content => inferInstanceAs (Decidable (content ≠ [] ∧ Text.trim content = content))
  | script s => inferInstanceAs (Decidable (s.code ≠ [] ∧ Text.trim s.code = s.code ∧
      (s.preserve = true → s.escape = .configured)))

theorem starts_write (tail : Tail) : Starts [' ', '&', '!', '=', '~'] tail.write := by
  cases tail with
  | none => exact Starts.nil
  | text content => exact Starts.cons (by decide)
  | script s =>
    obtain ⟨code, escape, preserve⟩ := s
    cases escape with
    | configured => cases preserve <;> exact Starts.cons (by decide)
    | force => exact Starts.cons (by decide)
    | raw => exact Starts.cons (by decide)

theorem ofCode_blank_cons {code : Text} (hne : code ≠ []) (htrim : Text.trim code = code)
    (escape : Escape) (preserve : Bool) :
    ofCode (' ' :: code) escape preserve = .ok (script ⟨code, escape, preserve⟩) := by
  rw [ofCode, Text.trim_blank_cons (by decide), htrim, if_neg (by simpa using hne)]

theorem read_write {tail : Tail} (h : tail.Writable) : read tail.write = .ok tail := by
  cases tail with
  | none => rfl
  | text content =>
    obtain ⟨hne, htrim⟩ := h
    simp [write, read, htrim, hne]
  | script s =>
    obtain ⟨code, escape, preserve⟩ := s
    obtain ⟨hne, htrim, hpreserve⟩ := h
    cases escape with
    | configured => cases preserve <;> exact ofCode_blank_cons hne htrim _ _
    | force =>
      obtain rfl : preserve = false := by
        by_contra hp
        cases hpreserve (by simpa using hp)
      exact ofCode_blank_cons hne htrim _ _
    | raw =>
      obtain rfl : preserve = false := by
        by_contra hp
        cases hpreserve (by simpa using hp)
      exact ofCode_blank_cons hne htrim _ _

end Tail

namespace Shorthand

def write : Shorthand → Text
  | className name => '.' :: name
  | id name => '#' :: name

def name : Shorthand → Text
  | className name => name
  | id name => name

theorem exists_write_eq (s : Shorthand) :
    ∃ mark, (mark = '.' ∨ mark = '#') ∧ s.write = mark :: s.name := by
  cases s with
  | className name => exact ⟨'.', .inl rfl, rfl⟩
  | id name => exact ⟨'#', .inr rfl, rfl⟩

theorem starts_writeAll (shorthands : List Shorthand) :
    Starts ['.', '#'] (shorthands.flatMap write) := by
  cases shorthands with
  | nil => exact Starts.nil
  | cons s more => cases s <;> exact Starts.cons (by decide)

variable {allowed : List Char} {opener : Char} {name rest left : Text} {more : List Shorthand}

theorem readAll_cons (hopener : opener = '.' ∨ opener = '#') (hname : IsName name)
    (hrest : Starts allowed rest) (hallowed : allowed.any isNameChar = false)
    (h : readAll rest = .ok (more, left)) : readAll (opener :: (name ++ rest)) =
      .ok ((if opener = '.' then className name else id name) :: more, left) := by
  rw [readAll, if_pos hopener]
  simp only [Starts.takeWhile_append hname.chars hrest hallowed,
    Starts.dropWhile_append hname.chars hrest hallowed, h]
  rw [if_neg (by simpa using hname.ne_nil)]
  rfl

theorem readAll_write {shorthands : List Shorthand} (h : ∀ s ∈ shorthands, IsName s.name)
    (hrest : Starts allowed rest)
    (hallowed : ('.' :: '#' :: allowed).any isNameChar = false)
    (hstop : '.' ∉ allowed ∧ '#' ∉ allowed) :
    readAll (shorthands.flatMap write ++ rest) = .ok (shorthands, rest) := by
  induction shorthands with
  | nil =>
    cases rest with
    | nil => rw [List.flatMap_nil, List.nil_append, readAll]
    | cons c rest =>
      have hc : ¬(c = '.' ∨ c = '#') := by
        rintro (rfl | rfl)
        · exact hstop.1 (hrest _ rfl)
        · exact hstop.2 (hrest _ rfl)
      rw [List.flatMap_nil, List.nil_append, readAll, if_neg hc]
  | cons s more ih =>
    have hname := h s List.mem_cons_self
    have hmore : Starts ('.' :: '#' :: allowed) (more.flatMap write ++ rest) :=
      ((starts_writeAll more).mono (by simp)).append (hrest.mono (by simp))
    have hread := ih fun s hs => h s (List.mem_cons_of_mem _ hs)
    rw [List.flatMap_cons, List.append_assoc]
    cases s with
    | className name => exact readAll_cons (.inl rfl) hname hmore hallowed hread
    | id name => exact readAll_cons (.inr rfl) hname hmore hallowed hread

end Shorthand

namespace Groups

variable {line : Nat} {groups after : Groups} {opener closer : Char} {pieces : List Text}
  {rest : Text}

theorem readAll_group (hopener : Brackets.all.opens opener = true)
    (hcloser : Brackets.all.closes closer = true) (hpieces : ∀ p ∈ pieces, IsValue p)
    (hadd : groups.add line opener (Text.join ", " pieces) = .ok after) :
    readAll line groups (writeGroup opener closer pieces ++ rest) = readAll line after rest := by
  have hbody := body_join hpieces hcloser rest
  rw [writeGroup, List.cons_append, List.append_assoc, List.singleton_append,
    readAll_cons hopener hbody, hadd]
  rfl

theorem readAll_done {allowed : List Char} (hrest : Starts allowed rest)
    (hallowed : allowed.any Brackets.all.opens = false) :
    readAll line groups rest = .ok (groups, rest) := by
  cases rest with
  | nil => rw [readAll]
  | cons c rest => rw [readAll, if_neg (hrest.not_of_any hallowed)]

end Groups

namespace Header

variable {h : Header}

def shorthands (h : Header) : List Shorthand :=
  h.classes.map .className ++ (h.id.map Shorthand.id).toList

def writeHash (h : Header) : Text :=
  if h.attributes.isEmpty then [] else writeGroup '{' '}' (h.attributes.map AttributeSource.write)

def writeReference (h : Header) : Text := (h.reference.map Reference.write).getD []

def writeFlags (h : Header) : Text :=
  (if h.nukeOuter then ['>'] else []) ++ if h.nukeInner then ['<'] else []

def writeSlash (h : Header) : Text := if h.selfClosing then ['/'] else []

/-- A header as it is written behind the percent sign. -/
def write (h : Header) : Text :=
  h.tag ++ (h.shorthands.flatMap Shorthand.write ++ (h.writeHash ++ (h.writeReference ++
    (h.writeFlags ++ (h.writeSlash ++ h.tail.write)))))

/-- Headers that can be written. -/
structure Writable (h : Header) : Prop where
  tag_ne_nil : h.tag ≠ []
  tag_chars : h.tag.all isTagChar = true
  classes : ∀ name ∈ h.classes, IsName name
  id : ∀ name ∈ h.id, IsName name
  attributes : ∀ a ∈ h.attributes, a.Writable
  reference : ∀ r ∈ h.reference, r.Writable
  tail : h.tail.Writable
  closed : h.selfClosing = true → h.tail = .none

theorem Writable.iff : h.Writable ↔ h.tag ≠ [] ∧ h.tag.all isTagChar = true ∧
    (∀ name ∈ h.classes, IsName name) ∧ (∀ name ∈ h.id, IsName name) ∧
    (∀ a ∈ h.attributes, a.Writable) ∧ (∀ r ∈ h.reference, r.Writable) ∧ h.tail.Writable ∧
    (h.selfClosing = true → h.tail = .none) :=
  ⟨fun ⟨hne, htag, hclasses, hid, hattributes, hreference, htail, hclosed⟩ =>
      ⟨hne, htag, hclasses, hid, hattributes, hreference, htail, hclosed⟩,
    fun ⟨hne, htag, hclasses, hid, hattributes, hreference, htail, hclosed⟩ =>
      ⟨hne, htag, hclasses, hid, hattributes, hreference, htail, hclosed⟩⟩

instance (h : Header) : Decidable h.Writable := decidable_of_iff' _ Writable.iff

/-- The header that is read where this one is written. -/
def reread (h : Header) : Header := { h with reference := h.reference.map Reference.reread }

section Starts

/-- What the part of a header behind its flags starts with, and the parts before it. -/
def tailStarts : List Char := ['/', ' ', '&', '!', '=', '~']

def flagStarts : List Char := '>' :: '<' :: tailStarts

def groupStarts : List Char := '{' :: '[' :: flagStarts

def shorthandStarts : List Char := '.' :: '#' :: groupStarts

theorem starts_tail (h : Header) : Starts tailStarts (h.writeSlash ++ h.tail.write) := by
  apply Starts.append
  · rw [writeSlash]
    split
    · exact Starts.cons (by decide)
    · exact Starts.nil
  · exact h.tail.starts_write.mono (by decide)

theorem starts_flags (h : Header) :
    Starts flagStarts (h.writeFlags ++ (h.writeSlash ++ h.tail.write)) := by
  apply Starts.append
  · rw [writeFlags]
    apply Starts.append
    · split
      · exact Starts.cons (by decide)
      · exact Starts.nil
    · split
      · exact Starts.cons (by decide)
      · exact Starts.nil
  · exact h.starts_tail.mono (by decide)

theorem starts_groups (h : Header) : Starts groupStarts
    (h.writeHash ++ (h.writeReference ++ (h.writeFlags ++ (h.writeSlash ++ h.tail.write)))) := by
  apply Starts.append
  · rw [writeHash]
    split
    · exact Starts.nil
    · exact Starts.cons (by decide)
  · apply Starts.append
    · rw [writeReference]
      cases h.reference with
      | none => exact Starts.nil
      | some r => exact Starts.cons (by decide)
    · exact h.starts_flags.mono (by decide)

theorem starts_shorthands (h : Header) : Starts shorthandStarts
    (h.shorthands.flatMap Shorthand.write ++ (h.writeHash ++ (h.writeReference ++
      (h.writeFlags ++ (h.writeSlash ++ h.tail.write))))) := by
  apply Starts.append
  · exact (Shorthand.starts_writeAll _).mono (by decide)
  · exact h.starts_groups.mono (by decide)

end Starts

theorem readSlash_write (hclosed : h.selfClosing = true → h.tail = .none) :
    readSlash (h.writeSlash ++ h.tail.write) = (h.selfClosing, h.tail.write) := by
  cases hself : h.selfClosing with
  | true =>
    rw [writeSlash, hself, hclosed hself]
    rfl
  | false =>
    rw [writeSlash, hself]
    have hslash : ∀ rest, h.tail.write ≠ '/' :: rest := by
      intro rest heq
      have hstart := h.tail.starts_write '/' (by rw [heq]; rfl)
      revert hstart
      decide
    change readSlash h.tail.write = _
    rw [readSlash]
    exact hslash

theorem readTail_write (hw : h.tail.Writable) (hclosed : h.selfClosing = true → h.tail = .none)
    (flagged : Bool) : readTail flagged h.selfClosing h.tail.write = .ok h.tail := by
  have hstart : (h.tail.write.head?.any fun c =>
      c == '.' || c == '#' || Brackets.all.opens c) = false := by
    cases hhead : h.tail.write.head? with
    | none => rfl
    | some c =>
      have hnone : [' ', '&', '!', '=', '~'].any (fun c =>
          c == '.' || c == '#' || Brackets.all.opens c) = false := by decide
      exact h.tail.starts_write.eq_false hnone hhead
  have hcontent : ¬((h.selfClosing && decide (h.tail ≠ .none)) = true) := by
    simpa using hclosed
  rw [readTail, if_neg (by simp [hstart]), Tail.read_write hw]
  exact if_neg hcontent

theorem add_hash (hne : h.attributes ≠ []) (hw : h.Writable) (line : Nat) :
    Groups.add line {} '{' (Text.join ", " (h.attributes.map AttributeSource.write)) =
      .ok { attributes := h.attributes, hash := true } := by
  rw [Groups.add, if_neg (by decide), if_neg (by simp), if_pos rfl, if_neg (by simp),
    Hash.read_write hne hw.attributes]
  rfl

theorem add_reference {groups : Groups} (hnone : groups.reference = none) {r : Reference}
    (hr : r.Writable) (line : Nat) : groups.add line '[' (Text.join ", " r.parts) =
      if r.Splits then .error (.invalid .splitMark line)
      else .ok { groups with reference := some r.reread } := by
  rw [Groups.add, if_pos rfl, if_neg (by simp [hnone]), Reference.read_write hr]
  split <;> rfl

theorem readAll_writeHash (hw : h.Writable) (line : Nat) (rest : Text) :
    Groups.readAll line {} (h.writeHash ++ rest) =
      Groups.readAll line { attributes := h.attributes, hash := !h.attributes.isEmpty } rest := by
  rw [writeHash]
  by_cases hne : h.attributes = []
  · rw [hne]
    rfl
  · have hempty : h.attributes.isEmpty = false := by simpa using hne
    rw [hempty, if_neg (by decide)]
    refine Groups.readAll_group (by decide) (by decide) ?_ (add_hash hne hw line)
    intro p hp
    obtain ⟨a, ha, rfl⟩ := List.mem_map.mp hp
    exact AttributeSource.isValue_write (hw.attributes a ha)

theorem readAll_writeReference {groups : Groups} (hnone : groups.reference = none)
    (hw : h.Writable) (hwhole : ∀ r ∈ h.reference, ¬r.Splits) (line : Nat) (rest : Text) :
    Groups.readAll line groups (h.writeReference ++ rest) =
      Groups.readAll line { groups with reference := h.reference.map Reference.reread } rest := by
  rw [writeReference]
  cases hr : h.reference with
  | none =>
    obtain ⟨attributes, reference, hash, list⟩ := groups
    obtain rfl : reference = none := hnone
    rfl
  | some r =>
    have hwritable := hw.reference r hr
    have hadd := add_reference hnone hwritable line
    rw [if_neg (hwhole r hr)] at hadd
    exact Groups.readAll_group (by decide) (by decide) (Reference.isValue_parts hwritable) hadd

theorem readAll_splits {groups : Groups} (hnone : groups.reference = none) (hw : h.Writable)
    {r : Reference} (hr : h.reference = some r) (hsplits : r.Splits) (line : Nat) (rest : Text) :
    Groups.readAll line groups (h.writeReference ++ rest) =
      .error (.invalid (.invalid .splitMark line)) := by
  have hwritable := hw.reference r hr
  have hcloses : Brackets.all.closes ']' = true := by decide
  have hbody := body_join (Reference.isValue_parts hwritable) hcloses rest
  rw [writeReference, hr]
  change Groups.readAll line groups (writeGroup '[' ']' r.parts ++ rest) = _
  rw [writeGroup, List.cons_append, List.append_assoc, List.singleton_append,
    Groups.readAll_cons (by decide) hbody, add_reference hnone hwritable, if_pos hsplits]
  rfl

theorem readAll_writeGroups (hw : h.Writable) (hwhole : ∀ r ∈ h.reference, ¬r.Splits)
    (line : Nat) :
    Groups.readAll line {} (h.writeHash ++ (h.writeReference ++
      (h.writeFlags ++ (h.writeSlash ++ h.tail.write)))) =
    .ok ({ attributes := h.attributes, reference := h.reference.map Reference.reread,
           hash := !h.attributes.isEmpty },
      h.writeFlags ++ (h.writeSlash ++ h.tail.write)) := by
  rw [readAll_writeHash hw, readAll_writeReference rfl hw hwhole]
  exact Groups.readAll_done h.starts_flags (by decide)

theorem writeFlags_chars (h : Header) : h.writeFlags.all isFlag = true := by
  rw [writeFlags]
  cases h.nukeOuter <;> cases h.nukeInner <;> decide

theorem contains_writeFlags (h : Header) :
    h.writeFlags.contains '>' = h.nukeOuter ∧ h.writeFlags.contains '<' = h.nukeInner := by
  rw [writeFlags]
  cases h.nukeOuter <;> cases h.nukeInner <;> decide

theorem names_shorthands (hw : h.Writable) : ∀ s ∈ h.shorthands, IsName s.name := by
  intro s hs
  rcases List.mem_append.mp hs with hs | hs
  · obtain ⟨name, hname, rfl⟩ := List.mem_map.mp hs
    exact hw.classes name hname
  · obtain ⟨name, hname, rfl⟩ : ∃ name, h.id = some name ∧ Shorthand.id name = s := by
      simpa using hs
    exact hw.id name hname

theorem classes_shorthands (h : Header) :
    h.shorthands.filterMap Shorthand.className? = h.classes := by
  have hclasses : (h.classes.map Shorthand.className).filterMap Shorthand.className? =
      h.classes := by
    rw [List.filterMap_map]
    exact List.filterMap_some
  rw [shorthands, List.filterMap_append, hclasses]
  cases h.id <;> simp [Shorthand.className?]

theorem id_shorthands (h : Header) :
    (h.shorthands.filterMap Shorthand.id?).getLast? = h.id := by
  have hclasses : (h.classes.map Shorthand.className).filterMap Shorthand.id? = [] := by
    simp [Shorthand.id?]
  rw [shorthands, List.filterMap_append, hclasses]
  cases h.id <;> simp [Shorthand.id?]

theorem readTag_write (hw : h.Writable) {rest : Text} (hrest : Starts shorthandStarts rest) :
    readTag false (h.tag ++ rest) = .ok (h.tag, rest) := by
  have htake := Starts.takeWhile_append hw.tag_chars hrest (by decide)
  have hdrop := Starts.dropWhile_append hw.tag_chars hrest (by decide)
  rw [readTag, if_neg (by decide), htake, hdrop, if_neg (by simpa using hw.tag_ne_nil)]

/-- What is written is read back, but for code of a qualifier that reads as a string. -/
theorem read_write (hw : h.Writable) (hwhole : ∀ r ∈ h.reference, ¬r.Splits) (line : Nat) :
    Header.read false line h.write = .ok h.reread := by
  have hshorthands := Shorthand.readAll_write (names_shorthands hw) h.starts_groups
    (by decide) (by decide)
  have hflags := Starts.takeWhile_append h.writeFlags_chars h.starts_tail (by decide)
  have hslash := Starts.dropWhile_append h.writeFlags_chars h.starts_tail (by decide)
  obtain ⟨houter, hinner⟩ := h.contains_writeFlags
  rw [Header.read, write, readTag_write hw h.starts_shorthands]
  simp only [atLine, bind, Except.bind, hshorthands, readAll_writeGroups hw hwhole line, hflags, hslash,
    readSlash_write hw.closed, readTail_write hw.tail hw.closed, houter, hinner,
    h.classes_shorthands, h.id_shorthands, pure, Except.pure]
  rfl

theorem read_splits (hw : h.Writable) {r : Reference} (hr : h.reference = some r)
    (hsplits : r.Splits) (line : Nat) :
    Header.read false line h.write = .error (.invalid (.invalid .splitMark line)) := by
  have hshorthands := Shorthand.readAll_write (names_shorthands hw) h.starts_groups
    (by decide) (by decide)
  have hgroups (rest : Text) : Groups.readAll line {} (h.writeHash ++ (h.writeReference ++ rest)) =
      .error (.invalid (.invalid .splitMark line)) := by
    rw [readAll_writeHash hw]
    exact readAll_splits rfl hw hr hsplits line rest
  rw [Header.read, write, readTag_write hw h.starts_shorthands]
  simp only [atLine, bind, Except.bind, hshorthands, hgroups]

theorem reread_eq_self_iff (hw : h.Writable) : h.reread = h ↔
    ∀ r ∈ h.reference, ∀ code, r.qualifier = some (.code code) → ¬Quote.IsEnclosed code := by
  obtain ⟨tag, classes, id, attributes, reference, nukeOuter, nukeInner, selfClosing, tail⟩ := h
  rcases reference with - | ⟨object, - | ⟨text | code⟩⟩
  · simp [reread]
  · simp [reread, Reference.reread]
  · simp [reread, Reference.reread, Qualifier.write, Reference.readQualifier_quoted]
  · have hqualifier : ¬Qualifier.IsSymbol code :=
      ((hw.reference _ rfl).qualifier _ rfl).2.1
    simp [reread, Reference.reread, Qualifier.write, Reference.readQualifier_code hqualifier]

/-- A header is read back where it is written, unless its reference has a qualifier of code that
stands between two equal characters, or begins with one of several bytes that stands in it again. -/
theorem read_write_iff (hw : h.Writable) (line : Nat) :
    Header.read false line h.write = .ok h ↔
      ∀ r ∈ h.reference, ∀ code, r.qualifier = some (.code code) →
        ¬Quote.IsEnclosed code ∧ ¬Reference.splitsMark code = true := by
  by_cases hwhole : ∀ r ∈ h.reference, ¬r.Splits
  · rw [read_write hw hwhole line, Except.ok.injEq, reread_eq_self_iff hw]
    refine ⟨fun hread r hr code hcode => ⟨hread r hr code hcode, fun hsplits => ?_⟩,
      fun hread r hr code hcode => (hread r hr code hcode).1⟩
    exact hwhole r hr (Reference.splits_iff.mpr ⟨code, hcode, hsplits⟩)
  · push Not at hwhole
    obtain ⟨r, hr, hsplits⟩ := hwhole
    rw [read_splits hw hr hsplits line]
    refine iff_of_false nofun fun hread => ?_
    obtain ⟨code, hcode, hcut⟩ := Reference.splits_iff.mp hsplits
    exact (hread r hr code hcode).2 hcut

def fullHeader : Header where
  tag := "svg:a"
  classes := ["x", "y-z"]
  id := some "main"
  attributes := [.fixed "it's" (.str "a, ]\x7d => '"), .fixed "n" (.number "-1.5"),
    .fixed "b" (.bool true), .fixed "" .nil, .dynamic "d" "f([1, \")\"], x)"]
  reference := some ⟨"@user", some (.code "role.name")⟩
  nukeOuter := true
  nukeInner := false
  selfClosing := false
  tail := .script ⟨"title, 1", .raw, false⟩

theorem read_write_iff_full : fullHeader.Writable ∧
    Header.read false 1 fullHeader.write = .ok fullHeader := by
  have hw : fullHeader.Writable := by decide
  refine ⟨hw, (read_write_iff hw 1).mpr ?_⟩
  intro r hr code hcode
  obtain rfl := Option.some.inj hr
  obtain rfl : "role.name".toList = code := Qualifier.code.inj (Option.some.inj hcode)
  decide

/-- Code of a qualifier that is read as a string: its first letter is its last one. -/
theorem read_write_enclosed : ¬∀ h : Header, h.Writable →
    Header.read false 1 h.write = .ok h := by
  intro hall
  let header : Header := ⟨"p", [], none, [], some ⟨"@user", some (.code "level")⟩,
    false, false, false, .none⟩
  have hw : header.Writable := by decide
  have hreread : header.reread ≠ header := by decide
  have hwhole : ∀ r ∈ header.reference, ¬r.Splits := by decide
  have hread := (read_write hw hwhole 1).symm.trans (hall header hw)
  exact hreread (Except.ok.inj hread)

end Header

end Haml
