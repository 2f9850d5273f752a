import Haml.Proofs.Position.Group

/-! Headers under indices. The reader of a header goes along the characters of its line: a name, a
shorthand or a group is what stands between two indices, and the tail is what stands behind the
last. Each part ends within the line, so that the next one begins there. -/

namespace Haml

namespace Shorthand

variable {chars : Text} {pos : Nat}

/-- Classes and ids from an index up to the first character that opens neither. -/
def readAllAt? (chars : Text) (pos : Nat) : Checked SyntaxFault (List Shorthand × Nat) :=
  if h : pos < chars.length then
    if chars[pos] = '.' ∨ chars[pos] = '#' then
      let stop := Text.skip isNameChar chars (pos + 1)
      have := Text.le_skip isNameChar chars (pos + 1)
      liftM (Text.between? (pos + 1) stop chars) >>= fun name =>
        if name.isEmpty then throw .missingShorthandName
        else (fun (more, next) =>
          ((if chars[pos] = '.' then className name else id name) :: more, next)) <$>
            readAllAt? chars stop
    else pure ([], pos)
  else pure ([], pos)
  termination_by chars.length - pos

theorem readAllAt?_tracks (hpos : pos ≤ chars.length) :
    Tracks chars (readAllAt? chars pos) (readAll (chars.drop pos)) := by
  fun_induction readAllAt? chars pos with
  | case1 pos h hopener stop hstop ih =>
    have hbehind := Text.drop_skip isNameChar chars (pos + 1)
    rw [List.drop_eq_getElem_cons h, readAll, if_pos hopener, Text.between?_skip _ h,
      Checked.cut_bind]
    dsimp only
    split
    · exact .error rfl
    · rw [← hbehind]
      exact (ih (Text.skip_le isNameChar h)).map _
  | case2 pos h hopener =>
    have hnone : readAll (chars.drop pos) = .ok ([], chars.drop pos) := by
      rw [List.drop_eq_getElem_cons h, readAll, if_neg hopener]
    rw [hnone]
    exact .pure [] hpos
  | case3 pos h =>
    have hnil := List.drop_eq_nil_of_le (Nat.not_lt.mp h)
    have hnone : readAll (chars.drop pos) = .ok ([], chars.drop pos) := by rw [hnil, readAll]
    rw [hnone]
    exact .pure [] hpos

end Shorthand

namespace Brackets

theorem lt_of_groupEnd? {chars : Text} {start stop : Nat} (hstart : start < chars.length)
    (hopens : all.opens chars[start] = true) (h : groupEnd? chars start = some (some stop)) :
    start < stop := by
  rw [groupEnd?_eq (List.getElem?_eq_getElem hstart) hopens] at h
  obtain ⟨p, -, rfl⟩ := Option.map_eq_some_iff.mp (Option.some.inj h)
  exact Nat.lt_of_lt_of_le (Nat.lt_succ_self start) (Nat.le_add_right _ _)

end Brackets

namespace Groups

variable {line : Nat} {groups : Groups} {chars body : Text} {opener : Char} {pos : Nat}

/-- Takes in the group with the given opening bracket and inside. -/
def addAt? (line : Nat) (groups : Groups) (opener : Char) (body : Text) :
    Checked ReadError Groups :=
  if opener = '[' then
    if groups.reference.isSome then throw (.invalid .duplicateReference line)
    else (fun reference => { groups with reference := some reference }) <$>
      Reference.readAt? line body
  else if groups.reference.isSome then throw (.invalid .attributesAfterReference line)
  else if opener = '{' then
    if groups.hash then throw (.invalid .duplicateHash line)
    else (fun sources =>
      { groups with attributes := groups.attributes ++ sources, hash := true }) <$>
        Hash.readAt? line body
  else
    if groups.list then throw (.invalid .duplicateAttributeList line)
    else (fun sources =>
      { groups with attributes := groups.attributes ++ sources, list := true }) <$>
        AttributeList.readAt? line body 0

/-- Reads groups from an index up to the first character that opens none. A group is what stands
between its brackets. -/
def readAllAt? (line : Nat) (groups : Groups) (chars : Text) (pos : Nat) :
    Checked HeaderError (Groups × Nat) :=
  if h : pos < chars.length then
    if hopens : Brackets.all.opens chars[pos] then
      match hstop : Brackets.groupEnd? chars pos with
      | none => none
      | some none => throw .unclosed
      | some (some stop) =>
        have := Brackets.lt_of_groupEnd? h hopens hstop
        liftM (Text.between? (pos + 1) stop chars) >>= fun body =>
          ExceptT.adapt .invalid (groups.addAt? line chars[pos] body) >>= fun groups =>
            readAllAt? line groups chars (stop + 1)
    else pure (groups, pos)
  else pure (groups, pos)
  termination_by chars.length - pos

theorem addAt?_eq :
    groups.addAt? line opener body = Checked.whole (groups.add line opener body) := by
  rw [addAt?, add]
  split
  · split
    · rfl
    · rw [Checked.whole_map, Reference.readAt?_eq]
  · split
    · rfl
    · split
      · split
        · rfl
        · rw [Checked.whole_map, Hash.readAt?_eq]
      · split
        · rfl
        · rw [Checked.whole_map, AttributeList.readAt?_eq]
          rfl

theorem readAllAt?_tracks (hpos : pos ≤ chars.length) :
    Tracks chars (readAllAt? line groups chars pos) (readAll line groups (chars.drop pos)) := by
  fun_induction readAllAt? line groups chars pos with
  | case1 groups pos h hopens hstop =>
    cases (Brackets.groupEnd?_eq (List.getElem?_eq_getElem h) hopens).symm.trans hstop
  | case2 groups pos h hopens hstop =>
    have hend := (Brackets.groupEnd?_eq (List.getElem?_eq_getElem h) hopens).symm.trans hstop
    have hbody := Option.map_eq_none_iff.mp (Option.some.inj hend)
    rw [List.drop_eq_getElem_cons h, readAll_unclosed hopens hbody]
    exact .error rfl
  | case3 groups pos h hopens stop hstop hlt ih =>
    have hend := (Brackets.groupEnd?_eq (List.getElem?_eq_getElem h) hopens).symm.trans hstop
    obtain ⟨body, hbetween, hbody⟩ := Brackets.body_of_endFrom (Option.some.inj hend) h
    have hnext := Brackets.lt_of_endFrom (Option.some.inj hend)
    rw [List.drop_eq_getElem_cons h, readAll_cons hopens hbody, hbetween, Checked.cut_bind,
      addAt?_eq, Checked.adapt_whole (f := HeaderError.invalid) fun _ => rfl]
    exact .after fun groups => ih groups hnext
  | case4 groups pos h hopens =>
    have hnone : readAll line groups (chars.drop pos) = .ok (groups, chars.drop pos) := by
      rw [List.drop_eq_getElem_cons h, readAll, if_neg hopens]
    rw [hnone]
    exact .pure groups hpos
  | case5 groups pos h =>
    have hnil := List.drop_eq_nil_of_le (Nat.not_lt.mp h)
    have hnone : readAll line groups (chars.drop pos) = .ok (groups, chars.drop pos) := by
      rw [hnil, readAll]
    rw [hnone]
    exact .pure groups hpos

end Groups

namespace Header

variable {implicitDiv : Bool} {line : Nat} {chars : Text}

/-- The tag name and the index behind it. -/
def readTagAt? (implicitDiv : Bool) (chars : Text) : Checked SyntaxFault (Text × Nat) :=
  if implicitDiv then return ("div", 0)
  else do
    let stop := Text.skip isTagChar chars 0
    let tag ← Text.between? 0 stop chars
    if tag.isEmpty then throw .missingTagName else return (tag, stop)

/-- Whether a closing slash is at an index, and the index behind it. -/
def readSlashAt (chars : Text) (pos : Nat) : Bool × Nat :=
  if chars[pos]? = some '/' then (true, pos + 1) else (false, pos)

/-- A fault of this line as the error of a header. -/
def faultAt (line : Nat) (fault : SyntaxFault) : HeaderError := .invalid (.invalid fault line)

/-- Reads a header along the indices of its characters. -/
def readAt? (implicitDiv : Bool) (line : Nat) (chars : Text) : Checked HeaderError Header := do
  let (tag, pos) ← ExceptT.adapt (faultAt line) (readTagAt? implicitDiv chars)
  let (shorthands, pos) ← ExceptT.adapt (faultAt line) (Shorthand.readAllAt? chars pos)
  let (groups, pos) ← Groups.readAllAt? line {} chars pos
  let behind := Text.skip isFlag chars pos
  let flags ← Text.between? pos behind chars
  let (selfClosing, pos) := readSlashAt chars behind
  let rest ← Text.between? pos chars.length chars
  let tail ← ExceptT.adapt (faultAt line)
    (Checked.whole (readTail (!flags.isEmpty) selfClosing rest))
  return {
    tag
    classes := shorthands.filterMap Shorthand.className?
    id := (shorthands.filterMap Shorthand.id?).getLast?
    attributes := groups.attributes
    reference := groups.reference
    nukeOuter := flags.contains '>'
    nukeInner := flags.contains '<'
    selfClosing
    tail }

theorem atLine_eq {α : Type} (m : Except SyntaxFault α) :
    atLine line m = m.mapError (faultAt line) := by
  cases m <;> rfl

theorem readTagAt?_tracks :
    Tracks chars (readTagAt? implicitDiv chars) (readTag implicitDiv chars) := by
  have hskip := Text.drop_skip isTagChar chars 0
  have hle := Text.skip_le isTagChar (Nat.zero_le chars.length)
  rw [List.drop_zero] at hskip
  rw [readTagAt?, readTag]
  split
  · exact .pure _ (Nat.zero_le _)
  · dsimp only
    rw [Text.between?_skip _ (Nat.zero_le _), Checked.cut_bind, List.drop_zero]
    split
    · exact .error rfl
    · rw [← hskip]
      exact .pure _ hle

theorem readSlashAt_eq (chars : Text) (pos : Nat) :
    Text.resume chars (readSlashAt chars pos) = readSlash (chars.drop pos) := by
  rw [readSlashAt, ← List.head?_drop]
  cases hdrop : chars.drop pos with
  | nil =>
    change (false, chars.drop pos) = (false, [])
    rw [hdrop]
  | cons c rest =>
    rw [List.head?_cons]
    by_cases hslash : c = '/'
    · subst hslash
      rw [if_pos rfl, Text.resume, Text.drop_succ hdrop]
      rfl
    · rw [if_neg (by simpa using hslash), Text.resume, hdrop, readSlash]
      rintro rest' heq
      exact hslash (List.cons.inj heq).1

theorem readSlashAt_le {pos : Nat} (h : pos ≤ chars.length) :
    (readSlashAt chars pos).2 ≤ chars.length := by
  rw [readSlashAt]
  split
  · next hslash => exact Brackets.lt_of_getElem?_eq_some hslash
  · exact h

theorem readAt?_eq (chars : Text) :
    readAt? implicitDiv line chars = Checked.whole (read implicitDiv line chars) := by
  have hfault (fault : SyntaxFault) :
      Breaking.breaks (faultAt line fault) = Breaking.breaks fault := rfl
  rw [readAt?, read, atLine_eq]
  refine (readTagAt?_tracks.adapt hfault).bind fun tag pos hpos => ?_
  dsimp only
  rw [atLine_eq]
  refine ((Shorthand.readAllAt?_tracks hpos).adapt hfault).bind fun shorthands pos hpos => ?_
  refine (Groups.readAllAt?_tracks hpos).bind fun groups pos hpos => ?_
  have hbehind := Text.skip_le isFlag hpos
  have hslash := readSlashAt_eq chars (Text.skip isFlag chars pos)
  have hwithin := readSlashAt_le hbehind
  rw [Text.drop_skip] at hslash
  dsimp only
  rw [← hslash, Text.between?_skip _ hpos, Checked.cut_bind, Text.between?_length hwithin,
    Checked.cut_bind, Checked.adapt_whole hfault, ← atLine_eq, Checked.whole_bind]
  rfl

end Header

end Haml
