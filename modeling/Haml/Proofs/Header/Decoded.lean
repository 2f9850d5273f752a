import Haml.Proofs.Attribute.Reading
import Haml.Proofs.Text.Names

/-! Quoted values, with code behind their text and without. Where code follows, scanning halves the
backslashes in front of it, and the escapes of what is left are undone. So the text in front of code
has the value of the text alone up to one pair of backslashes, and loses half of them beyond. -/

namespace Haml

open AttributeList (isListName)
open AttributeText (IsAttributeName)

variable {line n : Nat} {name body code core t value : Text} {mark : Char}

namespace Quote

theorem unescape_ne_nil (h : t ≠ []) : unescape mark t ≠ [] := by
  fun_cases unescape mark t with
  | case1 => exact absurd rfl h
  | case2 | case3 | case4 | case5 | case6 | case7 => simp_all [unescape]

theorem isBody_append_code (hmark : isMark mark = true) (hbody : IsBody mark body)
    (hcode : Escapes mark code) : IsBody mark (body ++ '#' :: '{' :: (code ++ ['}'])) := by
  obtain ⟨q, hq⟩ := (escapes_iff (ne_slash_of_isMark hmark)).mp hcode
  have hopen : (inside mark).after? ['#', '{'] = some (inside mark) := by
    obtain rfl | rfl := isMark_iff.mp hmark
    all_goals decide
  have hclose : q.after? ['}'] = some (inside mark) := by
    have hplace := eq_of_after? hq
    obtain rfl | rfl := isMark_iff.mp hmark
    all_goals split at hplace <;> rw [hplace] <;> decide
  have happend : body ++ '#' :: '{' :: (code ++ ['}']) =
      body ++ (['#', '{'] ++ (code ++ ['}'])) := rfl
  rw [IsBody, happend, after?_append, hbody, Option.bind_some, after?_append, hopen,
    Option.bind_some, after?_append, hq, Option.bind_some, hclose]

end Quote

namespace Segment

/-- The segments of a text and the code behind it. Half of the backslashes in between are left. -/
theorem scan_code (hplain : ¬['#', '{'] <:+: core ++ List.replicate (2 * n) '\\')
    (hcore : core.getLast? ≠ some '\\') (hcode : Brackets.braces.Closed code) :
    scan line (core ++ List.replicate (2 * n) '\\' ++ '#' :: '{' :: (code ++ ['}'])) =
      .ok (ofLiteral (core ++ List.replicate n '\\') ++ [expression code.trim]) := by
  have hread : core.reverse.head? ≠ some '\\' := by rwa [List.head?_reverse]
  have hopen : ('#' :: '{' :: (code ++ ['}'])).head? ≠ some '{' := by simp
  rw [scan, scanAfter_append hplain hopen, List.append_nil, List.reverse_append,
    List.reverse_replicate, scanAfter_code line n hread hcode, scanAfter_nil]
  simp [Except.map, ofLiteral]

end Segment

namespace AttributeSource

theorem ofValue_string (hmark : Quote.isMark mark = true) (hbody : Quote.IsBody mark body) :
    ofValue line name (Quote.string mark body) = ofQuoted line name mark body := by
  have hopens : Quote.opensIn (Quote.string mark body) = true := hmark
  have hread := hbody.read (Quote.ne_slash_of_isMark hmark) []
  rw [List.append_nil] at hread
  rw [ofValue, if_neg (by simp [Quote.string]), if_pos hopens, hread]

theorem ofQuoted_plain (hplain : ¬['#', '{'] <:+: body) :
    ofQuoted line name mark body = .ok (fixed name (.str (Quote.unescape mark body))) := by
  rw [ofQuoted, if_neg (by rwa [Segment.opensIn_iff_infix])]

theorem ofQuoted_code (hplain : ¬['#', '{'] <:+: core ++ List.replicate (2 * n) '\\')
    (hcore : core.getLast? ≠ some '\\') (hcode : Brackets.braces.Closed code) :
    ofQuoted line name mark
        (core ++ List.replicate (2 * n) '\\' ++ '#' :: '{' :: (code ++ ['}'])) =
      .ok (interpolated name
        (Segment.ofLiteral (Quote.unescape mark core ++ List.replicate ((n + 1) / 2) '\\') ++
          [.expression code.trim])) := by
  have hopens : Segment.opensIn
      (core ++ List.replicate (2 * n) '\\' ++ '#' :: '{' :: (code ++ ['}'])) = true := by
    rw [Segment.opensIn_iff_infix]
    exact ⟨core ++ List.replicate (2 * n) '\\', code ++ ['}'], by simp⟩
  have hrun : Quote.unescape mark (core ++ List.replicate n '\\') =
      Quote.unescape mark core ++ List.replicate ((n + 1) / 2) '\\' := by
    rw [Quote.unescape_append hcore, Quote.unescape_slashes]
  rw [ofQuoted, if_pos hopens, Segment.scan_code hplain hcore hcode, ← hrun]
  by_cases hempty : core ++ List.replicate n '\\' = []
  · rw [hempty]
    rfl
  · have hne : Quote.unescape mark (core ++ List.replicate n '\\') ≠ [] :=
      Quote.unescape_ne_nil hempty
    simp [Segment.ofLiteral, hempty, hne]

end AttributeSource

theorem Hash.read_entry (h : IsValue value) : Hash.read line (AttributeSource.entry name value) =
    (AttributeSource.ofValue line name value).map ([·]) := by
  have hentry := AttributeSource.isValue_entry name h
  rw [Hash.read, hentry.split, Hash.ofEntries, hentry.trimmed,
    if_neg (by simpa using hentry.ne_nil), AttributeSource.splitEntry_entry name h]
  dsimp only
  cases AttributeSource.ofValue line name value <;> rfl

namespace AttributeList

theorem isListName_of_isBlank {c : Char} (h : Unicode.isBlank c = true) : isListName c = false := by
  have hcolon : c ≠ ':' := Unicode.ne_of_isBlank h (by decide)
  simp [isListName, isNameChar_of_isBlank h, hcolon]

theorem readValue_string (hmark : Quote.isMark mark = true) (hbody : Quote.IsBody mark body)
    (rest : Text) : readValue line name (Quote.string mark body ++ rest) =
      (AttributeSource.ofQuoted line name mark body).map fun source => (source, rest) := by
  have hopens : Quote.opensIn (Quote.string mark body ++ rest) = true := hmark
  rw [readValue, if_neg (by simp [Quote.string]), if_pos hopens,
    hbody.read (Quote.ne_slash_of_isMark hmark)]

/-- A name and an equals sign set a value apart. -/
theorem readAttribute_equals {first : Char} {more : Text}
    (hname : IsAttributeName (first :: more)) (hvalue : Text.trimStart value = value) :
    readAttribute line first (more ++ '=' :: value) = readValue line (first :: more) value := by
  obtain ⟨hfirst, hmore⟩ := List.forall_mem_cons.mp (List.all_eq_true.mp hname.2)
  have hequals : ['='].any isListName = false := by decide
  have hstart : Starts ['='] ('=' :: value) := .cons List.mem_cons_self
  rw [readAttribute, if_pos hfirst]
  dsimp only
  rw [hstart.takeWhile_append (List.all_eq_true.mpr hmore) hequals,
    hstart.dropWhile_append (List.all_eq_true.mpr hmore) hequals]
  change readValue line (first :: more) (Text.trimStart value) = _
  rw [hvalue]

theorem read_string (hname : IsAttributeName name) (hmark : Quote.isMark mark = true)
    (hbody : Quote.IsBody mark body) : read line (name ++ '=' :: Quote.string mark body) =
      (AttributeSource.ofQuoted line name mark body).map ([·]) := by
  obtain ⟨first, more, rfl⟩ := List.exists_cons_of_ne_nil hname.1
  have hfirst : isListName first = true := List.all_eq_true.mp hname.2 first List.mem_cons_self
  have hblank : Unicode.isBlank first = false := by
    by_contra hblank
    rw [isListName_of_isBlank (by simpa using hblank)] at hfirst
    cases hfirst
  have htrim : Text.trimStart (first :: more ++ '=' :: Quote.string mark body) =
      first :: (more ++ '=' :: Quote.string mark body) :=
    Text.trimStart_eq_cons_iff.mpr ⟨[], rfl, nofun, hblank⟩
  have hvalue := Quote.trimStart_string_append hmark body []
  have hread : readValue line (first :: more) _ = _ := readValue_string hmark hbody []
  rw [List.append_nil] at hvalue hread
  rw [read_cons htrim, readAttribute_equals hname hvalue, hread]
  have hend : read line [] = .ok [] := read_nil rfl
  cases AttributeSource.ofQuoted line (first :: more) mark body with
  | error e => rfl
  | ok source =>
    change (read line []).map (source :: ·) = _
    rw [hend]
    rfl

end AttributeList

namespace AttributeSource

/-- An attribute is read as a source, be it the entry of a hash or stand in a list. -/
def IsReadAs (line : Nat) (name value : Text) (source : AttributeSource) : Prop :=
  Hash.read line (entry name value) = .ok [source] ∧
    AttributeList.read line (name ++ '=' :: value) = .ok [source]

theorem isReadAs_of_ofQuoted {source : AttributeSource} (hname : IsAttributeName name)
    (hmark : Quote.isMark mark = true) (hbody : Quote.IsBody mark body)
    (h : ofQuoted line name mark body = .ok source) :
    IsReadAs line name (Quote.string mark body) source := by
  constructor
  · rw [Hash.read_entry (Quote.isValue_string hmark hbody), ofValue_string hmark hbody, h]
    rfl
  · rw [AttributeList.read_string hname hmark hbody, h]
    rfl

/-- Of the pairs of backslashes in front of code, a value keeps every other one. It has the text of
the same value without code exactly if there is one pair at most. -/
theorem isReadAs_with_code (line : Nat) (hname : IsAttributeName name)
    (hmark : Quote.isMark mark = true) (hplain : ¬['#', '{'] <:+: body)
    (hescapes : Quote.Escapes mark body) (heven : Text.slashes body % 2 = 0)
    (hclosed : Brackets.braces.Closed code) (hcode : Quote.Escapes mark code) :
    ∃ alone before, IsReadAs line name (Quote.string mark body) (.fixed name (.str alone)) ∧
      IsReadAs line name (Quote.string mark (body ++ '#' :: '{' :: (code ++ ['}'])))
        (.interpolated name (Segment.ofLiteral before ++ [.expression code.trim])) ∧
      alone = before ++ List.replicate (Text.slashes body / 4) '\\' ∧
      (before = alone ↔ Text.slashes body < 4) := by
  have hbody := (Quote.isBody_iff (Quote.ne_slash_of_isMark hmark)).mpr ⟨hescapes, heven⟩
  obtain ⟨core, hcore, hrun⟩ := Text.exists_slashes body
  obtain ⟨n, hn⟩ : ∃ n, Text.slashes body = 2 * n := ⟨Text.slashes body / 2, by omega⟩
  rw [hn] at hrun ⊢
  have halone : ofQuoted line name mark body =
      .ok (fixed name (.str (Quote.unescape mark core ++ List.replicate n '\\'))) := by
    have hhalf : (2 * n + 1) / 2 = n := by omega
    rw [ofQuoted_plain hplain, hrun, Quote.unescape_append hcore, Quote.unescape_slashes, hhalf]
  have hbefore : ofQuoted line name mark (body ++ '#' :: '{' :: (code ++ ['}'])) =
      .ok (interpolated name
        (Segment.ofLiteral (Quote.unescape mark core ++ List.replicate ((n + 1) / 2) '\\') ++
          [.expression code.trim])) := by
    rw [hrun] at hplain ⊢
    exact ofQuoted_code hplain hcore hclosed
  refine ⟨_, _, isReadAs_of_ofQuoted hname hmark hbody halone,
    isReadAs_of_ofQuoted hname hmark (Quote.isBody_append_code hmark hbody hcode) hbefore, ?_, ?_⟩
  · have hpairs : (n + 1) / 2 + 2 * n / 4 = n := by omega
    rw [List.append_assoc, List.replicate_append_replicate, hpairs]
  · rw [List.append_cancel_left_eq, List.replicate_inj]
    simp only [or_true, and_true]
    omega

theorem isReadAs_with_code_pair :
    IsAttributeName "t" ∧ Quote.isMark '"' = true ∧ ¬['#', '{'] <:+: "a\\\"\\\\".toList ∧
    Quote.Escapes '"' "a\\\"\\\\" ∧ Text.slashes "a\\\"\\\\" % 2 = 0 ∧
    Brackets.braces.Closed "x" ∧ Quote.Escapes '"' "x" ∧
    IsReadAs 1 "t" (Quote.string '"' "a\\\"\\\\") (.fixed "t" (.str "a\"\\")) ∧
    IsReadAs 1 "t" (Quote.string '"' "a\\\"\\\\#\x7bx\x7d")
      (.interpolated "t" [.literal "a\"\\", .expression "x"]) := by
  have hname : IsAttributeName "t" := by decide
  have hplain : ¬['#', '{'] <:+: "a\\\"\\\\".toList := by decide
  have hbody : Quote.IsBody '"' "a\\\"\\\\" := by decide
  have hcode : Quote.IsBody '"' "x" := by decide
  have hclosed : Brackets.braces.Closed "x" := by decide
  obtain ⟨hescapes, heven⟩ := (Quote.isBody_iff (by decide)).mp hbody
  obtain ⟨hmarks, -⟩ := (Quote.isBody_iff (by decide)).mp hcode
  obtain ⟨alone, before, halone, hbefore, -, hequal⟩ :=
    isReadAs_with_code 1 hname rfl hplain hescapes heven hclosed hmarks
  obtain rfl := hequal.mpr (by decide)
  have hread : Hash.read 1 (entry "t" (Quote.string '"' "a\\\"\\\\")) =
      .ok [.fixed "t" (.str "a\"\\")] := by decide
  cases hread.symm.trans halone.1
  exact ⟨hname, rfl, hplain, hescapes, heven, hclosed, hmarks, halone, hbefore⟩

/-- Of two pairs of backslashes in front of code one is lost. -/
theorem isReadAs_two_pairs : ¬∀ (line : Nat) (name body code alone before : Text),
    IsAttributeName name → ¬['#', '{'] <:+: body → Quote.Escapes '"' body →
    Text.slashes body % 2 = 0 → Brackets.braces.Closed code → Quote.Escapes '"' code →
    IsReadAs line name (Quote.string '"' body) (.fixed name (.str alone)) →
    IsReadAs line name (Quote.string '"' (body ++ '#' :: '{' :: (code ++ ['}'])))
      (.interpolated name (Segment.ofLiteral before ++ [.expression code.trim])) →
    before = alone := by
  intro h
  have hbody : Quote.IsBody '"' "\\\\\\\\" := by decide
  have hcode : Quote.IsBody '"' "x" := by decide
  obtain ⟨hescapes, heven⟩ := (Quote.isBody_iff (by decide)).mp hbody
  obtain ⟨hmarks, -⟩ := (Quote.isBody_iff (by decide)).mp hcode
  have hclosed : Brackets.braces.Closed "x" := by decide
  have hplain : ¬['#', '{'] <:+: "\\\\\\\\".toList := by decide
  have hnone : ([] : Text).getLast? ≠ some '\\' := nofun
  have hquoted : ofQuoted 1 "t" '"' ("\\\\\\\\".toList ++ '#' :: '{' :: ("x".toList ++ ['}'])) =
      .ok (.interpolated "t" [.literal "\\", .expression "x"]) :=
    ofQuoted_code (n := 2) hplain hnone hclosed
  have halone : IsReadAs 1 "t" (Quote.string '"' "\\\\\\\\") (.fixed "t" (.str "\\\\")) :=
    isReadAs_of_ofQuoted (by decide) (by decide) hbody rfl
  have hbefore : IsReadAs 1 "t" (Quote.string '"' "\\\\\\\\#\x7bx\x7d")
      (.interpolated "t" [.literal "\\", .expression "x"]) :=
    isReadAs_of_ofQuoted (by decide) (by decide)
      (Quote.isBody_append_code (by decide) hbody hmarks) hquoted
  have hequal := h 1 "t" "\\\\\\\\" "x" "\\\\" "\\" (by decide) hplain hescapes heven hclosed hmarks
    halone hbefore
  cases hequal

end AttributeSource

end Haml
