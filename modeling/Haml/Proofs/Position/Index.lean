import Haml.Proofs.Text.Bracketed

/-! Texts under indices of their characters. A reader that keeps an index instead of what is left to
read finds the same places: the end of a run, and the bracket that closes a group. -/

namespace Haml

namespace Text

variable {p : Char → Bool} {chars u v w : Text} {pos start stop : Nat}

/-- The characters from one index up to another. -/
def between? (start stop : Nat) (chars : Text) : Option Text :=
  if start ≤ stop ∧ stop ≤ chars.length then some ((chars.drop start).take (stop - start)) else none

theorem between?_drop (h : chars.drop start = u ++ v) (hstart : start ≤ chars.length) :
    between? start (start + u.length) chars = some u := by
  have hlength : chars.length - start = u.length + v.length := by
    rw [← List.length_drop, h, List.length_append]
  rw [between?, if_pos ⟨Nat.le_add_right _ _, by omega⟩, h, Nat.add_sub_cancel_left, List.take_left]

theorem between?_length (h : pos ≤ chars.length) :
    between? pos chars.length chars = some (chars.drop pos) := by
  have hwhole := between?_drop (List.append_nil (chars.drop pos)).symm h
  rwa [List.length_drop, Nat.add_sub_cancel' h] at hwhole

theorem drop_add (h : chars.drop pos = u ++ v) : chars.drop (pos + u.length) = v := by
  rw [← List.drop_drop, h, List.drop_left]

theorem drop_succ {c : Char} (h : chars.drop pos = c :: v) : chars.drop (pos + 1) = v :=
  drop_add (u := [c]) h

/-- The index behind a run of characters of a kind. -/
def skip (p : Char → Bool) (chars : Text) (pos : Nat) : Nat :=
  if h : pos < chars.length then
    if p chars[pos] then skip p chars (pos + 1) else pos
  else pos

theorem skip_eq (p : Char → Bool) (chars : Text) (pos : Nat) :
    skip p chars pos = pos + ((chars.drop pos).takeWhile p).length := by
  fun_induction skip p chars pos with
  | case1 pos h hp ih => rw [ih, List.drop_eq_getElem_cons h, List.takeWhile_cons_of_pos hp,
      List.length_cons, Nat.add_assoc, Nat.add_comm 1]
  | case2 pos h hp => rw [List.drop_eq_getElem_cons h, List.takeWhile_cons_of_neg hp]; rfl
  | case3 pos h => rw [List.drop_eq_nil_of_le (Nat.not_lt.mp h)]; rfl

theorem drop_skip (p : Char → Bool) (chars : Text) (pos : Nat) :
    chars.drop (skip p chars pos) = (chars.drop pos).dropWhile p := by
  have happend := List.takeWhile_append_dropWhile (p := p) (l := chars.drop pos)
  rw [skip_eq, ← List.drop_drop]
  nth_rewrite 2 [← happend]
  rw [List.drop_left]

theorem le_skip (p : Char → Bool) (chars : Text) (pos : Nat) : pos ≤ skip p chars pos := by
  rw [skip_eq]
  exact Nat.le_add_right _ _

theorem skip_le (p : Char → Bool) (h : pos ≤ chars.length) : skip p chars pos ≤ chars.length := by
  have hrun := (List.takeWhile_prefix p (l := chars.drop pos)).length_le
  rw [List.length_drop] at hrun
  rw [skip_eq]
  omega

theorem between?_skip (p : Char → Bool) (h : pos ≤ chars.length) :
    between? pos (skip p chars pos) chars = some ((chars.drop pos).takeWhile p) := by
  rw [skip_eq]
  exact between?_drop List.takeWhile_append_dropWhile.symm h

/-- Something read and the text from an index on, which is what was left to read. -/
def resume {α : Type} (chars : Text) (found : α × Nat) : α × Text := (found.1, chars.drop found.2)

end Text

namespace Quote

/-- The place inside a string with the given mark, or outside all strings. -/
def ofMark? : Option Char → Quote
  | none => outside
  | some mark => inside mark

end Quote

namespace Brackets

/-- No character is two of an opening bracket, a closing bracket and a quotation mark. -/
structure Apart (brackets : Brackets) : Prop where
  mark : ∀ c, Quote.isMark c = true → brackets.opens c = false ∧ brackets.closes c = false
  closes : ∀ c, brackets.opens c = true → brackets.closes c = false

theorem braces_apart : braces.Apart where
  mark c hc := by rcases Quote.isMark_iff.mp hc with rfl | rfl <;> decide
  closes c hc := by
    obtain rfl : c = '{' := by simpa [braces] using hc
    decide

theorem all_apart : all.Apart := ⟨fun _ => of_isMark, fun _ hc => (of_opens hc).2⟩

/-- The index of the bracket that closes the last of `depth` open ones. In a string a backslash
takes the reader two characters on, beyond the end it may be. There is no answer at all where a
bracket closes and none is open. -/
def endAt? (brackets : Brackets) (chars : Text) (depth : Nat) (mark? : Option Char) (pos : Nat) :
    Option (Option Nat) :=
  if h : pos < chars.length then
    match mark? with
    | some mark =>
      if chars[pos] = '\\' then endAt? brackets chars depth (some mark) (pos + 2)
      else if chars[pos] = mark then endAt? brackets chars depth none (pos + 1)
      else endAt? brackets chars depth (some mark) (pos + 1)
    | none =>
      if Quote.isMark chars[pos] then endAt? brackets chars depth (some chars[pos]) (pos + 1)
      else if brackets.opens chars[pos] then endAt? brackets chars (depth + 1) none (pos + 1)
      else if brackets.closes chars[pos] then
        if depth = 0 then none
        else if depth = 1 then some (some pos)
        else endAt? brackets chars (depth - 1) none (pos + 1)
      else endAt? brackets chars depth none (pos + 1)
  else some none
  termination_by chars.length - pos

variable {brackets : Brackets} {chars inside after : Text} {depth pos : Nat} {mark? : Option Char}

/-- The length of what is inside a group, counted from an index. -/
def endFrom (brackets : Brackets) (depth : Nat) (quote : Quote) (t : Text) (pos : Nat) :
    Option Nat :=
  (brackets.body depth quote t).map fun (inside, _) => pos + inside.length

theorem endFrom_cons {quote : Quote} {c : Char} {t : Text}
    (h : ¬(quote = .outside ∧ brackets.closes c = true ∧ depth = 0)) :
    brackets.endFrom depth quote (c :: t) pos =
      brackets.endFrom (brackets.depthAfter quote depth c) (quote.next c) t (pos + 1) := by
  rw [endFrom, body, if_neg h, Option.map_map, endFrom]
  congr 1
  funext p
  simp only [Function.comp_apply, List.length_cons]
  omega

/-- Within a string a backslash and the character behind it are passed over together. -/
theorem endFrom_backslash (mark : Char) (t : Text) :
    brackets.endFrom depth (.inside mark) ('\\' :: t) pos =
      brackets.endFrom depth (.inside mark) (t.drop 1) (pos + 2) := by
  rw [endFrom_cons (by simp)]
  cases t with
  | nil => rfl
  | cons c t => exact endFrom_cons (by simp [Quote.next])

/-- With a bracket open, the reader that keeps an index finds the end that the reader of the text
finds, and never closes a bracket that is not open. -/
theorem endAt?_eq (hbrackets : brackets.Apart) (hdepth : 0 < depth) :
    brackets.endAt? chars depth mark? pos =
      some (brackets.endFrom (depth - 1) (.ofMark? mark?) (chars.drop pos) pos) := by
  fun_induction brackets.endAt? chars depth mark? pos with
  | case1 depth pos h mark hc ih =>
    rw [ih hdepth, List.drop_eq_getElem_cons h, hc, Quote.ofMark?, endFrom_backslash,
      List.drop_drop]
  | case2 depth pos h hc ih =>
    have hnext : (Quote.inside chars[pos]).next chars[pos] = .outside := by
      rw [Quote.next, if_neg hc, if_pos rfl]
    rw [ih hdepth, List.drop_eq_getElem_cons h, Quote.ofMark?, Quote.ofMark?,
      endFrom_cons (by simp), hnext]
    rfl
  | case3 depth pos h mark hc hclose ih =>
    have hnext : (Quote.inside mark).next chars[pos] = .inside mark := by
      rw [Quote.next, if_neg hc, if_neg hclose]
    rw [ih hdepth, List.drop_eq_getElem_cons h, Quote.ofMark?, endFrom_cons (by simp), hnext]
    rfl
  | case4 depth pos h hmark ih =>
    obtain ⟨hopens, hcloses⟩ := hbrackets.mark _ hmark
    rw [ih hdepth, List.drop_eq_getElem_cons h, Quote.ofMark?, Quote.ofMark?,
      endFrom_cons (by simp [hcloses])]
    simp [depthAfter, Quote.next, hmark, hopens, hcloses]
  | case5 depth pos h hmark hopens ih =>
    have hcloses := hbrackets.closes _ hopens
    rw [ih (Nat.succ_pos depth), List.drop_eq_getElem_cons h, Quote.ofMark?,
      endFrom_cons (by simp [hcloses])]
    have hdeeper : depth - 1 + 1 = depth := Nat.sub_add_cancel hdepth
    simp [depthAfter, Quote.next, hmark, hopens, hdeeper]
  | case6 pos h hmark hopens hcloses => cases hdepth
  | case7 pos h hmark hopens hcloses hdepth =>
    rw [List.drop_eq_getElem_cons h, endFrom, body, if_pos ⟨rfl, hcloses, rfl⟩]
    rfl
  | case8 depth pos h hmark hopens hcloses hzero hone ih =>
    rw [ih (by omega), List.drop_eq_getElem_cons h, Quote.ofMark?,
      endFrom_cons (by rintro ⟨-, -, h⟩; omega)]
    simp [depthAfter, Quote.next, hmark, hopens, hcloses]
  | case9 depth pos h hmark hopens hcloses ih =>
    rw [ih hdepth, List.drop_eq_getElem_cons h, Quote.ofMark?, endFrom_cons (by simp [hcloses])]
    simp [depthAfter, Quote.next, hmark, hopens, hcloses]
  | case10 depth mark? pos h =>
    rw [List.drop_eq_nil_of_le (Nat.not_lt.mp h)]
    rfl

theorem le_of_endAt? {stop : Nat} (hbrackets : brackets.Apart) (hdepth : 0 < depth)
    (h : brackets.endAt? chars depth mark? pos = some (some stop)) : pos ≤ stop := by
  rw [endAt?_eq hbrackets hdepth] at h
  obtain ⟨p, -, rfl⟩ := Option.map_eq_some_iff.mp (Option.some.inj h)
  exact Nat.le_add_right _ _

/-- Where a group ends at an index, its inside stands in front of that index. -/
theorem body_of_endFrom {quote : Quote} {stop : Nat}
    (h : brackets.endFrom depth quote (chars.drop pos) pos = some stop)
    (hpos : pos ≤ chars.length) :
    ∃ inside, Text.between? pos stop chars = some inside ∧
      brackets.body depth quote (chars.drop pos) = some (inside, chars.drop (stop + 1)) := by
  obtain ⟨⟨inside, after⟩, hbody, rfl⟩ := Option.map_eq_some_iff.mp h
  obtain ⟨close, -, hdrop⟩ := eq_append_of_body hbody
  rw [Text.drop_succ (Text.drop_add hdrop)]
  exact ⟨inside, Text.between?_drop hdrop hpos, hbody⟩

theorem lt_of_endFrom {quote : Quote} {stop : Nat}
    (h : brackets.endFrom depth quote (chars.drop pos) pos = some stop) : stop < chars.length := by
  obtain ⟨⟨inside, after⟩, hbody, rfl⟩ := Option.map_eq_some_iff.mp h
  obtain ⟨close, -, hdrop⟩ := eq_append_of_body hbody
  have hlength := congrArg List.length hdrop
  simp only [List.length_drop, List.length_append, List.length_cons] at hlength
  dsimp only
  omega

/-- The index of the bracket that closes the one at an index. -/
def groupEnd? (chars : Text) (start : Nat) : Option (Option Nat) := all.endAt? chars 0 none start

section Group

variable {start : Nat} {opener : Char}

theorem groupEnd?_eq (hopener : chars[start]? = some opener) (hopens : all.opens opener = true) :
    groupEnd? chars start =
      some (all.endFrom 0 .outside (chars.drop (start + 1)) (start + 1)) := by
  obtain ⟨hstart, rfl⟩ := List.getElem?_eq_some_iff.mp hopener
  have hmark : ¬Quote.isMark chars[start] = true := by
    intro hmark
    rw [(all_apart.mark _ hmark).1] at hopens
    cases hopens
  have hstep : groupEnd? chars start = all.endAt? chars 1 none (start + 1) := by
    rw [groupEnd?, endAt?, dif_pos hstart]
    dsimp only
    rw [if_neg hmark, if_pos hopens]
  rw [hstep, endAt?_eq all_apart Nat.one_pos]
  rfl

theorem lt_of_getElem?_eq_some (hopener : chars[start]? = some opener) : start < chars.length :=
  (List.getElem?_eq_some_iff.mp hopener).1

end Group

end Brackets

end Haml
