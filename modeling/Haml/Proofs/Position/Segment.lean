import Haml.Proofs.Position.Bytes
import Haml.Proofs.Position.Index
import Haml.Proofs.Segment.RoundTrip

/-! Scanning text for code under indices. The scanner goes from one index to the next, two on where
an escaped pair opens nothing, and behind the closing brace where code ends; the literal text it has
read is cut back by bytes. -/

namespace Haml

namespace Segment

/-- Literal text without the backslashes at its end and with half of them, and how many there
were. -/
def halveAt? (literal : Text) : Option (Text × Nat) := do
  let slashes := (literal.reverse.takeWhile (· == '\\')).length
  let kept ← Text.takeBytes? (← Text.sub? (Text.bytes literal) slashes) literal
  return (kept ++ List.replicate (slashes / 2) '\\', slashes)

/-- Scans from an index on, behind literal text already read. -/
def scanAt? (line : Nat) (chars : Text) (pos : Nat) (literal : Text) :
    Option (Except LexError (List Segment)) :=
  if h : pos < chars.length then
    if chars[pos] = '#' ∧ chars[pos + 1]? = some '{' then
      (halveAt? literal).bind fun (halved, slashes) =>
        if slashes % 2 = 1 then scanAt? line chars (pos + 2) (halved ++ ['#', '{'])
        else
          match hstop : Brackets.braces.endAt? chars 1 none (pos + 2) with
          | none => none
          | some none => some (.error ⟨.unterminatedInterpolation, line⟩)
          | some (some stop) =>
            (Text.between? (pos + 2) stop chars).bind fun code =>
              have := Brackets.le_of_endAt? Brackets.braces_apart Nat.one_pos hstop
              (scanAt? line chars (stop + 1) []).map fun rest => rest.map fun segments =>
                ofLiteral halved ++ .expression code.trim :: segments
    else scanAt? line chars (pos + 1) (literal ++ [chars[pos]])
  else some (.ok (ofLiteral literal))
  termination_by chars.length - pos

variable {line pos : Nat} {chars literal t : Text}

theorem halveAt?_eq (t : Text) : halveAt? t.reverse =
    some ((List.replicate ((t.takeWhile (· == '\\')).length / 2) '\\' ++
      t.drop (t.takeWhile (· == '\\')).length).reverse,
      (t.takeWhile (· == '\\')).length) := by
  generalize hslashes : t.takeWhile (· == '\\') = slashes
  have hread : t = slashes ++ t.drop slashes.length := by
    have hprefix : slashes <+: t := hslashes ▸ List.takeWhile_prefix _
    obtain ⟨rest, rfl⟩ := hprefix
    rw [List.drop_left]
  have hwidth : Text.bytes slashes.reverse = slashes.length := by
    rw [Text.bytes_eq_length, List.length_reverse]
    intro c hc
    rw [List.mem_reverse, ← hslashes] at hc
    obtain rfl : c = '\\' := by simpa using List.mem_takeWhile_imp hc
    rfl
  have hreverse : t.reverse = (t.drop slashes.length).reverse ++ slashes.reverse := by
    rw [← List.reverse_append, ← hread]
  rw [halveAt?, List.reverse_reverse, hslashes, hreverse, Text.bytes_append, hwidth, Text.sub?_add]
  change (Text.takeBytes? _ _).bind _ = _
  rw [Text.takeBytes?_append]
  simp

theorem scanAt?_eq : scanAt? line chars pos t.reverse =
    some (scanAfter line t (chars.drop pos)) := by
  generalize hliteral : t.reverse = literal
  fun_induction scanAt? line chars pos literal generalizing t with
  | case1 pos literal hpos hpair ihescaped ihbehind =>
    obtain ⟨hhash, hbrace⟩ := hpair
    obtain ⟨hnext, hbrace⟩ := List.getElem?_eq_some_iff.mp hbrace
    have hdrop : chars.drop pos = '#' :: '{' :: chars.drop (pos + 2) := by
      rw [List.drop_eq_getElem_cons hpos, List.drop_eq_getElem_cons hnext, hhash, hbrace]
    rw [← hliteral, halveAt?_eq, Option.bind_some, hdrop]
    dsimp only
    split
    · next hodd =>
      have hheld (u : Text) : ('{' :: '#' :: u).reverse = u.reverse ++ ['#', '{'] := by simp
      rw [ihescaped _ (hheld _), scanAfter, if_pos hodd]
    · next heven =>
      have hend : Brackets.braces.endAt? chars 1 none (pos + 2) = _ :=
        Brackets.endAt?_eq Brackets.braces_apart Nat.one_pos
      split
      · next hstop => cases hend.symm.trans hstop
      · next hstop =>
        have hnone := Option.some.inj (hend.symm.trans hstop)
        rw [scanAfter_unterminated heven (Option.map_eq_none_iff.mp hnone)]
      · next stop hstop =>
        have hsome := Option.some.inj (hend.symm.trans hstop)
        obtain ⟨code, hbetween, hbody⟩ := Brackets.body_of_endFrom hsome hnext
        rw [scanAfter_expression heven hbody, hbetween, Option.bind_some,
          ihbehind stop hstop (t := []) rfl]
        rfl
  | case2 pos literal hpos hpair ih =>
    rw [ih (t := chars[pos] :: t) (by simp [hliteral]), List.drop_eq_getElem_cons hpos]
    rw [scanAfter_cons]
    intro hhash hbrace
    refine hpair ⟨hhash, ?_⟩
    rwa [List.head?_drop] at hbrace
  | case3 pos literal hpos =>
    rw [List.drop_eq_nil_of_le (Nat.not_lt.mp hpos), scanAfter_nil, hliteral]

/-- Every text is scanned without a cut beyond its end or within a character. -/
theorem scanAt?_zero (line : Nat) (text : Text) : scanAt? line text 0 [] = some (scan line text) :=
  scanAt?_eq (t := [])

end Segment

end Haml
