import Haml.Proofs.Segment.RoundTrip
import Haml.Proofs.Text.Strings

/-! The pieces of code in a text. A text with code is cut into literal stretches, in which no code
opens, and the insides of the braces between them. What the evaluator gets is such an inside without
the white space around it, so that it gets nothing where there is nothing else inside. -/

namespace Haml

namespace Segment

/-- No code opens: every opening pair stands behind an odd number of backslashes. -/
def Unopened (t : Text) : Prop :=
  ∀ before, before ++ ['#', '{'] <+: t → Text.slashes before % 2 = 1

/-- A literal stretch and the inside of the braces that follow it. -/
structure Piece where
  literal : Text
  inside : Text

namespace Piece

def text (p : Piece) : Text := p.literal ++ '#' :: '{' :: (p.inside ++ ['}'])

/-- Code opens behind the stretch and not within it, and the brace at the end is the one that closes
it. -/
structure Opens (p : Piece) : Prop where
  unopened : Unopened p.literal
  even : Text.slashes p.literal % 2 = 0
  closed : Brackets.braces.Closed p.inside

end Piece

/-- A text as it is cut into stretches and code. -/
structure Cut (t : Text) (pieces : List Piece) (last : Text) : Prop where
  eq : t = pieces.flatMap Piece.text ++ last
  opens : ∀ p ∈ pieces, p.Opens
  last : Unopened last

variable {t seen read last : Text} {c : Char} {line : Nat} {segments : List Segment}

theorem unopened_nil : Unopened [] := by
  intro before hbefore
  simp at hbefore

theorem Unopened.concat (h : Unopened t) (hc : t.getLast? = some '#' → c ≠ '{') :
    Unopened (t ++ [c]) := by
  intro before hbefore
  rcases List.prefix_concat_iff.mp hbefore with heq | hbefore
  · have hcut : (before ++ ['#']) ++ ['{'] = t ++ [c] := by simpa using heq
    obtain ⟨rfl, hbrace⟩ := List.append_inj' hcut rfl
    exact absurd (List.cons.inj hbrace).1.symm (hc (by simp))
  · exact h before hbefore

/-- An opening pair behind an odd number of backslashes opens nothing. -/
theorem Unopened.escaped (h : Unopened t) (hodd : Text.slashes t % 2 = 1) :
    Unopened (t ++ ['#', '{']) := by
  have hhash : Unopened (t ++ ['#']) := h.concat fun _ => by decide
  intro before hbefore
  have happend : t ++ ['#', '{'] = (t ++ ['#']) ++ ['{'] := by simp
  rw [happend, List.prefix_concat_iff] at hbefore
  rcases hbefore with heq | hbefore
  · obtain ⟨rfl, -⟩ := List.append_inj' (heq.trans happend.symm) rfl
    exact hodd
  · exact hhash before hbefore

/-- What scanning has seen of a stretch, and what it holds of it. -/
structure Seen (seen read rest : Text) : Prop where
  unopened : Unopened seen
  slashes : (read.takeWhile (· == '\\')).length = Text.slashes seen
  hash : seen.getLast? = some '#' → rest.head? ≠ some '{'

theorem Seen.start (rest : Text) : Seen [] [] rest := ⟨unopened_nil, rfl, nofun⟩

theorem Seen.step {rest : Text} (h : Seen seen read (c :: rest))
    (hopen : c = '#' → rest.head? ≠ some '{') : Seen (seen ++ [c]) (c :: read) rest where
  unopened := h.unopened.concat fun hhash hc => h.hash hhash (congrArg some hc)
  slashes := by
    by_cases hc : c = '\\'
    · subst hc
      rw [Text.slashes_concat_slash, List.takeWhile_cons_of_pos (by decide), List.length_cons,
        h.slashes]
    · rw [Text.slashes_concat hc, List.takeWhile_cons_of_neg (by simpa using hc), List.length_nil]
  hash := by simpa using hopen

theorem Seen.escaped {rest : Text} (h : Seen seen read rest)
    (hodd : (read.takeWhile (· == '\\')).length % 2 = 1) (held after : Text) :
    Seen (seen ++ ['#', '{']) ('{' :: held) after where
  unopened := h.unopened.escaped (h.slashes ▸ hodd)
  slashes := by
    have happend : seen ++ ['#', '{'] = (seen ++ ['#']) ++ ['{'] := by simp
    rw [happend, Text.slashes_concat (by decide), List.takeWhile_cons_of_neg (by decide),
      List.length_nil]
  hash := by simp

theorem Cut.cons {p : Piece} {pieces : List Piece} (hp : p.Opens) (h : Cut t pieces last) :
    Cut (p.text ++ t) (p :: pieces) last where
  eq := by rw [h.eq, List.flatMap_cons, List.append_assoc]
  opens := List.forall_mem_cons.mpr ⟨hp, h.opens⟩
  last := h.last

theorem expression_mem_code {held code inside : Text} :
    expression code ∈ ofLiteral held ++ expression inside :: segments ↔
      inside = code ∨ expression code ∈ segments := by
  unfold ofLiteral
  split <;> simp [eq_comm]

theorem expression_not_mem_ofLiteral {held code : Text} : expression code ∉ ofLiteral held := by
  unfold ofLiteral
  split <;> simp

/-- The expressions of a scanned text are the insides of its braces, trimmed. -/
theorem exists_cut_of_scanAfter (h : scanAfter line read t = .ok segments)
    (hseen : Seen seen read t) : ∃ pieces last, Cut (seen ++ t) pieces last ∧
      ∀ code, expression code ∈ segments ↔ ∃ p ∈ pieces, Text.trim p.inside = code := by
  fun_induction scanAfter line read t generalizing segments seen with
  | case1 read =>
    obtain rfl := Except.ok.inj h
    refine ⟨[], seen, ⟨by simp, List.forall_mem_nil _, hseen.unopened⟩, fun code => ?_⟩
    exact iff_of_false expression_not_mem_ofLiteral (by simp)
  | case2 =>
    rename_i read rest slashes halved hodd ih
    obtain ⟨pieces, last, hcut, hcodes⟩ := ih h (hseen.escaped hodd _ rest)
    exact ⟨pieces, last, by simpa using hcut, hcodes⟩
  | case3 => cases h
  | case4 =>
    rename_i read rest slashes halved heven inside after hbody ih
    obtain ⟨more, hmore, rfl⟩ := Outcome.exists_of_map_eq_ok h
    obtain ⟨pieces, last, hcut, hcodes⟩ := ih hmore (Seen.start after)
    obtain ⟨closer, hcloser, rfl⟩ := Brackets.eq_append_of_body hbody
    obtain rfl : closer = '}' := by simpa [Brackets.braces] using hcloser
    have hslashes : Text.slashes seen % 2 = 0 := by
      rw [← hseen.slashes]
      exact Nat.mod_two_ne_one.mp heven
    have hopens : Piece.Opens ⟨seen, inside⟩ :=
      ⟨hseen.unopened, hslashes, Brackets.closed_of_body hbody⟩
    refine ⟨⟨seen, inside⟩ :: pieces, last, ?_, fun code => ?_⟩
    · simpa [Piece.text] using hcut.cons hopens
    · rw [expression_mem_code, hcodes]
      simp
  | case5 read c rest hopen ih =>
    have hnext : c = '#' → rest.head? ≠ some '{' := by
      intro hc hhead
      obtain ⟨tail, rfl⟩ := List.head?_eq_some_iff.mp hhead
      exact hopen tail hc rfl
    obtain ⟨pieces, last, hcut, hcodes⟩ := ih h (hseen.step hnext)
    exact ⟨pieces, last, by simpa using hcut, hcodes⟩

/-- A scanned text as it is cut, and its expressions. -/
theorem exists_cut_of_scan (h : scan line t = .ok segments) : ∃ pieces last, Cut t pieces last ∧
    ∀ code, expression code ∈ segments ↔ ∃ p ∈ pieces, Text.trim p.inside = code :=
  exists_cut_of_scanAfter h (Seen.start t)

theorem Cut.subset {pieces : List Piece} (h : Cut t pieces last) {p : Piece} (hp : p ∈ pieces) :
    p.inside ⊆ t := by
  intro c hc
  rw [h.eq]
  apply List.mem_append_left
  exact List.mem_flatMap.mpr ⟨p, hp, by simp [Piece.text, hc]⟩

end Segment

end Haml
