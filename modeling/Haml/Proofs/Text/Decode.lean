import Haml.Text.Entity

/-! Entities undone. Escaping loses nothing, and leaves none of the characters that mean something
in markup. -/

namespace Haml.Entity

/-- The text with every entity replaced by its character, in one pass from the left. -/
def decode : Text → Text
  | [] => []
  | '&' :: 'a' :: 'm' :: 'p' :: ';' :: rest => '&' :: decode rest
  | '&' :: 'l' :: 't' :: ';' :: rest => '<' :: decode rest
  | '&' :: 'g' :: 't' :: ';' :: rest => '>' :: decode rest
  | '&' :: 'q' :: 'u' :: 'o' :: 't' :: ';' :: rest => '"' :: decode rest
  | '&' :: '#' :: 'x' :: '2' :: '7' :: ';' :: rest => '\'' :: decode rest
  | c :: rest => c :: decode rest

theorem decode_cons {c : Char} (hc : c ≠ '&') (rest : Text) :
    decode (c :: rest) = c :: decode rest := by
  rw [decode]
  -- Each equation for an entity starts with an ampersand.
  all_goals exact fun _ h => absurd h hc

/-- The entity of a character is read as that character, whatever follows. -/
theorem decode_ofChar (c : Char) (rest : Text) : decode (ofChar c ++ rest) = c :: decode rest := by
  unfold ofChar
  split
  · next h => exact h ▸ rfl
  · next hc =>
    split
    · next h => exact h ▸ rfl
    · split
      · next h => exact h ▸ rfl
      · split
        · next h => exact h ▸ rfl
        · split
          · next h => exact h ▸ rfl
          · exact decode_cons hc rest

theorem decode_escape (t : Text) : decode (escape t) = t := by
  induction t with
  | nil => rfl
  | cons c t ih => rw [escape_cons, decode_ofChar, ih]

theorem not_mem_ofChar {c : Char} (hc : c ∈ ['<', '>', '"', '\'']) (d : Char) :
    c ∉ ofChar d := by
  by_cases hd : d ∈ ['&', '<', '>', '"', '\'']
  · have hentities : (['<', '>', '"', '\''].all fun c => ['&', '<', '>', '"', '\''].all fun d =>
        decide (c ∉ ofChar d)) = true := by decide
    exact of_decide_eq_true (List.all_eq_true.mp (List.all_eq_true.mp hentities c hc) d hd)
  · have hself : ofChar d = [d] := by
      simp only [List.mem_cons, List.not_mem_nil, or_false, not_or] at hd
      simp [ofChar, hd]
    rw [hself, List.mem_singleton]
    rintro rfl
    exact hd (List.mem_cons_of_mem _ hc)

/-- Escaped text is free of markup: no angle bracket and no quotation mark stands in it. -/
theorem not_mem_escape {c : Char} (hc : c ∈ ['<', '>', '"', '\'']) (t : Text) : c ∉ escape t := by
  intro hmem
  obtain ⟨d, -, hd⟩ := List.mem_flatMap.mp hmem
  exact not_mem_ofChar hc d hd

end Haml.Entity
