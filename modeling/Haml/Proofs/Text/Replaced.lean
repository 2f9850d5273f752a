import Haml.Proofs.Text.Breaks
import Haml.Proofs.Text.Decode

/-! Entities of escaped and preserved text undone. Both replace characters one by one, and the
ampersand that all entities begin with is escaped itself. So one pass from the left that replaces
entities by characters finds those that were written and no others. -/

namespace Haml.Entity

/-- The entities of escaped and preserved text, each with the character that it stands for. -/
def named : List (Text × Char) :=
  [("&lt;", '<'), ("&gt;", '>'), ("&quot;", '"'), ("&#x27;", '\''), ("&#x000A;", '\n'),
    ("&amp;", '&')]

/-- The entity at the start of a text, and its character. -/
def leading? (t : Text) : Option (Text × Char) := named.find? fun entity => entity.1.isPrefixOf t

/-- The text with every entity replaced by its character, in one pass from the left. Characters that
are put in are not read again. -/
def replace : Text → Text
  | [] => []
  | c :: rest =>
    match leading? (c :: rest) with
    | some (entity, d) => d :: replace (rest.drop (entity.length - 1))
    | none => c :: replace rest
  termination_by t => t.length
  decreasing_by
    · simp only [List.length_drop, List.length_cons]
      omega
    · simp

/-- What is written for a character where text is escaped and its line breaks are preserved. -/
def written (c : Char) : Text := if c = '\n' then lineBreak else ofChar c

variable {c : Char} {t rest : Text}

theorem replace_named {entity : Text} (h : (entity, c) ∈ named) (rest : Text) :
    replace (entity ++ rest) = c :: replace rest := by
  have hleading : leading? (entity ++ rest) = some (entity, c) := by
    simp only [named, List.mem_cons, List.not_mem_nil, or_false, Prod.mk.injEq] at h
    rcases h with ⟨rfl, rfl⟩ | ⟨rfl, rfl⟩ | ⟨rfl, rfl⟩ | ⟨rfl, rfl⟩ | ⟨rfl, rfl⟩ | ⟨rfl, rfl⟩
    all_goals rfl
  have hne : ∀ e ∈ named, e.1 ≠ [] := by decide
  obtain ⟨first, more, rfl⟩ := List.exists_cons_of_ne_nil (hne _ h)
  rw [List.cons_append] at hleading ⊢
  rw [replace, hleading]
  simp

theorem replace_cons (hc : c ≠ '&') (rest : Text) : replace (c :: rest) = c :: replace rest := by
  have hstart : ∀ e ∈ named, e.1.head? = some '&' := by decide
  have hleading : leading? (c :: rest) = none := by
    refine List.find?_eq_none.mpr fun e he hprefix => ?_
    obtain ⟨more, hmore⟩ := List.head?_eq_some_iff.mp (hstart e he)
    rw [hmore, List.isPrefixOf_iff_prefix, List.cons_prefix_cons] at hprefix
    exact hc hprefix.1.symm
  rw [replace, hleading]

theorem written_mem_named (h : c ∈ named.map Prod.snd) : (written c, c) ∈ named := by
  have hwritten : ∀ e ∈ named, (written e.2, e.2) ∈ named := by decide
  obtain ⟨e, he, rfl⟩ := List.mem_map.mp h
  exact hwritten e he

theorem ofChar_of_not_mem (h : c ∉ named.map Prod.snd) : ofChar c = [c] := by
  simp only [named, List.map_cons, List.map_nil, List.mem_cons, List.not_mem_nil, or_false,
    not_or] at h
  simp [ofChar, h]

theorem written_of_not_mem (h : c ∉ named.map Prod.snd) : written c = [c] := by
  have hfeed : c ≠ '\n' := fun heq => h (heq ▸ by decide)
  rw [written, if_neg hfeed, ofChar_of_not_mem h]

theorem replace_written (c : Char) (rest : Text) :
    replace (written c ++ rest) = c :: replace rest := by
  by_cases h : c ∈ named.map Prod.snd
  · exact replace_named (written_mem_named h) rest
  · have hc : c ≠ '&' := fun heq => h (heq ▸ by decide)
    rw [written_of_not_mem h]
    exact replace_cons hc rest

theorem replace_flatMap_written (t : Text) : replace (t.flatMap written) = t := by
  induction t with
  | nil => rw [List.flatMap_nil, replace]
  | cons c t ih => rw [List.flatMap_cons, replace_written, ih]

/-- Of the characters with an entity, the ampersand alone is ever written. -/
theorem not_mem_written (hc : c ∈ ['\n', '<', '>', '"', '\'']) (d : Char) : c ∉ written d := by
  by_cases h : d ∈ named.map Prod.snd
  · have hfree : ∀ e ∈ named, ['\n', '<', '>', '"', '\''].all (· ∉ written e.2) := by decide
    obtain ⟨e, he, rfl⟩ := List.mem_map.mp h
    exact of_decide_eq_true (List.all_eq_true.mp (hfree e he) c hc)
  · have hnamed : ['\n', '<', '>', '"', '\''] ⊆ named.map Prod.snd := by decide
    rw [written_of_not_mem h, List.mem_singleton]
    rintro rfl
    exact h (hnamed hc)

/-- A character is written on its own, whatever follows, unless it is a carriage return. -/
theorem encodeBreaks_ofChar (hc : c ≠ '\r') (rest : Text) :
    encodeBreaks (ofChar c ++ rest) = written c ++ encodeBreaks rest := by
  by_cases h : c ∈ named.map Prod.snd
  · simp only [named, List.map_cons, List.map_nil, List.mem_cons, List.not_mem_nil, or_false] at h
    rcases h with rfl | rfl | rfl | rfl | rfl | rfl
    all_goals rfl
  · have hfeed : c ≠ '\n' := fun heq => h (heq ▸ by decide)
    rw [ofChar_of_not_mem h, written_of_not_mem h]
    exact encodeBreaks_cons hfeed fun heq => absurd heq hc

theorem return_mem_escape (h : '\r' ∈ escape t) : '\r' ∈ t := by
  obtain ⟨c, hc, hmem⟩ := List.mem_flatMap.mp h
  by_cases hnamed : c ∈ named.map Prod.snd
  · have hfree : ∀ e ∈ named, '\r' ∉ ofChar e.2 := by decide
    obtain ⟨e, he, rfl⟩ := List.mem_map.mp hnamed
    exact absurd hmem (hfree e he)
  · rw [ofChar_of_not_mem hnamed, List.mem_singleton] at hmem
    exact hmem ▸ hc

theorem encodeBreaks_escape (h : '\r' ∉ t) : encodeBreaks (escape t) = t.flatMap written := by
  induction t with
  | nil => rfl
  | cons c t ih =>
    obtain ⟨hc, ht⟩ := List.ne_and_not_mem_of_not_mem_cons h
    rw [escape_cons, encodeBreaks_ofChar hc.symm, ih ht, List.flatMap_cons]

/-- Escaping leaves line feeds alone, so it does not matter when the last one is dropped. -/
theorem dropFinal_escape (t : Text) : dropFinal '\n' (escape t) = escape (dropFinal '\n' t) := by
  by_cases hlast : t.getLast? = some '\n'
  · obtain ⟨init, rfl⟩ := List.getLast?_eq_some_iff.mp hlast
    rw [escape_append, dropFinal_concat]
    exact dropFinal_concat '\n' (escape init)
  · rw [dropFinal_of_getLast? hlast]
    rcases List.eq_nil_or_concat' t with rfl | ⟨init, c, rfl⟩
    · rfl
    · have hc : c ≠ '\n' := by
        rintro rfl
        exact hlast List.getLast?_concat
      exact dropFinal_of_getLast? (solid_escape (Text.solid_concat init hc)).getLast?_ne

/-- Text without carriage returns is one character after the other as it is written. -/
theorem preserve_escape (h : '\r' ∉ t) :
    preserve (escape t) = (dropFinal '\n' t).flatMap written := by
  have hfree : '\r' ∉ dropFinal '\n' t := not_mem_dropFinal h
  have hlast : (escape (dropFinal '\n' t)).getLast? ≠ some '\r' :=
    fun hlast => hfree (return_mem_escape (List.mem_of_getLast? hlast))
  rw [preserve, dropFinal_escape, dropFinal_of_getLast? hlast, encodeBreaks_escape hfree]

/-- Escaping and preserving lose nothing. Of a text without carriage returns they leave no line
feed, no angle bracket and no quotation mark, and what they put in can be replaced again. This gives
the text back, but for a line feed at its end. -/
theorem replace_preserve_escape (h : '\r' ∉ t) :
    (∀ c ∈ ['\n', '<', '>', '"', '\''], c ∉ preserve (escape t)) ∧
    replace (preserve (escape t)) = if t.getLast? = some '\n' then t.dropLast else t := by
  rw [preserve_escape h]
  refine ⟨fun c hc hmem => ?_, replace_flatMap_written _⟩
  obtain ⟨d, -, hd⟩ := List.mem_flatMap.mp hmem
  exact not_mem_written hc d hd

/-- A text that has entities in it before it is escaped. -/
theorem replace_preserve_escape_entities :
    '\r' ∉ "<a href='b'>&lt;\n&#x000A;&\n".toList ∧
    preserve (escape "<a href='b'>&lt;\n&#x000A;&\n") =
      "&lt;a href=&#x27;b&#x27;&gt;&amp;lt;&#x000A;&amp;#x000A;&amp;" ∧
    replace "&lt;a href=&#x27;b&#x27;&gt;&amp;lt;&#x000A;&amp;#x000A;&amp;" =
      "<a href='b'>&lt;\n&#x000A;&" := by
  have hfree : '\r' ∉ "<a href='b'>&lt;\n&#x000A;&\n".toList := by decide
  have hpreserve : preserve (escape "<a href='b'>&lt;\n&#x000A;&\n") =
      "&lt;a href=&#x27;b&#x27;&gt;&amp;lt;&#x000A;&amp;#x000A;&amp;" := by decide
  have hreplace := (replace_preserve_escape hfree).2
  rw [hpreserve] at hreplace
  exact ⟨hfree, hpreserve, hreplace⟩

end Haml.Entity
