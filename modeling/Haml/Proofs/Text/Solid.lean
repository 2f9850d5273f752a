import Haml.Doctype
import Haml.Filter
import Mathlib.Data.List.DropRight

/-! Texts that end in something else than a line feed, so that a line feed behind them ends a line.
The built-in filters make nothing else of such a text, and document type declarations are such
texts. -/

namespace Haml

namespace Text

/-- Is there a text, with no line feed at its end? -/
def Solid (t : Text) : Prop := ∃ c ∈ t.getLast?, c ≠ '\n'

variable {t u : Text}

theorem Solid.ne_nil (h : Solid t) : t ≠ [] := by
  rintro rfl
  obtain ⟨c, hc, -⟩ := h
  cases hc

theorem solid_append (u : Text) (h : Solid t) : Solid (u ++ t) := by
  obtain ⟨c, hc, hne⟩ := h
  refine ⟨c, ?_, hne⟩
  rw [List.getLast?_append_of_ne_nil u (Solid.ne_nil ⟨c, hc, hne⟩)]
  exact hc

theorem solid_cons (c : Char) (h : Solid t) : Solid (c :: t) := solid_append [c] h

theorem solid_of_not_mem (hne : t ≠ []) (h : '\n' ∉ t) : Solid t := by
  refine ⟨t.getLast hne, List.getLast?_eq_some_getLast hne, ?_⟩
  intro heq
  exact h (heq ▸ List.getLast_mem hne)

theorem Solid.exists_concat (h : Solid t) : ∃ init c, t = init ++ [c] ∧ c ≠ '\n' := by
  obtain ⟨c, hc, hne⟩ := h
  exact ⟨t.dropLast, c, (List.dropLast_append_getLast? c hc).symm, hne⟩

theorem solid_concat (u : Text) {c : Char} (hc : c ≠ '\n') : Solid (u ++ [c]) :=
  solid_append u ⟨c, rfl, hc⟩

/-- A line feed behind a solid text ends its last line. -/
theorem Solid.getLast?_ne (h : Solid t) : t.getLast? ≠ some '\n' := by
  obtain ⟨c, hc, hne⟩ := h
  rw [Option.mem_def.mp hc]
  exact fun heq => hne (Option.some.inj heq)

end Text

open Text (Solid)

namespace Entity

variable {t : Text}

theorem solid_escape (h : Solid t) : Solid (escape t) := by
  obtain ⟨init, c, rfl, hne⟩ := h.exists_concat
  rw [escape_append]
  refine Text.solid_append _ ?_
  rw [escape_cons, escape_nil, List.append_nil]
  unfold ofChar
  repeat' split
  all_goals first | exact ⟨';', rfl, by decide⟩ | exact ⟨c, rfl, hne⟩

theorem not_mem_encodeBreaks (t : Text) : '\n' ∉ encodeBreaks t := by
  have hbreak : '\n' ∉ lineBreak := by decide
  fun_induction encodeBreaks t with
  | case1 => exact List.not_mem_nil
  | case2 rest ih => exact List.not_mem_append hbreak ih
  | case3 rest ih => exact List.not_mem_append hbreak ih
  | case4 c rest hreturn hfeed ih =>
    refine List.not_mem_cons_of_ne_of_not_mem ?_ ih
    rintro rfl
    exact hfeed rfl

end Entity

theorem Registry.cases_builtin {name : Text} {f : Filter} (hget : builtin.get? name = some f) :
    f = .plain ∨ f = .escaped ∨ f = .preserve ∨ f = .cdata ∨ f = .javascript ∨ f = .css := by
  have hmem : (name, f) ∈ builtin.filters := by
    obtain ⟨before, after, hfilters, -⟩ := List.lookup_eq_some_iff.mp hget
    rw [hfilters]
    exact List.mem_append_cons_self
  simp only [builtin, List.mem_cons, Prod.mk.injEq, List.not_mem_nil, or_false] at hmem
  rcases hmem with ⟨-, rfl⟩ | ⟨-, rfl⟩ | ⟨-, rfl⟩ | ⟨-, rfl⟩ | ⟨-, rfl⟩ | ⟨-, rfl⟩ <;> simp

namespace Filter

variable {t output : Text} {o : Options}

theorem solid_embedded {tag mediaType openMark closeMark : Text}
    (h : embedded tag mediaType openMark closeMark t o = .ok output) : Solid output := by
  have hclosing (u : Text) : Solid (u ++ ("\n</" ++ tag ++ ['>'])) :=
    Text.solid_append u (Text.solid_concat _ (by decide))
  obtain rfl := Except.ok.inj h
  cases o.format <;> exact hclosing _

/-- What a built-in filter makes of a solid text, or of none, is solid or nothing. -/
theorem solid_builtin {name : Text} {apply : Filter}
    (hget : Registry.builtin.get? name = some apply) (ht : t ≠ [] → Solid t)
    (h : apply t o = .ok output) (hne : output ≠ []) : Solid output := by
  rcases Registry.cases_builtin hget with rfl | rfl | rfl | rfl | rfl | rfl
  · obtain rfl := Except.ok.inj h
    exact ht hne
  · obtain rfl := Except.ok.inj h
    refine Entity.solid_escape (ht ?_)
    rintro rfl
    exact hne rfl
  · obtain rfl := Except.ok.inj h
    exact Text.solid_of_not_mem hne (Entity.not_mem_encodeBreaks _)
  · obtain rfl := Except.ok.inj h
    exact Text.solid_append _ ⟨'>', rfl, by decide⟩
  · exact solid_embedded h
  · exact solid_embedded h

end Filter

namespace Doctype

variable {o : Options} {t : Text}

theorem solid_publicId (name location : Text) : Solid (publicId name location) :=
  Text.solid_append _ ⟨'>', rfl, by decide⟩

theorem solid_declaration {format : Format} {version : Version} {kind : Option Kind}
    (h : declaration? format version kind = some t) : Solid t := by
  unfold declaration? at h
  split at h
  all_goals first
    | cases h; done
    | obtain rfl := Option.some.inj h
      first
        | exact solid_publicId _ _
        | exact ⟨'>', rfl, by decide⟩

theorem resolveVersion_eq_ok {version : Version} {words : List Text}
    (h : resolveVersion o version words = .ok (some t)) :
    ∃ kind, declaration? o.format version kind = some t := by
  unfold resolveVersion at h
  split at h
  · cases h
  · split at h
    · cases h
    · split at h
      · cases h
      · next hdeclaration =>
        obtain rfl := Option.some.inj (Except.ok.inj h)
        exact ⟨_, hdeclaration⟩
  · split at h
    · cases h
    · next hdeclaration =>
      obtain rfl := Option.some.inj (Except.ok.inj h)
      exact ⟨_, hdeclaration⟩

theorem resolveXml_eq_ok {words : List Text} (h : resolveXml o words = .ok (some t)) :
    ∃ encoding, (encoding = "utf-8".toList ∨ encoding ∈ words) ∧
      t = xmlProlog o.attrWrapper encoding := by
  unfold resolveXml at h
  split at h
  · cases h
  · have htext := Except.ok.inj h
    split at htext
    · cases htext
    · refine ⟨words.head?.getD "utf-8", ?_, (Option.some.inj htext).symm⟩
      cases words with
      | nil => exact .inl rfl
      | cons word words => exact .inr List.mem_cons_self

/-- A directive stands for a declaration, or for a line with an encoding that it names. -/
theorem resolve_eq_ok {args : Text} (h : resolve args o = .ok (some t)) :
    (∃ version kind, declaration? o.format version kind = some t) ∨
      ∃ encoding, (encoding = "utf-8".toList ∨ encoding ∈ Text.words args) ∧
        t = xmlProlog o.attrWrapper encoding := by
  unfold resolve at h
  split at h
  · exact .inl ⟨_, resolveVersion_eq_ok h⟩
  · next word rest hwords =>
    split at h
    · obtain ⟨encoding, hencoding, rfl⟩ := resolveXml_eq_ok h
      exact .inr ⟨encoding, hencoding.imp_right fun hmem =>
        hwords ▸ List.mem_cons_of_mem word hmem, rfl⟩
    · split at h <;> exact .inl ⟨_, resolveVersion_eq_ok h⟩

theorem solid_resolve {args : Text} (h : resolve args o = .ok (some t)) : Solid t := by
  rcases resolve_eq_ok h with ⟨version, kind, hdeclaration⟩ | ⟨encoding, -, rfl⟩
  · exact solid_declaration hdeclaration
  · exact Text.solid_append _ ⟨'>', rfl, by decide⟩

end Doctype

end Haml
