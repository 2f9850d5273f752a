import Haml.Attribute.Bag
import Mathlib.Data.List.DropRight
import Mathlib.Data.List.Infix

/-! Names of types. What is made of a name in ASCII is an identifier, words of small letters and
digits with single underscores between them. It keeps the letters and digits of the name, and an
identifier is its own normal form. -/

namespace Haml.TypeName

/-- A part of an identifier, from its start on: it may still end in an underscore. -/
structure IsStem (t : Text) : Prop where
  chars : ∀ c ∈ t, c.isLower = true ∨ c.isDigit = true ∨ c = '_'
  head : t.head? ≠ some '_'
  single : ¬['_', '_'] <:+: t

/-- Small letters, digits and underscores, none of which stands at an end or beside another one. -/
structure IsIdentifier (t : Text) : Prop extends IsStem t where
  last : t.getLast? ≠ some '_'

variable {t u rest : Text} {c : Char} {before : Option Char}

theorem isStem_nil : IsStem [] := ⟨nofun, nofun, by simp⟩

theorem IsStem.of_prefix (h : IsStem u) (ht : t <+: u) : IsStem t where
  chars c hc := h.chars c (ht.subset hc)
  head hhead := by
    obtain ⟨more, rfl⟩ := ht
    apply h.head
    rw [List.head?_append, hhead]
    rfl
  single hdouble := h.single (hdouble.trans ht.isInfix)

theorem infix_concat_iff : ['_', '_'] <:+: t ++ [c] ↔
    ['_', '_'] <:+: t ∨ t.getLast? = some '_' ∧ c = '_' := by
  rw [List.infix_concat_iff, or_comm]
  refine or_congr Iff.rfl ⟨?_, ?_⟩
  · rintro ⟨front, hfront⟩
    have happend : (front ++ ['_']) ++ ['_'] = t ++ [c] := by simpa using hfront
    obtain ⟨rfl, hc⟩ := List.append_inj' happend rfl
    exact ⟨by simp, (List.cons.inj hc).1.symm⟩
  · rintro ⟨hlast, rfl⟩
    obtain ⟨front, rfl⟩ := List.getLast?_eq_some_iff.mp hlast
    exact ⟨front, by simp⟩

theorem ne_underscore_of_word (h : c.isLower = true ∨ c.isDigit = true) : c ≠ '_' := by
  rintro rfl
  revert h
  decide

theorem IsStem.concat (h : IsStem t) (hc : c.isLower = true ∨ c.isDigit = true) :
    IsStem (t ++ [c]) where
  chars d hd := by
    rcases List.mem_append.mp hd with hd | hd
    · exact h.chars d hd
    · obtain rfl := List.mem_singleton.mp hd
      exact hc.imp_right .inl
  head := by
    rw [List.head?_append]
    cases ht : t.head? with
    | none => simpa using ne_underscore_of_word hc
    | some d => exact fun heq => h.head (ht.trans heq)
  single hdouble := by
    rcases infix_concat_iff.mp hdouble with hdouble | ⟨-, hlast⟩
    · exact h.single hdouble
    · exact ne_underscore_of_word hc hlast

theorem IsStem.underscore (h : IsStem t) (hne : t ≠ []) (hlast : t.getLast? ≠ some '_') :
    IsStem (t ++ ['_']) where
  chars d hd := by
    rcases List.mem_append.mp hd with hd | hd
    · exact h.chars d hd
    · exact .inr (.inr (List.mem_singleton.mp hd))
  head := by
    rw [List.head?_append_of_ne_nil _ hne]
    exact h.head
  single hdouble := (infix_concat_iff.mp hdouble).elim h.single fun hcase => hlast hcase.1

/-- Without the underscores at its end, a stem is an identifier. -/
theorem IsStem.isIdentifier (h : IsStem t) : IsIdentifier (Text.dropTrailing '_' t) where
  toIsStem := h.of_prefix (List.rdropWhile_prefix _ t)
  last hlast := by
    rw [Text.dropTrailing, List.getLast?_reverse] at hlast
    have hhead := List.head?_dropWhile_not (· == '_') t.reverse
    rw [hlast] at hhead
    cases hhead

theorem filter_dropTrailing (t : Text) :
    (Text.dropTrailing '_' t).filter Char.isAlphanum = t.filter Char.isAlphanum := by
  have hsplit : Text.dropTrailing '_' t ++ t.rtakeWhile (· == '_') = t :=
    List.rdropWhile_append_rtakeWhile
  have hdropped : (t.rtakeWhile (· == '_')).filter Char.isAlphanum = [] := by
    rw [List.filter_eq_nil_iff]
    intro c hc
    obtain rfl : c = '_' := by simpa using List.mem_rtakeWhile_imp hc
    decide
  conv_rhs => rw [← hsplit, List.filter_append, hdropped, List.append_nil]

/-- Letters and digits in small form, and what else there is. -/
theorem cases_ascii (hc : c.toNat < 128) :
    (c.isUpper = true ∧ c.isAlphanum = true ∧ c.toLower.isLower = true) ∨
    (c.isUpper = false ∧ c.isAlphanum = true ∧ c.toLower = c ∧
      (c.isLower = true ∨ c.isDigit = true)) ∨
    (c.isUpper = false ∧ c.isAlphanum = false) := by
  have hall : ∀ n < 128, let c := Char.ofNat n
      (c.isUpper = true ∧ c.isAlphanum = true ∧ c.toLower.isLower = true) ∨
      (c.isUpper = false ∧ c.isAlphanum = true ∧ c.toLower = c ∧
        (c.isLower = true ∨ c.isDigit = true)) ∨
      (c.isUpper = false ∧ c.isAlphanum = false) := by decide
  rw [← Char.ofNat_toNat c]
  exact hall _ hc

theorem isAlphanum_eq (c : Char) : c.isAlphanum = (c.isUpper || c.isLower || c.isDigit) := rfl

theorem isAlphanum_of_word (h : c.isLower = true ∨ c.isDigit = true) : c.isAlphanum = true := by
  rcases h with h | h <;> simp [isAlphanum_eq, h]

theorem isLower_iff : c.isLower = true ↔ 97 ≤ c.toNat ∧ c.toNat ≤ 122 := by
  change (decide ('a'.val ≤ c.val) && decide (c.val ≤ 'z'.val)) = true ↔ _
  simp [UInt32.le_iff_toNat_le]

theorem isUpper_iff : c.isUpper = true ↔ 65 ≤ c.toNat ∧ c.toNat ≤ 90 := by
  change decide ('A'.val ≤ c.val ∧ c.val ≤ 'Z'.val) = true ↔ _
  simp [UInt32.le_iff_toNat_le]

theorem ascii_of_word (h : c.isLower = true ∨ c.isDigit = true) :
    c.toNat < 128 ∧ c.isUpper = false := by
  have hbounds : 97 ≤ c.toNat ∧ c.toNat ≤ 122 ∨ 48 ≤ c.toNat ∧ c.toNat ≤ 57 := by
    simpa [isLower_iff, Char.isDigit, UInt32.le_iff_toNat_le] using h
  refine ⟨by omega, ?_⟩
  rw [Bool.eq_false_iff, ne_eq, isUpper_iff]
  omega

/-- A character from which a capital is parted has been written, so that the text does not end in an
underscore. -/
def Follows (before : Option Char) (t : Text) : Prop :=
  (before.any fun p => Unicode.isLowercase p || p.isDigit) = true →
    t ≠ [] ∧ t.getLast? ≠ some '_'

theorem follows_concat (hc : c ≠ '_') (before : Option Char) (t : Text) :
    Follows before (t ++ [c]) := fun _ => ⟨by simp, by simpa using hc⟩

/-- An underscore is put behind a letter or a digit only. -/
theorem IsStem.exists_parted (ht : IsStem t) {parts : Bool}
    (hparts : parts = true → t ≠ [] ∧ t.getLast? ≠ some '_') :
    ∃ u, (if parts then '_' :: t.reverse else t.reverse) = u.reverse ∧ IsStem u ∧
      u.filter Char.isAlphanum = t.filter Char.isAlphanum := by
  cases parts with
  | false => exact ⟨t, rfl, ht, rfl⟩
  | true =>
    obtain ⟨hne, hlast⟩ := hparts rfl
    refine ⟨t ++ ['_'], by simp, ht.underscore hne hlast, ?_⟩
    rw [List.filter_append]
    exact List.append_nil _

/-- What is read of a name in ASCII adds its letters and digits to the stem. -/
theorem exists_stem (hrest : ∀ c ∈ rest, c.toNat < 128) (ht : IsStem t)
    (hbefore : Follows before t) :
    ∃ u, normalizeFrom before t.reverse rest = Text.dropTrailing '_' u ∧ IsStem u ∧
      u.filter Char.isAlphanum =
        t.filter Char.isAlphanum ++ (rest.filter Char.isAlphanum).map Char.toLower := by
  induction rest generalizing before t with
  | nil => exact ⟨t, rfl, ht, by simp⟩
  | cons c rest ih =>
    obtain ⟨hc, hrest⟩ := List.forall_mem_cons.mp hrest
    rw [normalizeFrom, Unicode.isUppercase_of_ascii hc, Unicode.isAlphanumeric_of_ascii hc,
      Unicode.lower_of_ascii hc]
    rcases cases_ascii hc with ⟨hupper, halnum, hlower⟩ | ⟨hupper, halnum, hsame, hword⟩ |
      ⟨hupper, halnum⟩
    · obtain ⟨v, hv, hstem, hkept⟩ := ht.exists_parted hbefore
      obtain ⟨u, hu, hstem, hfilter⟩ := ih hrest (hstem.concat (.inl hlower))
        (follows_concat (ne_underscore_of_word (.inl hlower)) (some c) v)
      refine ⟨u, ?_, hstem, ?_⟩
      · rw [List.reverse_concat] at hu
        simpa [hupper, hv] using hu
      · rw [hfilter, List.filter_append, hkept]
        simp [halnum, isAlphanum_of_word (.inl hlower)]
    · obtain ⟨u, hu, hstem, hfilter⟩ := ih hrest (ht.concat hword)
        (follows_concat (ne_underscore_of_word hword) (some c) t)
      refine ⟨u, ?_, hstem, ?_⟩
      · simpa [hupper, halnum] using hu
      · rw [hfilter]
        simp [halnum, hsame]
    · have hparts : (!(t.isEmpty || t.getLast? == some '_')) = true →
          t ≠ [] ∧ t.getLast? ≠ some '_' := by simp
      obtain ⟨v, hv, hstem, hkept⟩ := ht.exists_parted hparts
      obtain ⟨hlower, hdigit⟩ : c.isLower = false ∧ c.isDigit = false := by
        simpa [isAlphanum_eq, hupper] using halnum
      have hbefore : Follows (some c) v := by
        simp [Follows, Unicode.isLowercase_of_ascii hc, hlower, hdigit]
      obtain ⟨u, hu, hstem, hfilter⟩ := ih hrest hstem hbefore
      refine ⟨u, ?_, hstem, ?_⟩
      · rw [← hu, ← hv]
        simp [hupper, halnum, ← not_or]
      · rw [hfilter, hkept]
        simp [halnum]

/-- An identifier is read as it is. -/
theorem normalizeFrom_identifier (h : IsIdentifier (t ++ rest)) (before : Option Char) :
    normalizeFrom before t.reverse rest = t ++ rest := by
  induction rest generalizing before t with
  | nil =>
    rw [List.append_nil] at h
    have hkept : t.rdropWhile (· == '_') = t := by
      rw [List.rdropWhile_eq_self_iff]
      intro hne
      have hlast := h.last
      rw [List.getLast?_eq_some_getLast hne] at hlast
      simpa using hlast
    rw [List.append_nil]
    exact hkept
  | cons c rest ih =>
    have happend : t ++ c :: rest = (t ++ [c]) ++ rest := by simp
    rw [happend] at h
    have hrest := ih h (some c)
    rw [List.reverse_concat] at hrest
    rw [happend, ← hrest, normalizeFrom]
    have hstem : IsStem (t ++ [c]) := h.toIsStem.of_prefix (List.prefix_append _ _)
    rcases or_assoc.mpr (h.chars c (by simp)) with hword | rfl
    · obtain ⟨hascii, hupper⟩ := ascii_of_word hword
      simp [Unicode.isUppercase_of_ascii hascii, Unicode.isAlphanumeric_of_ascii hascii, hupper,
        isAlphanum_of_word hword]
    · have hne : t ≠ [] := by
        rintro rfl
        exact hstem.head rfl
      have hlast : t.getLast? ≠ some '_' := fun hlast =>
        hstem.single (infix_concat_iff.mpr (.inr ⟨hlast, rfl⟩))
      have hupper : Unicode.isUppercase '_' = false := by decide
      have halnum : Unicode.isAlphanumeric '_' = false := by decide
      simp [hupper, halnum, hne, hlast]

/-- The normal form of a name in ASCII is an identifier with the letters and digits of the name, and
an identifier is its own normal form. -/
theorem normalize_ascii {name : Text} (h : ∀ c ∈ name, c.toNat < 128) :
    IsIdentifier (normalizeTypeName name) ∧
    (normalizeTypeName name).filter Char.isAlphanum =
      (name.filter Char.isAlphanum).map Char.toLower ∧
    normalizeTypeName (normalizeTypeName name) = normalizeTypeName name := by
  obtain ⟨u, hu, hstem, hfilter⟩ := exists_stem h isStem_nil (nofun : Follows none [])
  have hname : normalizeTypeName name = Text.dropTrailing '_' u := hu
  have hidentifier : IsIdentifier (normalizeTypeName name) := hname ▸ hstem.isIdentifier
  refine ⟨hidentifier, ?_, normalizeFrom_identifier (t := []) hidentifier none⟩
  rw [hname, filter_dropTrailing, hfilter]
  rfl

theorem normalize_ascii_mixed :
    let name : Text := "__HTTPServer2Go -x::Y_"
    (∀ c ∈ name, c.toNat < 128) ∧ normalizeTypeName name = "httpserver2_go_x_y".toList ∧
    IsIdentifier (normalizeTypeName name) ∧
    (normalizeTypeName name).filter Char.isAlphanum =
      (name.filter Char.isAlphanum).map Char.toLower ∧
    normalizeTypeName (normalizeTypeName name) = normalizeTypeName name := by
  intro name
  have hall : name.all (·.toNat < 128) = true := by decide
  have hascii : ∀ c ∈ name, c.toNat < 128 := by simpa using hall
  exact ⟨hascii, by decide, normalize_ascii hascii⟩

end Haml.TypeName
