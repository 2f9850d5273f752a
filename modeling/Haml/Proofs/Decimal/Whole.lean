import Haml.Header.Source
import Haml.Proofs.Decimal.Nearest
import Haml.Value

/-! Literals that are whole numbers. One that fits in 64 bits is exactly what its digits say; beyond
that the literal is a float, the nearest one, and digits are lost. -/

namespace Haml

namespace Decimal

/-- The whole number that a spelling without a point stands for, underscores left out. -/
def whole (spelling : Text) : ℤ :=
  (if spelling.head? = some '-' then -1 else 1) *
    (Nat.ofDigits 10 ((spelling.filter Char.isDigit).map fun c => c.toNat - '0'.toNat).reverse : ℕ)

/-- The number fits in 64 bits, one of them for the sign. -/
def Fits (n : ℤ) : Prop := -2 ^ 63 ≤ n ∧ n < 2 ^ 63

instance (n : ℤ) : Decidable (Fits n) := inferInstanceAs (Decidable (_ ∧ _))

theorem ofDigits_eq (digits : Text) :
    ofDigits digits = Nat.ofDigits 10 (digits.map fun c => c.toNat - '0'.toNat).reverse := by
  induction digits using List.reverseRecOn with
  | nil => rfl
  | append_singleton digits c ih =>
    rw [ofDigits, List.foldl_append, ← ofDigits, ih, List.map_append, List.reverse_append,
      List.map_singleton, List.reverse_singleton, List.singleton_append, Nat.ofDigits_cons]
    exact Nat.add_comm _ _

/-- A minus sign or none, and digits. -/
structure Spelled (spelling : Text) (negative : Bool) (digits : Text) : Prop where
  text : spelling.filter (· != '_') = (if negative then ['-'] else []) ++ digits
  are : areDigits digits = true
  whole : Decimal.whole spelling = (if negative then -1 else 1) * (ofDigits digits : ℕ)

section Spelled

variable {spelling digits : Text} {negative : Bool} {first c : Char}

/-- Of digits and underscores the same is left whether the underscores are dropped or the digits are
kept. -/
theorem filter_of_digits (hall : ∀ c ∈ digits, c.isDigit = true ∨ c = '_') :
    digits.filter (· != '_') = digits.filter Char.isDigit := by
  refine List.filter_congr fun c hc => ?_
  rcases hall c hc with hdigit | rfl
  · have hne : c ≠ '_' := ne_of_isDigit hdigit (by decide)
    simp [hdigit, hne]
  · decide

/-- A number without a point has digits and underscores behind its sign, a digit first. -/
theorem exists_of_isNumber (hnumber : isNumber spelling = true) (hpoint : '.' ∉ spelling) :
    ∃ (negative : Bool) (first : Char) (rest : Text),
      spelling = (if negative then ['-'] else []) ++ first :: rest ∧ first.isDigit = true ∧
        ∀ c ∈ rest, c.isDigit = true ∨ c = '_' := by
  obtain ⟨first, rest, hfirst, hall, hspelling⟩ := exists_digits_of_isNumber hnumber
  have hrest : ∀ c ∈ rest, c.isDigit = true ∨ c = '_' := by
    intro c hc
    rcases hall c hc with hdigit | rfl | hline
    · exact .inl hdigit
    · exact absurd (by rcases hspelling with rfl | rfl <;> simp [hc]) hpoint
    · exact .inr hline
  rcases hspelling with rfl | rfl
  · exact ⟨false, first, rest, rfl, hfirst, hrest⟩
  · exact ⟨true, first, rest, rfl, hfirst, hrest⟩

theorem exists_spelled (hnumber : isNumber spelling = true) (hpoint : '.' ∉ spelling) :
    ∃ negative digits, Spelled spelling negative digits := by
  obtain ⟨negative, first, rest, rfl, hfirst, hrest⟩ := exists_of_isNumber hnumber hpoint
  have hall : ∀ c ∈ first :: rest, c.isDigit = true ∨ c = '_' :=
    List.forall_mem_cons.mpr ⟨.inl hfirst, hrest⟩
  have hminus : first ≠ '-' := ne_of_isDigit hfirst (by decide)
  refine ⟨negative, (first :: rest).filter Char.isDigit, ?_, ?_, ?_⟩
  · rw [List.filter_append, filter_of_digits hall]
    cases negative <;> rfl
  · have hne : (first :: rest).filter Char.isDigit ≠ [] :=
      List.ne_nil_of_mem (List.mem_filter.mpr ⟨List.mem_cons_self, hfirst⟩)
    simp [areDigits, hne, List.all_filter]
  · rw [Decimal.whole, ofDigits_eq, List.filter_append]
    cases negative
    · simp [hminus]
    · rfl

theorem exists_first (hdigits : areDigits digits = true) :
    ∃ first rest, digits = first :: rest ∧ first.isDigit = true := by
  cases digits with
  | nil => cases hdigits
  | cons first rest =>
    rw [areDigits, Bool.and_eq_true, List.all_cons, Bool.and_eq_true] at hdigits
    exact ⟨first, rest, rfl, hdigits.2.1⟩

theorem readSign_signed (hdigits : areDigits digits = true) :
    readSign ((if negative then ['-'] else []) ++ digits) = (negative, digits) := by
  cases negative with
  | true => rfl
  | false =>
    obtain ⟨first, rest, rfl, hfirst⟩ := exists_first hdigits
    have hminus : first ≠ '-' := ne_of_isDigit hfirst (by decide)
    have hplus : first ≠ '+' := ne_of_isDigit hfirst (by decide)
    simp [readSign, hminus, hplus]

/-- No letter is a digit, so digits are none of the words for numbers that have no digits. -/
theorem lowerAscii_ne (hdigits : areDigits digits = true) {word : Text}
    (hword : word.head?.any Char.isDigit = false) : (Text.lowerAscii digits == word) = false := by
  obtain ⟨first, rest, rfl, hfirst⟩ := exists_first hdigits
  rw [beq_eq_false_iff_ne]
  rintro rfl
  have hlower : first.toLower = first := by
    have hbelow : ¬ 'A'.val ≤ first.val := by
      rw [Char.isDigit, Bool.and_eq_true, decide_eq_true_eq, decide_eq_true_eq] at hfirst
      exact fun hle => absurd (UInt32.le_trans hle hfirst.2) (by decide)
    rw [Char.toLower, dif_neg fun hupper => hbelow hupper.1]
  simp [Text.lowerAscii, hlower, hfirst] at hword

theorem readUnsigned?_digits (hdigits : areDigits digits = true) :
    readUnsigned? digits = some (bits64 (ofDigits digits) 0) := by
  have hall : ∀ c ∈ digits, c.isDigit = true := by
    rw [areDigits, Bool.and_eq_true, List.all_eq_true] at hdigits
    exact hdigits.2
  have htake : digits.takeWhile Char.isDigit = digits := List.takeWhile_eq_self_iff.mpr hall
  have hdrop : digits.dropWhile Char.isDigit = [] := List.dropWhile_eq_nil_iff.mpr hall
  have hne : digits.isEmpty = false := by
    rw [areDigits, Bool.and_eq_true, Bool.not_eq_true'] at hdigits
    exact hdigits.1
  rw [readUnsigned?, isInfinity, isNaN, lowerAscii_ne hdigits (by decide),
    lowerAscii_ne hdigits (by decide), lowerAscii_ne hdigits (by decide), readDecimal?, htake,
    hdrop]
  simp [hne, readExponent?]

/-- Numbers of the format have no more than 309 digits, so the digits are read in full. -/
theorem bits64_zero {n : Nat} (hn : n < 2 ^ 1024) : bits64 n 0 = Ratio.bits64 ⟨n, 1⟩ := by
  have hlength : (Nat.toDigits 10 n).length ≤ 310 :=
    Nat.toDigits_length 10 n 310 (by decide) (lt_trans hn (by decide +kernel))
  have hscale : Ratio.scale ⟨n, 1⟩ 10 0 = ⟨n, 1⟩ := by simp [Ratio.scale]
  rw [bits64, hscale]
  split_ifs with hzero hlarge
  · obtain rfl : n = 0 := by omega
    rfl
  · omega
  · rfl

namespace Spelled

/-- The whole number itself is read if it fits. -/
theorem readInt? (h : Spelled spelling negative digits) :
    Decimal.readInt? (spelling.filter (· != '_')) =
      if Fits (Decimal.whole spelling) then some (Decimal.whole spelling) else none := by
  have hvalue : (if negative then -(ofDigits digits : ℤ) else ofDigits digits) =
      Decimal.whole spelling := by
    rw [h.whole]
    cases negative <;> simp
  have hfits : minInt ≤ Decimal.whole spelling ∧ Decimal.whole spelling ≤ maxInt ↔
      Fits (Decimal.whole spelling) := by
    rw [Fits, minInt, maxInt]
    omega
  rw [Decimal.readInt?, h.text, readSign_signed h.are]
  simp only [h.are, if_true, hvalue, hfits]

theorem readFloat? (h : Spelled spelling negative digits)
    (hrange : ofDigits digits < 2 ^ 1024) :
    Decimal.readFloat? (spelling.filter (· != '_')) =
      some (Float.ofBits ((if negative then 2 ^ 63 else 0) +
        Ratio.bits64 ⟨ofDigits digits, 1⟩).toUInt64) := by
  rw [Decimal.readFloat?, h.text, readSign_signed h.are]
  dsimp only
  rw [readUnsigned?_digits h.are, bits64_zero hrange]
  cases negative <;> simp [twoTo_eq]

end Spelled

end Spelled

end Decimal

namespace Literal

open Decimal

/-- A whole number that fits in 64 bits is kept to the last digit. One that does not is a float:
within the range of the format the nearest one, and digits of it are lost. -/
theorem value_whole {spelling : Text} (hnumber : isNumber spelling = true)
    (hpoint : '.' ∉ spelling) :
    (Fits (whole spelling) → (number spelling).value = .int (whole spelling)) ∧
      (¬Fits (whole spelling) → |whole spelling| + 2 ^ 970 < 2 ^ 1024 →
        ∃ x, (number spelling).value = .float x ∧ IsNearest (whole spelling) x) := by
  obtain ⟨negative, digits, hspelled⟩ := exists_spelled hnumber hpoint
  refine ⟨fun hfits => ?_, fun hfits hrange => ?_⟩
  · rw [Literal.value, Value.ofSpelling, hspelled.readInt?, if_pos hfits]
  · have hmagnitude : |whole spelling| = ofDigits digits := by
      rw [hspelled.whole]
      cases negative <;> simp
    have hlarge : 2 ^ 52 ≤ ofDigits digits := by
      rcases abs_choice (whole spelling) with habs | habs <;> rw [Fits] at hfits <;> omega
    have hrange' : ofDigits digits + 2 ^ 970 < 2 ^ 1024 := by
      rw [hmagnitude] at hrange
      exact_mod_cast hrange
    rw [Literal.value, Value.ofSpelling, hspelled.readInt?, if_neg hfits,
      hspelled.readFloat? (by omega)]
    refine ⟨_, rfl, ?_⟩
    have hnearest := isNearest_whole negative hlarge hrange'
    rw [hspelled.whole]
    push_cast
    exact hnearest

/-- Grouped digits of the least number that is too large. -/
theorem value_whole_grouped :
    ∃ x, (number "9_223_372_036_854_775_808").value = .float x ∧
      IsNearest 9223372036854775808 x := by
  have hnumber : isNumber "9_223_372_036_854_775_808" = true := by decide
  have hpoint : '.' ∉ "9_223_372_036_854_775_808".toList := by decide
  have hwhole : whole "9_223_372_036_854_775_808" = 9223372036854775808 := by decide +kernel
  have hvalue := (value_whole hnumber hpoint).2
  rw [hwhole] at hvalue
  exact hvalue (by decide) (by decide +kernel)

/-- The spelling of a number that is too large for 64 bits is not kept. -/
theorem value_not_spelling :
    ¬∀ spelling : Text, isNumber spelling = true → '.' ∉ spelling →
      (number spelling).value =
        if Fits (whole spelling) then .int (whole spelling) else .str spelling := by
  intro h
  have hfits : ¬Fits (whole "9223372036854775808") := by decide +kernel
  have hvalue := h "9223372036854775808" (by decide) (by decide)
  rw [if_neg hfits] at hvalue
  cases hvalue

end Literal

end Haml
