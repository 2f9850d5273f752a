import Haml.Line.Marker
import Haml.Proofs.Text.Closed

/-! White space does not belong to names: none of its code points lies in a range of letters or
numbers. -/

namespace Haml

namespace Unicode

/-- White space as ranges of code points. -/
def blankRanges : Ranges :=
  [(9, 13), (0x20, 0x20), (0x85, 0x85), (0xA0, 0xA0), (0x1680, 0x1680), (0x2000, 0x200A),
    (0x2028, 0x2029), (0x202F, 0x202F), (0x205F, 0x205F), (0x3000, 0x3000)]

/-- No range of the one list meets a range of the other. -/
def Ranges.apart (ranges more : Ranges) : Bool :=
  ranges.all fun (first, last) => more.all fun (least, greatest) =>
    Nat.blt greatest first || Nat.blt last least

variable {c : Char} {ranges more : Ranges}

theorem holds_blankRanges (h : isBlank c = true) : blankRanges.holds c = true := by
  simp only [isBlank, Bool.or_eq_true, Bool.and_eq_true, decide_eq_true_eq, beq_iff_eq] at h
  simp only [blankRanges, Ranges.holds, List.any_cons, List.any_nil, Bool.or_eq_true,
    Bool.and_eq_true, decide_eq_true_eq, Bool.or_false]
  omega

theorem Ranges.holds_eq_false (hapart : ranges.apart more = true) (h : more.holds c = true) :
    ranges.holds c = false := by
  obtain ⟨s, hs, hcs⟩ := List.any_eq_true.mp h
  rw [holds, List.any_eq_false]
  intro r hr hcr
  have hout := List.all_eq_true.mp (List.all_eq_true.mp hapart r hr) s hs
  simp only [Bool.or_eq_true, Nat.blt_eq, Bool.and_eq_true, decide_eq_true_eq] at hout hcs hcr
  omega

end Unicode

open Unicode (isBlank)

theorem isNameChar_of_isBlank {c : Char} (h : isBlank c = true) : isNameChar c = false := by
  by_cases hascii : c.toNat < 128
  · have hlow : c.toNat < 33 := by
      simp only [isBlank, Bool.or_eq_true, Bool.and_eq_true, decide_eq_true_eq, beq_iff_eq] at h
      omega
    have hall : ∀ n < 33, isNameChar (Char.ofNat n) = false := by decide
    rw [← Char.ofNat_toNat c]
    exact hall _ hlow
  · have hblank := Unicode.holds_blankRanges h
    have halphabetic : Unicode.alphabeticRanges.holds c = false :=
      Unicode.Ranges.holds_eq_false (by decide +kernel) hblank
    have hnumeric : Unicode.numericRanges.holds c = false :=
      Unicode.Ranges.holds_eq_false (by decide +kernel) hblank
    have hlow : c ≠ '_' := Unicode.ne_of_isBlank h (by decide)
    have hdash : c ≠ '-' := Unicode.ne_of_isBlank h (by decide)
    simp [isNameChar, Unicode.isAlphanumeric, Unicode.isAlphabetic, Unicode.isNumeric, hascii,
      halphabetic, hnumeric, hlow, hdash]

end Haml
