import Haml.Decimal.Shortest
import Mathlib

/-! Floats by their bits. The bits of a normal number are kept by the float that is made of them,
and they say which number it is. -/

namespace Haml.Decimal

open Float.Model Float.Model.UnpackedFloat

theorem twoTo_eq (n : Nat) : twoTo n = 2 ^ n := by rw [twoTo, Nat.pow_eq]

/-- The bits of a normal number: its sign, its exponent and what is behind the first bit. -/
def normalBits (negative : Bool) (field fraction : Nat) : Nat :=
  (if negative then 2 ^ 63 else 0) + (field * 2 ^ 52 + fraction)

section Normal

variable (negative : Bool) {field fraction : Nat}

theorem normalBits_fields (hfield : field < 2047) (hfraction : fraction < 2 ^ 52) :
    normalBits negative field fraction < 2 ^ 64 ∧
      normalBits negative field fraction / 2 ^ 63 = (if negative then 1 else 0) ∧
      normalBits negative field fraction / 2 ^ 52 % 2048 = field ∧
      normalBits negative field fraction % 2 ^ 52 = fraction := by
  rw [normalBits]
  cases negative <;> simp only [Bool.false_eq_true, if_true, if_false] <;> omega

theorem toNat_toBits_ofBits (hfield : field < 2047) (hfraction : fraction < 2 ^ 52) :
    (Float.ofBits (normalBits negative field fraction).toUInt64).toBits.toNat =
      normalBits negative field fraction := by
  obtain ⟨hlt, -, hexponent, -⟩ := normalBits_fields negative hfield hfraction
  generalize normalBits negative field fraction = bits at hlt hexponent ⊢
  have hbits : bits.toUInt64.toNat = bits := by
    rw [Nat.toUInt64_eq, UInt64.toNat_ofNat_of_lt' hlt]
  have hunpacked : (@unpackExponent Format.binary64 bits.toUInt64.toBitVec).toNat = field := by
    rw [unpackExponent, BitVec.toNat_cast, BitVec.extractLsb_toNat, UInt64.toNat_toBitVec, hbits,
      Nat.shiftRight_eq_div_pow]
    exact hexponent
  have hnumber : ¬@isNaNBits Format.binary64 bits.toUInt64.toBitVec = true := by
    rw [isNaNBits, decide_eq_true_eq]
    rintro ⟨heq, -⟩
    exact hfield.ne (hunpacked.symm.trans (congrArg BitVec.toNat heq))
  have hpacked : (Float.ofBits bits.toUInt64).toBits.toBitVec = bits.toUInt64.toBitVec :=
    (pack_unpack _).trans (if_neg hnumber)
  rw [← UInt64.toNat_toBitVec, hpacked, UInt64.toNat_toBitVec, hbits]

namespace Binary64

theorem ofBits_normal (hpos : 0 < field) (hfield : field < 2047) (hfraction : fraction < 2 ^ 52) :
    ofBits (normalBits negative field fraction) =
      finite negative (2 ^ 52 + fraction) ((field : Int) - 1075) := by
  obtain ⟨-, hsign, hexponent, hrest⟩ := normalBits_fields negative hfield hfraction
  have hnegative : (normalBits negative field fraction / 2 ^ 63 == 1) = negative := by
    rw [hsign]
    cases negative <;> rfl
  unfold ofBits
  simp only [twoTo_eq, hexponent, hrest, hnegative]
  rw [if_neg hfield.ne, if_neg hpos.ne']

end Binary64

end Normal

namespace Binary64

/-- The mantissa has 53 bits, and the exponent is that of the format. -/
theorem bounds_of_ofBits {bits mantissa : Nat} {negative : Bool} {exponent : Int}
    (h : ofBits bits = finite negative mantissa exponent) :
    mantissa < 2 ^ 53 ∧ -1074 ≤ exponent := by
  have hmod : bits % 2 ^ 52 < 2 ^ 52 := Nat.mod_lt _ (by decide)
  unfold ofBits at h
  simp only [twoTo_eq] at h
  split at h
  · split at h <;> cases h
  · split at h
    · cases h
      omega
    · cases h
      omega

/-- A float as a number of the format. -/
def ofFloat (x : Float) : Binary64 := ofBits x.toBits.toNat

/-- The number that a finite one of the format stands for. -/
def value? : Binary64 → Option ℚ
  | finite negative mantissa exponent =>
    some ((if negative then -1 else 1) * mantissa * 2 ^ exponent)
  | _ => none

end Binary64

end Haml.Decimal
