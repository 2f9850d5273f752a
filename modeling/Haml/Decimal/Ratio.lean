/-! Positive ratios of natural numbers, scaled by powers and rounded. They carry the exact
arithmetic between decimal text and the binary64 format. -/

namespace Haml.Decimal

structure Ratio where
  num : Nat
  den : Nat
  deriving Repr

/-- A power of two. -/
def twoTo (n : Nat) : Nat := Nat.pow 2 n

namespace Ratio

/-- The ratio times a power of `base`. -/
def scale (r : Ratio) (base : Nat) (exponent : Int) : Ratio :=
  if 0 ≤ exponent then ⟨r.num * Nat.pow base exponent.toNat, r.den⟩
  else ⟨r.num, r.den * Nat.pow base (-exponent).toNat⟩

def floor (r : Ratio) : Nat := r.num / r.den

/-- The nearest whole number; of two equally near ones the even one. -/
def roundEven (r : Ratio) : Nat :=
  let rest := 2 * (r.num % r.den)
  if rest < r.den ∨ (rest = r.den ∧ r.floor % 2 = 0) then r.floor else r.floor + 1

/-- The exponent of the greatest power of ten that is not above the ratio. -/
def log10 (r : Ratio) : Int :=
  let guess := ((Nat.toDigits 10 r.num).length : Int) - (Nat.toDigits 10 r.den).length
  if 0 < (r.scale 10 (-guess)).floor then guess else guess - 1

/-- The exponent at which the ratio is a mantissa of 53 bits times a power of two, held at the least
exponent of the binary64 format. -/
def exponent64 (r : Ratio) : Int :=
  let guess := (r.num.log2 : Int) - r.den.log2 - 52
  max (-1074) (if (r.scale 2 (-guess)).floor < twoTo 52 then guess - 1 else guess)

/-- The nearest number of the binary64 format, by its bits. A mantissa of 53 bits carries into the
exponent field, and what is above the greatest number becomes infinity. -/
def bits64 (r : Ratio) : Nat :=
  if r.num = 0 then 0
  else
    let mantissa := (r.scale 2 (-r.exponent64)).roundEven
    min (2047 * twoTo 52) ((r.exponent64 + 1074).toNat * twoTo 52 + mantissa)

end Ratio

end Haml.Decimal
