import Haml.Decimal.Ratio
import Haml.Text.Basic

/-! The text of a binary64 number: the fewest decimal digits that read back as the number, and of
those the nearest, the greater one if two are equally near. Digits are laid out in positional
notation, whatever their distance from the point. -/

namespace Haml.Decimal

/-- A number of the binary64 format: a mantissa times a power of two, or none. -/
inductive Binary64
  | nan
  | infinite (negative : Bool)
  | finite (negative : Bool) (mantissa : Nat) (exponent : Int)
  deriving DecidableEq, Repr

def Binary64.ofBits (bits : Nat) : Binary64 :=
  let negative := bits / twoTo 63 == 1
  let exponent : Nat := bits / twoTo 52 % 2048
  let fraction := bits % twoTo 52
  if exponent = 2047 then (if fraction = 0 then infinite negative else nan)
  else if exponent = 0 then finite negative fraction (-1074)
  else finite negative (twoTo 52 + fraction) ((exponent : Int) - 1075)

/-- The numbers that round to a given one, in quarters of its last place: from `low` to `high`, ends
included if `closed`. -/
structure Spread where
  low : Nat
  value : Nat
  high : Nat
  closed : Bool

namespace Spread

/-- Half a place to either side. Below a power of two numbers stand twice as close. -/
def ofMantissa (mantissa : Nat) (exponent : Int) : Spread where
  low := 4 * mantissa - (if mantissa = twoTo 52 ∧ -1074 < exponent then 1 else 2)
  value := 4 * mantissa
  high := 4 * mantissa + 2
  closed := mantissa % 2 = 0

/-- Does a grid point round to the number? `unit` is a quarter place in steps of the grid. -/
def holds (s : Spread) (unit : Ratio) (point : Nat) : Bool :=
  if s.closed then s.low * unit.num ≤ point * unit.den && point * unit.den ≤ s.high * unit.num
  else s.low * unit.num < point * unit.den && point * unit.den < s.high * unit.num

/-- The best of the two grid points around the number, if one of them rounds to it. -/
def pick? (s : Spread) (unit : Ratio) : Option Nat :=
  let below := s.value * unit.num / unit.den
  let nearAbove :=
    (below + 1) * unit.den - s.value * unit.num ≤ s.value * unit.num - below * unit.den
  if s.holds unit below && s.holds unit (below + 1) then
    some (if nearAbove then below + 1 else below)
  else if s.holds unit below then some below
  else if s.holds unit (below + 1) then some (below + 1)
  else none

end Spread

/-- The shortest digits of a positive number, as a whole number and the exponent of ten it is
multiplied by. Seventeen digits always suffice. -/
def shortest (mantissa : Nat) (exponent : Int) : Nat × Int :=
  let spread := Spread.ofMantissa mantissa exponent
  let quarter := Ratio.scale ⟨1, 1⟩ 2 (exponent - 2)
  let top := (Ratio.scale ⟨mantissa, 1⟩ 2 exponent).log10
  let found := (List.range 17).findSome? fun (more : Nat) =>
    let step := top - (more : Nat)
    (spread.pick? (quarter.scale 10 (-step))).map (·, step)
  found.getD (0, 0)

/-- A whole number times a power of ten in positional notation, without zeros at its end. -/
def positional (digits : Nat) (exponent : Int) : Text :=
  let written := Text.ofNat digits
  let kept := Text.dropTrailing '0' written
  let exponent := exponent + (written.length - kept.length : Nat)
  if 0 ≤ exponent then kept ++ List.replicate exponent.toNat '0'
  else
    let places := (-exponent).toNat
    if places < kept.length then
      kept.take (kept.length - places) ++ '.' :: kept.drop (kept.length - places)
    else '0' :: '.' :: List.replicate (places - kept.length) '0' ++ kept

def Binary64.text : Binary64 → Text
  | nan => "NaN"
  | infinite negative => (if negative then "-inf" else "inf")
  | finite negative mantissa exponent =>
    let unsigned : Text :=
      if mantissa = 0 then ['0']
      else
        let (digits, exponent) := shortest mantissa exponent
        positional digits exponent
    if negative then '-' :: unsigned else unsigned

def ofFloat (x : Float) : Text := (Binary64.ofBits x.toBits.toNat).text

end Haml.Decimal
