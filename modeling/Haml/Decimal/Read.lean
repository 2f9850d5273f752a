import Haml.Decimal.Ratio
import Haml.Text.Basic

/-! Numbers read from text: whole numbers of 64 bits, and floats in decimal or exponent notation,
rounded to the nearest. -/

namespace Haml.Decimal

/-- The number that a list of digits stands for. -/
def ofDigits (digits : Text) : Nat :=
  digits.foldl (fun n c => 10 * n + (c.toNat - '0'.toNat)) 0

def areDigits (t : Text) : Bool := !t.isEmpty && t.all Char.isDigit

/-- A sign, if there is one: is it a minus, and what follows. -/
def readSign : Text → Bool × Text
  | '-' :: rest => (true, rest)
  | '+' :: rest => (false, rest)
  | rest => (false, rest)

def minInt : Int := -9223372036854775808

def maxInt : Int := 9223372036854775807

/-- A whole number with an optional sign, if it fits in 64 bits. -/
def readInt? (t : Text) : Option Int :=
  let (negative, digits) := readSign t
  if areDigits digits then
    let value : Int := if negative then -(ofDigits digits : Int) else ofDigits digits
    if minInt ≤ value ∧ value ≤ maxInt then some value else none
  else none

/-- The exponent at the end of a number, zero where nothing is left. -/
def readExponent? : Text → Option Int
  | [] => some 0
  | mark :: rest =>
    if mark = 'e' ∨ mark = 'E' then
      let (negative, digits) := readSign rest
      if areDigits digits then some (if negative then -(ofDigits digits : Int) else ofDigits digits)
      else none
    else none

/-- Digits with an optional point and exponent: a whole number and the exponent of ten it is
multiplied by. One digit at least stands before or behind the point. -/
def readDecimal? (t : Text) : Option (Nat × Int) :=
  let whole := t.takeWhile Char.isDigit
  let rest := t.dropWhile Char.isDigit
  let (fraction, rest) := match rest with
    | '.' :: rest => (rest.takeWhile Char.isDigit, rest.dropWhile Char.isDigit)
    | rest => ([], rest)
  if whole.isEmpty && fraction.isEmpty then none
  else
    (readExponent? rest).map fun exponent =>
      (ofDigits (whole ++ fraction), exponent - fraction.length)

/-- The bits of the number nearest to a whole number times a power of ten. Numbers beyond the format
are settled by their magnitude alone. -/
def bits64 (digits : Nat) (exponent : Int) : Nat :=
  let magnitude := (Nat.toDigits 10 digits).length + exponent
  if digits = 0 ∨ magnitude < -330 then 0
  else if 310 < magnitude then 2047 * twoTo 52
  else (Ratio.scale ⟨digits, 1⟩ 10 exponent).bits64

def isInfinity (t : Text) : Bool :=
  Text.lowerAscii t == "inf".toList || Text.lowerAscii t == "infinity".toList

def isNaN (t : Text) : Bool := Text.lowerAscii t == "nan".toList

/-- The bits of the number that a text without its sign stands for. -/
def readUnsigned? (t : Text) : Option Nat :=
  if isInfinity t then some (2047 * twoTo 52)
  else if isNaN t then some (4095 * twoTo 51)
  else (readDecimal? t).map fun (digits, exponent) => bits64 digits exponent

/-- A float with an optional sign. -/
def readFloat? (t : Text) : Option Float :=
  let (negative, unsigned) := readSign t
  (readUnsigned? unsigned).map fun bits =>
    Float.ofBits (if negative then twoTo 63 + bits else bits).toUInt64

end Haml.Decimal
