/-! Sets of code points above ASCII, written as ascending lists of closed ranges. The three-part
form lists every second code point of a range, which is how the scripts with case pair their
letters. All tables of this folder are those of Unicode 17.0. -/

namespace Haml.Unicode

/-- Code points from the first number to the second. -/
abbrev Ranges := List (Nat × Nat)

def Ranges.holds (ranges : Ranges) (c : Char) : Bool :=
  ranges.any fun (first, last) => first ≤ c.toNat && c.toNat ≤ last

/-- Code points from the first number to the second in steps of the third. -/
abbrev StepRanges := List (Nat × Nat × Nat)

def StepRanges.holds (ranges : StepRanges) (c : Char) : Bool :=
  ranges.any fun (first, last, step) =>
    first ≤ c.toNat && c.toNat ≤ last && (c.toNat - first) % step == 0

end Haml.Unicode
