import Haml.Error

/-! Indentation as depth. The first indented line fixes the unit; a later one must repeat the unit's
character a whole number of times its width. A refused indentation leaves the unit as it was. -/

namespace Haml

/-- The unit of indentation, a repeated character. -/
structure IndentUnit where
  mark : Char
  width : Nat
  width_pos : 0 < width
  deriving DecidableEq

/-- The unit that a source indents by, once a line has fixed it. -/
abbrev Indentation := Option IndentUnit

namespace Indentation

/-- The depth of an indentation, and what is known of the unit after it. -/
def depth (known : Indentation) : Text → Except LexFault Nat × Indentation
  | [] => (.ok 0, known)
  | mark :: rest =>
    if rest.any (· != mark) then (.error .mixedIndentation, known)
    else
      match known with
      | none => (.ok 1, some ⟨mark, rest.length + 1, Nat.succ_pos _⟩)
      | some unit =>
        let width := rest.length + 1
        if unit.mark ≠ mark then (.error .mixedIndentation, known)
        else if width % unit.width ≠ 0 then
          (.error (.inconsistentIndentation unit.width width), known)
        else (.ok (width / unit.width), known)

end Indentation

end Haml
