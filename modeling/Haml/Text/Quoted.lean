import Haml.Text.Basic
import Haml.Unicode.Printable

/-! A text as a literal in double quotes. Characters that have no visible form of their own are
written by their code points, and so are marks that would join the character before them. -/

namespace Haml.Quoted

/-- A code point in braces, in hexadecimal without leading zeros. -/
def codePoint (c : Char) : Text := "\\u\x7b" ++ Nat.toDigits 16 c.toNat ++ "\x7d"

def ofChar (c : Char) : Text :=
  if c = '"' then "\\\""
  else if c = '\\' then "\\\\"
  else if c = '\n' then "\\n"
  else if c = '\r' then "\\r"
  else if c = '\t' then "\\t"
  else if c.toNat = 0 then "\\0"
  else if Unicode.extendsGrapheme c || !Unicode.isPrintable c then codePoint c
  else [c]

def encode (t : Text) : Text := '"' :: t.flatMap ofChar ++ ['"']

end Haml.Quoted
