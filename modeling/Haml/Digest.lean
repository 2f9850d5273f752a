/-! Digests of bytes in one word: SipHash under the zero key, with one round for each block of eight
bytes and three rounds at the end. -/

namespace Haml.Digest

/-- The words that are mixed. -/
structure Words where
  a : UInt64
  b : UInt64
  c : UInt64
  d : UInt64

def start : Words :=
  ⟨0x736f6d6570736575, 0x646f72616e646f6d, 0x6c7967656e657261, 0x7465646279746573⟩

def rotate (n w : UInt64) : UInt64 := w <<< n ||| w >>> (64 - n)

def round (w : Words) : Words :=
  let a := w.a + w.b
  let c := w.c + w.d
  let b := rotate 13 w.b ^^^ a
  let d := rotate 16 w.d ^^^ c
  let a := rotate 32 a + d
  let c := c + b
  ⟨a, rotate 17 b ^^^ c, rotate 32 c, rotate 21 d ^^^ a⟩

def absorb (w : Words) (block : UInt64) : Words :=
  let w := round { w with d := w.d ^^^ block }
  { w with a := w.a ^^^ block }

/-- Up to eight bytes as a word, the lowest first. -/
def wordOf (bytes : List UInt8) : UInt64 :=
  bytes.foldr (fun byte word => word <<< 8 ||| byte.toUInt64) 0

/-- Takes in bytes by blocks. What is left at the end makes a last block, with the number of all
bytes at its top. -/
def absorbAll (length : Nat) (w : Words) : List UInt8 → Words
  | b₀ :: b₁ :: b₂ :: b₃ :: b₄ :: b₅ :: b₆ :: b₇ :: rest =>
    absorbAll length (absorb w (wordOf [b₀, b₁, b₂, b₃, b₄, b₅, b₆, b₇])) rest
  | rest => absorb w (wordOf rest ||| UInt64.ofNat length <<< 56)

def finish (w : Words) : UInt64 :=
  let w := round (round (round { w with c := w.c ^^^ 0xff }))
  w.a ^^^ w.b ^^^ w.c ^^^ w.d

def ofBytes (bytes : List UInt8) : UInt64 := finish (absorbAll bytes.length start bytes)

end Haml.Digest
