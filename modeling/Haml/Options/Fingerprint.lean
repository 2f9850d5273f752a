import Haml.Digest
import Haml.Options

/-! A fingerprint of options, by which caches tell options apart: a digest of all of them, written
out as bytes one behind the other. -/

namespace Haml

/-- A number in bytes, the lowest first. -/
def littleEndian : Nat → Nat → List UInt8
  | 0, _ => []
  | size + 1, n => UInt8.ofNat n :: littleEndian size (n / 256)

namespace Format

def bytes : Format → List UInt8
  | xhtml => littleEndian 8 0
  | html4 => littleEndian 8 1
  | html5 => littleEndian 8 2

end Format

namespace TagSet

/-- The number of tags, and each tag behind the other with a byte at its end that no text has. -/
def bytes (s : TagSet) : List UInt8 :=
  littleEndian 8 s.tags.length ++
    s.tags.flatMap fun tag => tag.flatMap String.utf8EncodeChar ++ [0xff]

end TagSet

namespace Options

def bytes (o : Options) : List UInt8 :=
  o.format.bytes ++ littleEndian 1 o.escapeHtml.toNat ++ littleEndian 1 o.suppressEval.toNat ++
    littleEndian 4 o.attrWrapper.toNat ++ o.autoclose.bytes ++ o.preserve.bytes

def fingerprint (o : Options) : UInt64 := Digest.ofBytes o.bytes

end Options

end Haml
