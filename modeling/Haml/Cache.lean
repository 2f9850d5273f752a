import Haml.Compile
import Haml.Options.Fingerprint

/-! A cache of compiled programs. A program is kept under the source and the fingerprint of the
options it came from; its serial tells it from every other program the cache has made. -/

namespace Haml

structure StoredProgram where
  serial : Nat
  program : Program

/-- The programs made since the cache was last cleared, and the serial of the next one. -/
structure Cache where
  filters : Registry
  programs : List ((Text × UInt64) × StoredProgram) := []
  next : Nat := 0

namespace Cache

def start (filters : Registry) : Cache := { filters }

def key (source : Text) (o : Options) : Text × UInt64 := (source, o.fingerprint)

/-- The cache with one more program. -/
def store (c : Cache) (source : Text) (o : Options) (program : Program) : Cache :=
  { c with programs := (key source o, ⟨c.next, program⟩) :: c.programs, next := c.next + 1 }

/-- The program kept for a source and options, compiled first if there is none. A source that does
not compile leaves the cache as it is. -/
def getOrCompile (c : Cache) (source : Text) (o : Options) :
    Except CompileError StoredProgram × Cache :=
  match c.programs.lookup (key source o) with
  | some stored => (.ok stored, c)
  | none =>
    match Program.compile source o c.filters with
    | .error e => (.error e, c)
    | .ok program => (.ok ⟨c.next, program⟩, c.store source o program)

def size (c : Cache) : Nat := c.programs.length

def isEmpty (c : Cache) : Bool := c.programs.isEmpty

def clear (c : Cache) : Cache := { c with programs := [] }

end Cache

end Haml
