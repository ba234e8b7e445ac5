import Lexis.Encoding
import Lexis.Error
import Lexis.Span

/-!
Source texts: bytes in a declared encoding, with an optional name for reports.
-/

namespace Lexis

/-- A line and a byte column, both counted from one. -/
structure Position where
  line : Nat
  column : Nat
  deriving DecidableEq, Repr

/-- Only an encoding with a decoder makes a source. -/
structure Source where
  name : Option String
  encoding : Encoding
  bytes : List UInt8
  decodable : encoding.decoder? = some Sequence.decode
  deriving DecidableEq

namespace Source

def newline : UInt8 := 0x0A

def ofBytes (bytes : List UInt8) : Encoding → Except Error Source
  | .utf8 => .ok ⟨none,.utf8,bytes,rfl⟩
  | .unknown =>
      .error (.invalidArgument ("unsupported source encoding '"++Encoding.unknown.name++"'"))

def withName (name : String) (s : Source) : Source := { s with name := some name }

def size (s : Source) : Nat := s.bytes.length

def isEmpty (s : Source) : Bool := s.bytes.isEmpty

/-- The name that a report gives a source. An empty source has no byte to report on. -/
def reportName? (s : Source) : Option String :=
  if s.isEmpty then none else some (s.name.getD "input")

/-- The bytes from start to stop, none if that is no range of the source. -/
def slice (s : Source) (start stop : Nat) : List UInt8 :=
  if start ≤ stop ∧ stop ≤ s.size then (s.bytes.drop start).take (stop-start) else []

/-- The line is one more than the newlines before the offset, the column one more than the bytes
since the last of them. An offset past the end counts as the end. -/
def position (s : Source) (offset : Nat) : Position :=
  let before := s.bytes.take offset
  ⟨before.count newline+1,(before.reverse.takeWhile (· != newline)).length+1⟩

end Source

end Lexis
