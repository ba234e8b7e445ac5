import Lexis.Named
import Lexis.Sequence

/-!
The encodings a source can be declared in. Only one of them can be decoded.
-/

namespace Lexis

inductive Encoding where
  | unknown
  | utf8
  deriving DecidableEq, Repr, Inhabited

namespace Encoding

/-- Reads the character at the front of a window. -/
abbrev Decoder := List UInt8 → Except Defect Symbol

def decoder? : Encoding → Option Decoder
  | .unknown => none
  | .utf8 => some Sequence.decode

def code : Encoding → Nat
  | .unknown => 0
  | .utf8 => 1

def name : Encoding → String
  | .unknown => "unknown"
  | .utf8 => "utf8"

/-- The name with its capital, for descriptions. -/
def label : Encoding → String
  | .unknown => "Unknown"
  | .utf8 => "Utf8"

def ofName : String → Except NameError Encoding :=
  Named.findAnyCase [("unknown",.unknown),("utf8",.utf8),("utf-8",.utf8)]

end Encoding

end Lexis
