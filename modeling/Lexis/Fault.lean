import Lexis.Sequence

/-!
What can stand at the front of a window where a token should begin, and how to get past it. A
fault knows no offset: the same bytes are at fault in the same way wherever they stand.
-/

namespace Lexis

inductive Fault where
  | malformed (defect : Defect)
  | unrecognized (symbol : Symbol)
  deriving DecidableEq, Repr

/-- Bytes that a diagnostic points at, and what it says of them. -/
structure Label where
  offset : Nat
  width : Nat
  text : String
  deriving DecidableEq, Repr

namespace Fault

/-- How many bytes to pass before reading on. An incomplete sequence is passed whole, since nothing
follows it; after a wrong byte the next one may be intact. -/
def resync : Fault → Nat
  | .malformed (.truncated _ available) => max available 1
  | .malformed (.badLead _) => 1
  | .malformed (.badContinuation _ _) => 1
  | .unrecognized symbol => max symbol.width 1

/-- The bytes to blame for a fault that begins at the offset. -/
def label (offset : Nat) : Fault → Label
  | .malformed (.truncated _ available) => ⟨offset,available,"incomplete character"⟩
  | .malformed (.badLead _) => ⟨offset,1,"cannot start a character"⟩
  | .malformed (.badContinuation _ index) => ⟨offset+index,1,"expected a continuation byte"⟩
  | .unrecognized symbol => ⟨offset,symbol.width,"here"⟩

/-- A control character, or a scalar that is no character, is shown by its number only. -/
def describe (scalar : UInt32) : String :=
  let number := "U+"++Text.upperHex 4 scalar.toNat
  if h : scalar.isValidChar then
    if scalar < 0x20 ∨ 0x7F ≤ scalar ∧ scalar < 0xA0 then number
    else "'"++String.singleton ⟨scalar,h⟩++"' ("++number++")"
  else number

def message (offset : Nat) : Fault → String
  | .malformed (.truncated expected available) =>
      s!"truncated sequence at byte {offset}: expected {expected} bytes, found {available}"
  | .malformed (.badLead byte) =>
      "invalid lead byte 0x"++Text.upperHex 2 byte.toNat++s!" at byte {offset}"
  | .malformed (.badContinuation byte index) =>
      "invalid continuation byte 0x"++Text.upperHex 2 byte.toNat++s!" at byte {offset+index}"
  | .unrecognized symbol =>
      "unrecognized character "++describe symbol.scalar++s!" at byte {offset}"

theorem resync_pos (f : Fault) : 0 < f.resync := by
  rcases f with (_ | _ | _) | _ <;> simp only [resync] <;> omega

end Fault

end Lexis
