import Lexis.Text.Hex

/-!
Characters written as sequences of one to four bytes. A lead byte announces how many continuation
bytes follow it; together they carry 7, 11, 16 or 21 bits. The scheme asks neither for the shortest
sequence nor for a scalar that is a character, so `decode` is wider than strict UTF-8.
-/

namespace Lexis

/-- One decoded scalar and the number of bytes that spell it. -/
structure Symbol where
  scalar : UInt32
  width : Nat
  deriving DecidableEq, Repr

namespace Symbol

/-- What stands at the end of the input. No sequence carries this scalar. -/
def endOfInput : Symbol := ⟨0xFFFFFFFF,0⟩

def isEnd (s : Symbol) : Bool := s.width == 0

/-- Surrogates and scalars above 0x10FFFF are no characters. -/
def char? (s : Symbol) : Option Char :=
  if s.isEnd then none
  else if h : s.scalar.isValidChar then some ⟨s.scalar,h⟩
  else none

theorem width_pos_of_char (s : Symbol) (c : Char) (h : s.char? = some c) : 0 < s.width := by
  have hw : s.width ≠ 0 := by
    intro h0
    simp [char?,isEnd,h0] at h
  omega

end Symbol

/-- Why the bytes at the front of a window spell no scalar. -/
inductive Defect where
  | truncated (expected available : Nat)
  | badLead (byte : UInt8)
  | badContinuation (byte : UInt8) (index : Nat)
  deriving DecidableEq, Repr

def Defect.message : Defect → String
  | .truncated expected available =>
      s!"truncated sequence: expected {expected} bytes, {available} available"
  | .badLead byte => "invalid lead byte 0x"++Text.upperHex 2 byte.toNat
  | .badContinuation byte index =>
      "invalid continuation byte 0x"++Text.upperHex 2 byte.toNat++s!" at sequence index {index}"

namespace Sequence

/-- A byte of the form 10xxxxxx. -/
def isContinuation (b : UInt8) : Bool := 0x80 ≤ b && b < 0xC0

/-- The number of continuation bytes that a lead byte announces, and the bits it carries itself. -/
def lead? (b : UInt8) : Option (Nat × UInt32) :=
  if b < 0x80 then some (0,b.toUInt32)
  else if b < 0xC0 then none
  else if b < 0xE0 then some (1,b.toUInt32-0xC0)
  else if b < 0xF0 then some (2,b.toUInt32-0xE0)
  else if b < 0xF8 then some (3,b.toUInt32-0xF0)
  else none

/-- Reads the missing continuation bytes of a sequence of which `taken` bytes came before. A wrong
byte counts before a missing one. -/
def gather : (missing taken : Nat) → UInt32 → List UInt8 → Except Defect Symbol
  | 0,taken,scalar,_ => .ok ⟨scalar,taken⟩
  | missing+1,taken,_,[] => .error (.truncated (taken+missing+1) taken)
  | missing+1,taken,scalar,b::rest =>
      if isContinuation b then gather missing (taken+1) (scalar*64+(b.toUInt32-0x80)) rest
      else .error (.badContinuation b taken)

/-- Reads the sequence at the front of a window. -/
def decode : List UInt8 → Except Defect Symbol
  | [] => .ok .endOfInput
  | b::rest =>
    match lead? b with
    | none => .error (.badLead b)
    | some (following,scalar) => gather following 1 scalar rest

theorem gather_width (missing taken : Nat) (scalar : UInt32) (w : List UInt8) (s : Symbol)
    (h : gather missing taken scalar w = .ok s) :
    s.width = taken+missing ∧ missing ≤ w.length := by
  induction missing generalizing taken scalar w with
  | zero =>
    have hs : Symbol.mk scalar taken = s := by simpa [gather] using h
    simp [← hs]
  | succ missing ih =>
    cases w with
    | nil => simp [gather] at h
    | cons b rest =>
      cases hb : isContinuation b with
      | false => simp [gather,hb] at h
      | true =>
        simp only [gather,hb,if_true] at h
        have hr := ih _ _ _ h
        simp only [List.length_cons]
        omega

/-- A sequence lies inside its window, and only the empty window yields no byte. -/
theorem decode_width (w : List UInt8) (s : Symbol) (h : decode w = .ok s) :
    s.width ≤ w.length ∧ (s.width = 0 ↔ w = []) := by
  cases w with
  | nil =>
    have hs : Symbol.endOfInput = s := by simpa [decode] using h
    simp [← hs,Symbol.endOfInput]
  | cons b rest =>
    cases hl : lead? b with
    | none => simp [decode,hl] at h
    | some l =>
      have hg := gather_width _ _ _ _ _ (by simpa [decode,hl] using h)
      simp only [List.length_cons]
      constructor
      · omega
      · constructor
        · omega
        · simp

theorem drop_lt_of_char (w : List UInt8) (s : Symbol) (c : Char) (h : decode w = .ok s)
    (hc : s.char? = some c) : (w.drop s.width).length < w.length := by
  have hp := s.width_pos_of_char c hc
  have hw := decode_width w s h
  simp only [List.length_drop]
  omega

end Sequence

end Lexis
