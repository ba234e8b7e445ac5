import Lexis.Fault
import Lexis.Kind
import Lexis.Unicode.Alphabetic

/-!
What a window of bytes begins with: the end, the lexeme of a token, or a fault. The first character
decides the class and the class takes the longest run it can. Only the window counts, so the same
bytes give the same item wherever they stand in a source.
-/

namespace Lexis

/-- Characters that only separate tokens. -/
def isBlank (c : Char) : Bool := c == ' ' || c == '\t' || c == '\n' || c == '\r'

/-- Characters that continue an identifier. Alphabetic ones also begin it. -/
def isWordChar (c : Char) : Bool := Unicode.isAlphabetic c || c.isDigit || c == '_'

/-- The bytes of the longest run of accepted characters at the front of a window. A malformed
sequence ends the run. -/
def runWidth (accept : Char → Bool) (w : List UInt8) : Nat :=
  match _ : Sequence.decode w with
  | .error _ => 0
  | .ok symbol =>
    if symbol.char?.any accept then symbol.width+runWidth accept (w.drop symbol.width)
    else 0
termination_by w.length
decreasing_by
  obtain ⟨c,hc,_⟩ := (Option.any_eq_true accept symbol.char?).mp (by assumption)
  exact Sequence.drop_lt_of_char w symbol c (by assumption) hc

theorem runWidth_of_accept (accept : Char → Bool) (w : List UInt8) (s : Symbol) (c : Char)
    (h : Sequence.decode w = .ok s) (hc : s.char? = some c) (ha : accept c = true) :
    runWidth accept w = s.width+runWidth accept (w.drop s.width) := by
  rw [runWidth]
  split
  · simp_all
  · next t ht =>
    have hs : t = s := by simpa [h] using ht.symm
    simp [hs,hc,ha]

theorem runWidth_le (accept : Char → Bool) (w : List UInt8) : runWidth accept w ≤ w.length := by
  fun_induction runWidth accept w with
  | case1 w d h => omega
  | case2 w s h ha ih =>
    have hw := Sequence.decode_width w s h
    simp only [List.length_drop] at ih
    omega
  | case3 w s h ha => omega

/-- What stands at the front of a window. -/
inductive Item where
  | finish
  | lexeme (kind : Kind) (width : Nat)
  | fault (fault : Fault)
  deriving DecidableEq, Repr

namespace Item

def read (w : List UInt8) : Item :=
  match Sequence.decode w with
  | .error defect => .fault (.malformed defect)
  | .ok symbol =>
    if symbol.isEnd then .finish
    else
      match symbol.char? with
      | none => .fault (.unrecognized symbol)
      | some c =>
        if Unicode.isAlphabetic c then .lexeme .identifier (runWidth isWordChar w)
        else if c.isDigit then .lexeme .integer (runWidth Char.isDigit w)
        else
          match Kind.punctuator? c with
          | some kind => .lexeme kind symbol.width
          | none => .fault (.unrecognized symbol)

/-- How far reading moves past an item. -/
def width : Item → Nat
  | .finish => 0
  | .lexeme _ width => width
  | .fault f => f.resync

/-- An item that is not the end takes bytes, and there are bytes to take. -/
theorem width_pos_of_read (w : List UInt8) (h : read w ≠ .finish) :
    0 < (read w).width ∧ w ≠ [] := by
  have hn : w ≠ [] := by
    intro hw
    apply h
    simp [hw,read,Sequence.decode,Symbol.endOfInput,Symbol.isEnd]
  refine ⟨?_,hn⟩
  cases hd : Sequence.decode w with
  | error defect => simpa [read,hd,width] using Fault.resync_pos _
  | ok symbol =>
    have hw := Sequence.decode_width w symbol hd
    have hs : symbol.isEnd = false := by
      have h0 : symbol.width ≠ 0 := fun h0 => hn (hw.2.mp h0)
      simp [Symbol.isEnd,h0]
    cases hc : symbol.char? with
    | none => simpa [read,hd,hs,hc,width] using Fault.resync_pos _
    | some c =>
      have hp := symbol.width_pos_of_char c hc
      simp only [read,hd,hs,hc,Bool.false_eq_true,if_false]
      split
      · next ha =>
        have hr := runWidth_of_accept isWordChar w symbol c hd hc (by simp [isWordChar,ha])
        simp only [width]
        omega
      · split
        · next ha =>
          have hr := runWidth_of_accept Char.isDigit w symbol c hd hc ha
          simp only [width]
          omega
        · split
          · simpa only [width] using hp
          · simpa only [width] using Fault.resync_pos _

/-- Reading past an item leaves less of the window. -/
theorem drop_lt_of_read (w : List UInt8) (h : read w ≠ .finish) :
    (w.drop (read w).width).length < w.length := by
  obtain ⟨hp,hn⟩ := width_pos_of_read w h
  have hl := List.length_pos_iff.mpr hn
  simp only [List.length_drop]
  omega

end Item

end Lexis
