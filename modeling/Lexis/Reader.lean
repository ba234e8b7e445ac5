import Lexis.Source
import Lexis.Text.Quoted

/-!
A cursor that moves forward through a source. Reading a character either moves past all of it or,
where the bytes are malformed, does not move.
-/

namespace Lexis

structure Reader where
  source : Source
  cursor : Nat
  cursor_le_size : cursor ≤ source.size
  deriving DecidableEq

namespace Reader

def ofSource (s : Source) : Reader := ⟨s,0,Nat.zero_le _⟩

/-- The bytes from the cursor to the end. -/
def window (r : Reader) : List UInt8 := r.source.bytes.drop r.cursor

def remaining (r : Reader) : Nat := r.source.size-r.cursor

def isAtEnd (r : Reader) : Bool := r.source.size ≤ r.cursor

/-- Moves by the given number of bytes, or to the end if there are fewer. -/
def forward (r : Reader) (count : Nat) : Reader :=
  { r with
    cursor := min (r.cursor+count) r.source.size
    cursor_le_size := Nat.min_le_right _ _ }

/-- The character under the cursor. -/
def peek (r : Reader) : Except Error Symbol :=
  match Sequence.decode r.window with
  | .ok symbol => .ok symbol
  | .error defect => .error (.lexical r.cursor (.malformed defect))

/-- The character under the cursor, which then moves past it. -/
def advance (r : Reader) : Except Error Symbol × Reader :=
  match r.peek with
  | .ok symbol => (.ok symbol,r.forward symbol.width)
  | .error e => (.error e,r)

/-- Moves without decoding, and tells by how many bytes. -/
def skip (r : Reader) (count : Nat) : Nat × Reader :=
  (min count r.remaining,r.forward count)

/-- Tells all about a reader but the content of its source. -/
def describe (r : Reader) : String :=
  let name := match r.source.name with
    | some name => "Some("++Text.quoted name++")"
    | none => "None"
  "SourceBuffer \x7b name: "++name++", encoding: "++r.source.encoding.label++
    s!", len: {r.source.size}, cursor: {r.cursor} "++"\x7d"

theorem window_length (r : Reader) : r.window.length = r.remaining := by
  simp [window,remaining,Source.size]

theorem forward_source (r : Reader) (count : Nat) : (r.forward count).source = r.source := rfl

theorem forward_window (r : Reader) (count : Nat) :
    (r.forward count).window = r.window.drop count := by
  simp only [window,forward,List.drop_drop,Source.size]
  by_cases h : r.cursor+count ≤ r.source.bytes.length
  · rw [Nat.min_eq_left h]
  · rw [Nat.min_eq_right (by omega),List.drop_eq_nil_of_le (Nat.le_refl _),
      List.drop_eq_nil_of_le (by omega)]

theorem skip_cursor (r : Reader) (count : Nat) :
    (r.skip count).2.cursor = r.cursor+(r.skip count).1 := by
  have hc : r.cursor ≤ r.source.size := r.cursor_le_size
  simp only [skip,forward,remaining]
  omega

end Reader

end Lexis
