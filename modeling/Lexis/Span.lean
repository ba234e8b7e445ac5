/-!
Half-open ranges of byte offsets.
-/

namespace Lexis

structure Span where
  start : Nat
  stop : Nat
  start_le_stop : start ≤ stop := by omega
  deriving DecidableEq, Repr

namespace Span

inductive Error where
  | reversed
  deriving DecidableEq, Repr

def Error.message : Error → String
  | .reversed => "span begins after it ends"

def ofBounds (start stop : Nat) : Except Error Span :=
  if h : start ≤ stop then .ok ⟨start,stop,h⟩ else .error .reversed

/-- The range of the given width. -/
def ofWidth (start width : Nat) : Span := ⟨start,start+width,by omega⟩

def width (s : Span) : Nat := s.stop-s.start

def isEmpty (s : Span) : Bool := s.start == s.stop

end Span

end Lexis
