import Lexis.Error
import Lexis.Item
import Lexis.Reader
import Lexis.Span

/-!
Tokens, and the reader's way from one to the next: past the blanks, then over one lexeme. A fault
leaves the cursor where it begins, so whoever reads next meets the same fault.
-/

namespace Lexis

structure Token where
  kind : Kind
  span : Span
  deriving DecidableEq, Repr

namespace Token

def isEnd (t : Token) : Bool := t.kind == .endOfFile

/-- The token that ends a source, at its last offset. -/
def finish (offset : Nat) : Token := ⟨.endOfFile,.ofWidth offset 0⟩

end Token

/-- The next token. At the end of the source it is the end, again and again. -/
def Reader.next (r : Reader) : Except Error Token × Reader :=
  let r := r.forward (runWidth isBlank r.window)
  match Item.read r.window with
  | .finish => (.ok (.finish r.cursor),r)
  | .lexeme kind width => (.ok ⟨kind,.ofWidth r.cursor width⟩,r.forward width)
  | .fault fault => (.error (.lexical r.cursor fault),r)

/-- One pass over the tokens of a reader. It is over after the end of the source or an error,
whatever other passes do with the reader. -/
structure Stream where
  finished : Bool
  deriving DecidableEq, Repr

namespace Stream

def fresh : Stream := ⟨false⟩

/-- The next result of the pass, none once it is over. -/
def pull (s : Stream) (r : Reader) : Option (Except Error Token) × Stream × Reader :=
  if s.finished then (none,s,r)
  else
    match r.next with
    | (.ok token,r) => (some (.ok token),⟨token.isEnd⟩,r)
    | (.error e,r) => (some (.error e),⟨true⟩,r)

theorem pull_of_finished (s : Stream) (r : Reader) (h : s.finished = true) :
    s.pull r = (none,s,r) := by
  simp [pull,h]

end Stream

end Lexis
