import Lexis.Lexeme
import Lexis.Scan

/-!
Several readers at work, call by call. Any number of passes may share a reader; all of them move
its one cursor. The tokens that calls return are kept with the number of their reader.
-/

namespace Lexis

/-- A stream of tokens from the reader of the given number. -/
structure Pass where
  owner : Nat
  stream : Stream
  deriving DecidableEq, Repr

structure Saved where
  owner : Nat
  lexeme : Lexeme
  deriving DecidableEq

/-- Tokens are the same if class, span and reader are; equal text is not enough. -/
def Saved.same (a b : Saved) : Bool :=
  a.owner == b.owner && a.lexeme.token == b.lexeme.token

structure Session where
  readers : List Reader
  passes : List Pass
  saved : List Saved
  deriving DecidableEq

namespace Session

def ofReaders (readers : List Reader) : Session := ⟨readers,[],[]⟩

inductive Call where
  | peek
  | advance
  | skip (count : Nat)
  | next
  | startPass
  | pull (pass : Nat)
  | scan (recovery : Recovery)
  | scanPartial (recovery : Recovery)
  deriving DecidableEq, Repr

inductive Answer where
  | symbol (result : Except Error Symbol)
  | skipped (count : Nat)
  | token (result : Except Error Lexeme)
  | pass (index : Nat)
  | pulled (result : Option (Except Error Lexeme))
  | tokens (result : Except (List Error) (List Lexeme))
  | partialScan (tokens : List Lexeme) (errors : List Error)

/-- Puts a reader back after a call that returned the tokens. -/
def update (s : Session) (owner : Nat) (r : Reader) (tokens : List Token) : Session :=
  { s with
    readers := s.readers.set owner r
    saved := s.saved++tokens.map (fun t => ⟨owner,⟨r.source,t⟩⟩) }

/-- The tokens that a result holds. -/
def tokensOf : Except Error Token → List Token
  | .ok token => [token]
  | .error _ => []

/-- One call on the reader of the given number; `pull` goes to the reader of its pass. There is no
answer if there is no such reader or pass. -/
def perform (s : Session) (owner : Nat) : Call → Option (Answer × Session)
  | .peek => do
      let r ← s.readers[owner]?
      some (.symbol r.peek,s)
  | .advance => do
      let r ← s.readers[owner]?
      let (result,r) := r.advance
      some (.symbol result,s.update owner r [])
  | .skip count => do
      let r ← s.readers[owner]?
      let (skipped,r) := r.skip count
      some (.skipped skipped,s.update owner r [])
  | .next => do
      let r ← s.readers[owner]?
      let (result,r) := r.next
      some (.token (result.map (Lexeme.mk r.source)),s.update owner r (tokensOf result))
  | .startPass => do
      let _ ← s.readers[owner]?
      some (.pass s.passes.length,{ s with passes := s.passes++[⟨owner,.fresh⟩] })
  | .pull index => do
      let pass ← s.passes[index]?
      let r ← s.readers[pass.owner]?
      let (result,stream,r) := pass.stream.pull r
      let s := s.update pass.owner r ((result.map tokensOf).getD [])
      some (.pulled (result.map (Except.map (Lexeme.mk r.source))),
        { s with passes := s.passes.set index ⟨pass.owner,stream⟩ })
  | .scan recovery => do
      let r ← s.readers[owner]?
      let (scan,r) := r.scan recovery
      let tokens := scan.result.toOption.getD []
      some (.tokens (scan.result.map (Lexeme.ofTokens r.source)),s.update owner r tokens)
  | .scanPartial recovery => do
      let r ← s.readers[owner]?
      let (scan,r) := r.scan recovery
      some (.partialScan (Lexeme.ofTokens r.source scan.tokens) scan.errors,
        s.update owner r scan.tokens)

end Session

end Lexis
