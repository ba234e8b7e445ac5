import Lexis.Recovery
import Lexis.Token

/-!
All tokens of a window with the errors met on the way. Scanning stops at the end of the window, or
at the first fault if it is not to skip faults.
-/

namespace Lexis

structure Scan where
  tokens : List Token
  errors : List Error
  /-- Where the scan stopped. -/
  stop : Nat
  deriving DecidableEq, Repr

namespace Scan

/-- Scans a window that begins at the offset. -/
def ofWindow (recovery : Recovery) (offset : Nat) (w : List UInt8) : Scan :=
  let start := offset+runWidth isBlank w
  let rest := w.drop (runWidth isBlank w)
  match _ : Item.read rest with
  | .finish => ⟨[.finish start],[],start⟩
  | .lexeme kind width =>
    let tail := ofWindow recovery (start+width) (rest.drop width)
    { tail with tokens := ⟨kind,.ofWidth start width⟩::tail.tokens }
  | .fault fault =>
    match recovery with
    | .abort => ⟨[],[.lexical start fault],start⟩
    | .skip =>
      let tail := ofWindow recovery (start+fault.resync) (rest.drop fault.resync)
      { tail with errors := .lexical start fault::tail.errors }
termination_by w.length
decreasing_by
  all_goals
    have hr := Item.drop_lt_of_read rest (by simp_all)
    have hd : rest.length ≤ w.length := by simp [rest]
    simp_all [Item.width]
    omega

theorem ofWindow_finish (recovery : Recovery) (offset : Nat) (w : List UInt8)
    (h : Item.read (w.drop (runWidth isBlank w)) = .finish) :
    ofWindow recovery offset w =
      ⟨[.finish (offset+runWidth isBlank w)],[],offset+runWidth isBlank w⟩ := by
  rw [ofWindow]
  split <;> simp_all

theorem ofWindow_lexeme (recovery : Recovery) (offset : Nat) (w : List UInt8) (kind : Kind)
    (width : Nat) (h : Item.read (w.drop (runWidth isBlank w)) = .lexeme kind width) :
    ofWindow recovery offset w =
      let start := offset+runWidth isBlank w
      let tail := ofWindow recovery (start+width) ((w.drop (runWidth isBlank w)).drop width)
      { tail with tokens := ⟨kind,.ofWidth start width⟩::tail.tokens } := by
  rw [ofWindow]
  split <;> simp_all

theorem ofWindow_abort (offset : Nat) (w : List UInt8) (fault : Fault)
    (h : Item.read (w.drop (runWidth isBlank w)) = .fault fault) :
    ofWindow .abort offset w =
      ⟨[],[.lexical (offset+runWidth isBlank w) fault],offset+runWidth isBlank w⟩ := by
  rw [ofWindow]
  split <;> simp_all

theorem ofWindow_skip (offset : Nat) (w : List UInt8) (fault : Fault)
    (h : Item.read (w.drop (runWidth isBlank w)) = .fault fault) :
    ofWindow .skip offset w =
      let start := offset+runWidth isBlank w
      let tail := ofWindow .skip (start+fault.resync)
        ((w.drop (runWidth isBlank w)).drop fault.resync)
      { tail with errors := .lexical start fault::tail.errors } := by
  rw [ofWindow]
  split <;> simp_all

/-- The tokens if the scan met no error, otherwise the errors alone. -/
def result (s : Scan) : Except (List Error) (List Token) :=
  if s.errors.isEmpty then .ok s.tokens else .error s.errors

end Scan

/-- Scans from the cursor on, which then stands where the scan stopped. -/
def Reader.scan (r : Reader) (recovery : Recovery) : Scan × Reader :=
  let s := Scan.ofWindow recovery r.cursor r.window
  (s,r.forward (s.stop-r.cursor))

/-- The scan of a whole source. -/
def Source.scan (s : Source) (recovery : Recovery) : Scan := ((Reader.ofSource s).scan recovery).1

theorem Source.scan_eq (s : Source) (recovery : Recovery) :
    s.scan recovery = Scan.ofWindow recovery 0 s.bytes := rfl

end Lexis
