import Lexis.Proofs.Course

/-!
Scans do not depend on where a window begins. `ofWindow_shift` says that the same bytes, further
back in a source, give the same scan with its offsets moved and all else as it was.
-/

namespace Lexis

/-- The range moved by n bytes. -/
def Span.shift (n : Nat) (s : Span) : Span :=
  ⟨s.start+n,s.stop+n,Nat.add_le_add_right s.start_le_stop n⟩

def Token.shift (n : Nat) (t : Token) : Token := ⟨t.kind,t.span.shift n⟩

def Label.shift (n : Nat) (l : Label) : Label := { l with offset := l.offset+n }

/-- The error moved by n bytes, if it has a place. -/
def Error.shift (n : Nat) : Error → Error
  | .lexical offset f => .lexical (offset+n) f
  | e => e

def Scan.shift (n : Nat) (s : Scan) : Scan :=
  ⟨s.tokens.map (Token.shift n),s.errors.map (Error.shift n),s.stop+n⟩

theorem Span.ofWidth_shift (start width n : Nat) :
    Span.ofWidth (start+n) width = (Span.ofWidth start width).shift n := by
  have h : start+n+width = start+width+n := Nat.add_right_comm start n width
  simp only [ofWidth,shift,h]

theorem Token.finish_shift (offset n : Nat) :
    Token.finish (offset+n) = (Token.finish offset).shift n := by
  simp only [finish,shift,Span.ofWidth_shift]

/-- The label moves with its error. -/
theorem Error.label_shift (n : Nat) (e : Error) :
    (e.shift n).label? = e.label?.map (Label.shift n) := by
  cases e with
  | lexical offset f =>
    rcases f with (_ | _ | _) | _ <;>
      simp [shift,label?,Fault.label,Label.shift,Nat.add_right_comm]
  | _ => rfl

namespace Scan

theorem shift_labels (n : Nat) (s : Scan) :
    (s.shift n).errors.map Error.label? =
      s.errors.map (fun e => e.label?.map (Label.shift n)) := by
  simp [shift,Function.comp_def,Error.label_shift]

theorem shift_withToken (n start width : Nat) (kind : Kind) (s : Scan) :
    (s.withToken ⟨kind,.ofWidth start width⟩).shift n =
      (s.shift n).withToken ⟨kind,.ofWidth (start+n) width⟩ := by
  rw [Span.ofWidth_shift]
  rfl

theorem shift_withError (n start : Nat) (f : Fault) (s : Scan) :
    (s.withError (.lexical start f)).shift n =
      (s.shift n).withError (.lexical (start+n) f) := rfl

theorem ofWindow_shift (recovery : Recovery) (n offset : Nat) (w : List UInt8) :
    ofWindow recovery (offset+n) w = (ofWindow recovery offset w).shift n := by
  induction offset, w using Scan.ofWindow.induct recovery with
  | case1 offset w rest h =>
    rw [ofWindow_finish recovery _ w h,ofWindow_finish recovery _ w h,
      Nat.add_right_comm offset n,Token.finish_shift]
    rfl
  | case2 offset w start rest kind width h ih =>
    rw [ofWindow_token recovery _ w kind width h,ofWindow_token recovery _ w kind width h,
      shift_withToken,Nat.add_right_comm offset n,Nat.add_right_comm _ n,ih]
  | case3 offset w rest f h hr =>
    subst hr
    rw [ofWindow_abort _ w f h,ofWindow_abort _ w f h,Nat.add_right_comm offset n]
    rfl
  | case4 offset w start rest f h hr ih =>
    subst hr
    rw [ofWindow_error _ w f h,ofWindow_error _ w f h,shift_withError,Nat.add_right_comm offset n,
      Nat.add_right_comm _ n,ih]

end Scan

end Lexis
