import Lexis.Scan
import Lexis.Proofs.Class

/-!
The course of a scan: past the blanks, over one item, and on from there. A scan that skips faults
passes the whole window and says so with one last token; no token before it claims to be the end.
-/

namespace Lexis

theorem Encoding.decoder_utf8 : Encoding.utf8.decoder? = some Sequence.decode := rfl

/-- UTF-8 bytes without a name. -/
def Source.ofUtf8 (bytes : List UInt8) : Source := ⟨none,.utf8,bytes,Encoding.decoder_utf8⟩

namespace Item

theorem lexeme_ne_end (w : List UInt8) (kind : Kind) (width : Nat)
    (h : read w = .lexeme kind width) : kind ≠ .endOfFile := by
  obtain ⟨_,c,_,_,hf,_⟩ := (read_eq_lexeme_iff w kind width).mp h
  exact Kind.ofFirst_ne_end c kind hf

/-- A malformed sequence is passed inside its window, a truncated one with all of it. -/
theorem resync_malformed_le (w : List UInt8) (d : Defect) (h : Sequence.decode w = .error d) :
    (Fault.malformed d).resync ≤ w.length := by
  have hp : 0 < w.length := List.length_pos_iff.mpr (Sequence.ne_nil_of_error w d h)
  cases d with
  | truncated n k =>
    obtain ⟨_,_,_,hk,_⟩ := Sequence.decode_truncated w n k h
    simp only [Fault.resync]
    omega
  | badLead b => exact hp
  | badContinuation b i => exact hp

theorem resync_le (w : List UInt8) (f : Fault) (h : read w = .fault f) :
    f.resync ≤ w.length := by
  rcases (read_eq_fault_iff w f).mp h with ⟨d,hd,rfl⟩ | ⟨s,hd,hs,_,rfl⟩
  · exact resync_malformed_le w d hd
  · have hp : s.width ≠ 0 := by simpa [Symbol.isEnd] using hs
    have hw := (Sequence.decode_width w s hd).1
    simp only [Fault.resync]
    omega

end Item

namespace Scan

/-- The scan with one more token at its front. -/
def withToken (t : Token) (s : Scan) : Scan := { s with tokens := t::s.tokens }

/-- The scan with one more error at its front. -/
def withError (e : Error) (s : Scan) : Scan := { s with errors := e::s.errors }

theorem ofWindow_token (recovery : Recovery) (offset : Nat) (w : List UInt8) (kind : Kind)
    (width : Nat) (h : Item.read (w.drop (runWidth isBlank w)) = .lexeme kind width) :
    ofWindow recovery offset w =
      (ofWindow recovery (offset+runWidth isBlank w+width)
        ((w.drop (runWidth isBlank w)).drop width)).withToken
          ⟨kind,.ofWidth (offset+runWidth isBlank w) width⟩ :=
  ofWindow_lexeme recovery offset w kind width h

theorem ofWindow_error (offset : Nat) (w : List UInt8) (f : Fault)
    (h : Item.read (w.drop (runWidth isBlank w)) = .fault f) :
    ofWindow .skip offset w =
      (ofWindow .skip (offset+runWidth isBlank w+f.resync)
        ((w.drop (runWidth isBlank w)).drop f.resync)).withError
          (.lexical (offset+runWidth isBlank w) f) :=
  ofWindow_skip offset w f h

/-- The last token, and no other, is the end of the window, and there the scan stops. -/
theorem skip_ends (offset : Nat) (w : List UInt8) :
    ∃ before,(ofWindow .skip offset w).tokens = before++[.finish (offset+w.length)] ∧
      (∀ t ∈ before,t.kind ≠ .endOfFile) ∧ (ofWindow .skip offset w).stop = offset+w.length := by
  induction offset, w using Scan.ofWindow.induct Recovery.skip with
  | case1 offset w rest h =>
    have hr : rest = [] := (Item.read_eq_finish_iff rest).mp h
    have hl : w.length ≤ runWidth isBlank w := List.drop_eq_nil_iff.mp hr
    have hw : runWidth isBlank w = w.length := Nat.le_antisymm (runWidth_le isBlank w) hl
    rw [ofWindow_finish .skip offset w h,hw]
    exact ⟨[],rfl,by simp,rfl⟩
  | case2 offset w start rest kind width h ih =>
    obtain ⟨before,ht,hk,hs⟩ := ih
    have hr := (Item.lexeme_width rest kind width h).2
    have hb := runWidth_le isBlank w
    have hl : start+width+(rest.drop width).length = offset+w.length := by
      simp only [start,rest,List.length_drop] at hr ⊢
      omega
    rw [hl] at ht hs
    rw [ofWindow_token .skip offset w kind width h]
    refine ⟨⟨kind,.ofWidth start width⟩::before,congrArg (List.cons _) ht,?_,hs⟩
    intro t hm
    cases hm with
    | head => exact Item.lexeme_ne_end rest kind width h
    | tail _ hm => exact hk t hm
  | case3 offset w rest f h hr => cases hr
  | case4 offset w start rest f h hr ih =>
    obtain ⟨before,ht,hk,hs⟩ := ih
    have hp := Item.resync_le rest f h
    have hb := runWidth_le isBlank w
    have hl : start+f.resync+(rest.drop f.resync).length = offset+w.length := by
      simp only [start,rest,List.length_drop] at hp ⊢
      omega
    rw [hl] at ht hs
    rw [ofWindow_error offset w f h]
    exact ⟨before,ht,hk,hs⟩

end Scan

end Lexis
