import Lexis.Proofs.Glyph

/-!
The walk over a window that goes on past its end. All glyphs before an incomplete sequence stay as
they are; the incomplete sequence itself becomes a defect of its lead byte, and its continuation
bytes become strays, when a byte follows that does not continue it.
-/

namespace Lexis.Glyph

/-- No byte is missing from the glyph. -/
def Whole (g : Glyph) : Prop := ∀ n k,g.reading ≠ .error (.truncated n k)

theorem width_le (offset : Nat) (w : List UInt8) :
    w ≠ [] → (Glyph.mk offset (Sequence.decode w)).width ≤ w.length := by
  intro hn
  cases hd : Sequence.decode w with
  | error d => exact Item.resync_malformed_le w d hd
  | ok s => exact (Sequence.decode_width w s hd).1

/-- A window is whole glyphs and then at most one truncated sequence. Bytes after the window change
none of the whole glyphs. -/
theorem cut_split (offset : Nat) (w : List UInt8) :
    ∃ gs p q,w = p++q ∧ (∀ g ∈ gs,g.Whole) ∧
      (q = [] ∨ ∃ n,Sequence.decode q = .error (.truncated n q.length)) ∧
      ∀ r,cut offset (w++r) = gs++cut (offset+p.length) (q++r) := by
  induction offset, w using cut.induct with
  | case1 offset => exact ⟨[],[],[],rfl,by simp,.inl rfl,fun r => by simp⟩
  | case2 offset w hn g ih =>
    by_cases hg : g.Whole
    · obtain ⟨gs,p,q,hw,hgs,hq,hc⟩ := ih
      have hl : g.width ≤ w.length := width_le offset w hn
      refine ⟨g::gs,w.take g.width++p,q,?_,?_,hq,?_⟩
      · rw [List.append_assoc,← hw,List.take_append_drop]
      · intro h hm
        cases hm with
        | head => exact hg
        | tail _ hm => exact hgs h hm
      · intro r
        have hd : g = ⟨offset,Sequence.decode (w++r)⟩ := by
          rw [Sequence.decode_append w r hn hg]
        rw [cut_step offset (w++r) g (by simp [hn]) hd,List.drop_append_of_le_length hl]
        have hr := hc r
        rw [stop] at hr
        rw [hr,List.length_append,List.length_take_of_le hl,Nat.add_assoc]
        rfl
    · obtain ⟨n,k,h⟩ : ∃ n k,Sequence.decode w = .error (.truncated n k) := by
        simpa [Whole] using hg
      obtain ⟨_,_,_,hk,_⟩ := Sequence.decode_truncated w n k h
      subst hk
      exact ⟨[],[],w,rfl,by simp,.inr ⟨n,h⟩,fun r => by simp⟩

theorem cut_truncated (offset : Nat) (w : List UInt8) (n k : Nat)
    (h : Sequence.decode w = .error (.truncated n k)) :
    cut offset w = [⟨offset,.error (.truncated n k)⟩] := by
  obtain ⟨b,rest,rfl,hk,_⟩ := Sequence.decode_truncated w n k h
  have hw : (Glyph.mk offset (.error (.truncated n k))).width = (b::rest).length := by
    simp only [width,Fault.resync,hk,List.length_cons]
    omega
  rw [cut_step offset _ _ (by simp) rfl,h,hw,List.drop_length,cut_nil]

/-- The glyphs of continuation bytes that continue nothing. -/
def strays (offset : Nat) (w : List UInt8) : List Glyph :=
  w.mapIdx (fun i b => ⟨offset+i,.error (.badLead b)⟩)

theorem cut_strays (offset : Nat) (w r : List UInt8)
    (hw : ∀ b ∈ w,Sequence.isContinuation b = true) :
    cut offset (w++r) = strays offset w++cut (offset+w.length) r := by
  induction w generalizing offset with
  | nil => simp [strays]
  | cons b w ih =>
    have hb := Sequence.decode_continuation b (w++r) (hw b (by simp))
    have hall : ∀ c ∈ w,Sequence.isContinuation c = true := by
      intro c hc
      exact hw c (List.mem_cons_of_mem b hc)
    have hr := ih (offset+1) hall
    have hs : strays offset (b::w) = ⟨offset,.error (.badLead b)⟩::strays (offset+1) w := by
      simp [strays,List.mapIdx_cons,Nat.add_comm,Nat.add_left_comm]
    rw [List.cons_append,cut_step offset _ _ (by simp) rfl,hb,hs]
    change _::cut (offset+1) (w++r) = _
    rw [hr,List.length_cons,Nat.add_right_comm,Nat.add_assoc]
    rfl

/-- What becomes of a truncated sequence when a byte comes that does not continue it. -/
theorem cut_interrupted (offset : Nat) (w r : List UInt8) (b : UInt8) (n k : Nat)
    (h : Sequence.decode w = .error (.truncated n k))
    (hb : Sequence.isContinuation b = false) :
    cut offset (w++b::r) =
      ⟨offset,.error (.badContinuation b k)⟩::strays (offset+1) w.tail++
        cut (offset+w.length) (b::r) := by
  have hd := Sequence.decode_interrupted w r b n k h hb
  obtain ⟨c,rest,rfl,hk,_,hall⟩ := Sequence.decode_truncated w n k h
  rw [cut_step offset _ _ (by simp) rfl,hd]
  change _::cut (offset+1) (rest++b::r) = _
  rw [cut_strays (offset+1) rest (b::r) hall,List.length_cons,Nat.add_right_comm,Nat.add_assoc]
  rfl

end Lexis.Glyph
