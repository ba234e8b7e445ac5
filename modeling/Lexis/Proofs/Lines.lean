import Lexis.Lexeme
import Lexis.Proofs.Next
import Mathlib.Data.List.DropRight

/-!
Lines and columns. A position counts the newlines before an offset and then looks back to the last
of them; `position_succ` says that going on byte by byte leads to the same place. So a later offset
has a later position, a position leads back to its offset, and the tokens of a scan stand one behind
the other.
-/

namespace Lexis

namespace Position

/-- The position behind a byte. -/
def after (p : Position) (b : UInt8) : Position :=
  if b = Source.newline then ⟨p.line+1,1⟩ else ⟨p.line,p.column+1⟩

/-- On a line further up, or further left on the same line. -/
def Before (p q : Position) : Prop := p.line < q.line ∨ p.line = q.line ∧ p.column < q.column

theorem Before.trans {p q r : Position} (hp : p.Before q) (hq : q.Before r) : p.Before r := by
  unfold Before at hp hq ⊢
  omega

theorem before_after (p : Position) (b : UInt8) : p.Before (p.after b) := by
  by_cases hb : b = Source.newline
  · left
    simp [after,hb]
  · right
    simp [after,hb]

end Position

namespace Source

/-- The offset behind the given number of newlines, or the end if there are fewer. -/
def behindNewlines : Nat → List UInt8 → Nat
  | 0,_ => 0
  | _+1,[] => 0
  | count+1,b::rest => 1+behindNewlines (if b = newline then count else count+1) rest

/-- The offset at which the line of the given number begins. -/
def lineStart (s : Source) (line : Nat) : Nat := behindNewlines (line-1) s.bytes

/-- The offset of a position: the start of its line, and the columns on the left of it. -/
def offsetOf (s : Source) (p : Position) : Nat := s.lineStart p.line+(p.column-1)

theorem position_zero (s : Source) : s.position 0 = ⟨1,1⟩ := by
  simp [position]

theorem position_succ (s : Source) (offset : Nat) (b : UInt8) (hb : s.bytes[offset]? = some b) :
    s.position (offset+1) = (s.position offset).after b := by
  obtain ⟨hlt,hget⟩ := List.getElem?_eq_some_iff.mp hb
  have htake : s.bytes.take (offset+1) = s.bytes.take offset++[b] := by
    rw [List.take_succ_eq_append_getElem hlt,hget]
  have hback : (s.bytes.take offset++[b]).reverse = b::(s.bytes.take offset).reverse := by simp
  by_cases hnew : b = newline
  · simp [position,htake,Position.after,hnew]
  · simp [position,htake,hback,Position.after,hnew]

theorem position_past_end (s : Source) (offset : Nat) (h : s.size ≤ offset) :
    s.position offset = s.position s.size := by
  have hwhole : s.bytes.take offset = s.bytes.take s.size := by
    rw [List.take_of_length_le h,size,List.take_length]
  rw [position,position,hwhole]

/-- Further on in the source is further on in lines and columns. -/
theorem position_before (s : Source) (i j : Nat) (hij : i < j) (hj : j ≤ s.size) :
    (s.position i).Before (s.position j) := by
  induction j with
  | zero => omega
  | succ j ih =>
    have hb := List.getElem?_eq_getElem hj
    have hstep := (s.position j).before_after s.bytes[j]
    rw [← s.position_succ j _ hb] at hstep
    by_cases hi : i = j
    · rw [hi]
      exact hstep
    · apply (ih (by omega) (by omega)).trans
      exact hstep

/-- Counting all newlines up to one of them leads behind it. -/
theorem behindNewlines_append (whole rest : List UInt8) :
    behindNewlines (whole.count newline+1) (whole++newline::rest) = whole.length+1 := by
  induction whole with
  | nil => simp [behindNewlines]
  | cons b whole ih =>
    by_cases hb : b = newline
    · simp [behindNewlines,hb,ih,Nat.add_comm]
    · simp [behindNewlines,hb,ih,Nat.add_comm]

/-- Bytes are whole lines, each with its newline, and then the beginning of a line, which is what
looking back from the end finds. -/
theorem exists_lines (w : List UInt8) :
    ∃ whole begun,w = whole++begun ∧ newline ∉ begun ∧
      begun.length = (w.reverse.takeWhile (· != newline)).length ∧
      (whole = [] ∨ ∃ before,whole = before++[newline]) := by
  refine ⟨w.rdropWhile (· != newline),w.rtakeWhile (· != newline),
    List.rdropWhile_append_rtakeWhile.symm,?_,List.length_reverse,?_⟩
  · intro h
    have hne := List.mem_rtakeWhile_imp h
    simp at hne
  · by_cases hnil : w.rdropWhile (· != newline) = []
    · exact .inl hnil
    · have hlast := List.rdropWhile_last_not _ w hnil
      have hnew : (w.rdropWhile (· != newline)).getLast hnil = newline := by simpa using hlast
      have hsplit := (List.dropLast_append_getLast hnil).symm
      rw [hnew] at hsplit
      exact .inr ⟨_,hsplit⟩

/-- The line and the column of an offset lead back to it. -/
theorem offsetOf_position (s : Source) (offset : Nat) (h : offset ≤ s.size) :
    s.offsetOf (s.position offset) = offset := by
  obtain ⟨whole,begun,hw,hnone,hlength,hends⟩ := exists_lines (s.bytes.take offset)
  have hcount : (s.bytes.take offset).count newline = whole.count newline := by
    rw [hw,List.count_append,List.count_eq_zero.mpr hnone]
    rfl
  have htotal : whole.length+begun.length = offset := by
    rw [← List.length_append,← hw]
    exact List.length_take_of_le h
  have hstart : s.lineStart (s.position offset).line = whole.length := by
    show behindNewlines ((s.bytes.take offset).count newline) s.bytes = whole.length
    rw [hcount,← List.take_append_drop offset s.bytes,hw]
    rcases hends with rfl | ⟨before,rfl⟩
    · rw [List.count_nil,behindNewlines,List.length_nil]
    · have hbehind := behindNewlines_append before (begun++s.bytes.drop offset)
      simpa using hbehind
  rw [offsetOf,hstart]
  show whole.length+((s.bytes.take offset).reverse.takeWhile (· != newline)).length = offset
  rw [← hlength]
  exact htotal

/-- The line of an offset begins where it is said to begin. -/
theorem position_lineStart (s : Source) (offset : Nat) (h : offset ≤ s.size) :
    s.position (s.lineStart (s.position offset).line) = ⟨(s.position offset).line,1⟩ := by
  induction offset with
  | zero =>
    have hstart : s.lineStart 1 = 0 := by rw [lineStart,Nat.sub_self,behindNewlines]
    rw [s.position_zero,hstart,s.position_zero]
  | succ offset ih =>
    have hb := List.getElem?_eq_getElem h
    have hback := s.offsetOf_position (offset+1) h
    have hstep := s.position_succ offset _ hb
    by_cases hnew : s.bytes[offset] = newline
    · have hcolumn : (s.position (offset+1)).column = 1 := by
        rw [hstep,Position.after,if_pos hnew]
      rw [offsetOf,hcolumn,Nat.sub_self,Nat.add_zero] at hback
      rw [hback,Position.mk.injEq]
      exact ⟨rfl,hcolumn⟩
    · have hline : (s.position (offset+1)).line = (s.position offset).line := by
        rw [hstep,Position.after,if_neg hnew]
      rw [hline]
      exact ih (Nat.le_of_succ_le h)

end Source

/-- A scan gives its tokens in the order of their beginnings, the end of the source among them. -/
theorem Reader.scan_starts (r : Reader) (recovery : Recovery) :
    (∀ t ∈ (r.scan recovery).1.tokens,
        r.cursor ≤ t.span.start ∧ t.span.start ≤ r.source.size) ∧
      (r.scan recovery).1.tokens.Pairwise (fun t u => t.span.start < u.span.start) := by
  induction r using next_induction with
  | finish r t r' hn ht =>
    obtain ⟨rfl,_⟩ := next_of_end hn ht
    rw [scan_of_end recovery hn ht]
    have hc := r.cursor_le_size
    simp [Token.finish,Span.ofWidth,hc]
  | token r t r' hn ht ih =>
    obtain ⟨hr,hstart,hlt,hstop⟩ := next_of_token hn ht
    obtain ⟨hinside,hpairs⟩ := ih
    have hc := r'.cursor_le_size
    rw [hr.source] at hinside hc
    rw [scan_of_token recovery hn ht]
    constructor
    · intro u hu
      rcases List.mem_cons.mp hu with rfl | hu
      · omega
      · have := hinside u hu
        omega
    · apply List.pairwise_cons.mpr
      refine ⟨?_,hpairs⟩
      intro u hu
      have := hinside u hu
      omega
  | fault r e r' hn ih =>
    cases recovery with
    | abort =>
      rw [scan_abort_of_error hn]
      simp
    | skip =>
      obtain ⟨hr,_⟩ := next_of_error hn
      have hpass := hr.trans (r'.forward_reaches (e.resync?.getD 0))
      obtain ⟨hinside,hpairs⟩ := ih
      rw [scan_skip_of_error hn]
      refine ⟨?_,hpairs⟩
      intro u hu
      have hu := hinside u hu
      have hc := hpass.cursor
      rw [← hpass.source]
      exact ⟨Nat.le_trans hc hu.1,hu.2⟩

/-- The first byte of a source is in the first column of the first line. Behind a newline comes the
first column of the next line, behind any other byte the next column, and behind the end nothing
more. So further on in the source is further on in lines and columns, and a position gives its
offset back, as far behind the start of its line as there are columns before it. The tokens of a
scan stand one behind the other in this order, the end of the source among them. -/
theorem positions_increase (s : Source) :
    s.position 0 = ⟨1,1⟩ ∧
      (∀ offset b,s.bytes[offset]? = some b → s.position (offset+1) =
        if b = Source.newline then ⟨(s.position offset).line+1,1⟩
          else ⟨(s.position offset).line,(s.position offset).column+1⟩) ∧
      (∀ offset,s.size ≤ offset → s.position offset = s.position s.size) ∧
      (∀ i j,i < j → j ≤ s.size → (s.position i).Before (s.position j)) ∧
      (∀ offset,offset ≤ s.size →
        s.offsetOf (s.position offset) = offset ∧
        s.position (s.lineStart (s.position offset).line) = ⟨(s.position offset).line,1⟩) ∧
      ∀ (r : Reader) (recovery : Recovery),r.source = s →
        ((Lexeme.ofTokens s (r.scan recovery).1.tokens).map Lexeme.position).Pairwise
          Position.Before := by
  refine ⟨s.position_zero,s.position_succ,s.position_past_end,s.position_before,?_,?_⟩
  · intro offset h
    exact ⟨s.offsetOf_position offset h,s.position_lineStart offset h⟩
  · rintro r recovery rfl
    obtain ⟨hinside,hpairs⟩ := r.scan_starts recovery
    rw [Lexeme.ofTokens,List.map_map,List.pairwise_map]
    apply hpairs.imp_of_mem
    intro t u _ hu hlt
    exact r.source.position_before t.span.start u.span.start hlt (hinside u hu).2

/-- A newline between two letters, and one at the end. -/
example : [0,1,2,3,4].map (Source.ofUtf8 [0x61,0x0A,0x62,0x0A]).position =
    [⟨1,1⟩,⟨1,2⟩,⟨2,1⟩,⟨2,2⟩,⟨3,1⟩] := by decide

end Lexis
