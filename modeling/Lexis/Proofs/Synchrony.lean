import Lexis.Proofs.Next
import Lexis.Proofs.Shift
import Lexis.Proofs.Walk
import Mathlib.Logic.Function.Iterate

/-!
Characters begin only at bytes that continue none. Whatever stands before such a byte, however
broken, neither a character nor the bytes that are passed for a fault reach over it. So a walk comes
to rest there, and from there on what was before makes no difference.
-/

namespace Lexis

namespace Sequence

/-- All bytes of a sequence but the first one are continuation bytes. -/
theorem gather_continuation (missing taken : Nat) (scalar : UInt32) (w : List UInt8) (s : Symbol)
    (h : gather missing taken scalar w = .ok s) (i : Nat) (b : UInt8) (hi : i < missing)
    (hb : w[i]? = some b) : isContinuation b = true := by
  induction missing generalizing taken scalar w i with
  | zero => omega
  | succ missing ih =>
    cases w with
    | nil => simp at hb
    | cons c w =>
      cases hc : isContinuation c with
      | false => simp [gather,hc] at h
      | true =>
        simp only [gather,hc,if_true] at h
        cases i with
        | zero =>
          have hcb : c = b := by simpa using hb
          rw [← hcb]
          exact hc
        | succ i => exact ih _ _ w h i (by omega) (by simpa using hb)

/-- A byte that continues no sequence is not inside a character. -/
theorem decode_boundary (w : List UInt8) (s : Symbol) (i : Nat) (b : UInt8)
    (h : decode w = .ok s) (hi : 0 < i) (hb : w[i]? = some b) (hc : isContinuation b = false) :
    s.width ≤ i := by
  obtain ⟨i,rfl⟩ : ∃ j,i = j+1 := ⟨i-1,by omega⟩
  cases w with
  | nil => simp at hb
  | cons c w =>
    cases hl : lead? c with
    | none => simp [decode,hl] at h
    | some l =>
      simp only [decode,hl] at h
      have hw := (gather_width _ _ _ _ _ h).1
      by_contra hlt
      have hin := gather_continuation _ _ _ _ _ h i b (by omega) (by simpa using hb)
      rw [hc] at hin
      cases hin

/-- Nor is it among the bytes that are passed for a defect. -/
theorem defect_boundary (w : List UInt8) (d : Defect) (i : Nat) (b : UInt8)
    (h : decode w = .error d) (hi : 0 < i) (hb : w[i]? = some b) (hc : isContinuation b = false) :
    (Fault.malformed d).resync ≤ i := by
  cases d with
  | truncated n k =>
    obtain ⟨lead,rest,rfl,_,_,hall⟩ := decode_truncated w n k h
    obtain ⟨i,rfl⟩ : ∃ j,i = j+1 := ⟨i-1,by omega⟩
    have hin := hall b (List.mem_of_getElem? (by simpa using hb))
    rw [hc] at hin
    cases hin
  | badLead c => exact hi
  | badContinuation c k => exact hi

end Sequence

namespace Glyph

theorem width_boundary (offset : Nat) (w : List UInt8) (i : Nat) (b : UInt8) (hi : 0 < i)
    (hb : w[i]? = some b) (hc : Sequence.isContinuation b = false) :
    (Glyph.mk offset (Sequence.decode w)).width ≤ i := by
  cases h : Sequence.decode w with
  | ok s => exact Sequence.decode_boundary w s i b h hi hb hc
  | error d => exact Sequence.defect_boundary w d i b h hi hb hc

end Glyph

/-- A fault where a token should begin does not reach over such a byte either. -/
theorem Item.fault_boundary (w : List UInt8) (f : Fault) (i : Nat) (b : UInt8)
    (h : Item.read w = .fault f) (hi : 0 < i) (hb : w[i]? = some b)
    (hc : Sequence.isContinuation b = false) : f.resync ≤ i := by
  rw [← (Glyph.of_fault 0 w f h).2.2]
  exact Glyph.width_boundary 0 w i b hi hb hc

namespace Reader

/-- The glyph under the cursor. -/
def glyph (r : Reader) : Glyph := ⟨r.cursor,Sequence.decode r.window⟩

/-- A step of the walk: past the character under the cursor, or past the bytes at fault. -/
def onward (r : Reader) : Reader :=
  match r.advance with
  | (.ok _,r) => r
  | (.error e,r) => (r.pass e).2

theorem onward_eq (r : Reader) : r.onward = r.forward r.glyph.width := by
  cases h : Sequence.decode r.window with
  | ok s => simp [onward,advance,peek,glyph,Glyph.width,h]
  | error d =>
    simp [onward,advance,peek,glyph,Glyph.width,h,pass,skip,Error.resync?]

theorem onward_source (r : Reader) : r.onward.source = r.source := by
  rw [r.onward_eq,forward_source]

theorem onward_cursor (r : Reader) (h : r.cursor < r.source.size) :
    r.cursor < r.onward.cursor ∧ r.onward.cursor = r.cursor+r.glyph.width := by
  have hl := r.window_length
  rw [remaining] at hl
  have hn : r.window ≠ [] := by
    intro hn
    rw [hn,List.length_nil] at hl
    omega
  have hp := Glyph.width_pos r.cursor r.window hn
  have hw := Glyph.width_le r.cursor r.window hn
  have hc : (r.forward r.glyph.width).cursor = r.cursor+r.glyph.width := by
    apply r.forward_cursor
    change r.cursor+(Glyph.mk r.cursor (Sequence.decode r.window)).width ≤ r.source.size
    omega
  rw [r.onward_eq,hc]
  refine ⟨?_,rfl⟩
  exact Nat.lt_add_of_pos_right hp

/-- A place of a source where no sequence is under way: the end, or a byte that continues none. -/
def Boundary (s : Source) (p : Nat) : Prop :=
  p ≤ s.size ∧ ∀ b,s.bytes[p]? = some b → Sequence.isContinuation b = false

/-- No step of the walk leads over a boundary. -/
theorem onward_le (r : Reader) (p : Nat) (hp : Boundary r.source p) (hlt : r.cursor < p) :
    r.onward.cursor ≤ p := by
  obtain ⟨hsize,hbyte⟩ := hp
  by_cases he : p = r.source.size
  · have hend := r.onward.cursor_le_size
    rw [r.onward_source] at hend
    rw [he]
    exact hend
  · have hin : p < r.source.bytes.length := Nat.lt_of_le_of_ne hsize he
    have hb := List.getElem?_eq_getElem hin
    have hw : r.window[p-r.cursor]? = some r.source.bytes[p] := by
      rw [window,List.getElem?_drop,Nat.add_sub_cancel' (Nat.le_of_lt hlt)]
      exact hb
    have hg := Glyph.width_boundary r.cursor r.window (p-r.cursor) _ (by omega) hw (hbyte _ hb)
    have hc := (r.onward_cursor (Nat.lt_of_lt_of_le hlt hsize)).2
    change r.onward.cursor = r.cursor+(Glyph.mk r.cursor (Sequence.decode r.window)).width at hc
    omega

/-- Behind any bytes at all, a text that begins with no continuation byte begins at a boundary. -/
theorem boundary_of_append (g : List UInt8) (s t : Source) (hs : s.bytes = g++t.bytes)
    (ht : ∀ b ∈ t.bytes.head?,Sequence.isContinuation b = false) : Boundary s g.length := by
  constructor
  · rw [Source.size,hs,List.length_append]
    exact Nat.le_add_right _ _
  · intro b hb
    rw [hs,List.getElem?_append_right (Nat.le_refl _),Nat.sub_self,← List.head?_eq_getElem?] at hb
    exact ht b hb

/-- The walk comes to every boundary ahead. -/
theorem walk_stops (r : Reader) (p : Nat) (hp : Boundary r.source p) (hle : r.cursor ≤ p) :
    ∃ n,(onward^[n] r).source = r.source ∧ (onward^[n] r).cursor = p := by
  -- Every step leaves fewer bytes up to the boundary and leads to it or short of it.
  induction hm : p-r.cursor using Nat.strongRecOn generalizing r with
  | ind m ih =>
    by_cases he : r.cursor = p
    · exact ⟨0,rfl,he⟩
    · have hlt : r.cursor < p := by omega
      have hs := r.onward_source
      have hstep := (r.onward_cursor (Nat.lt_of_lt_of_le hlt hp.1)).1
      have hnext := r.onward_le p hp hlt
      obtain ⟨n,hn,hc⟩ := ih (p-r.onward.cursor) (by omega) r.onward (by rw [hs]; exact hp)
        hnext rfl
      refine ⟨n+1,?_,?_⟩
      · rw [Function.iterate_succ_apply,hn,hs]
      · rw [Function.iterate_succ_apply]
        exact hc

/-- The second reader sees the same bytes as the first one, n bytes further back in its source. -/
structure Behind (n : Nat) (r r' : Reader) : Prop where
  cursor : r'.cursor = r.cursor+n
  size : r'.source.size = r.source.size+n
  window : r'.window = r.window

theorem Behind.of_append (g : List UInt8) (s t : Source) (hs : s.bytes = g++t.bytes) (r : Reader)
    (hr : r.source = s) (hc : r.cursor = g.length) : Behind g.length (.ofSource t) r := by
  refine ⟨?_,?_,?_⟩
  · rw [hc]
    exact (Nat.zero_add _).symm
  · rw [hr,Source.size,hs,List.length_append,Nat.add_comm]
    rfl
  · rw [Reader.window,hr,hc,hs,List.drop_left]
    rfl

theorem Behind.forward {n : Nat} {r r' : Reader} (h : Behind n r r') (count : Nat) :
    Behind n (r.forward count) (r'.forward count) := by
  refine ⟨?_,h.size,?_⟩
  · change min (r'.cursor+count) r'.source.size = min (r.cursor+count) r.source.size+n
    rw [h.cursor,h.size]
    omega
  · rw [forward_window,forward_window,h.window]

theorem Behind.onward {n : Nat} {r r' : Reader} (h : Behind n r r') :
    Behind n r.onward r'.onward := by
  have hw : r'.glyph.width = r.glyph.width := by
    rw [glyph,glyph,h.window]
    rfl
  rw [r.onward_eq,r'.onward_eq,hw]
  exact h.forward _

theorem Behind.walk {n : Nat} {r r' : Reader} (h : Behind n r r') (k : Nat) :
    Behind n (Reader.onward^[k] r) (Reader.onward^[k] r') := by
  induction k with
  | zero => exact h
  | succ k ih =>
    rw [Function.iterate_succ_apply',Function.iterate_succ_apply']
    exact ih.onward

theorem Behind.peek {n : Nat} {r r' : Reader} (h : Behind n r r') :
    r'.peek = r.peek.mapError (Error.shift n) := by
  rw [Reader.peek,Reader.peek,h.window,h.cursor]
  cases Sequence.decode r.window <;> rfl

end Reader

/-- A byte that continues no sequence is never taken for a part of what begins before it, be that a
character, a defect or a character that begins no token; and a byte that continues one begins
nothing. So the walk over any bytes at all stops where an intact text begins, and goes on as it
would over that text alone. -/
theorem walk_synchronizes :
    (∀ (w : List UInt8) (o p : Nat) (b : UInt8),o < p → w[p]? = some b →
      Sequence.isContinuation b = false →
        (∀ s,Sequence.decode (w.drop o) = .ok s → o+s.width ≤ p) ∧
        (∀ d,Sequence.decode (w.drop o) = .error d → o+(Fault.malformed d).resync ≤ p) ∧
        ∀ f,Item.read (w.drop o) = .fault f → o+f.resync ≤ p) ∧
      (∀ (w : List UInt8) (p : Nat) (b : UInt8),w[p]? = some b →
        Sequence.isContinuation b = true → Sequence.decode (w.drop p) = .error (.badLead b)) ∧
      ∀ (g : List UInt8) (s t : Source),s.bytes = g++t.bytes →
        (∀ b ∈ t.bytes.head?,Sequence.isContinuation b = false) →
          ∃ n,(Reader.onward^[n] (.ofSource s)).cursor = g.length ∧
            ∀ k,(Reader.onward^[n+k] (.ofSource s)).cursor =
                (Reader.onward^[k] (.ofSource t)).cursor+g.length ∧
              (Reader.onward^[n+k] (.ofSource s)).peek =
                (Reader.onward^[k] (.ofSource t)).peek.mapError (Error.shift g.length) := by
  refine ⟨?_,?_,?_⟩
  · intro w o p b hop hb hc
    have hi : 0 < p-o := by omega
    have hd : (w.drop o)[p-o]? = some b := by
      rw [List.getElem?_drop,Nat.add_sub_cancel' (Nat.le_of_lt hop)]
      exact hb
    refine ⟨?_,?_,?_⟩
    · intro s hs
      have := Sequence.decode_boundary _ s _ b hs hi hd hc
      omega
    · intro d hs
      have := Sequence.defect_boundary _ d _ b hs hi hd hc
      omega
    · intro f hf
      have := Item.fault_boundary _ f _ b hf hi hd hc
      omega
  · intro w p b hb hc
    obtain ⟨hlt,hb⟩ := List.getElem?_eq_some_iff.mp hb
    rw [List.drop_eq_getElem_cons hlt,hb]
    exact Sequence.decode_continuation b _ hc
  · intro g s t hs ht
    have hboundary := Reader.boundary_of_append g s t hs ht
    obtain ⟨n,hsource,hcursor⟩ := (Reader.ofSource s).walk_stops g.length hboundary (Nat.zero_le _)
    have hbehind := Reader.Behind.of_append g s t hs _ hsource hcursor
    refine ⟨n,hcursor,?_⟩
    intro k
    have hk := hbehind.walk k
    rw [← Function.iterate_add_apply,Nat.add_comm k n] at hk
    exact ⟨hk.cursor,hk.peek⟩

end Lexis
