import Lexis.Proofs.Spacing
import Lexis.Proofs.Synchrony

/-!
Scans that begin in the middle of a source. Only the bytes from the cursor on count: whatever stands
before them, and even if the cursor is inside a character or a lexeme, the scan is that of the later
bytes alone, with its offsets moved.
-/

namespace Lexis

/-- The source with more bytes before its own. -/
def Source.prepend (front : List UInt8) (s : Source) : Source := { s with bytes := front++s.bytes }

theorem Source.size_prepend (front : List UInt8) (s : Source) :
    (s.prepend front).size = s.size+front.length := by
  rw [size,size,prepend,List.length_append,Nat.add_comm]

theorem Source.slice_prepend (front : List UInt8) (s : Source) (start stop : Nat) :
    (s.prepend front).slice (start+front.length) (stop+front.length) = s.slice start stop := by
  have hd : (s.prepend front).bytes.drop (start+front.length) = s.bytes.drop start := by
    change (front++s.bytes).drop (start+front.length) = s.bytes.drop start
    rw [Nat.add_comm,← List.drop_drop,List.drop_left]
  simp only [slice,hd,s.size_prepend front,Nat.add_le_add_iff_right,Nat.add_sub_add_right]

/-- A token keeps its bytes where the source begins earlier. -/
theorem Lexeme.bytes_prepend (front : List UInt8) (s : Source) (t : Token) :
    (Lexeme.mk (s.prepend front) (t.shift front.length)).bytes = (Lexeme.mk s t).bytes :=
  s.slice_prepend front t.span.start t.span.stop

theorem Source.spellings_prepend (front : List UInt8) (s : Source) (tokens : List Token) :
    (s.prepend front).spellings (tokens.map (Token.shift front.length)) = s.spellings tokens := by
  simp only [spellings,Lexeme.ofTokens,List.map_map]
  apply List.map_congr_left
  intro t _
  exact congrArg (Prod.mk t.kind) (Lexeme.bytes_prepend front s t)

theorem Error.offset_shift (n : Nat) (e : Error) : (e.shift n).offset? = e.offset?.map (·+n) := by
  cases e <;> rfl

/-- Behind other bytes a cursor can be set to where a source begins, by skipping them. -/
theorem Reader.behind_skip (front : List UInt8) (s : Source) :
    ((ofSource (s.prepend front)).skip front.length).1 = front.length ∧
      Behind front.length (ofSource s) ((ofSource (s.prepend front)).skip front.length).2 := by
  have hskip : ((ofSource (s.prepend front)).skip front.length).1 = front.length := by
    change min front.length ((s.prepend front).size-0) = front.length
    rw [s.size_prepend front]
    omega
  refine ⟨hskip,Behind.of_append front (s.prepend front) s rfl _ rfl ?_⟩
  rw [skip_cursor,hskip]
  exact Nat.zero_add _

/-- Readers that see the same bytes make the same scan, each at its own offset. -/
theorem Reader.Behind.scan {n : Nat} {r r' : Reader} (h : Behind n r r') (recovery : Recovery) :
    (r'.scan recovery).1 = (r.scan recovery).1.shift n ∧
      Behind n (r.scan recovery).2 (r'.scan recovery).2 := by
  have hscan : (r'.scan recovery).1 = (r.scan recovery).1.shift n := by
    change Scan.ofWindow recovery r'.cursor r'.window = _
    rw [h.cursor,h.window,Scan.ofWindow_shift]
    rfl
  have hlen : (r'.scan recovery).1.stop-r'.cursor = (r.scan recovery).1.stop-r.cursor := by
    rw [hscan,h.cursor]
    exact Nat.add_sub_add_right _ _ _
  refine ⟨hscan,?_⟩
  change Behind n (r.forward ((r.scan recovery).1.stop-r.cursor))
    (r'.forward ((r'.scan recovery).1.stop-r'.cursor))
  rw [hlen]
  exact h.forward _

/-- A scan from behind any bytes finds what the scan of the later bytes alone finds: the same kinds
of tokens with the same bytes, and the same faults, in the same order. All spans, offsets and labels
are moved by the bytes in front, and so is the cursor when the scan is over. -/
theorem scan_prepend (front : List UInt8) (s : Source) (recovery : Recovery) :
    ((Reader.ofSource (s.prepend front)).skip front.length).1 = front.length ∧
      let r := ((Reader.ofSource (s.prepend front)).skip front.length).2
      r.cursor = front.length ∧
        (r.scan recovery).1 = (s.scan recovery).shift front.length ∧
        (s.prepend front).spellings (r.scan recovery).1.tokens =
          s.spellings (s.scan recovery).tokens ∧
        (r.scan recovery).1.errors.map Error.offset? =
          (s.scan recovery).errors.map (fun e => e.offset?.map (·+front.length)) ∧
        (r.scan recovery).1.errors.map Error.label? =
          (s.scan recovery).errors.map (fun e => e.label?.map (Label.shift front.length)) ∧
        (r.scan recovery).2.cursor =
          front.length+((Reader.ofSource s).scan recovery).2.cursor := by
  obtain ⟨hskip,hbehind⟩ := Reader.behind_skip front s
  obtain ⟨hscan,hafter⟩ := hbehind.scan recovery
  refine ⟨hskip,?_⟩
  intro r
  change (r.scan recovery).1 = (s.scan recovery).shift front.length at hscan
  rw [hscan]
  refine ⟨?_,rfl,s.spellings_prepend front _,?_,Scan.shift_labels _ _,?_⟩
  · rw [hbehind.cursor]
    exact Nat.zero_add _
  · simp [Scan.shift,Function.comp_def,Error.offset_shift]
  · rw [hafter.cursor,Nat.add_comm]

/-- The cursor is on the last byte of a letter of two bytes, which alone begins nothing. -/
example :
    let s := Source.ofUtf8 [0xA9,0x62]
    (((Reader.ofSource (s.prepend [0xC3])).skip 1).2.scan .skip).1 = (s.scan .skip).shift 1 ∧
      (s.scan .skip).errors = [.lexical 0 (.malformed (.badLead 0xA9))] := by decide +kernel

end Lexis
