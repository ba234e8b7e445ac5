import Lexis.Proofs.Defects
import Lexis.Proofs.Tape

/-!
What errors say is true. An error is met at a byte of the source and asks to pass bytes of it; its
label covers bytes from there on, and its fields are what stands there. Here an error can also be
kept as a notice, which has its label for its only place: `Notice.ofFault_eq` says that the offset
computed back from the label is the one that the notice was made for.
-/

namespace Lexis

/-- An error in words of 64 bits, with the range of bytes that its label covers. -/
inductive Notice where
  | truncated (expected available start width : Nat)
  | badLead (byte : UInt8) (start width : Nat)
  | badContinuation (byte : UInt8) (index start width : Nat)
  | unrecognized (scalar : UInt32) (start width : Nat)
  deriving DecidableEq, Repr

namespace Notice

/-- There is no sum past the last word. -/
def sum? (a b : Nat) : Option Nat := if a+b < UInt64.size then some (a+b) else none

def ofFault (offset : Nat) : Fault → Option Notice
  | .malformed (.truncated expected available) =>
      some (.truncated expected available offset available)
  | .malformed (.badLead byte) => some (.badLead byte offset 1)
  | .malformed (.badContinuation byte index) =>
      (sum? offset index).map (fun start => .badContinuation byte index start 1)
  | .unrecognized symbol => some (.unrecognized symbol.scalar offset symbol.width)

def start : Notice → Nat
  | .truncated _ _ start _ => start
  | .badLead _ start _ => start
  | .badContinuation _ _ start _ => start
  | .unrecognized _ start _ => start

def width : Notice → Nat
  | .truncated _ _ _ width => width
  | .badLead _ _ width => width
  | .badContinuation _ _ _ width => width
  | .unrecognized _ _ width => width

/-- Where the input at fault begins. A bad continuation byte is labelled itself, so the bytes before
it in its sequence are taken off. -/
def offset : Notice → Except Panic Nat
  | .badContinuation _ index start _ => Panic.sub start index
  | n => .ok n.start

def resync : Notice → Nat
  | .truncated _ available _ _ => max available 1
  | .badLead _ _ _ => 1
  | .badContinuation _ _ _ _ => 1
  | .unrecognized _ _ width => max width 1

/-- Where the label can be told in a word, nothing is lost by keeping it alone. -/
theorem ofFault_eq (offset : Nat) (f : Fault) (h : (f.label offset).offset < UInt64.size) :
    ∃ n,ofFault offset f = some n ∧ n.offset = .ok offset ∧ n.resync = f.resync ∧
      n.start = (f.label offset).offset ∧ n.width = (f.label offset).width := by
  rcases f with (⟨expected,available⟩ | byte | ⟨byte,index⟩) | symbol
  · exact ⟨_,rfl,rfl,rfl,rfl,rfl⟩
  · exact ⟨_,rfl,rfl,rfl,rfl,rfl⟩
  · have hsum : sum? offset index = some (offset+index) := if_pos h
    refine ⟨.badContinuation byte index (offset+index) 1,?_,?_,rfl,rfl,rfl⟩
    · rw [ofFault,hsum,Option.map_some]
    · rw [Notice.offset,Panic.sub_eq _ _ (Nat.le_add_left index offset),Nat.add_sub_cancel]
  · exact ⟨_,rfl,rfl,rfl,rfl,rfl⟩

end Notice

/-- What a fault at the offset tells of the source, in its fields, in the bytes that its label covers
and in the number of bytes to pass. -/
def Fault.Describes (s : Source) (offset : Nat) (label : Label) (resync : Nat) : Fault → Prop
  | .malformed (.truncated expected available) =>
      available = s.size-offset ∧ available < expected ∧ label.offset = offset ∧
        label.offset+label.width = s.size ∧ resync = available
  | .malformed (.badLead byte) =>
      s.bytes[offset]? = some byte ∧ label.offset = offset ∧ label.width = 1
  | .malformed (.badContinuation byte index) =>
      1 ≤ index ∧ index ≤ 3 ∧ s.bytes[offset+index]? = some byte ∧
        Sequence.isContinuation byte = false ∧
        (∀ i,1 ≤ i → i < index →
          ∃ c,s.bytes[offset+i]? = some c ∧ Sequence.isContinuation c = true) ∧
        label.offset = offset+index ∧ label.width = 1
  | .unrecognized symbol =>
      Sequence.decode (s.bytes.drop offset) = .ok symbol ∧ label.offset = offset ∧
        label.width = symbol.width ∧ resync = symbol.width

/-- There is no defect at the end. -/
theorem Source.lt_size_of_defect (s : Source) (offset : Nat) (d : Defect)
    (h : Sequence.decode (s.bytes.drop offset) = .error d) : offset < s.size := by
  have hpos := List.length_pos_iff.mpr (Sequence.ne_nil_of_error _ d h)
  rw [List.length_drop] at hpos
  exact Nat.lt_of_sub_pos hpos

namespace Fault

/-- The label covers bytes between the offset and the end, one at least. -/
def Marks (s : Source) (offset : Nat) (label : Label) : Prop :=
  offset ≤ label.offset ∧ 0 < label.width ∧ label.offset+label.width ≤ s.size

theorem describes_of_defect (s : Source) (offset : Nat) (d : Defect)
    (h : Sequence.decode (s.bytes.drop offset) = .error d) :
    (malformed d).Describes s offset ((malformed d).label offset) (malformed d).resync ∧
      Marks s offset ((malformed d).label offset) := by
  have hlength : (s.bytes.drop offset).length = s.size-offset := List.length_drop
  have hinside := s.lt_size_of_defect offset d h
  cases d with
  | truncated n k =>
    obtain ⟨_,_,_,hk,hlt,_⟩ := Sequence.decode_truncated _ n k h
    have hresync : max k 1 = k := by omega
    have hstop : offset+k = s.size := by omega
    exact ⟨⟨by omega,hlt,rfl,hstop,hresync⟩,Nat.le_refl _,by simp only [label]; omega,
      Nat.le_of_eq hstop⟩
  | badLead b =>
    have hhead := ((Sequence.decode_eq_badLead_iff _ b).mp h).1
    rw [List.head?_drop] at hhead
    refine ⟨⟨hhead,rfl,rfl⟩,Nat.le_refl _,Nat.one_pos,?_⟩
    change offset+1 ≤ s.size
    omega
  | badContinuation b i =>
    obtain ⟨lead,length,_,⟨x,_,hx⟩,hi,hlt,hb,hbad,hall⟩ :=
      (Sequence.decode_eq_badContinuation_iff _ b i).mp h
    have hfour := Sequence.width_le_of_fits x.width x.scalar x.fits
    have hwidth := x.bytes_length
    rw [List.getElem?_drop] at hb
    refine ⟨⟨hi,by omega,hb,hbad,?_,rfl,rfl⟩,Nat.le_add_right _ _,Nat.one_pos,?_⟩
    · intro j hj hji
      have hin : j < (s.bytes.drop offset).length := by omega
      have hc := List.getElem?_eq_getElem hin
      refine ⟨_,?_,hall j _ hj hji hc⟩
      rw [← List.getElem?_drop]
      exact hc
    · change offset+i+1 ≤ s.size
      omega

theorem describes_of_read (s : Source) (offset : Nat) (f : Fault)
    (h : Item.read (s.bytes.drop offset) = .fault f) :
    f.Describes s offset (f.label offset) f.resync ∧ Marks s offset (f.label offset) := by
  rcases (Item.read_eq_fault_iff _ f).mp h with ⟨d,hd,rfl⟩ | ⟨symbol,hd,hend,_,rfl⟩
  · exact describes_of_defect s offset d hd
  · have hpos : symbol.width ≠ 0 := by simpa [Symbol.isEnd] using hend
    have hlength : (s.bytes.drop offset).length = s.size-offset := List.length_drop
    have hwidth := (Sequence.decode_width _ symbol hd).1
    have hresync : max symbol.width 1 = symbol.width := by omega
    refine ⟨⟨hd,rfl,rfl,hresync⟩,Nat.le_refl _,Nat.pos_of_ne_zero hpos,?_⟩
    change offset+symbol.width ≤ s.size
    omega

end Fault

/-- The error is met at the offset, inside the source; what it asks to pass and what its label
covers lies between there and the end; and what it tells of the source is true. -/
structure Error.Describes (s : Source) (offset : Nat) (e : Error) : Prop where
  met : e.offset? = some offset ∧ offset < s.size
  passed : e.isRecoverable = true ∧
    ∃ resync,e.resync? = some resync ∧ 1 ≤ resync ∧ offset+resync ≤ s.size
  labelled : ∃ label,e.label? = some label ∧ Fault.Marks s offset label
  told : ∃ fault label resync,e = .lexical offset fault ∧ e.label? = some label ∧
    e.resync? = some resync ∧ fault.Describes s offset label resync

theorem Error.describes_of_read (s : Source) (offset : Nat) (f : Fault)
    (h : Item.read (s.bytes.drop offset) = .fault f) :
    (Error.lexical offset f).Describes s offset := by
  obtain ⟨htold,hmarks⟩ := Fault.describes_of_read s offset f h
  have hresync := Item.resync_le _ f h
  have hpos := f.resync_pos
  rw [List.length_drop] at hresync
  refine ⟨⟨rfl,?_⟩,⟨rfl,f.resync,rfl,hpos,?_⟩,⟨_,rfl,hmarks⟩,⟨f,_,_,rfl,rfl,rfl,htold⟩⟩
  · change offset < s.bytes.length
    omega
  · change offset+f.resync ≤ s.bytes.length
    omega

namespace Reader

variable {r r' : Reader} {e : Error}

/-- A character that cannot be read is a fault where a token should begin. -/
theorem fault_of_peek (h : r.peek = .error e) :
    ∃ f,Item.read r.window = .fault f ∧ e = .lexical r.cursor f := by
  cases hd : Sequence.decode r.window with
  | ok symbol => simp [peek,hd] at h
  | error d =>
    have he : .lexical r.cursor (.malformed d) = e := by simpa [peek,hd] using h
    exact ⟨.malformed d,(Item.read_eq_fault_iff _ _).mpr (.inl ⟨d,hd,rfl⟩),he.symm⟩

theorem peek_of_advance (h : r.advance = (.error e,r')) : r.peek = .error e ∧ r' = r := by
  cases hp : r.peek with
  | ok symbol => simp [advance,hp] at h
  | error d =>
    obtain ⟨rfl,rfl⟩ : d = e ∧ r = r' := by simpa [advance,hp] using h
    exact ⟨rfl,rfl⟩

theorem describes_of_peek (h : r.peek = .error e) : e.Describes r.source r.cursor := by
  obtain ⟨f,hf,rfl⟩ := fault_of_peek h
  exact Error.describes_of_read r.source r.cursor f hf

theorem describes_of_next (h : r.next = (.error e,r')) :
    r'.source = r.source ∧ e.Describes r.source r'.cursor := by
  obtain ⟨f,hf,_,rfl,rfl⟩ := fault_of_next h
  exact ⟨rfl,Error.describes_of_read r.source r.pastBlanks.cursor f hf⟩

end Reader

/-- Every error that looking, stepping or reading a token gives is true of the source at the cursor
that it leaves behind, and a notice in words of 64 bits tells the same, its offset computed back from
its label. -/
theorem errors_describe :
    (∀ (r r' : Reader) (e : Error),
        (r.peek = .error e ∧ r' = r) ∨ r.advance = (.error e,r') ∨ r.next = (.error e,r') →
        r'.source = r.source ∧ e.Describes r.source r'.cursor) ∧
      ∀ (f : Fault) (offset : Nat),(f.label offset).offset < UInt64.size →
        ∃ n,Notice.ofFault offset f = some n ∧ n.offset = .ok offset ∧ n.resync = f.resync ∧
          n.start = (f.label offset).offset ∧ n.width = (f.label offset).width := by
  refine ⟨?_,fun f offset h => Notice.ofFault_eq offset f h⟩
  intro r r' e h
  rcases h with ⟨hp,rfl⟩ | ha | hn
  · exact ⟨rfl,Reader.describes_of_peek hp⟩
  · obtain ⟨hp,rfl⟩ := Reader.peek_of_advance ha
    exact ⟨rfl,Reader.describes_of_peek hp⟩
  · exact Reader.describes_of_next hn

/-- The byte to blame is two bytes behind the lead, and the error is met at the lead. -/
example : ((Source.ofUtf8 [0x20,0xE2,0x82,0x41]).scan .abort).errors =
    [.lexical 1 (.malformed (.badContinuation 0x41 2))] := by decide +kernel

end Lexis
