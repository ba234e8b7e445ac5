import Lexis.Proofs.Next

/-!
Reading without guarantees. A tape is a source with a bare offset, which nothing keeps inside the
source: what cannot go wrong in a reader is checked here when it happens. The loops go character by
character. Every operation comes to what the reader does, so no check ever fails.
-/

namespace Lexis

/-- What would stop a program that does not know its offsets to be sound. -/
inductive Panic where
  /-- A number is subtracted from a smaller one. -/
  | underflow
  | span (e : Span.Error)
  deriving DecidableEq, Repr

/-- Subtraction that does not go below zero. -/
def Panic.sub (a b : Nat) : Except Panic Nat := if b ≤ a then .ok (a-b) else .error .underflow

theorem Panic.sub_eq (a b : Nat) (h : b ≤ a) : sub a b = .ok (a-b) := if_pos h

structure Tape where
  source : Source
  head : Nat
  deriving DecidableEq

namespace Tape

def window (t : Tape) : List UInt8 := t.source.bytes.drop t.head

def peek (t : Tape) : Except Error Symbol :=
  match Sequence.decode t.window with
  | .ok symbol => .ok symbol
  | .error defect => .error (.lexical t.head (.malformed defect))

def advance (t : Tape) : Except Error Symbol × Tape :=
  match t.peek with
  | .error e => (.error e,t)
  | .ok symbol =>
    if symbol.isEnd then (.ok symbol,t) else (.ok symbol,{ t with head := t.head+symbol.width })

/-- The bytes that are left are counted by subtraction. -/
def skip (t : Tape) (count : Nat) : Except Panic (Nat × Tape) :=
  match Panic.sub t.source.size t.head with
  | .error panic => .error panic
  | .ok left => .ok (min count left,{ t with head := t.head+min count left })

theorem advance_of_char (t : Tape) (s : Symbol) (c : Char) (h : t.peek = .ok s)
    (hc : s.char? = some c) : t.advance = (.ok s,{ t with head := t.head+s.width }) := by
  have hp := s.width_pos_of_char c hc
  have hs : s.isEnd = false := by
    simp [Symbol.isEnd]
    omega
  simp [advance,h,hs]

theorem peek_eq_ok (t : Tape) (s : Symbol) (h : t.peek = .ok s) :
    Sequence.decode t.window = .ok s := by
  cases hd : Sequence.decode t.window with
  | ok u => simpa [peek,hd] using h
  | error d => simp [peek,hd] at h

/-- Over the characters that are accepted, one after the other. -/
def passWhile (accept : Char → Bool) (t : Tape) : Tape :=
  match _ : t.peek with
  | .error _ => t
  | .ok symbol => if symbol.char?.any accept then passWhile accept t.advance.2 else t
termination_by t.window.length
decreasing_by
  obtain ⟨c,hc,_⟩ := (Option.any_eq_true accept symbol.char?).mp (by assumption)
  have hp : t.peek = .ok symbol := by assumption
  have hw := Sequence.drop_lt_of_char t.window symbol c (t.peek_eq_ok symbol hp) hc
  rw [t.advance_of_char symbol c hp hc,window]
  rwa [window,List.drop_drop] at hw

/-- The token from an offset to the head. Its range is checked. -/
def token (kind : Kind) (start : Nat) (t : Tape) : Except Panic (Except Error Token × Tape) :=
  match Span.ofBounds start t.head with
  | .ok span => .ok (.ok ⟨kind,span⟩,t)
  | .error e => .error (.span e)

def next (t : Tape) : Except Panic (Except Error Token × Tape) :=
  let t := t.passWhile isBlank
  match t.peek with
  | .error e => .ok (.error e,t)
  | .ok symbol =>
    if symbol.isEnd then t.token .endOfFile t.head
    else
      match symbol.char? with
      | none => .ok (.error (.lexical t.head (.unrecognized symbol)),t)
      | some c =>
        if Unicode.isAlphabetic c then
          (t.advance.2.passWhile isWordChar).token .identifier t.head
        else if c.isDigit then (t.advance.2.passWhile Char.isDigit).token .integer t.head
        else
          match Kind.punctuator? c with
          | some kind => t.advance.2.token kind t.head
          | none => .ok (.error (.lexical t.head (.unrecognized symbol)),t)

end Tape

namespace Reader

/-- The reader without its guarantee. -/
def tape (r : Reader) : Tape := ⟨r.source,r.cursor⟩

theorem tape_peek (r : Reader) : r.tape.peek = r.peek := rfl

theorem tape_forward (r : Reader) (count : Nat) (h : r.cursor+count ≤ r.source.size) :
    (r.forward count).tape = { r.tape with head := r.tape.head+count } := by
  rw [tape,r.forward_cursor count h]
  rfl

theorem cursor_add_width (r : Reader) (s : Symbol) (h : r.peek = .ok s) :
    r.cursor+s.width ≤ r.source.size := by
  have hw := (Sequence.decode_width r.window s (r.tape.peek_eq_ok s h)).1
  have hc := r.cursor_le_size
  rw [r.window_length,remaining] at hw
  omega

theorem tape_advance (r : Reader) : r.tape.advance = (r.advance.1,r.advance.2.tape) := by
  cases h : r.peek with
  | error e => simp [Tape.advance,advance,tape_peek,h]
  | ok s =>
    have hf := r.tape_forward s.width (r.cursor_add_width s h)
    cases hs : s.isEnd with
    | false => simp [Tape.advance,advance,tape_peek,h,hs,hf]
    | true =>
      have h0 : s.width = 0 := by simpa [Symbol.isEnd] using hs
      simp [Tape.advance,advance,tape_peek,h,hs,h0,r.forward_zero]

theorem tape_skip (r : Reader) (count : Nat) :
    r.tape.skip count = .ok ((r.skip count).1,(r.skip count).2.tape) := by
  have hc := r.cursor_le_size
  have hs := Panic.sub_eq r.source.size r.cursor hc
  have hm : r.cursor+min count (r.source.size-r.cursor) = min (r.cursor+count) r.source.size := by
    omega
  simp only [Tape.skip,tape,hs,hm]
  rfl

theorem advance_of_peek (r : Reader) (s : Symbol) (h : r.peek = .ok s) :
    r.advance = (.ok s,r.forward s.width) := by
  simp [advance,h]

/-- The loop over accepted characters takes the bytes of the run. -/
theorem tape_passWhile (r : Reader) (accept : Char → Bool) :
    r.tape.passWhile accept = (r.forward (runWidth accept r.window)).tape := by
  generalize hw : r.window = w
  fun_induction runWidth accept w generalizing r with
  | case1 w d h =>
    have hp : r.tape.peek = .error (.lexical r.cursor (.malformed d)) := by
      simp [tape_peek,peek,hw,h]
    rw [r.forward_zero,Tape.passWhile]
    split <;> simp_all
  | case2 w s h ha ih =>
    have hp : r.peek = .ok s := by simp [peek,hw,h]
    have hnext : r.tape.advance.2 = (r.forward s.width).tape := by
      rw [r.tape_advance,r.advance_of_peek s hp]
    have hwindow : (r.forward s.width).window = w.drop s.width := by rw [forward_window,hw]
    rw [← forward_forward,← ih (r.forward s.width) hwindow,← hnext,Tape.passWhile]
    split
    · next e he => simp [tape_peek,hp] at he
    · next u hu =>
      obtain rfl : s = u := by simpa [tape_peek,hp] using hu
      rw [if_pos ha]
  | case3 w s h ha =>
    have hp : r.tape.peek = .ok s := by simp [tape_peek,peek,hw,h]
    rw [r.forward_zero,Tape.passWhile]
    split <;> simp_all

/-- The loop after the first character of a run that it belongs to. -/
theorem tape_run (r : Reader) (accept : Char → Bool) (s : Symbol) (c : Char)
    (h : r.peek = .ok s) (hc : s.char? = some c) (ha : accept c = true) :
    r.tape.advance.2.passWhile accept = (r.forward (runWidth accept r.window)).tape := by
  have hd := r.tape.peek_eq_ok s h
  have hnext : r.tape.advance.2 = (r.forward s.width).tape := by
    rw [r.tape_advance,r.advance_of_peek s h]
  rw [hnext,tape_passWhile,forward_forward,forward_window,
    runWidth_of_accept accept r.window s c hd hc ha]

theorem tape_token (r : Reader) (kind : Kind) (width : Nat)
    (h : r.cursor+width ≤ r.source.size) :
    (r.forward width).tape.token kind r.tape.head =
      .ok (.ok ⟨kind,.ofWidth r.cursor width⟩,(r.forward width).tape) := by
  have hs : Span.ofBounds r.cursor (r.cursor+width) = .ok (.ofWidth r.cursor width) :=
    dif_pos (Nat.le_add_right _ _)
  simp only [Tape.token,tape,r.forward_cursor width h,hs]

theorem cursor_add_run (r : Reader) (accept : Char → Bool) :
    r.cursor+runWidth accept r.window ≤ r.source.size := by
  have hw := runWidth_le accept r.window
  have hc := r.cursor_le_size
  rw [r.window_length,remaining] at hw
  omega

theorem tape_next (r : Reader) : r.tape.next = .ok (r.next.1,r.next.2.tape) := by
  have hblank : r.tape.passWhile isBlank = r.pastBlanks.tape := r.tape_passWhile isBlank
  rw [next_eq,Tape.next,hblank]
  generalize r.pastBlanks = p
  cases hd : Sequence.decode p.window with
  | error d =>
    have hp : p.peek = .error (.lexical p.cursor (.malformed d)) := by simp [peek,hd]
    simp only [tape_peek,hp,Item.read,hd]
  | ok s =>
    have hp : p.peek = .ok s := by simp [peek,hd]
    simp only [tape_peek,hp]
    cases hs : s.isEnd with
    | true =>
      have ht := p.tape_token .endOfFile 0 p.cursor_le_size
      rw [p.forward_zero] at ht
      simp only [if_true,ht,Item.read,hd,hs]
      rfl
    | false =>
      cases hc : s.char? with
      | none => simp only [Item.read,hd,hs,hc]; rfl
      | some c =>
        have hw := p.cursor_add_width s hp
        have hword := p.tape_run isWordChar s c hp hc
        have hdigit := p.tape_run Char.isDigit s c hp hc
        have hone : p.tape.advance.2 = (p.forward s.width).tape := by
          rw [p.tape_advance,p.advance_of_peek s hp]
        simp only [Item.read,hd,hs,hc,Bool.false_eq_true,if_false]
        split
        · next ha =>
          rw [hword (by simp [isWordChar,ha]),p.tape_token _ _ (p.cursor_add_run isWordChar)]
        · split
          · next hn => rw [hdigit hn,p.tape_token _ _ (p.cursor_add_run Char.isDigit)]
          · cases hk : Kind.punctuator? c with
            | none => rfl
            | some kind => simp only [hone,p.tape_token kind _ hw]

end Reader

/-- Where an error begins, computed from its label. The label of a bad continuation byte is at that
byte, so its index is subtracted. -/
def Error.origin : Error → Except Panic (Option Nat)
  | .lexical offset (.malformed (.badContinuation byte index)) =>
      (Panic.sub ((Fault.malformed (.badContinuation byte index)).label offset).offset index).map
        some
  | e => .ok (e.label?.map Label.offset)

theorem Error.origin_eq (e : Error) : e.origin = .ok e.offset? := by
  cases e with
  | lexical offset f =>
    rcases f with (_ | _ | ⟨byte,index⟩) | _
    · rfl
    · rfl
    · have hs := Panic.sub_eq (offset+index) index (Nat.le_add_left _ _)
      rw [Nat.add_sub_cancel] at hs
      change (Panic.sub (offset+index) index).map some = .ok (some offset)
      rw [hs]
      rfl
    · rfl
  | _ => rfl

namespace Tape

def pull (s : Stream) (t : Tape) :
    Except Panic (Option (Except Error Token) × Stream × Tape) :=
  if s.finished then .ok (none,s,t)
  else
    match t.next with
    | .error panic => .error panic
    | .ok (.ok token,t) => .ok (some (.ok token),⟨token.isEnd⟩,t)
    | .ok (.error e,t) => .ok (some (.error e),⟨true⟩,t)

/-- At the end of its source or past it a tape gives the end where it is. -/
theorem next_of_nil (t : Tape) (h : t.window = []) :
    t.next = .ok (.ok (.finish t.head),t) := by
  have hp : t.peek = .ok .endOfInput := by simp [peek,h,Sequence.decode]
  have hb : t.passWhile isBlank = t := by
    rw [passWhile]
    split <;> simp_all [Symbol.endOfInput,Symbol.char?,Symbol.isEnd]
  have hs : Span.ofBounds t.head t.head = .ok (.ofWidth t.head 0) := dif_pos (Nat.le_refl _)
  simp only [next,hb,hp]
  simp [Symbol.endOfInput,Symbol.isEnd,token,hs]
  rfl

/-- A token that is not the end leaves less to read, and so does an error that is skipped. -/
theorem next_shrinks (t t' : Tape) (result : Except Error Token) (h : t.next = .ok (result,t')) :
    (∀ token,result = .ok token → token.isEnd = false → t'.window.length < t.window.length) ∧
      ∀ e count skipped t'',result = .error e → e.resync? = some count →
        t'.skip count = .ok (skipped,t'') → t''.window.length < t.window.length := by
  by_cases hle : t.head ≤ t.source.size
  · obtain ⟨r,rfl⟩ : ∃ r : Reader,r.tape = t := ⟨⟨t.source,t.head,hle⟩,rfl⟩
    obtain ⟨rfl,rfl⟩ : r.next.1 = result ∧ r.next.2.tape = t' := by
      simpa [r.tape_next] using h
    constructor
    · intro token hn ht
      have hlt := Reader.remaining_of_token (Prod.ext hn rfl) ht
      rwa [← Reader.window_length,← Reader.window_length] at hlt
    · intro e count skipped t'' hn hc hs
      obtain ⟨_,rfl⟩ : _ = skipped ∧ (r.next.2.skip count).2.tape = t'' := by
        simpa [Reader.tape_skip] using hs
      have hlt := (Reader.pass_of_error (Prod.ext hn rfl)).2
      rw [Reader.pass,hc,← Reader.window_length,← Reader.window_length] at hlt
      exact hlt
  · have hn : t.window = [] := List.drop_eq_nil_of_le (Nat.le_of_lt (Nat.lt_of_not_le hle))
    obtain ⟨rfl,rfl⟩ : .ok (.finish t.head) = result ∧ t = t' := by
      simpa [t.next_of_nil hn] using h
    simp [Token.finish,Token.isEnd]

/-- One token after the other. If faults are to be skipped, an error that has a place is passed. -/
def scan (recovery : Recovery) (t : Tape) : Except Panic (Scan × Tape) :=
  match _ : t.next with
  | .error panic => .error panic
  | .ok (.ok token,t') =>
    if token.isEnd then .ok (⟨[token],[],t'.head⟩,t')
    else (scan recovery t').map (fun s => (s.1.withToken token,s.2))
  | .ok (.error e,t') =>
    match recovery,_ : e.resync? with
    | .skip,some count =>
      match _ : t'.skip count with
      | .error panic => .error panic
      | .ok (_,t'') => (scan recovery t'').map (fun s => (s.1.withError e,s.2))
    | _,_ => .ok (⟨[],[e],t'.head⟩,t')
termination_by t.window.length
decreasing_by
  · exact (t.next_shrinks t' _ (by assumption)).1 token rfl (by simp_all)
  · exact (t.next_shrinks t' _ (by assumption)).2 e count _ t'' rfl (by assumption)
      (by assumption)

section Scan

variable {t t' t'' : Tape} {token : Token} {e : Error} {count skipped : Nat}

theorem scan_of_end (recovery : Recovery) (h : t.next = .ok (.ok token,t'))
    (ht : token.isEnd = true) : t.scan recovery = .ok (⟨[token],[],t'.head⟩,t') := by
  rw [scan]
  split
  · next hn => simp [h] at hn
  · next u v hn =>
    obtain ⟨rfl,rfl⟩ : token = u ∧ t' = v := by simpa [h] using hn
    rw [if_pos ht]
  · next hn => simp [h] at hn

theorem scan_of_token (recovery : Recovery) (h : t.next = .ok (.ok token,t'))
    (ht : token.isEnd = false) :
    t.scan recovery = (t'.scan recovery).map (fun s => (s.1.withToken token,s.2)) := by
  rw [scan]
  split
  · next hn => simp [h] at hn
  · next u v hn =>
    obtain ⟨rfl,rfl⟩ : token = u ∧ t' = v := by simpa [h] using hn
    rw [if_neg (by simp [ht])]
  · next hn => simp [h] at hn

theorem scan_abort_of_error (h : t.next = .ok (.error e,t')) :
    t.scan .abort = .ok (⟨[],[e],t'.head⟩,t') := by
  rw [scan]
  split
  · next hn => simp [h] at hn
  · next hn => simp [h] at hn
  · next d v hn =>
    obtain ⟨rfl,rfl⟩ : e = d ∧ t' = v := by simpa [h] using hn
    split
    · contradiction
    · rfl

theorem scan_skip_of_error (h : t.next = .ok (.error e,t')) (hr : e.resync? = some count)
    (hs : t'.skip count = .ok (skipped,t'')) :
    t.scan .skip = (t''.scan .skip).map (fun s => (s.1.withError e,s.2)) := by
  rw [scan]
  split
  · next hn => simp [h] at hn
  · next hn => simp [h] at hn
  · next d v hn =>
    obtain ⟨rfl,rfl⟩ : e = d ∧ t' = v := by simpa [h] using hn
    split
    · next m _ hm =>
      obtain rfl : count = m := by simpa [hr] using hm
      split
      · next hp => simp [hs] at hp
      · next u hp =>
        obtain ⟨_,rfl⟩ : skipped = _ ∧ t'' = u := by simpa [hs] using hp
        rfl
    · next hnone => exact absurd hr (hnone count rfl)

end Scan

end Tape

namespace Reader

theorem tape_pull (r : Reader) (s : Stream) :
    r.tape.pull s = .ok ((s.pull r).1,(s.pull r).2.1,(s.pull r).2.2.tape) := by
  cases hs : s.finished with
  | true => simp [Tape.pull,Stream.pull,hs]
  | false =>
    rw [s.pull_of_open r hs,Tape.pull,hs,r.tape_next]
    rcases r.next with ⟨_ | _,_⟩ <;> rfl

/-- The loop over tokens comes to the scan. -/
theorem tape_scan (r : Reader) (recovery : Recovery) :
    r.tape.scan recovery = .ok ((r.scan recovery).1,(r.scan recovery).2.tape) := by
  induction r using next_induction with
  | finish r t r' hn ht =>
    have htape := r.tape_next
    rw [hn] at htape
    rw [Tape.scan_of_end recovery htape ht,scan_of_end recovery hn ht]
    rfl
  | token r t r' hn ht ih =>
    have htape := r.tape_next
    rw [hn] at htape
    rw [Tape.scan_of_token recovery htape ht,ih,scan_of_token recovery hn ht]
    rfl
  | fault r e r' hn ih =>
    have htape := r.tape_next
    rw [hn] at htape
    cases recovery with
    | abort =>
      rw [Tape.scan_abort_of_error htape,scan_abort_of_error hn]
      rfl
    | skip =>
      have hplace : e.resync? = some (e.resync?.getD 0) := by rw [(pass_of_error hn).1]; rfl
      have hs : r'.tape.skip (e.resync?.getD 0) = .ok ((r'.pass e).1,(r'.pass e).2.tape) :=
        r'.tape_skip _
      rw [Tape.scan_skip_of_error htape hplace hs,ih,scan_skip_of_error hn]
      rfl

end Reader

end Lexis
