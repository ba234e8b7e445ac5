import Lexis.Proofs.Alphabet
import Lexis.Proofs.Next
import Mathlib.Logic.ExistsUnique

/-!
Which token comes next, said of the characters of a source alone. Behind the blanks a token takes
the longest run of characters of its class, and a run ends at the first thing that is no such
character, whatever it is. `next_eq_iff` says that a reader gives exactly what the characters call
for, and that they call for one result at every place.
-/

namespace Lexis

namespace Source

/-- What stands at an offset. -/
def symbolAt (s : Source) (offset : Nat) : Except Defect Symbol :=
  Sequence.decode (s.bytes.drop offset)

/-- From one offset to another the source reads as these characters, sequence after sequence. -/
inductive Reads (s : Source) : Nat → List Char → Nat → Prop where
  | nil (offset : Nat) : Reads s offset [] offset
  | cons {offset stop : Nat} {symbol : Symbol} {c : Char} {cs : List Char}
      (here : s.symbolAt offset = .ok symbol) (char : symbol.char? = some c)
      (rest : Reads s (offset+symbol.width) cs stop) : Reads s offset (c::cs) stop

/-- What can stand at an offset where no character of a class does. -/
inductive Stops (s : Source) (p : Char → Prop) (offset : Nat) : Prop where
  | finish (here : s.symbolAt offset = .ok .endOfInput)
  | defect (d : Defect) (here : s.symbolAt offset = .error d)
  | noChar (symbol : Symbol) (here : s.symbolAt offset = .ok symbol)
      (width : symbol.isEnd = false) (char : symbol.char? = none)
  | other (symbol : Symbol) (c : Char) (here : s.symbolAt offset = .ok symbol)
      (char : symbol.char? = some c) (outside : ¬ p c)

/-- The longest run of characters of a class. -/
structure Run (s : Source) (p : Char → Prop) (start : Nat) (cs : List Char) (stop : Nat) :
    Prop where
  reads : s.Reads start cs stop
  inside : ∀ c ∈ cs,p c
  stops : s.Stops p stop

/-- The bytes from one offset to another form a token of the class. -/
def Forms (s : Source) (start stop : Nat) : Kind → Prop
  | .identifier => ∃ c cs,s.Reads start (c::cs) stop ∧ IsLetter c ∧ (∀ d ∈ cs,ContinuesWord d) ∧
      s.Stops ContinuesWord stop
  | .integer => ∃ c cs,s.Run IsFigure start (c::cs) stop
  | kind => ∃ c,(c,kind) ∈ Kind.marks ∧ s.Reads start [c] stop

/-- The result that the characters from an offset on call for. -/
def Calls (s : Source) (offset : Nat) : Except Error Token → Prop
  | .ok ⟨.endOfFile,span⟩ => offset = s.size ∧ span = .ofWidth s.size 0
  | .ok ⟨kind,span⟩ => span.start = offset ∧ s.Forms offset span.stop kind
  | .error (.lexical place (.malformed d)) => place = offset ∧ s.symbolAt offset = .error d
  | .error (.lexical place (.unrecognized symbol)) => place = offset ∧
      s.symbolAt offset = .ok symbol ∧ offset ≠ s.size ∧ ∀ kind stop,¬ s.Forms offset stop kind
  | .error _ => False

section Runs

variable {s : Source} {p : Char → Prop} {accept : Char → Bool} {start stop : Nat} {cs : List Char}

/-- No run begins where a run ends. -/
theorem stops_iff (h : ∀ c,p c ↔ accept c = true) :
    s.Stops p start ↔ runWidth accept (s.bytes.drop start) = 0 := by
  constructor
  · intro hs
    cases hs with
    | finish here => exact runWidth_of_reject accept _ _ here rfl
    | defect d here => exact runWidth_of_error accept _ d here
    | noChar symbol here _ char => exact runWidth_of_reject accept _ symbol here (by simp [char])
    | other symbol c here char hp =>
      have ha : accept c = false := by simpa [h c] using hp
      exact runWidth_of_reject accept _ symbol here (by simp [char,ha])
  · intro hw
    cases here : s.symbolAt start with
    | error d => exact .defect d here
    | ok symbol =>
      cases hs : symbol.isEnd with
      | true =>
        have h0 : symbol.width = 0 := by simpa [Symbol.isEnd] using hs
        have hn := (Sequence.decode_width _ symbol here).2.mp h0
        refine .finish ?_
        rw [symbolAt,hn]
        rfl
      | false =>
        cases char : symbol.char? with
        | none => exact .noChar symbol here hs char
        | some c =>
          refine .other symbol c here char ?_
          intro hp
          have hr := runWidth_of_accept accept _ symbol c here char ((h c).mp hp)
          have := symbol.width_pos_of_char c char
          omega

/-- A run of accepted characters that cannot go on has the width of the run. -/
theorem Reads.stop_eq (h : s.Reads start cs stop) (hall : ∀ c ∈ cs,accept c = true)
    (hstop : runWidth accept (s.bytes.drop stop) = 0) :
    stop = start+runWidth accept (s.bytes.drop start) := by
  induction h with
  | nil offset => omega
  | @cons offset stop symbol c cs here char rest ih =>
    have hr := runWidth_of_accept accept _ symbol c here char (hall c (by simp))
    have hd := ih (fun d hd => hall d (List.mem_cons_of_mem c hd)) hstop
    rw [List.drop_drop] at hr
    omega

theorem exists_reads (s : Source) (accept : Char → Bool) (start : Nat) :
    ∃ cs,s.Reads start cs (start+runWidth accept (s.bytes.drop start)) ∧
      ∀ c ∈ cs,accept c = true := by
  generalize hw : s.bytes.drop start = w
  fun_induction runWidth accept w generalizing start with
  | case1 w d h => exact ⟨[],.nil start,by simp⟩
  | case2 w symbol h ha ih =>
    obtain ⟨c,hc,hac⟩ := (Option.any_eq_true accept symbol.char?).mp ha
    obtain ⟨cs,hr,hcs⟩ := ih (start+symbol.width) (by rw [← List.drop_drop,hw])
    have here : s.symbolAt start = .ok symbol := by rw [symbolAt,hw,h]
    refine ⟨c::cs,.cons here hc ?_,?_⟩
    · rwa [← Nat.add_assoc]
    · intro d hd
      rcases List.mem_cons.mp hd with rfl | hd
      · exact hac
      · exact hcs d hd
  | case3 w symbol h ha => exact ⟨[],.nil start,by simp⟩

theorem run_iff (h : ∀ c,p c ↔ accept c = true) :
    (∃ cs,s.Run p start cs stop) ↔ stop = start+runWidth accept (s.bytes.drop start) := by
  constructor
  · rintro ⟨cs,hr⟩
    exact hr.reads.stop_eq (fun c hc => (h c).mp (hr.inside c hc)) ((stops_iff h).mp hr.stops)
  · rintro rfl
    obtain ⟨cs,hr,hcs⟩ := s.exists_reads accept start
    refine ⟨cs,hr,fun c hc => (h c).mpr (hcs c hc),(stops_iff h).mpr ?_⟩
    rw [← List.drop_drop]
    exact runWidth_drop accept _

/-- A first character of one class and the longest run of another one behind it. -/
theorem first_run_iff (h : ∀ c,p c ↔ accept c = true) (first : Char → Prop) :
    (∃ c cs,s.Reads start (c::cs) stop ∧ first c ∧ (∀ d ∈ cs,p d) ∧ s.Stops p stop) ↔
      ∃ symbol c,s.symbolAt start = .ok symbol ∧ symbol.char? = some c ∧ first c ∧
        stop = start+(symbol.width+runWidth accept ((s.bytes.drop start).drop symbol.width)) := by
  have hrun (symbol : Symbol) : (∃ cs,s.Run p (start+symbol.width) cs stop) ↔
      stop = start+(symbol.width+runWidth accept ((s.bytes.drop start).drop symbol.width)) := by
    rw [run_iff h,List.drop_drop,Nat.add_assoc]
  constructor
  · rintro ⟨c,cs,hreads,hfirst,hcs,hstops⟩
    cases hreads with
    | @cons _ _ symbol _ _ here char rest =>
      exact ⟨symbol,c,here,char,hfirst,(hrun symbol).mp ⟨cs,rest,hcs,hstops⟩⟩
  · rintro ⟨symbol,c,here,char,hfirst,hstop⟩
    obtain ⟨cs,hr⟩ := (hrun symbol).mpr hstop
    exact ⟨c,cs,.cons here char hr.reads,hfirst,hr.inside,hr.stops⟩

/-- A punctuator is continued by nothing: it is a first character with an empty run behind it. -/
theorem mark_iff (s : Source) (start stop : Nat) (kind : Kind) (hword : kind ≠ .identifier)
    (hnumber : kind ≠ .integer) :
    (∃ c,(c,kind) ∈ Kind.marks ∧ s.Reads start [c] stop) ↔
      ∃ symbol c,s.symbolAt start = .ok symbol ∧ symbol.char? = some c ∧
        Kind.ofFirst? c = some kind ∧ stop = start+(symbol.width+
          runWidth kind.continuedBy ((s.bytes.drop start).drop symbol.width)) := by
  have hcontinued : kind.continuedBy = fun _ => false := by
    cases kind <;> first | rfl | contradiction
  have hnone (c : Char) : False ↔ (fun _ : Char => false) c = true := by simp
  have hstops := (stops_iff (s := s) hnone).mpr (runWidth_never (s.bytes.drop stop))
  simp only [Kind.ofFirst_eq_mark_iff _ kind hword hnumber,hcontinued]
  rw [← first_run_iff hnone (fun c => (c,kind) ∈ Kind.marks)]
  constructor
  · rintro ⟨c,hc,hr⟩
    exact ⟨c,[],hr,hc,by simp,hstops⟩
  · rintro ⟨c,cs,hr,hc,hcs,_⟩
    obtain rfl : cs = [] := List.eq_nil_iff_forall_not_mem.mpr hcs
    exact ⟨c,hc,hr⟩

theorem exists_lexeme_iff (s : Source) (start stop : Nat) (kind : Kind) :
    (∃ width,Item.read (s.bytes.drop start) = .lexeme kind width ∧ stop = start+width) ↔
      ∃ symbol c,s.symbolAt start = .ok symbol ∧ symbol.char? = some c ∧
        Kind.ofFirst? c = some kind ∧ stop = start+(symbol.width+
          runWidth kind.continuedBy ((s.bytes.drop start).drop symbol.width)) := by
  simp only [Item.read_eq_lexeme_iff]
  constructor
  · rintro ⟨_,⟨symbol,c,here,char,hfirst,rfl⟩,hstop⟩
    exact ⟨symbol,c,here,char,hfirst,hstop⟩
  · rintro ⟨symbol,c,here,char,hfirst,hstop⟩
    exact ⟨_,⟨symbol,c,here,char,hfirst,rfl⟩,hstop⟩

/-- What forms a token is the item that is read there. -/
theorem forms_iff (s : Source) (start stop : Nat) (kind : Kind) :
    s.Forms start stop kind ↔
      ∃ width,Item.read (s.bytes.drop start) = .lexeme kind width ∧ stop = start+width := by
  rw [exists_lexeme_iff]
  cases kind with
  | identifier =>
    simp only [Kind.ofFirst_eq_identifier_iff]
    exact first_run_iff isWordChar_iff IsLetter
  | integer =>
    simp only [Kind.ofFirst_eq_integer_iff]
    rw [Kind.continuedBy,← first_run_iff isDigit_iff IsFigure]
    constructor
    · rintro ⟨c,cs,hr⟩
      exact ⟨c,cs,hr.reads,hr.inside c (by simp),
        fun d hd => hr.inside d (List.mem_cons_of_mem c hd),hr.stops⟩
    · rintro ⟨c,cs,hr,hc,hcs,hs⟩
      exact ⟨c,cs,hr,by simpa using ⟨hc,hcs⟩,hs⟩
  | _ => exact s.mark_iff start stop _ (by simp) (by simp)

end Runs

theorem eq_size_iff (s : Source) (offset : Nat) (h : offset ≤ s.size) :
    offset = s.size ↔ Item.read (s.bytes.drop offset) = .finish := by
  rw [Item.read_eq_finish_iff,List.drop_eq_nil_iff]
  change offset = s.size ↔ s.size ≤ offset
  omega

theorem symbolAt_eq_error_iff (s : Source) (offset : Nat) (d : Defect) :
    s.symbolAt offset = .error d ↔ Item.read (s.bytes.drop offset) = .fault (.malformed d) := by
  rw [Item.read_eq_fault_iff]
  constructor
  · intro h
    exact .inl ⟨d,h,rfl⟩
  · rintro (⟨d',h,hf⟩ | ⟨symbol,_,_,_,hf⟩)
    · obtain rfl : d = d' := by simpa using hf
      exact h
    · cases hf

/-- A scalar is no token and not the end of the source exactly if it is a fault. -/
theorem unrecognized_iff (s : Source) (offset : Nat) (h : offset ≤ s.size) (symbol : Symbol) :
    (s.symbolAt offset = .ok symbol ∧ offset ≠ s.size ∧ ∀ kind stop,¬ s.Forms offset stop kind) ↔
      Item.read (s.bytes.drop offset) = .fault (.unrecognized symbol) := by
  rw [Ne,s.eq_size_iff offset h]
  simp only [forms_iff]
  cases hi : Item.read (s.bytes.drop offset) with
  | finish => simp
  | lexeme kind width =>
    constructor
    · rintro ⟨_,_,hnone⟩
      exact absurd ⟨width,rfl,rfl⟩ (hnone kind (offset+width))
    · simp
  | fault f =>
    rcases (Item.read_eq_fault_iff _ f).mp hi with ⟨d,hd,rfl⟩ | ⟨symbol',hs,_,_,rfl⟩
    · simp [symbolAt,hd]
    · simp [symbolAt,hs]

theorem calls_token (s : Source) (offset : Nat) (kind : Kind) (span : Span)
    (hk : kind ≠ .endOfFile) : s.Calls offset (.ok ⟨kind,span⟩) ↔
      span.start = offset ∧ s.Forms offset span.stop kind := by
  cases kind <;> first | rfl | contradiction

/-- The characters call for the item that is read at their offset. -/
theorem calls_iff (s : Source) (offset : Nat) (h : offset ≤ s.size)
    (result : Except Error Token) :
    s.Calls offset result ↔ result = match Item.read (s.bytes.drop offset) with
      | .finish => .ok (.finish offset)
      | .lexeme kind width => .ok ⟨kind,.ofWidth offset width⟩
      | .fault fault => .error (.lexical offset fault) := by
  constructor
  · intro hc
    unfold Calls at hc
    split at hc
    · next span =>
      obtain ⟨rfl,rfl⟩ := hc
      rw [(s.eq_size_iff _ h).mp rfl]
      rfl
    · next kind span _ =>
      obtain ⟨rfl,hforms⟩ := hc
      obtain ⟨width,hi,hstop⟩ := (s.forms_iff _ _ kind).mp hforms
      have hspan : span = .ofWidth span.start width := by
        cases span
        simp only [Span.ofWidth,Span.mk.injEq,true_and]
        exact hstop
      rw [hi]
      exact congrArg (fun span => Except.ok (Token.mk kind span)) hspan
    · next d =>
      obtain ⟨rfl,hd⟩ := hc
      rw [(s.symbolAt_eq_error_iff _ d).mp hd]
    · next symbol =>
      obtain ⟨rfl,hs⟩ := hc
      rw [(s.unrecognized_iff _ h symbol).mp hs]
    · exact hc.elim
  · rintro rfl
    cases hi : Item.read (s.bytes.drop offset) with
    | finish =>
      have he := (s.eq_size_iff _ h).mpr hi
      exact ⟨he,congrArg (Span.ofWidth · 0) he⟩
    | lexeme kind width =>
      have hforms := (s.forms_iff offset (offset+width) kind).mpr ⟨width,hi,rfl⟩
      exact (s.calls_token offset kind _ (Item.lexeme_ne_end _ kind width hi)).mpr ⟨rfl,hforms⟩
    | fault f =>
      cases f with
      | malformed d => exact ⟨rfl,(s.symbolAt_eq_error_iff offset d).mpr hi⟩
      | unrecognized symbol => exact ⟨rfl,(s.unrecognized_iff offset h symbol).mpr hi⟩

theorem not_calls_unknown (s : Source) (offset : Nat) (span : Span) :
    ¬ s.Calls offset (.ok ⟨.unknown,span⟩) := by
  rintro ⟨_,c,hc,_⟩
  simp [Kind.marks] at hc

end Source

namespace Reader

theorem next_calls (r : Reader) (result : Except Error Token) :
    r.next.1 = result ↔ r.source.Calls r.pastBlanks.cursor result := by
  have hc : r.pastBlanks.cursor ≤ r.source.size := r.pastBlanks.cursor_le_size
  have hw : r.source.bytes.drop r.pastBlanks.cursor = r.pastBlanks.window := rfl
  rw [r.source.calls_iff _ hc,hw,next_eq,eq_comm]
  cases Item.read r.pastBlanks.window <;> rfl

theorem pastBlanks_run (r : Reader) (stop : Nat) :
    (∃ blanks,r.source.Run IsBlank r.cursor blanks stop) ↔ stop = r.pastBlanks.cursor := by
  rw [Source.run_iff isBlank_iff,r.pastBlanks_cursor]
  rfl

end Reader

/-- Let q be the place behind the blanks under the cursor. The next token is the end of the source
exactly if that is at q; a word, a number or a punctuator exactly if the characters from q on form
one, as long as they go on; and otherwise there is a defect at q, or a scalar that no token begins
with. One of this is the case, and only one. Behind a token the cursor stands where the token ends,
at an error it stands at q. No token is of the unknown class. -/
theorem next_eq_iff (r : Reader) :
    ∃ blanks q,r.source.Run IsBlank r.cursor blanks q ∧
      (∀ others stop,r.source.Run IsBlank r.cursor others stop → stop = q) ∧
      (∀ result,r.next.1 = result ↔ r.source.Calls q result) ∧
      (∃! result,r.source.Calls q result) ∧
      r.next.2.source = r.source ∧
      (∀ t,r.next.1 = .ok t → r.next.2.cursor = t.span.stop ∧ t.kind ≠ .unknown) ∧
      ∀ e,r.next.1 = .error e → r.next.2.cursor = q := by
  obtain ⟨blanks,hrun⟩ := (r.pastBlanks_run r.pastBlanks.cursor).mpr rfl
  have hcalls := r.next_calls
  refine ⟨blanks,r.pastBlanks.cursor,hrun,?_,hcalls,?_,r.next_reaches.source,?_,?_⟩
  · intro others stop h
    exact (r.pastBlanks_run stop).mp ⟨others,h⟩
  · refine ⟨r.next.1,(hcalls _).mp rfl,?_⟩
    intro result h
    exact ((hcalls result).mpr h).symm
  · intro t ht
    constructor
    · have hn : r.next = (.ok t,r.next.2) := Prod.ext ht rfl
      cases he : t.isEnd with
      | true =>
        obtain ⟨rfl,_,hend,_⟩ := Reader.next_of_end hn he
        exact hend
      | false => exact (Reader.next_of_token hn he).2.2.2.symm
    · rintro hk
      obtain ⟨kind,span⟩ := t
      obtain rfl : kind = .unknown := hk
      exact r.source.not_calls_unknown _ span ((hcalls _).mp ht)
  · intro e he
    have hn : r.next = (.error e,r.next.2) := Prod.ext he rfl
    obtain ⟨_,_,_,_,hr⟩ := Reader.fault_of_next hn
    exact congrArg Reader.cursor hr

/-- A number ends where a word begins. -/
example :
    ((Source.ofUtf8 [0x09,0x37,0x61,0x5F]).scan .abort).tokens =
      [⟨.integer,.ofWidth 1 1⟩,⟨.identifier,.ofWidth 2 2⟩,.finish 4] := by
  decide +kernel

end Lexis
