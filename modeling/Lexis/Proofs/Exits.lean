import Lexis.Proofs.Munch
import Lexis.Proofs.Schedule
import Lexis.Proofs.Tape

/-!
Errors lose and move nothing. A token is read here with an exit wherever a character cannot be read
or stepped over, and `nextWithExits_eq` says that only the exits before a token's first character
are taken. A reader that met an error or the end of its source is at rest: `run_rests` says that
whoever asks for tokens after that gets the same again.
-/

namespace Lexis

/-- The error that a result holds. -/
def Session.errorsOf : Except Error Token → List Error
  | .ok _ => []
  | .error e => [e]

namespace Reader

/-- A step over a character leaves less to read. -/
theorem window_of_advance (r r' : Reader) (result : Except Error Symbol) (s : Symbol) (c : Char)
    (h : r.peek = .ok s) (hc : s.char? = some c) (ha : r.advance = (result,r')) :
    r'.window.length < r.window.length := by
  rw [r.advance_of_peek s h] at ha
  obtain ⟨_,rfl⟩ := Prod.mk.inj ha
  rw [forward_window]
  exact Sequence.drop_lt_of_char r.window s c (r.tape.peek_eq_ok s h) hc

/-- Steps over accepted characters. What becomes of a character that cannot be read is for the
caller to say; a step that fails is an exit. -/
def passChars (unread : Error → Except Error Unit) (accept : Char → Bool) (r : Reader) :
    Except Error Unit × Reader :=
  match _ : r.peek with
  | .error e => (unread e,r)
  | .ok symbol =>
    if _ : symbol.char?.any accept = true then
      match _ : r.advance with
      | (.error e,r') => (.error e,r')
      | (.ok _,r') => passChars unread accept r'
    else (.ok (),r)
termination_by r.window.length
decreasing_by
  obtain ⟨c,hc,_⟩ := (Option.any_eq_true accept symbol.char?).mp (by assumption)
  exact r.window_of_advance r' _ symbol c (by assumption) hc (by assumption)

/-- A character, and then all that are accepted, as a token of the class. -/
def takeRun (kind : Kind) (accept : Char → Bool) (r : Reader) : Except Error Token × Reader :=
  match r.advance with
  | (.error e,r') => (.error e,r')
  | (.ok _,r') =>
    match r'.passChars (fun _ => .ok ()) accept with
    | (.error e,r'') => (.error e,r'')
    | (.ok _,r'') => (.ok ⟨kind,.ofWidth r.cursor (r''.cursor-r.cursor)⟩,r'')

/-- One character as a token of the class. -/
def takeMark (kind : Kind) (r : Reader) : Except Error Token × Reader :=
  match r.advance with
  | (.error e,r') => (.error e,r')
  | (.ok _,r') => (.ok ⟨kind,.ofWidth r.cursor (r'.cursor-r.cursor)⟩,r')

/-- The next token, with all the exits that there are. -/
def nextWithExits (r : Reader) : Except Error Token × Reader :=
  match r.passChars .error isBlank with
  | (.error e,r) => (.error e,r)
  | (.ok _,r) =>
    match r.peek with
    | .error e => (.error e,r)
    | .ok symbol =>
      if symbol.isEnd then (.ok (.finish r.cursor),r)
      else
        match symbol.char? with
        | none => (.error (.lexical r.cursor (.unrecognized symbol)),r)
        | some c =>
          if Unicode.isAlphabetic c then r.takeRun .identifier isWordChar
          else if c.isDigit then r.takeRun .integer Char.isDigit
          else
            match Kind.punctuator? c with
            | some kind => r.takeMark kind
            | none => (.error (.lexical r.cursor (.unrecognized symbol)),r)

/-- The steps are those of the run, and none of them fails. -/
theorem passChars_eq (unread : Error → Except Error Unit) (accept : Char → Bool) (r : Reader) :
    r.passChars unread accept =
      (match (r.forward (runWidth accept r.window)).peek with
        | .error e => unread e
        | .ok _ => .ok (),r.forward (runWidth accept r.window)) := by
  generalize hw : r.window = w
  fun_induction runWidth accept w generalizing r with
  | case1 w d h =>
    have hp : r.peek = .error (.lexical r.cursor (.malformed d)) := by simp [peek,hw,h]
    rw [r.forward_zero,hp,passChars]
    split <;> simp_all
  | case2 w s h ha ih =>
    have hp : r.peek = .ok s := by simp [peek,hw,h]
    have hstep := r.advance_of_peek s hp
    have hwindow : (r.forward s.width).window = w.drop s.width := by rw [forward_window,hw]
    rw [← forward_forward,← ih (r.forward s.width) hwindow,passChars]
    split
    · next e he => simp [hp] at he
    · next u hu =>
      obtain rfl : s = u := by simpa [hp] using hu
      rw [dif_pos ha]
      split
      · next he => simp [hstep] at he
      · next r' hr =>
        obtain ⟨_,rfl⟩ : s = _ ∧ r.forward s.width = r' := by simpa [hstep] using hr
        rfl
  | case3 w s h ha =>
    have hp : r.peek = .ok s := by simp [peek,hw,h]
    rw [r.forward_zero,hp,passChars]
    split <;> simp_all

theorem takeRun_eq (kind : Kind) (accept : Char → Bool) (r : Reader) (s : Symbol) (c : Char)
    (h : r.peek = .ok s) (hc : s.char? = some c) (ha : accept c = true) :
    r.takeRun kind accept =
      (.ok ⟨kind,.ofWidth r.cursor (runWidth accept r.window)⟩,
        r.forward (runWidth accept r.window)) := by
  have hwidth := runWidth_of_accept accept r.window s c (r.tape.peek_eq_ok s h) hc ha
  have hcursor := r.forward_cursor _ (r.cursor_add_run accept)
  have hpass := (r.forward s.width).passChars_eq (fun _ => .ok ()) accept
  rw [forward_window,forward_forward,← hwidth] at hpass
  rw [takeRun,r.advance_of_peek s h]
  simp only [hpass]
  cases (r.forward (runWidth accept r.window)).peek <;>
    simp only [hcursor,Nat.add_sub_cancel_left]

theorem takeMark_eq (kind : Kind) (r : Reader) (s : Symbol) (h : r.peek = .ok s) :
    r.takeMark kind = (.ok ⟨kind,.ofWidth r.cursor s.width⟩,r.forward s.width) := by
  have hcursor := r.forward_cursor s.width (r.cursor_add_width s h)
  rw [takeMark,r.advance_of_peek s h]
  simp only [hcursor,Nat.add_sub_cancel_left]

theorem nextWithExits_eq (r : Reader) : r.nextWithExits = r.next := by
  have hpass : r.passChars .error isBlank =
      (match r.pastBlanks.peek with
        | .error e => .error e
        | .ok _ => .ok (),r.pastBlanks) := r.passChars_eq .error isBlank
  rw [next_eq,nextWithExits,hpass]
  generalize r.pastBlanks = p
  cases hd : Sequence.decode p.window with
  | error d =>
    have hp : p.peek = .error (.lexical p.cursor (.malformed d)) := by simp [peek,hd]
    simp only [hp,Item.read,hd]
  | ok s =>
    have hp : p.peek = .ok s := by simp [peek,hd]
    simp only [hp,Item.read,hd]
    cases hs : s.isEnd with
    | true => rfl
    | false =>
      cases hc : s.char? with
      | none => rfl
      | some c =>
        simp only [Bool.false_eq_true,if_false]
        split
        · next ha => rw [p.takeRun_eq .identifier isWordChar s c hp hc (by simp [isWordChar,ha])]
        · split
          · next hn => rw [p.takeRun_eq .integer Char.isDigit s c hp hc hn]
          · cases Kind.punctuator? c with
            | none => rfl
            | some kind => exact p.takeMark_eq kind s hp

/-- The reader gives the one result and stays where it is. -/
def Rests (r : Reader) (last : Except Error Token) : Prop := r.next = (last,r)

namespace Rests

variable {r r' : Reader} {last : Except Error Token} {t : Token} {e : Error}

theorem of_error (h : r.next = (.error e,r')) : r'.Rests (.error e) := (next_of_error h).2.1

theorem of_end (h : r.next = (.ok t,r')) (ht : t.isEnd = true) : r'.Rests (.ok t) :=
  (next_of_end h ht).2.2.2

/-- The only token that a reader at rest gives is the end of its source. -/
theorem token_eq (h : r.Rests (.ok t)) : t = .finish r.source.size ∧ r.cursor = r.source.size := by
  cases ht : t.isEnd with
  | true =>
    obtain ⟨rfl,_,hc,_⟩ := next_of_end h ht
    exact ⟨rfl,hc⟩
  | false =>
    obtain ⟨_,hstart,hlt,hstop⟩ := next_of_token h ht
    omega

theorem scan_abort (h : r.Rests last) :
    r.scan .abort = (⟨Session.tokensOf last,Session.errorsOf last,r.cursor⟩,r) := by
  cases last with
  | error e => exact scan_abort_of_error h
  | ok t =>
    obtain ⟨rfl,_⟩ := token_eq h
    exact scan_of_end .abort h rfl

/-- At the end of a source nothing moves. -/
theorem forward_eq (h : r.Rests (.ok t)) (count : Nat) : r.forward count = r := by
  have hc := h.token_eq.2
  have hmin : min (r.cursor+count) r.source.size = r.cursor := by omega
  simp only [forward,hmin]

theorem advance_eq (h : r.Rests (.ok t)) : r.advance.2 = r := by
  rw [advance]
  split
  · exact h.forward_eq _
  · rfl

end Rests

/-- A scan whose last token is the end of the source leaves nothing to read. -/
theorem scan_rests (r : Reader) (recovery : Recovery)
    (h : (r.scan recovery).1.tokens.getLast?.any Token.isEnd = true) :
    (r.scan recovery).2.Rests (.ok (.finish r.source.size)) := by
  induction r using next_induction with
  | finish r t r' hn ht =>
    have hrests := Rests.of_end hn ht
    obtain rfl := (next_of_end hn ht).1
    rw [scan_of_end recovery hn ht]
    exact hrests
  | token r t r' hn ht ih =>
    rw [scan_of_token recovery hn ht] at h ⊢
    rw [← (next_of_token hn ht).1.source]
    apply ih
    change (t::(r'.scan recovery).1.tokens).getLast?.any Token.isEnd = true at h
    cases hl : (r'.scan recovery).1.tokens with
    | nil => simp [hl,ht] at h
    | cons u us => rwa [hl,List.getLast?_cons_cons] at h
  | fault r e r' hn ih =>
    cases recovery with
    | abort => simp [scan_abort_of_error hn] at h
    | skip =>
      rw [scan_skip_of_error hn] at h ⊢
      rw [← (next_of_error hn).1.source]
      exact ih h

end Reader

namespace Session

/-- The call leaves a reader at rest where it is. At the end of a source every call does, at an
error those that do not pass it. -/
def Call.keeps : Except Error Token → Call → Bool
  | .ok _,_ => true
  | .error _,.advance => false
  | .error _,.skip _ => false
  | .error _,.scan recovery => recovery == .abort
  | .error _,.scanPartial recovery => recovery == .abort
  | .error _,_ => true

/-- The answer to a call that asks for tokens, from a reader that gives only the one result. A pass
that is over gives nothing. -/
def Call.Repeats (source : Source) (last : Except Error Token) : Call → Answer → Prop
  | .next,answer => answer = .token (last.map (Lexeme.mk source))
  | .pull _,answer => answer = .pulled none ∨ answer = .pulled (some (last.map (Lexeme.mk source)))
  | .scan _,answer => answer = .tokens
      (Scan.result ⟨tokensOf last,errorsOf last,0⟩ |>.map (Lexeme.ofTokens source))
  | .scanPartial _,answer =>
      answer = .partialScan (Lexeme.ofTokens source (tokensOf last)) (errorsOf last)
  | _,_ => True

section Step

variable {s : Session} {r : Reader} {last : Except Error Token} {call : Call}

theorem scan_of_rests (hr : r.Rests last) (recovery : Recovery)
    (h : (∃ t,last = .ok t) ∨ recovery = .abort) :
    r.scan recovery = (⟨tokensOf last,errorsOf last,r.cursor⟩,r) := by
  rcases h with ⟨t,rfl⟩ | rfl
  · obtain ⟨rfl,_⟩ := hr.token_eq
    exact Reader.scan_of_end recovery hr rfl
  · exact hr.scan_abort

theorem perform_rests (hs : s.Shares r) (hr : r.Rests last) (owner : Nat)
    (hcall : call.keeps last = true) (h : admitted s.passes.length (owner,call) = true) :
    ∃ answer next,s.perform owner call = some (answer,next) ∧ next.Shares r ∧
      next.passes.length = s.passes.length+call.begins ∧ call.Repeats r.source last answer := by
  cases call with
  | peek =>
    obtain rfl : owner = 0 := by simpa [admitted] using h
    exact ⟨_,_,perform_peek hs.get,hs,rfl,trivial⟩
  | advance =>
    -- A step is admitted at the end of the source only, and moves nothing there.
    obtain rfl : owner = 0 := by simpa [admitted] using h
    cases last with
    | error e => cases hcall
    | ok t =>
      have hp := perform_advance hs.get
      rw [hr.advance_eq] at hp
      exact ⟨_,_,hp,hs.update r [],rfl,trivial⟩
  | skip count =>
    obtain rfl : owner = 0 := by simpa [admitted] using h
    cases last with
    | error e => cases hcall
    | ok t =>
      have hp := perform_skip hs.get count
      rw [Reader.skip,hr.forward_eq count] at hp
      exact ⟨_,_,hp,hs.update r [],rfl,trivial⟩
  | next =>
    obtain rfl : owner = 0 := by simpa [admitted] using h
    have hp := perform_next hs.get
    rw [hr] at hp
    exact ⟨_,_,hp,hs.update r _,rfl,rfl⟩
  | startPass =>
    obtain rfl : owner = 0 := by simpa [admitted] using h
    exact ⟨_,_,perform_startPass hs.get,hs.startPass,by simp [Call.begins],trivial⟩
  | pull index =>
    obtain ⟨stream,hp⟩ := perform_shared_pull hs owner index (by simpa [admitted] using h)
    cases hf : stream.finished with
    | true =>
      rw [stream.pull_of_finished r hf] at hp
      exact ⟨_,_,hp,(hs.update r _).pull index _,List.length_set,.inl rfl⟩
    | false =>
      rw [stream.pull_of_open r hf,hr] at hp
      exact ⟨_,_,hp,(hs.update r _).pull index _,List.length_set,.inr rfl⟩
  | scan recovery =>
    obtain rfl : owner = 0 := by simpa [admitted] using h
    have hp := perform_scan hs.get recovery
    rw [scan_of_rests hr recovery (by cases last <;> simp_all [Call.keeps])] at hp
    exact ⟨_,_,hp,hs.update r _,rfl,rfl⟩
  | scanPartial recovery =>
    obtain rfl : owner = 0 := by simpa [admitted] using h
    have hp := perform_scanPartial hs.get recovery
    rw [scan_of_rests hr recovery (by cases last <;> simp_all [Call.keeps])] at hp
    exact ⟨_,_,hp,hs.update r _,rfl,rfl⟩

/-- Where the shared reader is at rest, calls that do not pass anything find the same again and
again, whoever makes them. -/
theorem run_rests (calls : List (Nat × Call)) (hs : s.Shares r) (hr : r.Rests last)
    (hcalls : ∀ c ∈ calls,c.2.keeps last = true) (h : possible s.passes.length calls = true) :
    ∃ moments,s.run calls = some moments ∧ moments.map Moment.call = calls ∧
      ∀ m ∈ moments,m.after.readers = [r] ∧ m.call.2.Repeats r.source last m.answer := by
  induction calls generalizing s with
  | nil => exact ⟨[],rfl,rfl,by simp⟩
  | cons c rest ih =>
    obtain ⟨hc,hrest⟩ : admitted s.passes.length c = true ∧
        possible (s.passes.length+c.2.begins) rest = true := by
      simpa [possible] using h
    obtain ⟨answer,next,hperform,hshares,hpasses,hrepeats⟩ :=
      perform_rests hs hr c.1 (hcalls c List.mem_cons_self) hc
    rw [← hpasses] at hrest
    obtain ⟨moments,hrun,hmade,hmoments⟩ :=
      ih hshares (fun d hd => hcalls d (List.mem_cons_of_mem _ hd)) hrest
    refine ⟨⟨c,answer,next⟩::moments,?_,congrArg (List.cons c) hmade,?_⟩
    · rw [run_cons hperform,hrun]
      rfl
    · intro m hm
      rcases List.mem_cons.mp hm with rfl | hm
      · exact ⟨hshares.readers,hrepeats⟩
      · exact hmoments m hm

end Step

/-- A look or a step that fails leaves every reader as it was. -/
theorem readers_of_failure (s next : Session) (owner : Nat) (call : Call) (e : Error)
    (hcall : call = .peek ∨ call = .advance)
    (h : s.perform owner call = some (.symbol (.error e),next)) : next.readers = s.readers := by
  cases hr : s.readers[owner]? with
  | none => rcases hcall with rfl | rfl <;> simp [perform,hr] at h
  | some r =>
    rcases hcall with rfl | rfl
    · rw [perform_peek hr] at h
      obtain ⟨_,rfl⟩ := Prod.mk.inj (Option.some.inj h)
      rfl
    · rw [perform_advance hr] at h
      obtain ⟨ha,rfl⟩ := Prod.mk.inj (Option.some.inj h)
      have hstay : r.advance.2 = r := by
        cases hp : r.peek <;> simp_all [Reader.advance]
      rw [hstay]
      obtain ⟨hlt,rfl⟩ := List.getElem?_eq_some_iff.mp hr
      exact List.set_getElem_self hlt

/-- A look or a step that fails moves no reader, and a token is read with no exit but those before
its first character. An error is met where its input begins, with nothing but blanks passed, and
calls that do not pass it meet the same error again, whoever makes them. After a scan that came to
the end of the source every call finds that end. -/
theorem errors_repeat (r : Reader) :
    (∀ (s next : Session) (owner : Nat) (call : Call) (e : Error),
        (call = .peek ∨ call = .advance) →
        s.perform owner call = some (.symbol (.error e),next) → next.readers = s.readers) ∧
      r.nextWithExits = r.next ∧
      (∀ e r',r.next = (.error e,r') →
        e.offset? = some r'.cursor ∧ r'.source = r.source ∧
        (∃ blanks,r.source.Run IsBlank r.cursor blanks r'.cursor) ∧
        ∀ (s : Session) (calls : List (Nat × Call)),s.Shares r' →
          (∀ c ∈ calls,c.2.keeps (.error e) = true) → possible s.passes.length calls = true →
          ∃ moments,s.run calls = some moments ∧ moments.map Moment.call = calls ∧
            ∀ m ∈ moments,m.after.readers = [r'] ∧
              m.call.2.Repeats r.source (.error e) m.answer) ∧
      ∀ recovery,(r.scan recovery).1.tokens.getLast?.any Token.isEnd = true →
        ∀ (s : Session) (calls : List (Nat × Call)),s.Shares (r.scan recovery).2 →
          possible s.passes.length calls = true →
          ∃ moments,s.run calls = some moments ∧ moments.map Moment.call = calls ∧
            ∀ m ∈ moments,m.after.readers = [(r.scan recovery).2] ∧
              m.call.2.Repeats r.source (.ok (.finish r.source.size)) m.answer := by
  refine ⟨readers_of_failure,r.nextWithExits_eq,?_,?_⟩
  · intro e r' hn
    have hsource := (Reader.next_of_error hn).1.source
    obtain ⟨fault,_,_,rfl,hr⟩ := Reader.fault_of_next hn
    refine ⟨?_,hsource,(r.pastBlanks_run r'.cursor).mpr (by rw [hr]),?_⟩
    · rw [hr]
      rfl
    · intro s calls hs hcalls h
      rw [← hsource]
      exact run_rests calls hs (.of_error hn) hcalls h
  · intro recovery hend s calls hs h
    rw [← (r.scan_orderly recovery).1.source]
    exact run_rests calls hs (r.scan_rests recovery hend) (by simp [Call.keeps]) h

/-- A stray byte behind a blank is met four times over. -/
example :
    let source := Source.ofUtf8 [0x20,0xFF]
    let error : Error := .lexical 1 (.malformed (.badLead 0xFF))
    let calls : List (Nat × Call) := [(0,.next),(0,.startPass),(0,.pull 0),(0,.scanPartial .abort),
      (0,.next)]
    ((Session.ofReaders [.ofSource source]).run calls).map
      (fun moments => moments.map (fun m => (m.answer.errors,m.after.readers.map Reader.cursor))) =
        some [([error],[1]),([],[1]),([error],[1]),([error],[1]),([error],[1])] := by
  decide +kernel

end Session

end Lexis
