import Lexis.Proofs.Course

/-!
From one token to the next. `next_cases` says all that a call for the next token can do, and
`next_induction` follows a reader call by call to the end of its source. A scan is such a course
too: what the reader gives next, then the scan from there on.
-/

namespace Lexis

namespace Reader

/-- The second reader is the first one with its cursor where it was or further on. -/
structure Reaches (r r' : Reader) : Prop where
  source : r'.source = r.source
  cursor : r.cursor ≤ r'.cursor

theorem Reaches.refl (r : Reader) : r.Reaches r := ⟨rfl,Nat.le_refl _⟩

theorem Reaches.trans {r s t : Reader} (hs : r.Reaches s) (ht : s.Reaches t) : r.Reaches t :=
  ⟨ht.source.trans hs.source,Nat.le_trans hs.cursor ht.cursor⟩

theorem forward_cursor (r : Reader) (count : Nat) (h : r.cursor+count ≤ r.source.size) :
    (r.forward count).cursor = r.cursor+count := Nat.min_eq_left h

theorem forward_reaches (r : Reader) (count : Nat) : r.Reaches (r.forward count) := by
  have hc := r.cursor_le_size
  refine ⟨rfl,?_⟩
  change r.cursor ≤ min (r.cursor+count) r.source.size
  omega

theorem forward_forward (r : Reader) (first second : Nat) :
    (r.forward first).forward second = r.forward (first+second) := by
  simp only [forward,mk.injEq,true_and]
  omega

theorem forward_zero (r : Reader) : r.forward 0 = r := by
  have hc : min (r.cursor+0) r.source.size = r.cursor := Nat.min_eq_left r.cursor_le_size
  simp only [forward,hc]

/-- The reader behind the blanks under its cursor. -/
def pastBlanks (r : Reader) : Reader := r.forward (runWidth isBlank r.window)

theorem pastBlanks_window (r : Reader) :
    r.pastBlanks.window = r.window.drop (runWidth isBlank r.window) := r.forward_window _

theorem pastBlanks_cursor (r : Reader) :
    r.pastBlanks.cursor = r.cursor+runWidth isBlank r.window := by
  have hw := runWidth_le isBlank r.window
  have hc := r.cursor_le_size
  rw [r.window_length,remaining] at hw
  apply r.forward_cursor
  omega

theorem pastBlanks_pastBlanks (r : Reader) : r.pastBlanks.pastBlanks = r.pastBlanks := by
  have hw : runWidth isBlank r.pastBlanks.window = 0 := by
    rw [r.pastBlanks_window]
    exact runWidth_drop isBlank r.window
  rw [pastBlanks,hw,forward_zero]

theorem next_eq (r : Reader) :
    r.next = match Item.read r.pastBlanks.window with
      | .finish => (.ok (.finish r.pastBlanks.cursor),r.pastBlanks)
      | .lexeme kind width =>
          (.ok ⟨kind,.ofWidth r.pastBlanks.cursor width⟩,r.pastBlanks.forward width)
      | .fault fault => (.error (.lexical r.pastBlanks.cursor fault),r.pastBlanks) := rfl

/-- The next token is the end of the source, or a lexeme behind the blanks, or there is a fault
behind the blanks and the cursor stays with it. -/
theorem next_cases (r : Reader) :
    (Item.read r.pastBlanks.window = .finish ∧ r.pastBlanks.cursor = r.source.size ∧
        r.next = (.ok (.finish r.source.size),r.pastBlanks)) ∨
      (∃ kind width,Item.read r.pastBlanks.window = .lexeme kind width ∧ kind ≠ .endOfFile ∧
        0 < width ∧ r.pastBlanks.cursor+width ≤ r.source.size ∧
        r.next = (.ok ⟨kind,.ofWidth r.pastBlanks.cursor width⟩,r.pastBlanks.forward width)) ∨
      ∃ fault,Item.read r.pastBlanks.window = .fault fault ∧
        r.pastBlanks.cursor+fault.resync ≤ r.source.size ∧
        r.next = (.error (.lexical r.pastBlanks.cursor fault),r.pastBlanks) := by
  have hl := r.pastBlanks.window_length
  have hc := r.pastBlanks.cursor_le_size
  have hs : r.pastBlanks.source = r.source := rfl
  rw [remaining,hs] at hl
  rw [hs] at hc
  rw [next_eq]
  cases hi : Item.read r.pastBlanks.window with
  | finish =>
    have hn := (Item.read_eq_finish_iff _).mp hi
    have he : r.pastBlanks.cursor = r.source.size := by
      rw [hn,List.length_nil] at hl
      omega
    exact .inl ⟨rfl,he,by rw [he]⟩
  | lexeme kind width =>
    obtain ⟨hp,hw⟩ := Item.lexeme_width _ kind width hi
    exact .inr (.inl ⟨kind,width,rfl,Item.lexeme_ne_end _ kind width hi,hp,by omega,rfl⟩)
  | fault fault =>
    have hw := Item.resync_le _ fault hi
    exact .inr (.inr ⟨fault,rfl,by omega,rfl⟩)

section Inversion

variable {r r' : Reader} {t : Token} {e : Error}

theorem end_of_next (h : r.next = (.ok t,r')) (ht : t.isEnd = true) :
    Item.read r.pastBlanks.window = .finish ∧ r.pastBlanks.cursor = r.source.size ∧
      t = .finish r.source.size ∧ r' = r.pastBlanks := by
  rcases r.next_cases with ⟨hi,hc,hn⟩ | ⟨kind,width,_,hk,_,_,hn⟩ | ⟨f,_,_,hn⟩
  · obtain ⟨rfl,rfl⟩ : .finish r.source.size = t ∧ r.pastBlanks = r' := by simpa [hn] using h
    exact ⟨hi,hc,rfl,rfl⟩
  · obtain ⟨rfl,_⟩ : ⟨kind,.ofWidth r.pastBlanks.cursor width⟩ = t ∧ _ = r' := by
      simpa [hn] using h
    exact absurd (by simpa [Token.isEnd] using ht) hk
  · simp [hn] at h

theorem lexeme_of_next (h : r.next = (.ok t,r')) (ht : t.isEnd = false) :
    ∃ kind width,Item.read r.pastBlanks.window = .lexeme kind width ∧ 0 < width ∧
      r.pastBlanks.cursor+width ≤ r.source.size ∧
      t = ⟨kind,.ofWidth r.pastBlanks.cursor width⟩ ∧ r' = r.pastBlanks.forward width := by
  rcases r.next_cases with ⟨_,_,hn⟩ | ⟨kind,width,hi,_,hp,hw,hn⟩ | ⟨f,_,_,hn⟩
  · obtain ⟨rfl,_⟩ : .finish r.source.size = t ∧ r.pastBlanks = r' := by simpa [hn] using h
    simp [Token.finish,Token.isEnd] at ht
  · obtain ⟨rfl,rfl⟩ : ⟨kind,.ofWidth r.pastBlanks.cursor width⟩ = t ∧
        r.pastBlanks.forward width = r' := by simpa [hn] using h
    exact ⟨kind,width,hi,hp,hw,rfl,rfl⟩
  · simp [hn] at h

theorem fault_of_next (h : r.next = (.error e,r')) :
    ∃ fault,Item.read r.pastBlanks.window = .fault fault ∧
      r.pastBlanks.cursor+fault.resync ≤ r.source.size ∧
      e = .lexical r.pastBlanks.cursor fault ∧ r' = r.pastBlanks := by
  rcases r.next_cases with ⟨_,_,hn⟩ | ⟨kind,width,_,_,_,_,hn⟩ | ⟨f,hi,hw,hn⟩
  · simp [hn] at h
  · simp [hn] at h
  · obtain ⟨rfl,rfl⟩ : .lexical r.pastBlanks.cursor f = e ∧ r.pastBlanks = r' := by
      simpa [hn] using h
    exact ⟨f,hi,hw,rfl,rfl⟩

/-- The end of the source is given again and again. -/
theorem next_of_end (h : r.next = (.ok t,r')) (ht : t.isEnd = true) :
    t = .finish r.source.size ∧ r.Reaches r' ∧ r'.cursor = r.source.size ∧
      r'.next = (.ok t,r') := by
  obtain ⟨hi,hc,rfl,rfl⟩ := end_of_next h ht
  refine ⟨rfl,r.forward_reaches _,hc,?_⟩
  rw [next_eq,r.pastBlanks_pastBlanks,hi]
  simp only [hc]

/-- A token that is not the end takes bytes behind the cursor, which then stands where it ends. -/
theorem next_of_token (h : r.next = (.ok t,r')) (ht : t.isEnd = false) :
    r.Reaches r' ∧ r.cursor ≤ t.span.start ∧ t.span.start < t.span.stop ∧
      t.span.stop = r'.cursor := by
  obtain ⟨kind,width,_,hp,hw,rfl,rfl⟩ := lexeme_of_next h ht
  have hb := r.forward_reaches (runWidth isBlank r.window)
  have hf := r.pastBlanks.forward_reaches width
  have hstop := r.pastBlanks.forward_cursor width hw
  refine ⟨hb.trans hf,hb.cursor,?_,hstop.symm⟩
  exact Nat.lt_add_of_pos_right hp

theorem remaining_of_token (h : r.next = (.ok t,r')) (ht : t.isEnd = false) :
    r'.remaining < r.remaining := by
  obtain ⟨hr,hstart,hlt,hstop⟩ := next_of_token h ht
  have hc := r'.cursor_le_size
  simp only [remaining,hr.source] at hc ⊢
  omega

/-- An error is found again where it was found, and what is at fault lies inside the source. -/
theorem next_of_error (h : r.next = (.error e,r')) :
    r.Reaches r' ∧ r'.next = (.error e,r') ∧
      ∃ fault,e = .lexical r'.cursor fault ∧ r'.cursor+fault.resync ≤ r'.source.size := by
  obtain ⟨f,hi,hw,rfl,rfl⟩ := fault_of_next h
  refine ⟨r.forward_reaches _,?_,f,rfl,hw⟩
  rw [next_eq,r.pastBlanks_pastBlanks,hi]

end Inversion

/-- Whatever comes next, the cursor does not move back. -/
theorem next_reaches (r : Reader) : r.Reaches r.next.2 := by
  rcases r.next_cases with ⟨_,_,hn⟩ | ⟨_,width,_,_,_,_,hn⟩ | ⟨_,_,_,hn⟩ <;> rw [hn]
  · exact r.forward_reaches _
  · exact (r.forward_reaches _).trans (r.pastBlanks.forward_reaches width)
  · exact r.forward_reaches _

/-- Moves past the input at fault, and tells by how many bytes. An error without a place moves
nothing. -/
def pass (r : Reader) (e : Error) : Nat × Reader := r.skip (e.resync?.getD 0)

/-- Passing an error that was met next is never cut short by the end of the source. -/
theorem pass_of_error {r r' : Reader} {e : Error} (h : r.next = (.error e,r')) :
    e.resync? = some (r'.pass e).1 ∧ (r'.pass e).2.remaining < r.remaining := by
  obtain ⟨hr,_,f,rfl,hw⟩ := next_of_error h
  have hp := f.resync_pos
  have hc := hr.cursor
  have hm : (r'.pass (.lexical r'.cursor f)).1 = f.resync := by
    change min f.resync (r'.source.size-r'.cursor) = f.resync
    omega
  refine ⟨by rw [hm]; rfl,?_⟩
  change r'.source.size-min (r'.cursor+f.resync) r'.source.size < r.source.size-r.cursor
  rw [← hr.source]
  omega

/-- To follow a reader call by call: the end and a fault need no more calls, but behind a fault the
reader may go on. -/
@[elab_as_elim]
theorem next_induction {motive : Reader → Prop}
    (finish : ∀ r t r',r.next = (.ok t,r') → t.isEnd = true → motive r)
    (token : ∀ r t r',r.next = (.ok t,r') → t.isEnd = false → motive r' → motive r)
    (fault : ∀ r e r',r.next = (.error e,r') → motive (r'.pass e).2 → motive r) (r : Reader) :
    motive r := by
  -- A token leaves less to read, and so does a fault that is passed.
  induction hm : r.remaining using Nat.strongRecOn generalizing r with
  | ind m ih =>
    cases hn : r.next with
    | mk result r' =>
      cases result with
      | error e => exact fault r e r' hn (ih _ (hm ▸ (pass_of_error hn).2) _ rfl)
      | ok t =>
        cases ht : t.isEnd with
        | true => exact finish r t r' hn ht
        | false => exact token r t r' hn ht (ih _ (hm ▸ remaining_of_token hn ht) r' rfl)

end Reader

namespace Stream

/-- After the end of the source and after an error a pass is over. -/
def closes : Except Error Token → Bool
  | .ok t => t.isEnd
  | .error _ => true

/-- A pass that is not over gives what the reader gives next. -/
theorem pull_of_open (s : Stream) (r : Reader) (h : s.finished = false) :
    s.pull r = (some r.next.1,⟨closes r.next.1⟩,r.next.2) := by
  rw [pull,h]
  rcases r.next with ⟨_ | _,_⟩ <;> rfl

end Stream

namespace Scan

theorem withToken_stop (t : Token) (s : Scan) : (s.withToken t).stop = s.stop := rfl

theorem withError_stop (e : Error) (s : Scan) : (s.withError e).stop = s.stop := rfl

/-- A scan stops inside its window. -/
theorem stop_bounds (recovery : Recovery) (offset : Nat) (w : List UInt8) :
    offset ≤ (ofWindow recovery offset w).stop ∧
      (ofWindow recovery offset w).stop ≤ offset+w.length := by
  induction offset, w using Scan.ofWindow.induct recovery with
  | case1 offset w rest h =>
    have hb := runWidth_le isBlank w
    rw [ofWindow_finish recovery offset w h]
    constructor
    · exact Nat.le_add_right _ _
    · exact Nat.add_le_add_left hb offset
  | case2 offset w start rest kind width h ih =>
    have hr := (Item.lexeme_width rest kind width h).2
    have hb := runWidth_le isBlank w
    rw [ofWindow_token recovery offset w kind width h,withToken_stop]
    simp only [start,rest,List.length_drop] at hr ih ⊢
    omega
  | case3 offset w rest f h hr =>
    subst hr
    have hb := runWidth_le isBlank w
    rw [ofWindow_abort offset w f h]
    constructor
    · exact Nat.le_add_right _ _
    · exact Nat.add_le_add_left hb offset
  | case4 offset w start rest f h hr ih =>
    subst hr
    have hp := Item.resync_le rest f h
    have hb := runWidth_le isBlank w
    rw [ofWindow_error offset w f h,withError_stop]
    simp only [start,rest,List.length_drop] at hp ih ⊢
    omega

end Scan

namespace Reader

/-- A scan that goes on where another one would begin stops where that one stops. -/
theorem scan_forward (r : Reader) (recovery : Recovery) (count : Nat) (s : Scan)
    (hc : r.cursor+count ≤ r.source.size)
    (hs : Scan.ofWindow recovery r.cursor r.window = s)
    (hstop : s.stop = ((r.forward count).scan recovery).1.stop) :
    r.scan recovery = (s,((r.forward count).scan recovery).2) := by
  have hf := r.forward_cursor count hc
  have hb := (Scan.stop_bounds recovery (r.forward count).cursor (r.forward count).window).1
  change s.stop = (Scan.ofWindow recovery (r.forward count).cursor (r.forward count).window).stop
    at hstop
  have hsplit : s.stop-r.cursor = count+(s.stop-(r.forward count).cursor) := by
    rw [← hstop] at hb
    omega
  have hr : r.scan recovery = (s,r.forward (s.stop-r.cursor)) := by
    rw [scan,hs]
  rw [hr,hsplit,← forward_forward]
  change _ = (s,(r.forward count).forward
    ((Scan.ofWindow recovery (r.forward count).cursor (r.forward count).window).stop-
      (r.forward count).cursor))
  rw [← hstop]

section Scan

variable {r r' : Reader} {t : Token} {e : Error} (recovery : Recovery)

theorem scan_of_end (h : r.next = (.ok t,r')) (ht : t.isEnd = true) :
    r.scan recovery = (⟨[t],[],r'.cursor⟩,r') := by
  obtain ⟨hi,hc,rfl,rfl⟩ := end_of_next h ht
  have hb := r.pastBlanks_cursor
  rw [r.pastBlanks_window] at hi
  have hs := Scan.ofWindow_finish recovery r.cursor r.window hi
  rw [← hb] at hs
  rw [scan,hs,hb,Nat.add_sub_cancel_left,← hb,hc]
  rfl

/-- A scan is the next token and then the scan of what is left. -/
theorem scan_of_token (h : r.next = (.ok t,r')) (ht : t.isEnd = false) :
    r.scan recovery = ((r'.scan recovery).1.withToken t,(r'.scan recovery).2) := by
  obtain ⟨kind,width,hi,_,hw,rfl,rfl⟩ := lexeme_of_next h ht
  have hb := r.pastBlanks_cursor
  have hc := r.pastBlanks.forward_cursor width hw
  rw [r.pastBlanks_window] at hi
  have hs := Scan.ofWindow_token recovery r.cursor r.window kind width hi
  rw [← hb,← r.pastBlanks_window,← forward_window,← hc] at hs
  have hf : r.pastBlanks.forward width = r.forward (runWidth isBlank r.window+width) :=
    r.forward_forward _ _
  rw [hf] at hs ⊢
  apply r.scan_forward recovery _ _ ?_ hs rfl
  omega

/-- A scan that does not skip faults is over at the first one. -/
theorem scan_abort_of_error (h : r.next = (.error e,r')) :
    r.scan .abort = (⟨[],[e],r'.cursor⟩,r') := by
  obtain ⟨f,hi,_,rfl,rfl⟩ := fault_of_next h
  have hb := r.pastBlanks_cursor
  rw [r.pastBlanks_window] at hi
  have hs := Scan.ofWindow_abort r.cursor r.window f hi
  rw [← hb] at hs
  rw [scan,hs,hb,Nat.add_sub_cancel_left,← hb]
  rfl

/-- A scan that skips faults goes on behind the next one. -/
theorem scan_skip_of_error (h : r.next = (.error e,r')) :
    r.scan .skip =
      (((r'.pass e).2.scan .skip).1.withError e,((r'.pass e).2.scan .skip).2) := by
  obtain ⟨f,hi,hw,rfl,rfl⟩ := fault_of_next h
  have hb := r.pastBlanks_cursor
  have hc := r.pastBlanks.forward_cursor f.resync hw
  rw [r.pastBlanks_window] at hi
  have hs := Scan.ofWindow_error r.cursor r.window f hi
  rw [← hb,← r.pastBlanks_window,← forward_window,← hc] at hs
  have hf : r.pastBlanks.forward f.resync = r.forward (runWidth isBlank r.window+f.resync) :=
    r.forward_forward _ _
  change _ = (((r.pastBlanks.forward f.resync).scan .skip).1.withError _,
    ((r.pastBlanks.forward f.resync).scan .skip).2)
  rw [hf] at hs ⊢
  apply r.scan_forward .skip _ _ ?_ hs rfl
  omega

end Scan

end Reader

end Lexis
