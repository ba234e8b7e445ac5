import Lexis.Proofs.Schedule
import Lexis.Proofs.Tape

/-!
Calls on tapes. A bench is a session whose readers have no guarantee, and a call on it stops the
run where a check fails. `run_sound` says that the calls of a schedule never stop it, and what
their tokens and their errors are.
-/

namespace Lexis

structure Bench where
  tapes : List Tape
  passes : List Pass
  saved : List Saved
  deriving DecidableEq

namespace Bench

open Session (Call Answer tokensOf)

def ofTapes (tapes : List Tape) : Bench := ⟨tapes,[],[]⟩

def update (b : Bench) (owner : Nat) (t : Tape) (tokens : List Token) : Bench :=
  { b with
    tapes := b.tapes.set owner t
    saved := b.saved++tokens.map (fun token => ⟨owner,⟨t.source,token⟩⟩) }

/-- Goes on with the tape of the given number, if there is one. -/
def use (b : Bench) (owner : Nat) (f : Tape → Except Panic (Answer × Bench)) :
    Except Panic (Option (Answer × Bench)) :=
  match b.tapes[owner]? with
  | none => .ok none
  | some t => (f t).map some

/-- One call, as on a session, but with every check. -/
def perform (b : Bench) (owner : Nat) : Call → Except Panic (Option (Answer × Bench))
  | .peek => b.use owner (fun t => .ok (.symbol t.peek,b))
  | .advance => b.use owner (fun t => .ok (.symbol t.advance.1,b.update owner t.advance.2 []))
  | .skip count => b.use owner (fun t => do
      let (skipped,t) ← t.skip count
      .ok (.skipped skipped,b.update owner t []))
  | .next => b.use owner (fun t => do
      let (result,t) ← t.next
      .ok (.token (result.map (Lexeme.mk t.source)),b.update owner t (tokensOf result)))
  | .startPass => b.use owner (fun _ =>
      .ok (.pass b.passes.length,{ b with passes := b.passes++[⟨owner,.fresh⟩] }))
  | .pull index =>
    match b.passes[index]? with
    | none => .ok none
    | some pass => b.use pass.owner (fun t => do
        let (result,stream,t) ← t.pull pass.stream
        let b := b.update pass.owner t ((result.map tokensOf).getD [])
        .ok (.pulled (result.map (Except.map (Lexeme.mk t.source))),
          { b with passes := b.passes.set index ⟨pass.owner,stream⟩ }))
  | .scan recovery => b.use owner (fun t => do
      let (scan,t) ← t.scan recovery
      .ok (.tokens (scan.result.map (Lexeme.ofTokens t.source)),
        b.update owner t (scan.result.toOption.getD [])))
  | .scanPartial recovery => b.use owner (fun t => do
      let (scan,t) ← t.scan recovery
      .ok (.partialScan (Lexeme.ofTokens t.source scan.tokens) scan.errors,
        b.update owner t scan.tokens))

def run (b : Bench) : List (Nat × Call) → Except Panic (Option (List (Moment Bench)))
  | [] => .ok (some [])
  | c::rest =>
    match b.perform c.1 c.2 with
    | .error panic => .error panic
    | .ok none => .ok none
    | .ok (some (answer,next)) => (next.run rest).map (Option.map (⟨c,answer,next⟩::·))

end Bench

/-- The session without the guarantees of its readers. -/
def Session.bare (s : Session) : Bench := ⟨s.readers.map Reader.tape,s.passes,s.saved⟩

def Moment.bare (m : Moment Session) : Moment Bench := ⟨m.call,m.answer,m.after.bare⟩

namespace Session

theorem bare_update (s : Session) (owner : Nat) (r : Reader) (tokens : List Token) :
    (s.update owner r tokens).bare = s.bare.update owner r.tape tokens := by
  simp only [bare,update,Bench.update,List.map_set]
  rfl

def bareAnswer (x : Answer × Session) : Answer × Bench := (x.1,x.2.bare)

theorem bare_use (s : Session) (owner : Nat) (f : Tape → Except Panic (Answer × Bench))
    (g : Reader → Option (Answer × Session))
    (h : ∀ r,(f r.tape).map some = .ok ((g r).map bareAnswer)) :
    s.bare.use owner f = .ok ((s.readers[owner]?.bind g).map bareAnswer) := by
  rw [Bench.use,bare,List.getElem?_map]
  cases s.readers[owner]? with
  | none => rfl
  | some r => exact h r

theorem bare_answer (s : Session) (owner : Nat) (answer : Answer) (r : Reader)
    (tokens : List Token) (passes : List Pass) :
    (.ok (some (answer,{ s.bare.update owner r.tape tokens with passes := passes })) :
        Except Panic (Option (Answer × Bench))) =
      .ok ((some (answer,{ s.update owner r tokens with passes := passes })).map bareAnswer) := by
  rw [← bare_update]
  rfl

/-- With checks or without, a call comes to the same. -/
theorem bare_perform (s : Session) (owner : Nat) (call : Call) :
    s.bare.perform owner call = .ok ((s.perform owner call).map bareAnswer) := by
  cases call with
  | peek =>
    apply s.bare_use owner
    intro r
    rfl
  | advance =>
    apply s.bare_use owner
    intro r
    rw [r.tape_advance]
    exact s.bare_answer owner _ _ _ s.passes
  | skip count =>
    apply s.bare_use owner
    intro r
    rw [r.tape_skip]
    exact s.bare_answer owner _ _ _ s.passes
  | next =>
    apply s.bare_use owner
    intro r
    rw [r.tape_next]
    exact s.bare_answer owner _ _ _ s.passes
  | startPass =>
    apply s.bare_use owner
    intro r
    rfl
  | pull index =>
    cases hp : s.passes[index]? with
    | none => simp [Bench.perform,perform,bare,hp]
    | some p =>
      have hbare : s.bare.passes[index]? = some p := hp
      rw [Bench.perform,hbare,perform,hp]
      apply s.bare_use p.owner
      intro r
      rw [r.tape_pull]
      exact s.bare_answer p.owner _ _ _ (s.passes.set index ⟨p.owner,_⟩)
  | scan recovery =>
    apply s.bare_use owner
    intro r
    rw [r.tape_scan]
    exact s.bare_answer owner _ _ _ s.passes
  | scanPartial recovery =>
    apply s.bare_use owner
    intro r
    rw [r.tape_scan]
    exact s.bare_answer owner _ _ _ s.passes

/-- With checks or without, a run comes to the same. -/
theorem bare_run (s : Session) (calls : List (Nat × Call)) :
    s.bare.run calls = .ok ((s.run calls).map (List.map Moment.bare)) := by
  induction calls generalizing s with
  | nil => rfl
  | cons c rest ih =>
    rw [Bench.run,run,bare_perform]
    cases s.perform c.1 c.2 with
    | none => rfl
    | some x =>
      obtain ⟨answer,next⟩ := x
      simp only [bareAnswer,Option.map_some,ih,Except.map,Option.map_map]
      rfl

end Session

/-- The calls of a schedule on one reader are all answered, and none of them fails a check. No call
moves the cursor back or past the end, or changes the source. Every error tells where it begins. The
tokens that are handed out stand in the source one behind the other, and every end is the end of
the source. -/
theorem run_sound (r : Reader) (calls : List (Nat × Session.Call))
    (h : Session.possible 0 calls = true) :
    ∃ moments,(Session.ofReaders [r]).run calls = some moments ∧
      moments.map Moment.call = calls ∧
      (Bench.ofTapes [r.tape]).run calls = .ok (some (moments.map Moment.bare)) ∧
      (Session.ofReaders [r]::moments.map Moment.after).Pairwise Session.Later ∧
      (∀ m ∈ moments,∃ t,m.bare.after.tapes = [t] ∧ t.source = r.source ∧
        t.head ≤ r.source.size) ∧
      (∀ m ∈ moments,∀ e ∈ m.answer.errors,e.origin = .ok e.offset?) ∧
      ∃ ts,Session.handed moments = Lexeme.ofTokens r.source ts ∧
        Orderly r.source.size r.cursor r.source.size ts := by
  obtain ⟨moments,r',hrun,hr,⟨ts,hts,horder⟩,hpairs⟩ :=
    Session.run_progress calls (Session.Shares.ofReaders r) h
  have hcalls := (Session.run_made calls _ moments hrun).1
  have hbare := (Session.ofReaders [r]).bare_run calls
  rw [hrun] at hbare
  refine ⟨moments,hrun,hcalls,hbare,hpairs,?_,?_,ts,hts,?_⟩
  · intro m hm
    have hlater : List.Forall₂ Reader.Reaches [r] m.after.readers :=
      List.rel_of_pairwise_cons hpairs (List.mem_map_of_mem hm)
    obtain ⟨r₁,rest,hr₁,hrest,hreaders⟩ := List.forall₂_cons_left_iff.mp hlater
    obtain rfl := List.forall₂_nil_left_iff.mp hrest
    refine ⟨r₁.tape,?_,hr₁.source,hr₁.source ▸ r₁.cursor_le_size⟩
    rw [Moment.bare,Session.bare,hreaders]
    rfl
  · intro m _ e _
    exact e.origin_eq
  · have hend : Orderly r.source.size r'.cursor r.source.size [] := .nil
    have hle : r'.cursor ≤ r.source.size := hr.source ▸ r'.cursor_le_size
    have hall := horder.append hend hr.cursor hle
    rwa [List.append_nil] at hall

/-- A pass, a skip into the middle of a character, and a scan from there. -/
theorem run_sound_letter_number :
    let s := Source.ofUtf8 [0x61,0x20,0xC3,0xA9,0x28,0x31,0x32]
    let calls := [(0,.startPass),(0,.pull 0),(0,.skip 2),(0,.next),(0,.scanPartial .skip),
      (0,.pull 0),(0,.pull 0),(0,.next)]
    Session.possible 0 calls = true ∧
      ∃ moments,(Session.ofReaders [.ofSource s]).run calls = some moments ∧
        (Bench.ofTapes [⟨s,0⟩]).run calls = .ok (some (moments.map Moment.bare)) ∧
        Session.handed moments = Lexeme.ofTokens s
          [⟨.identifier,.ofWidth 0 1⟩,⟨.leftParen,.ofWidth 4 1⟩,⟨.integer,.ofWidth 5 2⟩,
            .finish 7,.finish 7,.finish 7] ∧
        ∃ ts,Session.handed moments = Lexeme.ofTokens s ts ∧ Orderly 7 0 7 ts := by
  intro s calls
  have h : Session.possible 0 calls = true := by decide
  have hvalue : ((Session.ofReaders [.ofSource s]).run calls).map Session.handed =
      some (Lexeme.ofTokens s
        [⟨.identifier,.ofWidth 0 1⟩,⟨.leftParen,.ofWidth 4 1⟩,⟨.integer,.ofWidth 5 2⟩,
          .finish 7,.finish 7,.finish 7]) := by
    decide +kernel
  obtain ⟨moments,hrun,_,hbare,_,_,_,hordered⟩ := run_sound (.ofSource s) calls h
  rw [hrun] at hvalue
  exact ⟨h,moments,hrun,hbare,by simpa using hvalue,hordered⟩

end Lexis
