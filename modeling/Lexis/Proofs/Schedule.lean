import Lexis.Session
import Lexis.Proofs.Next
import Mathlib.Data.List.Forall2

/-!
Calls one after the other. A session is run through a list of calls, and every call leaves a moment:
its answer and the session after it. `run_progress` says that, while one reader is shared, no call
moves it back, and the tokens come in the order of their ranges, whoever asks for them.
-/

namespace Lexis

/-- Tokens that were given between two places of a source: the ends are at the end of the source,
and the others lie between the places, one behind the other. -/
structure Orderly (size start stop : Nat) (tokens : List Token) : Prop where
  ends : ∀ t ∈ tokens,t.isEnd = true → t = .finish size
  inside : ∀ t ∈ tokens,t.isEnd = false →
    start ≤ t.span.start ∧ t.span.start < t.span.stop ∧ t.span.stop ≤ stop
  ordered : (tokens.filter (fun t => !t.isEnd)).Pairwise
    (fun t u => t.span.stop ≤ u.span.start)

namespace Orderly

variable {size start middle stop : Nat} {t : Token} {xs ys : List Token}

theorem nil : Orderly size start stop [] := ⟨by simp,by simp,by simp⟩

theorem finish : Orderly size start stop [.finish size] :=
  ⟨by simp,by simp [Token.finish,Token.isEnd],by simp [Token.finish,Token.isEnd]⟩

theorem token (ht : t.isEnd = false) (hstart : start ≤ t.span.start)
    (hlt : t.span.start < t.span.stop) (hstop : t.span.stop ≤ stop) :
    Orderly size start stop [t] :=
  ⟨by simp [ht],by simp [ht,hstart,hlt,hstop],by simp [ht]⟩

theorem append (hx : Orderly size start middle xs) (hy : Orderly size middle stop ys)
    (hstart : start ≤ middle) (hstop : middle ≤ stop) : Orderly size start stop (xs++ys) where
  ends := by
    intro t ht
    rcases List.mem_append.mp ht with ht | ht
    · exact hx.ends t ht
    · exact hy.ends t ht
  inside := by
    intro t ht he
    rcases List.mem_append.mp ht with ht | ht
    · have := hx.inside t ht he
      omega
    · have := hy.inside t ht he
      omega
  ordered := by
    rw [List.filter_append,List.pairwise_append]
    refine ⟨hx.ordered,hy.ordered,?_⟩
    intro t ht u hu
    obtain ⟨ht,het⟩ := List.mem_filter.mp ht
    obtain ⟨hu,heu⟩ := List.mem_filter.mp hu
    have := hx.inside t ht (by simpa using het)
    have := hy.inside u hu (by simpa using heu)
    omega

end Orderly

namespace Reader

theorem Reaches.forall₂_trans {xs ys zs : List Reader} (h : List.Forall₂ Reaches xs ys)
    (h' : List.Forall₂ Reaches ys zs) : List.Forall₂ Reaches xs zs := by
  induction h generalizing zs with
  | nil => exact h'
  | cons hr _ ih =>
    cases h' with
    | cons hr' hrest => exact .cons (hr.trans hr') (ih hrest)

theorem advance_reaches (r : Reader) : r.Reaches r.advance.2 := by
  rw [advance]
  split
  · exact r.forward_reaches _
  · exact .refl r

theorem next_orderly (r : Reader) :
    Orderly r.source.size r.cursor r.next.2.cursor (Session.tokensOf r.next.1) := by
  cases hn : r.next with
  | mk result r' =>
    cases result with
    | error e => exact .nil
    | ok t =>
      change Orderly r.source.size r.cursor r'.cursor [t]
      cases ht : t.isEnd with
      | true =>
        rw [(next_of_end hn ht).1]
        exact .finish
      | false =>
        obtain ⟨_,hstart,hlt,hstop⟩ := next_of_token hn ht
        exact .token ht hstart hlt (Nat.le_of_eq hstop)

theorem scan_orderly (r : Reader) (recovery : Recovery) :
    r.Reaches (r.scan recovery).2 ∧
      Orderly r.source.size r.cursor (r.scan recovery).2.cursor (r.scan recovery).1.tokens := by
  induction r using next_induction with
  | finish r t r' hn ht =>
    obtain ⟨rfl,hr,_⟩ := next_of_end hn ht
    rw [scan_of_end recovery hn ht]
    exact ⟨hr,.finish⟩
  | token r t r' hn ht ih =>
    obtain ⟨hr,hstart,hlt,hstop⟩ := next_of_token hn ht
    obtain ⟨hlater,horder⟩ := ih
    rw [hr.source] at horder
    rw [scan_of_token recovery hn ht]
    refine ⟨hr.trans hlater,?_⟩
    have hfirst : Orderly r.source.size r.cursor r'.cursor [t] :=
      .token ht hstart hlt (Nat.le_of_eq hstop)
    exact hfirst.append horder hr.cursor hlater.cursor
  | fault r e r' hn ih =>
    have hr := (next_of_error hn).1
    cases recovery with
    | abort =>
      rw [scan_abort_of_error hn]
      exact ⟨hr,.nil⟩
    | skip =>
      obtain ⟨hlater,horder⟩ := ih
      have hpass : r'.Reaches (r'.pass e).2 := r'.forward_reaches _
      have hto := hr.trans hpass
      rw [hto.source] at horder
      rw [scan_skip_of_error hn]
      refine ⟨hto.trans hlater,?_⟩
      have hfirst : Orderly r.source.size r.cursor (r'.pass e).2.cursor [] := .nil
      exact hfirst.append horder hto.cursor hlater.cursor

end Reader

/-- A call, what it answers and what it leaves behind. -/
structure Moment (State : Type) where
  call : Nat × Session.Call
  answer : Session.Answer
  after : State

namespace Session

namespace Answer

/-- The tokens that an answer hands out. -/
def lexemes : Answer → List Lexeme
  | .token (.ok l) => [l]
  | .pulled (some (.ok l)) => [l]
  | .tokens (.ok ls) => ls
  | .partialScan ls _ => ls
  | _ => []

def errors : Answer → List Error
  | .symbol (.error e) => [e]
  | .token (.error e) => [e]
  | .pulled (some (.error e)) => [e]
  | .tokens (.error es) => es
  | .partialScan _ es => es
  | _ => []

theorem lexemes_token (source : Source) (result : Except Error Token) :
    (token (result.map (Lexeme.mk source))).lexemes = Lexeme.ofTokens source (tokensOf result) := by
  cases result <;> rfl

theorem lexemes_pulled (source : Source) (result : Option (Except Error Token)) :
    (pulled (result.map (Except.map (Lexeme.mk source)))).lexemes =
      Lexeme.ofTokens source ((result.map tokensOf).getD []) := by
  rcases result with _ | (_ | _) <;> rfl

theorem lexemes_tokens (source : Source) (result : Except (List Error) (List Token)) :
    (tokens (result.map (Lexeme.ofTokens source))).lexemes =
      Lexeme.ofTokens source (result.toOption.getD []) := by
  cases result <;> rfl

end Answer

section Perform

variable {s : Session} {owner : Nat} {r : Reader}

theorem perform_peek (h : s.readers[owner]? = some r) :
    s.perform owner .peek = some (.symbol r.peek,s) := by
  simp [perform,h]

theorem perform_advance (h : s.readers[owner]? = some r) :
    s.perform owner .advance = some (.symbol r.advance.1,s.update owner r.advance.2 []) := by
  simp [perform,h]

theorem perform_skip (h : s.readers[owner]? = some r) (count : Nat) :
    s.perform owner (.skip count) =
      some (.skipped (r.skip count).1,s.update owner (r.skip count).2 []) := by
  simp [perform,h]

theorem perform_next (h : s.readers[owner]? = some r) :
    s.perform owner .next =
      some (.token (r.next.1.map (Lexeme.mk r.next.2.source)),
        s.update owner r.next.2 (tokensOf r.next.1)) := by
  simp [perform,h]

theorem perform_startPass (h : s.readers[owner]? = some r) :
    s.perform owner .startPass =
      some (.pass s.passes.length,{ s with passes := s.passes++[⟨owner,.fresh⟩] }) := by
  simp [perform,h]

theorem perform_pull (owner index : Nat) (p : Pass) (hp : s.passes[index]? = some p)
    (h : s.readers[p.owner]? = some r) :
    s.perform owner (.pull index) =
      some (.pulled ((p.stream.pull r).1.map (Except.map (Lexeme.mk (p.stream.pull r).2.2.source))),
        { s.update p.owner (p.stream.pull r).2.2 (((p.stream.pull r).1.map tokensOf).getD []) with
          passes := s.passes.set index ⟨p.owner,(p.stream.pull r).2.1⟩ }) := by
  simp [perform,hp,h,update]

theorem perform_scan (h : s.readers[owner]? = some r) (recovery : Recovery) :
    s.perform owner (.scan recovery) =
      some (.tokens ((r.scan recovery).1.result.map (Lexeme.ofTokens (r.scan recovery).2.source)),
        s.update owner (r.scan recovery).2 ((r.scan recovery).1.result.toOption.getD [])) := by
  simp [perform,h]

theorem perform_scanPartial (h : s.readers[owner]? = some r) (recovery : Recovery) :
    s.perform owner (.scanPartial recovery) =
      some (.partialScan (Lexeme.ofTokens (r.scan recovery).2.source (r.scan recovery).1.tokens)
          (r.scan recovery).1.errors,
        s.update owner (r.scan recovery).2 (r.scan recovery).1.tokens) := by
  simp [perform,h]

end Perform

/-- What was handed out by the calls, in their order. -/
def handed {State : Type} (moments : List (Moment State)) : List Lexeme :=
  moments.flatMap (fun m => m.answer.lexemes)

theorem handed_cons {State : Type} (m : Moment State) (moments : List (Moment State)) :
    handed (m::moments) = m.answer.lexemes++handed moments := List.flatMap_cons

/-- No reader has another source, and none has moved back. -/
def Later (s s' : Session) : Prop := List.Forall₂ Reader.Reaches s.readers s'.readers

theorem Later.trans {s s' s'' : Session} (h : s.Later s') (h' : s'.Later s'') : s.Later s'' :=
  Reader.Reaches.forall₂_trans h h'

/-- The calls in order, each with the number of the reader that it goes to. There is no run if one
of them goes to a reader or to a pass that does not exist. -/
def run (s : Session) : List (Nat × Call) → Option (List (Moment Session))
  | [] => some []
  | c::rest =>
    match s.perform c.1 c.2 with
    | none => none
    | some (answer,next) => (next.run rest).map (⟨c,answer,next⟩::·)

theorem run_cons {s next : Session} {c : Nat × Call} {answer : Answer}
    (h : s.perform c.1 c.2 = some (answer,next)) (rest : List (Nat × Call)) :
    s.run (c::rest) = (next.run rest).map (⟨c,answer,next⟩::·) := by
  rw [run,h]

/-- The moments of a run are the calls, each of them performed. -/
theorem run_made (calls : List (Nat × Call)) (s : Session) (moments : List (Moment Session))
    (h : s.run calls = some moments) :
    moments.map Moment.call = calls ∧
      ∀ m ∈ moments,∃ s' : Session,s'.perform m.call.1 m.call.2 = some (m.answer,m.after) := by
  induction calls generalizing s moments with
  | nil =>
    obtain rfl := Option.some.inj h
    exact ⟨rfl,by simp⟩
  | cons c rest ih =>
    cases hperform : s.perform c.1 c.2 with
    | none => simp [run,hperform] at h
    | some x =>
      rw [run_cons hperform] at h
      obtain ⟨later,hlater,rfl⟩ := Option.map_eq_some_iff.mp h
      obtain ⟨hcalls,hmade⟩ := ih x.2 later hlater
      refine ⟨congrArg (List.cons c) hcalls,?_⟩
      intro m hm
      rcases List.mem_cons.mp hm with rfl | hm
      · exact ⟨s,hperform⟩
      · exact hmade m hm

/-- How many passes a call begins. -/
def Call.begins : Call → Nat
  | .startPass => 1
  | _ => 0

/-- The call goes to reader number 0, or to a pass that was begun before. -/
def admitted (passes : Nat) : Nat × Call → Bool
  | (_,.pull index) => index < passes
  | (owner,_) => owner == 0

/-- All calls go to reader number 0, or to passes that were begun before. -/
def possible : Nat → List (Nat × Call) → Bool
  | _,[] => true
  | passes,c::rest => admitted passes c && possible (passes+c.2.begins) rest

/-- There is one reader, and all passes share it. -/
structure Shares (s : Session) (r : Reader) : Prop where
  readers : s.readers = [r]
  owners : ∀ p ∈ s.passes,p.owner = 0

namespace Shares

variable {s : Session} {r : Reader}

theorem ofReaders (r : Reader) : (Session.ofReaders [r]).Shares r :=
  ⟨rfl,by simp [Session.ofReaders]⟩

theorem get (h : s.Shares r) : s.readers[0]? = some r := by simp [h.readers]

theorem update (h : s.Shares r) (r' : Reader) (tokens : List Token) :
    (s.update 0 r' tokens).Shares r' :=
  ⟨by simp [Session.update,h.readers],h.owners⟩

theorem startPass (h : s.Shares r) :
    Shares { s with passes := s.passes++[⟨0,.fresh⟩] } r := by
  refine ⟨h.readers,?_⟩
  intro p hp
  rcases List.mem_append.mp hp with hp | hp
  · exact h.owners p hp
  · obtain rfl := List.mem_singleton.mp hp
    rfl

theorem pull (h : s.Shares r) (index : Nat) (stream : Stream) :
    Shares { s with passes := s.passes.set index ⟨0,stream⟩ } r := by
  refine ⟨h.readers,?_⟩
  intro p hp
  rcases List.mem_or_eq_of_mem_set hp with hp | rfl
  · exact h.owners p hp
  · rfl

end Shares

/-- What a call on the shared reader keeps: the cursor does not move back, and the tokens that are
handed out lie between the places where it stood before and after. -/
structure Progress (s : Session) (r : Reader) (call : Call) (answer : Answer) (next : Session)
    (r' : Reader) : Prop where
  shares : next.Shares r'
  passes : next.passes.length = s.passes.length+call.begins
  reaches : r.Reaches r'
  tokens : ∃ ts,answer.lexemes = Lexeme.ofTokens r.source ts ∧
    Orderly r.source.size r.cursor r'.cursor ts

section Step

variable {s : Session} {r r' : Reader} {call : Call} {answer : Answer} {ts : List Token}

theorem Progress.update (h : s.Shares r) (hcall : call.begins = 0) (hr : r.Reaches r')
    (hl : answer.lexemes = Lexeme.ofTokens r.source ts)
    (ht : Orderly r.source.size r.cursor r'.cursor ts) (saved : List Token) :
    s.Progress r call answer (s.update 0 r' saved) r' where
  shares := h.update r' saved
  passes := by rw [hcall]; rfl
  reaches := hr
  tokens := ⟨ts,hl,ht⟩

theorem next_progress (h : s.Shares r) :
    s.Progress r .next (.token (r.next.1.map (Lexeme.mk r.next.2.source)))
      (s.update 0 r.next.2 (tokensOf r.next.1)) r.next.2 := by
  have hr := r.next_reaches
  apply Progress.update h rfl hr _ r.next_orderly
  rw [Answer.lexemes_token,hr.source]

/-- A pass that was begun draws from the shared reader. -/
theorem perform_shared_pull (h : s.Shares r) (owner index : Nat)
    (hindex : index < s.passes.length) :
    ∃ stream : Stream,s.perform owner (.pull index) =
      some (.pulled ((stream.pull r).1.map (Except.map (Lexeme.mk (stream.pull r).2.2.source))),
        { s.update 0 (stream.pull r).2.2 (((stream.pull r).1.map tokensOf).getD []) with
          passes := s.passes.set index ⟨0,(stream.pull r).2.1⟩ }) := by
  have hp : s.passes[index]? = some s.passes[index] := List.getElem?_eq_getElem hindex
  have howner : s.passes[index].owner = 0 := h.owners _ (List.getElem_mem hindex)
  have hperform := perform_pull owner index s.passes[index] hp (howner ▸ h.get)
  rw [howner] at hperform
  exact ⟨s.passes[index].stream,hperform⟩

theorem pull_progress (h : s.Shares r) (index : Nat) (stream : Stream) :
    s.Progress r (.pull index)
      (.pulled ((stream.pull r).1.map (Except.map (Lexeme.mk (stream.pull r).2.2.source))))
      { s.update 0 (stream.pull r).2.2 (((stream.pull r).1.map tokensOf).getD []) with
        passes := s.passes.set index ⟨0,(stream.pull r).2.1⟩ } (stream.pull r).2.2 := by
  have hshares (r' : Reader) (saved : List Token) (later : Stream) :
      Shares { s.update 0 r' saved with passes := s.passes.set index ⟨0,later⟩ } r' :=
    (h.update r' saved).pull index later
  have hpasses : (s.passes.set index ⟨0,(stream.pull r).2.1⟩).length = s.passes.length :=
    List.length_set
  cases hf : stream.finished with
  | true =>
    rw [stream.pull_of_finished r hf] at hpasses ⊢
    exact ⟨hshares _ _ _,hpasses,.refl r,[],rfl,.nil⟩
  | false =>
    have hr := r.next_reaches
    rw [stream.pull_of_open r hf] at hpasses ⊢
    refine ⟨hshares _ _ _,hpasses,hr,tokensOf r.next.1,?_,r.next_orderly⟩
    rw [Answer.lexemes_pulled,hr.source]
    rfl

theorem scan_progress (h : s.Shares r) (recovery : Recovery) :
    s.Progress r (.scan recovery)
      (.tokens ((r.scan recovery).1.result.map (Lexeme.ofTokens (r.scan recovery).2.source)))
      (s.update 0 (r.scan recovery).2 ((r.scan recovery).1.result.toOption.getD []))
      (r.scan recovery).2 := by
  obtain ⟨hr,ht⟩ := r.scan_orderly recovery
  apply Progress.update h rfl hr
  · rw [Answer.lexemes_tokens,hr.source]
  · rw [Scan.result]
    split
    · exact ht
    · exact .nil

/-- Every call that can be made is answered, and keeps what the shared reader promises. -/
theorem perform_progress (hs : s.Shares r) (owner : Nat)
    (h : admitted s.passes.length (owner,call) = true) :
    ∃ answer next r',s.perform owner call = some (answer,next) ∧
      s.Progress r call answer next r' := by
  cases call with
  | peek =>
    obtain rfl : owner = 0 := by simpa [admitted] using h
    exact ⟨_,_,r,perform_peek hs.get,hs,rfl,.refl r,[],by cases r.peek <;> rfl,.nil⟩
  | advance =>
    obtain rfl : owner = 0 := by simpa [admitted] using h
    exact ⟨_,_,_,perform_advance hs.get,.update hs rfl r.advance_reaches rfl .nil []⟩
  | skip count =>
    obtain rfl : owner = 0 := by simpa [admitted] using h
    exact ⟨_,_,_,perform_skip hs.get count,.update hs rfl (r.forward_reaches count) rfl .nil []⟩
  | next =>
    obtain rfl : owner = 0 := by simpa [admitted] using h
    exact ⟨_,_,_,perform_next hs.get,next_progress hs⟩
  | startPass =>
    obtain rfl : owner = 0 := by simpa [admitted] using h
    exact ⟨_,_,r,perform_startPass hs.get,hs.startPass,by simp [Call.begins],.refl r,[],rfl,.nil⟩
  | pull index =>
    obtain ⟨stream,hperform⟩ := perform_shared_pull hs owner index (by simpa [admitted] using h)
    exact ⟨_,_,_,hperform,pull_progress hs index stream⟩
  | scan recovery =>
    obtain rfl : owner = 0 := by simpa [admitted] using h
    exact ⟨_,_,_,perform_scan hs.get recovery,scan_progress hs recovery⟩
  | scanPartial recovery =>
    obtain rfl : owner = 0 := by simpa [admitted] using h
    obtain ⟨hr,ht⟩ := r.scan_orderly recovery
    have hl : (Answer.partialScan (Lexeme.ofTokens (r.scan recovery).2.source
        (r.scan recovery).1.tokens) (r.scan recovery).1.errors).lexemes =
          Lexeme.ofTokens r.source (r.scan recovery).1.tokens := by
      rw [hr.source]
      rfl
    exact ⟨_,_,_,perform_scanPartial hs.get recovery,.update hs rfl hr hl ht _⟩

/-- The calls of a schedule are all answered. What one call keeps is kept by all of them. -/
theorem run_progress (calls : List (Nat × Call)) (hs : s.Shares r)
    (h : possible s.passes.length calls = true) :
    ∃ moments r',s.run calls = some moments ∧ r.Reaches r' ∧
      (∃ ts,handed moments = Lexeme.ofTokens r.source ts ∧
        Orderly r.source.size r.cursor r'.cursor ts) ∧
      (s::moments.map Moment.after).Pairwise Later := by
  induction calls generalizing s r with
  | nil => exact ⟨[],r,rfl,.refl r,⟨[],rfl,.nil⟩,List.pairwise_singleton _ s⟩
  | cons c rest ih =>
    obtain ⟨hc,hrest⟩ : admitted s.passes.length c = true ∧
        possible (s.passes.length+c.2.begins) rest = true := by
      simpa [possible] using h
    obtain ⟨answer,next,r₁,hperform,hp⟩ := perform_progress hs c.1 hc
    obtain ⟨ts,hts,horder⟩ := hp.tokens
    -- The other calls begin where this one left the reader, so their tokens lie behind its tokens.
    have hlater : s.Later next := by
      rw [Later,hs.readers,hp.shares.readers]
      exact .cons hp.reaches .nil
    rw [← hp.passes] at hrest
    obtain ⟨moments,r',hrun,hr,⟨us,hus,huorder⟩,hpairs⟩ := ih hp.shares hrest
    rw [hp.reaches.source] at hus huorder
    refine ⟨⟨c,answer,next⟩::moments,r',?_,hp.reaches.trans hr,⟨ts++us,?_,?_⟩,?_⟩
    · rw [run_cons hperform,hrun]
      rfl
    · rw [handed_cons,hts,hus,Lexeme.ofTokens,Lexeme.ofTokens,← List.map_append]
      rfl
    · exact horder.append huorder hp.reaches.cursor hr.cursor
    · apply List.pairwise_cons.mpr
      refine ⟨?_,hpairs⟩
      intro s' hs'
      rcases List.mem_cons.mp hs' with rfl | hs'
      · exact hlater
      · exact hlater.trans (List.rel_of_pairwise_cons hpairs hs')

end Step

end Session

end Lexis
