import Lexis.Proofs.Drive
import Lexis.Proofs.Schedule

/-!
One reader for everybody. `run_takes` says that calls that only read take together what one caller
would have taken, whoever makes them, and `run_fused` that a pass that is over stays so, whatever
others do. `run_shares` compares all of it with the scan that stops at the first fault.
-/

namespace Lexis

namespace Reader

/-- What so many calls for the next token give, and the reader after them. -/
def nexts : Nat → Reader → List (Except Error Token) × Reader
  | 0,r => ([],r)
  | count+1,r => (r.next.1::(nexts count r.next.2).1,(nexts count r.next.2).2)

theorem nexts_add (first second : Nat) (r : Reader) :
    nexts (first+second) r =
      ((nexts first r).1++(nexts second (nexts first r).2).1,
        (nexts second (nexts first r).2).2) := by
  induction first generalizing r with
  | zero => rw [Nat.zero_add]; rfl
  | succ first ih =>
    rw [Nat.add_right_comm,nexts,ih]
    rfl

theorem nexts_source (count : Nat) (r : Reader) : (nexts count r).2.source = r.source := by
  induction count generalizing r with
  | zero => rfl
  | succ count ih => exact (ih r.next.2).trans r.next_reaches.source

theorem nexts_settled (count : Nat) (r : Reader) (last : Except Error Token)
    (h : r.next = (last,r)) : (nexts count r).1 = List.replicate count last := by
  induction count with
  | zero => rfl
  | succ count ih => rw [nexts,h,ih]; rfl

theorem nexts_length (count : Nat) (r : Reader) : (nexts count r).1.length = count := by
  induction count generalizing r with
  | zero => rfl
  | succ count ih => exact congrArg Nat.succ (ih r.next.2)

/-- The last result of a scan that stops at the first fault is the end of the source or an error,
and comes again. The others are tokens. -/
theorem scan_abort_results (r : Reader) :
    ∃ (body : List Token) (last : Except Error Token),
      (r.scan .abort).1.results = body.map .ok++[last] ∧ (∀ t ∈ body,t.isEnd = false) ∧
      (last = .ok (.finish r.source.size) ∨ ∃ e,last = .error e) ∧
      body <+: (r.scan .abort).1.tokens ∧
      (r.scan .abort).2.next = (last,(r.scan .abort).2) := by
  obtain ⟨_,body,last,hbody,hagain,hlast⟩ := r.scan_abort_ends
  refine ⟨body,last,?_,hbody,?_,?_,hagain⟩
  · rcases hlast with ⟨rfl,ht,he⟩ | ⟨e,rfl,ht,he⟩
    · simp [Scan.results,ht,he]
    · simp [Scan.results,ht,he]
  · rcases hlast with ⟨hl,_⟩ | ⟨e,hl,_⟩
    · exact .inl hl
    · exact .inr ⟨e,hl⟩
  · rcases hlast with ⟨_,ht,_⟩ | ⟨_,_,ht,_⟩
    · exact ht ▸ List.prefix_append _ _
    · exact ht ▸ List.prefix_rfl

/-- The calls give what the scan finds that stops at the first fault, and then its last result again
and again. -/
theorem nexts_scan (r : Reader) (last : Except Error Token)
    (h : (r.scan .abort).2.next = (last,(r.scan .abort).2)) (count : Nat) :
    (nexts count r).1 <+: (r.scan .abort).1.results++List.replicate count last := by
  -- The scan counts its last result too, so there may be one more on the right than is needed.
  have hmore (xs : List (Except Error Token)) (count : Nat) :
      xs++List.replicate count last <+: xs++List.replicate (count+1) last := by
    rw [List.replicate_succ',← List.append_assoc]
    exact List.prefix_append _ _
  have hagain (r r' : Reader) (hn : r.next = (last,r')) (hn' : r'.next = (last,r'))
      (count : Nat) : (nexts count r).1 <+: [last]++List.replicate count last := by
    cases count with
    | zero => exact List.nil_prefix
    | succ count =>
      rw [nexts,hn,nexts_settled count r' last hn']
      exact hmore [last] count
  induction r using next_induction generalizing count with
  | finish r t r' hn ht =>
    have hn' := (next_of_end hn ht).2.2.2
    rw [scan_of_end .abort hn ht] at h ⊢
    obtain rfl : .ok t = last := by simpa [hn'] using h
    exact hagain r r' hn hn' count
  | token r t r' hn ht ih =>
    rw [scan_of_token .abort hn ht] at h ⊢
    cases count with
    | zero => exact List.nil_prefix
    | succ count =>
      have hlater := (ih h count).trans (hmore _ count)
      rw [nexts,hn]
      exact List.cons_prefix_cons.mpr ⟨rfl,hlater⟩
  | fault r e r' hn ih =>
    have hn' := (next_of_error hn).2.1
    rw [scan_abort_of_error hn] at h ⊢
    obtain rfl : .error e = last := by simpa [hn'] using h
    exact hagain r r' hn hn' count

/-- Apart from the end of the source, the calls give the tokens of that scan. -/
theorem nexts_tokens (count : Nat) (r : Reader) :
    ((nexts count r).1.flatMap Session.tokensOf).filter (fun t => !t.isEnd) <+:
      (r.scan .abort).1.tokens := by
  obtain ⟨body,last,hresults,hbody,hlast,hbegin,hagain⟩ := r.scan_abort_results
  obtain ⟨rest,hrest⟩ := r.nexts_scan last hagain count
  have hnone : (Session.tokensOf last).filter (fun t => !t.isEnd) = [] := by
    rcases hlast with rfl | ⟨e,rfl⟩ <;> rfl
  have hlasts (count : Nat) :
      ((List.replicate count last).flatMap Session.tokensOf).filter (fun t => !t.isEnd) = [] := by
    induction count with
    | zero => rfl
    | succ count ih => simp [List.replicate_succ,hnone,ih]
  have hall : body.filter (fun t => !t.isEnd) = body :=
    List.filter_eq_self.mpr (fun t ht => by simp [hbody t ht])
  have hflat : (body.map Except.ok).flatMap Session.tokensOf = body := by
    simp [List.flatMap_map,Session.tokensOf]
  have hsplit := congrArg
    (fun xs => (xs.flatMap Session.tokensOf).filter (fun t => !t.isEnd)) hrest
  simp only [hresults,List.flatMap_append,List.filter_append,hflat,hall,hlasts,
    List.flatMap_singleton,hnone,List.append_nil] at hsplit
  exact (hsplit ▸ List.prefix_append _ _).trans hbegin

end Reader

/-- The result of a pass that ends it. -/
def Lexeme.closes (result : Except Error Lexeme) : Bool :=
  Stream.closes (result.map Lexeme.token)

theorem Lexeme.closes_map (source : Source) (result : Except Error Token) :
    closes (result.map (mk source)) = Stream.closes result := by
  cases result <;> rfl

/-- The results of a pass in the order of its calls. Until it is over a pass gives something, and
then nothing any more. -/
structure Fused (finished : Bool) (results : List (Option (Except Error Lexeme))) : Prop where
  spent : finished = true → ∀ x ∈ results,x = none
  closed : ∀ before x after,results = before++some x::after → Lexeme.closes x = true →
    ∀ y ∈ after,y = none
  alive : ∀ before after,results = before++none::after →
    finished = true ∨ ∃ x,some x ∈ before ∧ Lexeme.closes x = true

namespace Fused

variable {finished : Bool} {x : Option (Except Error Lexeme)}
  {rest : List (Option (Except Error Lexeme))}

theorem nil (finished : Bool) : Fused finished [] := ⟨by simp,by simp,by simp⟩

theorem cons (h : x = none ↔ finished = true)
    (hrest : Fused (finished || x.any Lexeme.closes) rest) : Fused finished (x::rest) where
  spent := by
    intro hf y hy
    rcases List.mem_cons.mp hy with rfl | hy
    · exact h.mpr hf
    · exact hrest.spent (by rw [hf]; rfl) y hy
  closed := by
    intro before y after hxs hy
    cases before with
    | nil =>
      obtain ⟨rfl,rfl⟩ := List.cons.inj hxs
      exact hrest.spent (by simp [hy])
    | cons b before => exact hrest.closed before y after (List.cons.inj hxs).2 hy
  alive := by
    intro before after hxs
    cases before with
    | nil =>
      obtain ⟨rfl,rfl⟩ := List.cons.inj hxs
      exact .inl (h.mp rfl)
    | cons b before =>
      obtain ⟨rfl,htail⟩ := List.cons.inj hxs
      rcases hrest.alive before after htail with hf | ⟨y,hy,hcloses⟩
      · rcases Bool.or_eq_true_iff.mp hf with hf | hf
        · exact .inl hf
        · obtain ⟨y,hy,hcloses⟩ := Option.any_eq_true _ _ |>.mp hf
          exact .inr ⟨y,hy ▸ List.mem_cons_self,hcloses⟩
      · exact .inr ⟨y,List.mem_cons_of_mem _ hy,hcloses⟩

end Fused

namespace Session

/-- The result of a call that asks for the next token, if the call gave one. -/
def Answer.outcome? : Answer → Option (Except Error Lexeme)
  | .token result => some result
  | .pulled result => result
  | _ => none

/-- The call moves the reader behind the next token or not at all. -/
def Call.reads : Call → Bool
  | .peek => true
  | .next => true
  | .startPass => true
  | .pull _ => true
  | _ => false

/-- All results that calls for the next token gave, in the order of the calls. -/
def outcomes {State : Type} (moments : List (Moment State)) : List (Except Error Lexeme) :=
  moments.filterMap (fun m => m.answer.outcome?)

theorem outcomes_cons {State : Type} (m : Moment State) (moments : List (Moment State)) :
    outcomes (m::moments) = m.answer.outcome?.toList++outcomes moments := by
  cases h : m.answer.outcome? <;> simp [outcomes,h]

/-- What pulling a pass gave. -/
def Answer.pulled? : Answer → Option (Option (Except Error Lexeme))
  | .pulled result => some result
  | _ => none

/-- All that the pass of the given number gave, in the order of the calls. -/
def pulled {State : Type} (index : Nat) (moments : List (Moment State)) :
    List (Option (Except Error Lexeme)) :=
  moments.filterMap (fun m => if m.call.2 = .pull index then m.answer.pulled? else none)

/-- Whether a pass is over. One that is not begun is not. -/
def spent (s : Session) (index : Nat) : Bool := s.passes[index]?.any (fun p => p.stream.finished)

/-- What a call takes from the shared reader: so many results of calls for the next token. -/
structure Takes (r : Reader) (answer : Answer) (next : Session) (count : Nat) : Prop where
  shares : next.Shares (r.nexts count).2
  outcome : answer.outcome?.toList =
    (r.nexts count).1.map (Except.map (Lexeme.mk r.source))
  lexemes : answer.lexemes = Lexeme.ofTokens r.source ((r.nexts count).1.flatMap tokensOf)

section Step

variable {s : Session} {r : Reader} {call : Call}

theorem perform_takes (hs : s.Shares r) (owner : Nat) (hcall : call.reads = true)
    (h : admitted s.passes.length (owner,call) = true) :
    ∃ answer next count,s.perform owner call = some (answer,next) ∧
      next.passes.length = s.passes.length+call.begins ∧ Takes r answer next count := by
  cases call with
  | peek =>
    obtain rfl : owner = 0 := by simpa [admitted] using h
    exact ⟨_,_,0,perform_peek hs.get,rfl,hs,rfl,by cases r.peek <;> rfl⟩
  | next =>
    obtain rfl : owner = 0 := by simpa [admitted] using h
    have hp := next_progress hs
    refine ⟨_,_,1,perform_next hs.get,hp.passes,hp.shares,?_,?_⟩
    · rw [r.next_reaches.source]
      rfl
    · rw [Answer.lexemes_token,r.next_reaches.source]
      simp [Reader.nexts]
  | startPass =>
    obtain rfl : owner = 0 := by simpa [admitted] using h
    exact ⟨_,_,0,perform_startPass hs.get,by simp [Call.begins],hs.startPass,rfl,rfl⟩
  | pull index =>
    obtain ⟨stream,hperform⟩ := perform_shared_pull hs owner index (by simpa [admitted] using h)
    have hp := pull_progress hs index stream
    cases hf : stream.finished with
    | true =>
      rw [stream.pull_of_finished r hf] at hperform hp
      exact ⟨_,_,0,hperform,hp.passes,hp.shares,rfl,rfl⟩
    | false =>
      rw [stream.pull_of_open r hf] at hperform hp
      refine ⟨_,_,1,hperform,hp.passes,hp.shares,?_,?_⟩
      · rw [r.next_reaches.source]
        rfl
      · rw [Answer.lexemes_pulled,r.next_reaches.source]
        simp [Reader.nexts]
  | advance => cases hcall
  | skip count => cases hcall
  | scan recovery => cases hcall
  | scanPartial recovery => cases hcall

/-- Whoever calls, together the calls take what one caller would have taken. -/
theorem run_takes (calls : List (Nat × Call)) (hs : s.Shares r)
    (hcalls : ∀ c ∈ calls,c.2.reads = true) (h : possible s.passes.length calls = true) :
    ∃ moments count,s.run calls = some moments ∧
      outcomes moments = (r.nexts count).1.map (Except.map (Lexeme.mk r.source)) ∧
      handed moments = Lexeme.ofTokens r.source ((r.nexts count).1.flatMap tokensOf) := by
  induction calls generalizing s r with
  | nil => exact ⟨[],0,rfl,rfl,rfl⟩
  | cons c rest ih =>
    obtain ⟨hc,hrest⟩ : admitted s.passes.length c = true ∧
        possible (s.passes.length+c.2.begins) rest = true := by
      simpa [possible] using h
    obtain ⟨answer,next,first,hperform,hpasses,ht⟩ :=
      perform_takes hs c.1 (hcalls c List.mem_cons_self) hc
    rw [← hpasses] at hrest
    obtain ⟨moments,second,hrun,houtcomes,hhanded⟩ :=
      ih ht.shares (fun d hd => hcalls d (List.mem_cons_of_mem _ hd)) hrest
    rw [r.nexts_source] at houtcomes hhanded
    refine ⟨⟨c,answer,next⟩::moments,first+second,?_,?_,?_⟩
    · rw [run_cons hperform,hrun]
      rfl
    · rw [outcomes_cons,ht.outcome,houtcomes,r.nexts_add,List.map_append]
    · rw [handed_cons,ht.lexemes,hhanded,r.nexts_add]
      simp [Lexeme.ofTokens]

section Pass

variable {next : Session} {answer : Answer} {owner index : Nat}

/-- A pull that was answered went to a pass and to the reader of that pass. -/
theorem pull_of_perform (h : s.perform owner (.pull index) = some (answer,next)) :
    ∃ p r,s.passes[index]? = some p ∧ s.readers[p.owner]? = some r ∧
      answer = .pulled
        ((p.stream.pull r).1.map (Except.map (Lexeme.mk (p.stream.pull r).2.2.source))) ∧
      next.passes = s.passes.set index ⟨p.owner,(p.stream.pull r).2.1⟩ := by
  cases hp : s.passes[index]? with
  | none => simp [perform,hp] at h
  | some p =>
    cases hr : s.readers[p.owner]? with
    | none => simp [perform,hp,hr] at h
    | some r =>
      rw [perform_pull owner index p hp hr] at h
      obtain ⟨rfl,rfl⟩ := Prod.mk.inj (Option.some.inj h)
      exact ⟨p,r,rfl,hr,rfl,rfl⟩

/-- Any other call that was answered went to the reader of its number. -/
theorem reader_of_perform (h : s.perform owner call = some (answer,next))
    (hcall : ∀ index,call ≠ .pull index) : ∃ r,s.readers[owner]? = some r := by
  cases hr : s.readers[owner]? with
  | some r => exact ⟨r,rfl⟩
  | none =>
    cases call with
    | pull index => exact absurd rfl (hcall index)
    | _ => simp [perform,hr] at h

theorem spent_of_passes {s' : Session} (h : s'.passes = s.passes) (index : Nat) :
    s'.spent index = s.spent index := by
  rw [spent,h]
  rfl

theorem spent_begin {s' : Session} (h : s'.passes = s.passes++[⟨owner,.fresh⟩]) (index : Nat) :
    s'.spent index = s.spent index := by
  simp only [spent,h,List.getElem?_append]
  split
  · rfl
  · next hlt =>
    -- The new pass has a number that no pass had, and is not over.
    rw [List.getElem?_eq_none (Nat.le_of_not_lt hlt)]
    cases index-s.passes.length <;> rfl

/-- A pass that is pulled gives nothing if it is over, and is over if what it gives closes it. -/
theorem perform_pull_spent (h : s.perform owner (.pull index) = some (answer,next)) :
    ∃ result,answer = .pulled result ∧ (result = none ↔ s.spent index = true) ∧
      next.spent index = (s.spent index || result.any Lexeme.closes) := by
  obtain ⟨p,r,hp,_,rfl,hnext⟩ := pull_of_perform h
  have hindex := (List.getElem?_eq_some_iff.mp hp).1
  have hspent : s.spent index = p.stream.finished := by simp [spent,hp]
  have hafter : next.spent index = (p.stream.pull r).2.1.finished := by
    simp only [spent,hnext,List.getElem?_set_self hindex,Option.any_some]
  refine ⟨_,rfl,?_⟩
  rw [hafter,hspent]
  cases hf : p.stream.finished with
  | true => simp [p.stream.pull_of_finished r hf,hf]
  | false => simp [p.stream.pull_of_open r hf,Lexeme.closes_map]

/-- Nothing but pulling it ends a pass or begins it anew. -/
theorem perform_spent (h : s.perform owner call = some (answer,next))
    (hcall : call ≠ .pull index) : next.spent index = s.spent index := by
  cases call with
  | pull other =>
    have hne : other ≠ index := by simpa using hcall
    obtain ⟨p,r,_,_,_,hnext⟩ := pull_of_perform h
    simp only [spent,hnext,List.getElem?_set_ne hne]
  | startPass =>
    obtain ⟨r,hr⟩ := reader_of_perform h (by simp)
    rw [perform_startPass hr] at h
    obtain ⟨_,rfl⟩ := Prod.mk.inj (Option.some.inj h)
    exact spent_begin rfl index
  | _ =>
    obtain ⟨r,hr⟩ := reader_of_perform h (by simp)
    simp only [perform,hr] at h
    obtain ⟨_,rfl⟩ := Prod.mk.inj (Option.some.inj h)
    exact spent_of_passes rfl index

/-- The answer is of the kind that the call asks for. -/
theorem perform_answers (h : s.perform owner call = some (answer,next)) :
    (call = .next → ∃ result,answer = .token result) ∧
      ∀ index,call = .pull index → ∃ result,answer = .pulled result := by
  constructor
  · rintro rfl
    obtain ⟨r,hr⟩ := reader_of_perform h (by simp)
    rw [perform_next hr] at h
    obtain ⟨rfl,_⟩ := Prod.mk.inj (Option.some.inj h)
    exact ⟨_,rfl⟩
  · rintro index rfl
    obtain ⟨_,_,_,_,hanswer,_⟩ := pull_of_perform h
    exact ⟨_,hanswer⟩

end Pass

/-- A pass stays over once it is over, whatever calls of any kind are made in between. -/
theorem run_fused (calls : List (Nat × Call)) (moments : List (Moment Session))
    (h : s.run calls = some moments) (index : Nat) :
    Fused (s.spent index) (pulled index moments) := by
  induction calls generalizing s moments with
  | nil =>
    obtain rfl := Option.some.inj h
    exact .nil _
  | cons c rest ih =>
    obtain ⟨owner,call⟩ := c
    cases hperform : s.perform owner call with
    | none => simp [run,hperform] at h
    | some x =>
      obtain ⟨answer,next⟩ := x
      rw [run_cons hperform] at h
      obtain ⟨later,hlater,rfl⟩ := Option.map_eq_some_iff.mp h
      have hrest := ih later hlater
      by_cases hcall : call = .pull index
      · subst hcall
        obtain ⟨result,rfl,hnone,hspent⟩ := perform_pull_spent hperform
        rw [hspent] at hrest
        have hpulled : pulled index (⟨(owner,.pull index),.pulled result,next⟩::later) =
            result::pulled index later := by
          simp [pulled,Answer.pulled?]
        rw [hpulled]
        exact .cons hnone hrest
      · rw [perform_spent hperform hcall] at hrest
        have hpulled : pulled index (⟨(owner,call),answer,next⟩::later) = pulled index later := by
          simp [pulled,hcall]
        rwa [hpulled]

end Step

/-- While the calls on one reader only read, whoever makes them, they give the tokens of the scan
that stops at the first fault, in its order and each once. When these are used up, every call gives
the last result of that scan, which is the end of the source or its one error. A pass gives that
once, and then nothing. -/
theorem run_shares (s : Session) (r : Reader) (calls : List (Nat × Call)) (hs : s.Shares r)
    (hcalls : ∀ c ∈ calls,c.2.reads = true) (h : possible s.passes.length calls = true) :
    ∃ (moments : List (Moment Session)) (body : List Token) (last : Except Error Token),
      s.run calls = some moments ∧ moments.map Moment.call = calls ∧
      (∀ m ∈ moments,(m.call.2 = .next → ∃ result,m.answer = .token result) ∧
        ∀ index,m.call.2 = .pull index → ∃ result,m.answer = .pulled result) ∧
      (r.scan .abort).1.results = body.map .ok++[last] ∧ (∀ t ∈ body,t.isEnd = false) ∧
      (last = .ok (.finish r.source.size) ∨ ∃ e,last = .error e) ∧
      outcomes moments <+:
        ((r.scan .abort).1.results++List.replicate (outcomes moments).length last).map
          (Except.map (Lexeme.mk r.source)) ∧
      (handed moments).filter (fun l => !l.token.isEnd) <+:
        Lexeme.ofTokens r.source (r.scan .abort).1.tokens ∧
      ∀ index,Fused (s.spent index) (pulled index moments) := by
  obtain ⟨moments,count,hrun,houtcomes,hhanded⟩ := run_takes calls hs hcalls h
  obtain ⟨hmoments,hmade⟩ := run_made calls s moments hrun
  obtain ⟨body,last,hresults,hbody,hlast,_,hagain⟩ := r.scan_abort_results
  have hlength : (outcomes moments).length = count := by
    rw [houtcomes,List.length_map,r.nexts_length]
  refine ⟨moments,body,last,hrun,hmoments,?_,hresults,hbody,hlast,?_,?_,
    run_fused calls moments hrun⟩
  · intro m hm
    obtain ⟨s',hperform⟩ := hmade m hm
    exact perform_answers hperform
  · rw [hlength,houtcomes]
    exact (r.nexts_scan last hagain count).map _
  · rw [hhanded,Lexeme.ofTokens,List.filter_map]
    exact (r.nexts_tokens count).map _

/-- Two passes and single calls share a word, a number and a byte that begins no character. -/
theorem run_shares_word_number :
    let source := Source.ofUtf8 [0x61,0x20,0x31,0xFF]
    let calls := [(0,.startPass),(0,.startPass),(0,.pull 1),(0,.next),(0,.pull 0),(0,.peek),
      (0,.pull 0),(0,.pull 1),(0,.next)]
    let word : Lexeme := ⟨source,⟨.identifier,.ofWidth 0 1⟩⟩
    let number : Lexeme := ⟨source,⟨.integer,.ofWidth 2 1⟩⟩
    let bad : Error := .lexical 3 (.malformed (.badLead 0xFF))
    (Session.ofReaders [.ofSource source]).Shares (.ofSource source) ∧
      (∀ c ∈ calls,c.2.reads = true) ∧ possible 0 calls = true ∧
      ∃ moments,(Session.ofReaders [.ofSource source]).run calls = some moments ∧
        outcomes moments = [.ok word,.ok number,.error bad,.error bad,.error bad] ∧
        pulled 0 moments = [some (.error bad),none] ∧ Fused false (pulled 0 moments) ∧
        pulled 1 moments = [some (.ok word),some (.error bad)] ∧ Fused false (pulled 1 moments) ∧
        (handed moments).filter (fun l => !l.token.isEnd) <+:
          Lexeme.ofTokens source ((source.scan .abort).tokens) := by
  intro source calls word number bad
  have hs : (Session.ofReaders [.ofSource source]).Shares (.ofSource source) := .ofReaders _
  have hcalls : ∀ c ∈ calls,c.2.reads = true := by decide
  have h : possible 0 calls = true := by decide
  have hvalue : ((Session.ofReaders [.ofSource source]).run calls).map
      (fun moments => (outcomes moments,pulled 0 moments,pulled 1 moments)) =
        some ([.ok word,.ok number,.error bad,.error bad,.error bad],
          [some (.error bad),none],[some (.ok word),some (.error bad)]) := by
    decide +kernel
  obtain ⟨moments,_,_,hrun,_,_,_,_,_,_,hhanded,hfused⟩ := run_shares _ _ calls hs hcalls h
  rw [hrun] at hvalue
  simp only [Option.map_some,Option.some.injEq,Prod.mk.injEq] at hvalue
  obtain ⟨houtcomes,hfirst,hsecond⟩ := hvalue
  exact ⟨hs,hcalls,h,moments,hrun,houtcomes,hfirst,hfused 0,hsecond,hfused 1,hhanded⟩

end Session

end Lexis
