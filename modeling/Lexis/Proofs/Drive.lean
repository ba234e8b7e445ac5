import Lexis.Proofs.Next

/-!
Three ways to take what a reader gives: a pass, pulled until it is over; a scan that stops at the
first fault; and a scan that skips faults. `scan_drives` says that the pass comes to the scan that
stops, and that such scans one after the other, each begun behind the fault that ended the one
before, come to the scan that skips.
-/

namespace Lexis

/-- All that a scan found, errors last. If the scan stopped at its only error, this is the order in
which it found them. -/
def Scan.results (s : Scan) : List (Except Error Token) := s.tokens.map .ok++s.errors.map .error

theorem Scan.results_withToken (t : Token) (s : Scan) :
    (s.withToken t).results = .ok t::s.results := rfl

namespace Stream

/-- So many calls of a pass, and nobody else moves the reader. -/
def pulls : Nat → Stream → Reader → List (Option (Except Error Token)) × Stream × Reader
  | 0,s,r => ([],s,r)
  | count+1,s,r =>
    let (first,s,r) := s.pull r
    let (rest,s,r) := pulls count s r
    (first::rest,s,r)

theorem pulls_finished (count : Nat) (r : Reader) :
    pulls count ⟨true⟩ r = (List.replicate count none,⟨true⟩,r) := by
  induction count with
  | zero => rfl
  | succ count ih =>
    simp only [pulls,pull_of_finished ⟨true⟩ r rfl,ih]
    rfl

theorem pull_of_token (r r' : Reader) (t : Token) (h : r.next = (.ok t,r')) :
    fresh.pull r = (some (.ok t),⟨t.isEnd⟩,r') := by
  rw [fresh.pull_of_open r rfl,h]
  rfl

theorem pull_of_error (r r' : Reader) (e : Error) (h : r.next = (.error e,r')) :
    fresh.pull r = (some (.error e),⟨true⟩,r') := by
  rw [fresh.pull_of_open r rfl,h]
  rfl

/-- A new pass gives what the scan finds that stops at the first fault, then nothing any more, and
leaves the reader where the scan leaves it. -/
theorem pulls_fresh (r : Reader) (extra : Nat) :
    pulls ((r.scan .abort).1.results.length+extra) fresh r =
      ((r.scan .abort).1.results.map some++List.replicate extra none,⟨true⟩,
        (r.scan .abort).2) := by
  induction r using Reader.next_induction with
  | finish r t r' hn ht =>
    have hp := pull_of_token r r' t hn
    rw [ht] at hp
    rw [Reader.scan_of_end .abort hn ht]
    change pulls (1+extra) fresh r = ([some (.ok t)]++_,_,_)
    rw [Nat.add_comm]
    simp only [pulls,hp,pulls_finished]
    rfl
  | token r t r' hn ht ih =>
    have hp := pull_of_token r r' t hn
    rw [ht] at hp
    rw [Reader.scan_of_token .abort hn ht]
    simp only [Scan.results_withToken,List.length_cons,List.map_cons,List.cons_append]
    rw [Nat.add_right_comm,pulls]
    simp only [hp]
    change (_::(pulls _ fresh r').1,(pulls _ fresh r').2) = _
    rw [ih]
  | fault r e r' hn ih =>
    have hp := pull_of_error r r' e hn
    rw [Reader.scan_abort_of_error hn]
    change pulls (1+extra) fresh r = ([some (.error e)]++_,_,_)
    rw [Nat.add_comm]
    simp only [pulls,hp,pulls_finished]
    rfl

end Stream

namespace Reader

/-- A scan that stops at the first fault ends with the end of the source or with one error, and the
reader gives the same again after it. -/
theorem scan_abort_ends (r : Reader) :
    r.Reaches (r.scan .abort).2 ∧ ∃ body last,(∀ t ∈ body,t.isEnd = false) ∧
      (r.scan .abort).2.next = (last,(r.scan .abort).2) ∧
      ((last = .ok (.finish r.source.size) ∧
          (r.scan .abort).1.tokens = body++[.finish r.source.size] ∧
          (r.scan .abort).1.errors = []) ∨
        ∃ e,last = .error e ∧ (r.scan .abort).1.tokens = body ∧
          (r.scan .abort).1.errors = [e]) := by
  induction r using next_induction with
  | finish r t r' hn ht =>
    obtain ⟨rfl,hr,_,hagain⟩ := next_of_end hn ht
    rw [scan_of_end .abort hn ht]
    exact ⟨hr,[],_,by simp,hagain,.inl ⟨rfl,rfl,rfl⟩⟩
  | token r t r' hn ht ih =>
    have hr := (next_of_token hn ht).1
    obtain ⟨hr',body,last,hbody,hlast,hends⟩ := ih
    rw [hr.source] at hends
    rw [scan_of_token .abort hn ht]
    refine ⟨hr.trans hr',t::body,last,?_,hlast,?_⟩
    · intro u hu
      rcases List.mem_cons.mp hu with rfl | hu
      · exact ht
      · exact hbody u hu
    · rcases hends with ⟨hl,htokens,he⟩ | ⟨e,hl,htokens,he⟩
      · exact .inl ⟨hl,congrArg (List.cons t) htokens,he⟩
      · exact .inr ⟨e,hl,congrArg (List.cons t) htokens,he⟩
  | fault r e r' hn ih =>
    obtain ⟨hr,hagain,_⟩ := next_of_error hn
    rw [scan_abort_of_error hn]
    exact ⟨hr,[],_,by simp,hagain,.inr ⟨e,rfl,rfl,rfl⟩⟩

/-- A scan that stops at the first fault has the end of the source for its last token if and only if
it met no fault. -/
theorem scan_abort_complete_iff (r : Reader) :
    (r.scan .abort).1.errors = [] ↔
      (r.scan .abort).1.tokens.getLast?.any Token.isEnd = true := by
  obtain ⟨_,body,_,hbody,_,⟨_,ht,he⟩ | ⟨e,_,ht,he⟩⟩ := r.scan_abort_ends
  · rw [ht,he,List.getLast?_concat]
    simp [Token.isEnd,Token.finish]
  · have hn : body.getLast?.any Token.isEnd = false := by
      cases hl : body.getLast? with
      | none => rfl
      | some t => exact hbody t (List.mem_of_getLast? hl)
    rw [ht,he,hn]
    simp

/-- The error of a scan that stops at the first fault is the only one, and is met again. -/
theorem next_of_scan_abort (r : Reader) (e : Error) (es : List Error)
    (h : (r.scan .abort).1.errors = e::es) :
    es = [] ∧ (r.scan .abort).2.next = (.error e,(r.scan .abort).2) := by
  obtain ⟨_,body,last,_,hlast,⟨_,_,he⟩ | ⟨d,hl,_,he⟩⟩ := r.scan_abort_ends
  · simp [he] at h
  · obtain ⟨rfl,rfl⟩ : d = e ∧ [] = es := by simpa [he] using h
    exact ⟨rfl,hl ▸ hlast⟩

end Reader

/-- What a scan comes to that was stopped by faults and begun again. -/
structure Resumed where
  tokens : List Token
  errors : List Error
  /-- By how many bytes the reader moved after each error. -/
  skips : List Nat
  reader : Reader

namespace Resumed

def withToken (t : Token) (s : Resumed) : Resumed := { s with tokens := t::s.tokens }

def withError (e : Error) (skip : Nat) (s : Resumed) : Resumed :=
  { s with errors := e::s.errors, skips := skip::s.skips }

end Resumed

namespace Reader

/-- Scans up to the first fault, passes what is at fault, and does so again until a scan comes to
the end of the source. -/
def resume (r : Reader) : Resumed :=
  match _ : (r.scan .abort).1.errors with
  | [] => ⟨(r.scan .abort).1.tokens,[],[],(r.scan .abort).2⟩
  | e::es =>
    let skip := (r.scan .abort).2.pass e
    let later := resume skip.2
    ⟨(r.scan .abort).1.tokens++later.tokens,e::es++later.errors,skip.1::later.skips,later.reader⟩
termination_by r.remaining
decreasing_by
  have hr := r.scan_abort_ends.1
  have hp := (pass_of_error (r.next_of_scan_abort e es (by assumption)).2).2
  have hc := hr.cursor
  simp only [remaining,hr.source] at hp ⊢
  omega

theorem resume_nil (r : Reader) (h : (r.scan .abort).1.errors = []) :
    r.resume = ⟨(r.scan .abort).1.tokens,[],[],(r.scan .abort).2⟩ := by
  rw [resume]
  split
  · rfl
  · next he => simp [h] at he

theorem resume_cons (r : Reader) (e : Error) (es : List Error)
    (h : (r.scan .abort).1.errors = e::es) :
    r.resume =
      let skip := (r.scan .abort).2.pass e
      let later := skip.2.resume
      ⟨(r.scan .abort).1.tokens++later.tokens,e::es++later.errors,skip.1::later.skips,
        later.reader⟩ := by
  rw [resume]
  split
  · next he => simp [h] at he
  · next d ds he =>
    obtain ⟨rfl,rfl⟩ : e = d ∧ es = ds := by simpa [h] using he
    rfl

section Steps

variable {r r' : Reader} {t : Token} {e : Error}

theorem resume_of_end (h : r.next = (.ok t,r')) (ht : t.isEnd = true) :
    r.resume = ⟨[t],[],[],r'⟩ := by
  have hs := scan_of_end .abort h ht
  rw [r.resume_nil (by rw [hs]),hs]

theorem resume_of_token (h : r.next = (.ok t,r')) (ht : t.isEnd = false) :
    r.resume = r'.resume.withToken t := by
  have hs := scan_of_token .abort h ht
  cases he : (r'.scan .abort).1.errors with
  | nil =>
    rw [r'.resume_nil he,r.resume_nil (by rw [hs]; exact he),hs]
    rfl
  | cons e es =>
    rw [r'.resume_cons e es he,r.resume_cons e es (by rw [hs]; exact he),hs]
    rfl

theorem resume_of_error (h : r.next = (.error e,r')) :
    r.resume = (r'.pass e).2.resume.withError e (r'.pass e).1 := by
  have hs := scan_abort_of_error h
  rw [r.resume_cons e [] (by rw [hs]),hs]
  rfl

end Steps

/-- Scanning anew behind every fault comes to the scan that skips faults. After each error the
reader moves by what the error asks for, never by less. -/
theorem resume_eq (r : Reader) :
    r.resume.tokens = (r.scan .skip).1.tokens ∧ r.resume.errors = (r.scan .skip).1.errors ∧
      r.resume.reader = (r.scan .skip).2 ∧
      r.resume.skips.map some = r.resume.errors.map Error.resync? := by
  induction r using next_induction with
  | finish r t r' hn ht =>
    rw [resume_of_end hn ht,scan_of_end .skip hn ht]
    exact ⟨rfl,rfl,rfl,rfl⟩
  | token r t r' hn ht ih =>
    obtain ⟨htokens,herrors,hreader,hskips⟩ := ih
    rw [resume_of_token hn ht,scan_of_token .skip hn ht]
    exact ⟨congrArg (List.cons t) htokens,herrors,hreader,hskips⟩
  | fault r e r' hn ih =>
    obtain ⟨htokens,herrors,hreader,hskips⟩ := ih
    have hp := (pass_of_error hn).1
    rw [resume_of_error hn,scan_skip_of_error hn]
    refine ⟨htokens,congrArg (List.cons e) herrors,hreader,?_⟩
    change some (r'.pass e).1::_ = e.resync?::_
    rw [hp,hskips]

example : (ofSource (.ofUtf8 [0x61,0x3F,0xE2,0x82])).resume.skips = [1,2] := by decide +kernel

/-- The scan that stops at the first fault is the beginning of the scan that skips faults. -/
theorem scan_abort_prefix (r : Reader) :
    (r.scan .abort).1.tokens <+: (r.scan .skip).1.tokens ∧
      (r.scan .abort).1.errors = (r.scan .skip).1.errors.take 1 ∧
      ((r.scan .abort).1.errors = [] → r.scan .abort = r.scan .skip) := by
  induction r using next_induction with
  | finish r t r' hn ht =>
    rw [scan_of_end .abort hn ht,scan_of_end .skip hn ht]
    exact ⟨List.prefix_rfl,rfl,fun _ => rfl⟩
  | token r t r' hn ht ih =>
    obtain ⟨htokens,herrors,hsame⟩ := ih
    rw [scan_of_token .abort hn ht,scan_of_token .skip hn ht]
    refine ⟨List.cons_prefix_cons.mpr ⟨rfl,htokens⟩,herrors,?_⟩
    intro hnone
    rw [hsame hnone]
  | fault r e r' hn ih =>
    rw [scan_abort_of_error hn,scan_skip_of_error hn]
    exact ⟨List.nil_prefix,rfl,by simp⟩

end Reader

/-- A pass that is pulled to its end gives the tokens of the scan that stops at the first fault, its
error if it has one, and then nothing. Such scans, begun anew behind every fault, give the scan
that skips faults, and each one passes its fault whole. So the first of them is the beginning of the
scan that skips faults, and all of it if there is no fault. -/
theorem scan_drives (r : Reader) :
    (∀ extra,Stream.pulls ((r.scan .abort).1.results.length+extra) .fresh r =
        ((r.scan .abort).1.results.map some++List.replicate extra none,⟨true⟩,
          (r.scan .abort).2)) ∧
      (r.scan .abort).1.errors.length ≤ 1 ∧
      ((r.scan .abort).1.errors = [] ↔
        (r.scan .abort).1.tokens.getLast?.any Token.isEnd = true) ∧
      r.resume.tokens = (r.scan .skip).1.tokens ∧
      r.resume.errors = (r.scan .skip).1.errors ∧
      r.resume.reader = (r.scan .skip).2 ∧
      r.resume.skips.map some = r.resume.errors.map Error.resync? ∧
      (r.scan .abort).1.tokens <+: (r.scan .skip).1.tokens ∧
      (r.scan .abort).1.errors.head? = (r.scan .skip).1.errors.head? ∧
      ((r.scan .abort).1.errors = [] ↔ (r.scan .skip).1.errors = []) ∧
      ((r.scan .abort).1.errors = [] → r.scan .abort = r.scan .skip) := by
  obtain ⟨htokens,herrors,hreader,hskips⟩ := r.resume_eq
  obtain ⟨hbegin,hfirst,hsame⟩ := r.scan_abort_prefix
  have hone : (r.scan .abort).1.errors.length ≤ 1 := by
    rw [hfirst]
    exact List.length_take_le 1 _
  have hnone : (r.scan .abort).1.errors = [] ↔ (r.scan .skip).1.errors = [] := by
    rw [hfirst,List.take_eq_nil_iff]
    simp
  refine ⟨Stream.pulls_fresh r,hone,r.scan_abort_complete_iff,htokens,herrors,hreader,hskips,hbegin,
    ?_,hnone,hsame⟩
  rw [hfirst,List.head?_take]
  simp

end Lexis
