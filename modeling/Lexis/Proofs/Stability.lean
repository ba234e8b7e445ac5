import Lexis.Proofs.Separator
import Lexis.Proofs.Tiling

/-!
A source that grows at its end. What a scan found in it stays as it was and comes first in the scan
of the longer source. Only two things can still change: a token that nothing follows, which may go
on, and an incomplete sequence, which may be completed or broken.
-/

namespace Lexis

/-- The source with more bytes behind its own. -/
def Source.append (s : Source) (more : List UInt8) : Source := { s with bytes := s.bytes++more }

theorem Tiles.split {start stop : Nat} {xs ys : List Span} (h : Tiles start stop (xs++ys)) :
    ∃ middle,Tiles start middle xs ∧ Tiles middle stop ys := by
  induction xs generalizing start with
  | nil => exact ⟨start,rfl,h⟩
  | cons s xs ih =>
    obtain ⟨hs,hlt,hr⟩ := h
    obtain ⟨middle,hx,hy⟩ := ih hr
    exact ⟨middle,⟨hs,hlt,hx⟩,hy⟩

namespace Glyph

def span (g : Glyph) : Span := .ofWidth g.start g.width

/-- The glyphs of a window take its bytes one after the other. -/
theorem cut_tiles (offset : Nat) (w : List UInt8) :
    Tiles offset (offset+w.length) ((cut offset w).map span) := by
  induction offset, w using cut.induct with
  | case1 offset =>
    rw [cut_nil]
    rfl
  | case2 offset w hn g ih =>
    have hp : 0 < g.width := width_pos offset w hn
    have hw : g.width ≤ w.length := width_le offset w hn
    have hstop : g.stop+(w.drop g.width).length = offset+w.length := by
      rw [List.length_drop]
      change offset+g.width+(w.length-g.width) = offset+w.length
      omega
    rw [hstop] at ih
    rw [cut_step offset w g hn rfl]
    refine ⟨rfl,?_,ih⟩
    exact Nat.lt_add_of_pos_right hp

theorem total_of_tiles {start stop : Nat} {gs : List Glyph}
    (h : Tiles start stop (gs.map span)) : start+total gs = stop := by
  induction gs generalizing start with
  | nil => exact h
  | cons g gs ih =>
    obtain ⟨hs,_,hr⟩ := h
    have ht : g.start+g.width+total gs = stop := ih hr
    have hg : g.start = start := hs
    rw [total,← hg,← Nat.add_assoc]
    exact ht

end Glyph

/-- The end of a source apart, a scan has tokens that end before the given offset and then at most
one that ends there; the former ones and all errors begin the second scan too. -/
structure Scan.Begins (stop : Nat) (a b : Scan) : Prop where
  tokens : ∃ settled loose last,a.tokens = settled++loose++[last] ∧ last.isEnd = true ∧
    loose.length ≤ 1 ∧ (∀ t ∈ settled,t.isEnd = false ∧ t.span.stop < stop) ∧
    (∀ t ∈ loose,t.isEnd = false ∧ t.span.stop = stop) ∧ settled <+: b.tokens
  errors : a.errors <+: b.errors

namespace Scan

theorem Begins.withError {stop : Nat} {a b : Scan} (h : Begins stop a b) (e : Error) :
    Begins stop (a.withError e) (b.withError e) :=
  ⟨h.tokens,List.cons_prefix_cons.mpr ⟨rfl,h.errors⟩⟩

theorem Begins.withToken {stop : Nat} {a b : Scan} (h : Begins stop a b) (t : Token)
    (ht : t.isEnd = false) (hlt : t.span.stop < stop) :
    Begins stop (a.withToken t) (b.withToken t) := by
  obtain ⟨settled,loose,last,ha,hlast,hone,hsettled,hloose,hb⟩ := h.tokens
  refine ⟨⟨t::settled,loose,last,congrArg (List.cons t) ha,hlast,hone,?_,hloose,?_⟩,h.errors⟩
  · intro u hu
    rcases List.mem_cons.mp hu with rfl | hu
    · exact ⟨ht,hlt⟩
    · exact hsettled u hu
  · exact List.cons_prefix_cons.mpr ⟨rfl,hb⟩

/-- A run that ends inside a list goes no further when the list does. -/
theorem run_inside (p : Glyph → Bool) (gs hs : List Glyph) (h : gs.dropWhile p ≠ []) :
    (gs++hs).takeWhile p = gs.takeWhile p ∧ (gs++hs).dropWhile p = gs.dropWhile p++hs := by
  induction gs with
  | nil => exact absurd rfl h
  | cons g gs ih =>
    cases hg : p g with
    | false => simp [hg]
    | true =>
      rw [List.dropWhile_cons_of_pos hg] at h
      simp [hg,ih h]

/-- Glyphs that follow others can change only the token that comes up to them. -/
theorem ofGlyphs_begins (offset stop : Nat) (gs hs : List Glyph)
    (ht : Tiles offset stop (gs.map Glyph.span)) :
    Begins stop (ofGlyphs offset gs) (ofGlyphs offset (gs++hs)) := by
  induction offset, gs using ofGlyphs.induct with
  | case1 offset =>
    rw [ofGlyphs_nil]
    exact ⟨⟨[],[],_,rfl,rfl,by simp,by simp,by simp,List.nil_prefix⟩,List.nil_prefix⟩
  | case2 offset g gs hb ih =>
    rw [List.cons_append,ofGlyphs_blank _ _ _ hb,ofGlyphs_blank _ _ _ hb]
    exact ih ht.2.2
  | case3 offset g gs hb hk ih =>
    rw [List.cons_append,ofGlyphs_error _ _ _ hb hk,ofGlyphs_error _ _ _ hb hk]
    exact (ih ht.2.2).withError g.error
  | case4 offset g gs hb kind hk run width ih =>
    obtain ⟨_,_,hr⟩ := ht
    have hsplit : gs.map Glyph.span = run.map Glyph.span++
        (gs.dropWhile (Glyph.accepted (kind.Continues ·))).map Glyph.span := by
      rw [← List.map_append,List.takeWhile_append_dropWhile]
    rw [hsplit] at hr
    obtain ⟨middle,hrun,hrest⟩ := hr.split
    have hm : g.start+width = middle := by
      have := Glyph.total_of_tiles hrun
      change g.start+(g.width+Glyph.total run) = middle
      rw [← Nat.add_assoc]
      exact this
    have hend : (Token.mk kind (.ofWidth g.start width)).isEnd = false := by
      obtain ⟨c,_,hf⟩ := Option.bind_eq_some_iff.mp hk
      rw [Kind.begunBy_eq] at hf
      simpa [Token.isEnd] using Kind.ofFirst_ne_end c kind hf
    rw [ofGlyphs_token offset g gs kind hk]
    by_cases hd : gs.dropWhile (Glyph.accepted (kind.Continues ·)) = []
    · -- The run comes to the end of the glyphs, and may go on into those that follow.
      rw [hd] at hrest
      have hstop : g.start+width = stop := hm.trans hrest
      simp only [hd]
      rw [ofGlyphs_nil]
      refine ⟨⟨[],[_],_,rfl,rfl,by simp,by simp,?_,List.nil_prefix⟩,List.nil_prefix⟩
      intro t hmem
      rw [List.mem_singleton.mp hmem]
      exact ⟨hend,hstop⟩
    · obtain ⟨htake,hdrop⟩ := run_inside (Glyph.accepted (kind.Continues ·)) gs hs hd
      rw [List.cons_append,ofGlyphs_token offset g (gs++hs) kind hk,htake,hdrop]
      have hlt : g.start+width < stop := by
        obtain ⟨d,ds,hcons⟩ := List.exists_cons_of_ne_nil hd
        rw [hcons] at hrest
        have := hrest.2.1
        have := hrest.2.2.le
        omega
      refine Begins.withToken (ih ?_) _ hend hlt
      rw [hm]
      exact hrest

end Scan

theorem Error.status_eq_truncated_iff (e : Error) : e.status = .truncated ↔ e.Truncates := by
  rcases e with _ | _ | _ | _ | ⟨offset,(_ | _ | _) | _⟩ <;> simp [status,Truncates]

theorem Error.filter_of_whole (es : List Error) (h : ∀ e ∈ es,¬ e.Truncates) :
    es.filter (fun e => e.status != .truncated) = es ∧
      es.countP (fun e => e.status == .truncated) = 0 := by
  have hs (e : Error) (he : e ∈ es) : e.status ≠ .truncated :=
    fun hs => h e he (e.status_eq_truncated_iff.mp hs)
  constructor
  · apply List.filter_eq_self.mpr
    intro e he
    simpa using hs e he
  · apply List.countP_eq_zero.mpr
    intro e he
    simpa using hs e he

namespace Scan

/-- The token cannot go on: it ends before the end of the source, and not where the scan met an
incomplete sequence. -/
def isSettled (size : Nat) (s : Scan) (t : Token) : Bool :=
  !t.isEnd && t.span.stop != size &&
    s.errors.all (fun e => e.status != .truncated || e.offset? != some t.span.stop)

theorem isSettled_of_whole (size : Nat) (s : Scan) (t : Token) (ht : t.isEnd = false)
    (h : ∀ e ∈ s.errors,¬ e.Truncates) : s.isSettled size t = true ↔ t.span.stop ≠ size := by
  have hs (e : Error) (he : e ∈ s.errors) : e.status ≠ .truncated :=
    fun hs => h e he (e.status_eq_truncated_iff.mp hs)
  simp only [isSettled,ht,Bool.not_false,Bool.true_and,Bool.and_eq_true,bne_iff_ne,ne_eq,
    List.all_eq_true,Bool.or_eq_true,and_iff_left_iff_imp]
  intro _ e he
  exact .inl (hs e he)

/-- An incomplete sequence leaves unsettled what comes up to it. -/
theorem isSettled_of_truncated (size stop n k : Nat) (s : Scan) (before : List Error) (t : Token)
    (ht : t.isEnd = false) (hlt : t.span.stop < size)
    (hs : s.errors = before++[.lexical stop (.malformed (.truncated n k))])
    (h : ∀ e ∈ before,¬ e.Truncates) : s.isSettled size t = true ↔ t.span.stop ≠ stop := by
  have hw (e : Error) (he : e ∈ before) : e.status ≠ .truncated :=
    fun hs => h e he (e.status_eq_truncated_iff.mp hs)
  have hne : t.span.stop ≠ size := Nat.ne_of_lt hlt
  simp only [isSettled,ht,hs,Bool.not_false,Bool.true_and,Bool.and_eq_true,bne_iff_ne,ne_eq,hne,
    not_false_eq_true,true_and,List.all_append,List.all_cons,List.all_nil,Error.status,
    Error.offset?,Option.some.injEq,Bool.or_eq_true,List.all_eq_true,not_true_eq_false,false_or,
    and_true]
  constructor
  · intro hall heq
    exact hall.2 heq.symm
  · intro heq
    exact ⟨fun e he => .inl (hw e he),fun h => heq h.symm⟩

/-- A scan that finds the tokens of one that begins another leaves the settled ones of them. -/
theorem Begins.settled {stop : Nat} {a b : Scan} {last : Token} (h : Begins stop a b) (size : Nat)
    (s : Scan) (hs : s.tokens = a.tokens.dropLast++[last]) (hlast : last.isEnd = true)
    (hsettled : ∀ t : Token,t.isEnd = false → t.span.stop ≤ stop →
      (s.isSettled size t = true ↔ t.span.stop ≠ stop)) :
    s.tokens.filter (s.isSettled size) <+: b.tokens ∧
      s.tokens.countP (fun t => !s.isSettled size t) ≤ 2 := by
  obtain ⟨settled,loose,_,ha,_,hone,hbefore,hloose,hb⟩ := h.tokens
  rw [ha,List.dropLast_concat] at hs
  have hfirst (t : Token) (ht : t ∈ settled) : s.isSettled size t = true := by
    obtain ⟨hend,hlt⟩ := hbefore t ht
    exact (hsettled t hend (Nat.le_of_lt hlt)).mpr (Nat.ne_of_lt hlt)
  have hnext (t : Token) (ht : t ∈ loose++[last]) : s.isSettled size t = false := by
    rcases List.mem_append.mp ht with ht | ht
    · obtain ⟨hend,hstop⟩ := hloose t ht
      have hnot : ¬ s.isSettled size t = true := fun hyes =>
        (hsettled t hend (Nat.le_of_eq hstop)).mp hyes hstop
      simpa using hnot
    · simp [isSettled,List.mem_singleton.mp ht,hlast]
  have hkept : (loose++[last]).filter (s.isSettled size) = [] := by
    apply List.filter_eq_nil_iff.mpr
    intro t ht
    simp [hnext t ht]
  have hnone : settled.countP (fun t => !s.isSettled size t) = 0 := by
    apply List.countP_eq_zero.mpr
    intro t ht
    simp [hfirst t ht]
  rw [hs,List.append_assoc]
  constructor
  · rw [List.filter_append,List.filter_eq_self.mpr hfirst,hkept,List.append_nil]
    exact hb
  · have hle := List.countP_le_length (p := fun t => !s.isSettled size t) (l := loose++[last])
    rw [List.countP_append,hnone]
    simp only [List.length_append,List.length_singleton] at hle
    omega

/-- The second scan begins with all that is settled in the first one, and little is not. -/
structure Keeps (size : Nat) (a b : Scan) : Prop where
  errors : a.errors.filter (fun e => e.status != .truncated) <+: b.errors
  tokens : a.tokens.filter (a.isSettled size) <+: b.tokens
  openErrors : a.errors.countP (fun e => e.status == .truncated) ≤ 1
  openTokens : a.tokens.countP (fun t => !a.isSettled size t) ≤ 2

/-- Without an incomplete sequence only the token at the end of the source is open. -/
theorem Begins.keeps_of_whole {size : Nat} {a b : Scan} (h : Begins size a b)
    (hw : ∀ e ∈ a.errors,¬ e.Truncates) : Keeps size a b := by
  obtain ⟨hfilter,hcount⟩ := Error.filter_of_whole a.errors hw
  obtain ⟨_,_,last,ha,hlast,_⟩ := h.tokens
  have hsplit : a.tokens = a.tokens.dropLast++[last] := by rw [ha,List.dropLast_concat]
  obtain ⟨htokens,hopen⟩ := h.settled size a hsplit hlast
    (fun t ht _ => a.isSettled_of_whole size t ht hw)
  refine ⟨?_,htokens,?_,hopen⟩
  · rw [hfilter]
    exact h.errors
  · rw [hcount]
    exact Nat.zero_le 1

/-- An incomplete sequence is one more error, and the token that comes up to it is open. -/
theorem Begins.keeps_of_truncated {stop size : Nat} {a b : Scan} (h : Begins stop a b) (n k : Nat)
    (hlt : stop < size) (hw : ∀ e ∈ a.errors,¬ e.Truncates) :
    Keeps size (a.join ⟨[.finish size],[.lexical stop (.malformed (.truncated n k))],size⟩) b := by
  obtain ⟨hfilter,hcount⟩ := Error.filter_of_whole a.errors hw
  obtain ⟨htokens,hopen⟩ := h.settled size
    (a.join ⟨[.finish size],[.lexical stop (.malformed (.truncated n k))],size⟩) rfl rfl (by
      intro t ht hle
      exact isSettled_of_truncated size stop n k _ _ t ht (by omega) rfl hw)
  refine ⟨?_,htokens,?_,hopen⟩
  · simp only [join,List.filter_append,hfilter]
    simpa [Error.status] using h.errors
  · simp only [join,List.countP_append,hcount]
    simp [Error.status]

end Scan

/-- What a scan found in a source it finds first, and in the same order, when bytes are put behind
the source: all errors but that of an incomplete sequence, and all tokens but the end and one that
comes up to the end of the source or up to the incomplete sequence. So at most one error is left
out, and one token besides the end. -/
theorem scan_append (s : Source) (more : List UInt8) :
    (s.scan .skip).errors.filter (fun e => e.status != .truncated) <+:
        ((s.append more).scan .skip).errors ∧
      (s.scan .skip).tokens.filter ((s.scan .skip).isSettled s.size) <+:
        ((s.append more).scan .skip).tokens ∧
      (s.scan .skip).errors.countP (fun e => e.status == .truncated) ≤ 1 ∧
      (s.scan .skip).tokens.countP (fun t => !(s.scan .skip).isSettled s.size t) ≤ 2 := by
  obtain ⟨gs,p,q,hpq,hgs,hq,hc⟩ := Glyph.cut_split 0 s.bytes
  rw [Nat.zero_add] at hc
  have hwhole : ∀ e ∈ (Scan.ofGlyphs 0 gs).errors,¬ e.Truncates := by
    intro e he
    obtain ⟨g,hg,rfl⟩ := Scan.mem_errors_ofGlyphs 0 gs e he
    exact (hgs g hg).not_truncates
  have hlong : (s.append more).scan .skip = Scan.ofGlyphs 0 (gs++Glyph.cut p.length (q++more)) := by
    rw [Source.scan_eq,Scan.ofWindow_eq_ofGlyphs,← hc]
    rfl
  have hcut := hc []
  rw [List.append_nil,List.append_nil] at hcut
  have htiles := Glyph.cut_tiles 0 s.bytes
  rw [hcut,List.map_append,Nat.zero_add] at htiles
  obtain ⟨middle,hfirst,hrest⟩ := htiles.split
  have hbegins := Scan.ofGlyphs_begins 0 middle gs (Glyph.cut p.length (q++more)) hfirst
  have hkeeps : Scan.Keeps s.size (s.scan .skip) ((s.append more).scan .skip) := by
    rw [hlong]
    rcases hq with rfl | ⟨n,hq⟩
    · rw [Glyph.cut_nil] at hcut hrest
      obtain rfl : middle = s.bytes.length := hrest
      rw [s.scan_eq,Scan.ofWindow_eq_ofGlyphs,hcut,List.append_nil]
      exact hbegins.keeps_of_whole hwhole
    · have hl : s.size = p.length+q.length := by rw [Source.size,hpq,List.length_append]
      have hpos := List.length_pos_iff.mpr (Sequence.ne_nil_of_error q _ hq)
      rw [Glyph.cut_truncated p.length q n _ hq] at hrest
      obtain rfl : p.length = middle := hrest.1
      have hshort := Scan.ofGlyphs_truncated gs p q n q.length hq (by
        intro r
        rw [← hpq,hc])
      rw [s.scan_eq,hpq,hshort,← hl]
      exact hbegins.keeps_of_truncated n q.length (by omega) hwhole
  exact ⟨hkeeps.errors,hkeeps.tokens,hkeeps.openErrors,hkeeps.openTokens⟩

/-- A word at the end of a source can go on, the one before it cannot. -/
example : ((Source.ofUtf8 [0x61,0x20,0x62,0xE2,0x82]).scan .skip).tokens.filter
    (((Source.ofUtf8 [0x61,0x20,0x62,0xE2,0x82]).scan .skip).isSettled 5) =
      [⟨.identifier,.ofWidth 0 1⟩] := by decide +kernel

end Lexis
