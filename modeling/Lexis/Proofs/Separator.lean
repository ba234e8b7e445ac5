import Lexis.Proofs.Shift
import Lexis.Proofs.Walk

/-!
A blank byte keeps two texts apart. Scanning them with a blank in between gives what each one gives
alone, the second one moved. Only a sequence that the first text leaves incomplete is reported in
other words, for now a byte follows it.
-/

namespace Lexis

namespace Scan

/-- One scan and then another. The first one does not come to its end. -/
def join (a b : Scan) : Scan := ⟨a.tokens.dropLast++b.tokens,a.errors++b.errors,b.stop⟩

theorem ofGlyphs_tokens_ne_nil (offset : Nat) (gs : List Glyph) :
    (ofGlyphs offset gs).tokens ≠ [] := by
  induction offset, gs using ofGlyphs.induct with
  | case1 offset => simp [ofGlyphs_nil]
  | case2 offset g gs hb ih => rwa [ofGlyphs_blank offset g gs hb]
  | case3 offset g gs hb hk ih => rwa [ofGlyphs_error offset g gs hb hk]
  | case4 offset g gs hb kind hk run width ih =>
    rw [ofGlyphs_token offset g gs kind hk]
    exact List.cons_ne_nil _ _

theorem join_withToken (t : Token) (a b : Scan) (ha : a.tokens ≠ []) :
    (a.withToken t).join b = (a.join b).withToken t := by
  simp only [join,withToken,List.dropLast_cons_of_ne_nil ha,List.cons_append]

/-- The glyph continues no token. -/
def Breaks (g : Glyph) : Prop := ∀ kind : Kind,g.accepted (kind.Continues ·) = false

theorem breaks_of_none (g : Glyph) (h : g.char? = none) : Breaks g := by
  intro kind
  simpa using g.not_accepted (kind.Continues ·) h

theorem run_append (p : Glyph → Bool) (gs hs : List Glyph) (h : Glyph) (hp : p h = false) :
    (gs++h::hs).takeWhile p = gs.takeWhile p ∧
      (gs++h::hs).dropWhile p = gs.dropWhile p++h::hs := by
  induction gs with
  | nil => simp [hp]
  | cons g gs ih =>
    cases hg : p g with
    | false => simp [hg]
    | true => simp [hg,ih]

theorem ofGlyphs_offset (offset start : Nat) (g : Glyph) (gs : List Glyph) :
    ofGlyphs offset (g::gs) = ofGlyphs start (g::gs) := by
  rw [ofGlyphs,ofGlyphs]

/-- No token goes on past a glyph that continues none. -/
theorem ofGlyphs_append (offset : Nat) (gs hs : List Glyph) (h : Glyph) (hh : Breaks h) :
    ofGlyphs offset (gs++h::hs) = (ofGlyphs offset gs).join (ofGlyphs h.start (h::hs)) := by
  induction offset, gs using ofGlyphs.induct with
  | case1 offset =>
    rw [ofGlyphs_nil,List.nil_append,ofGlyphs_offset offset h.start]
    rfl
  | case2 offset g gs hb ih =>
    rw [ofGlyphs_blank offset g gs hb,← ih]
    exact ofGlyphs_blank offset g _ hb
  | case3 offset g gs hb hk ih =>
    rw [ofGlyphs_error offset g gs hb hk,List.cons_append,ofGlyphs_error offset g _ hb hk,ih]
    rfl
  | case4 offset g gs hb kind hk run width ih =>
    obtain ⟨ht,hd⟩ := run_append (Glyph.accepted (kind.Continues ·)) gs hs h (hh kind)
    rw [ofGlyphs_token offset g gs kind hk,List.cons_append,ofGlyphs_token offset g _ kind hk,ht,hd]
    rw [join_withToken _ _ _ (ofGlyphs_tokens_ne_nil _ _),← ih]

/-- Glyphs that are no characters are so many errors. -/
theorem ofGlyphs_defects (offset : Nat) (gs hs : List Glyph) (h : Glyph)
    (hg : ∀ g ∈ gs,g.char? = none) :
    ofGlyphs offset (gs++h::hs) =
      { ofGlyphs h.start (h::hs) with
        errors := gs.map Glyph.error++(ofGlyphs h.start (h::hs)).errors } := by
  induction gs generalizing offset with
  | nil => exact ofGlyphs_offset offset h.start h hs
  | cons g gs ih =>
    have hn : g.char? = none := hg g (by simp)
    have hgs : ∀ d ∈ gs,d.char? = none := by
      intro d hd
      exact hg d (List.mem_cons_of_mem g hd)
    rw [List.cons_append,ofGlyphs_error offset g _ (g.not_accepted _ hn) (by simp [hn]),
      ih _ hgs]
    rfl

theorem mem_errors_ofGlyphs (offset : Nat) (gs : List Glyph) (e : Error)
    (he : e ∈ (ofGlyphs offset gs).errors) : ∃ g ∈ gs,e = g.error := by
  induction offset, gs using ofGlyphs.induct with
  | case1 offset => simp [ofGlyphs_nil] at he
  | case2 offset g gs hb ih =>
    rw [ofGlyphs_blank offset g gs hb] at he
    obtain ⟨d,hd,hde⟩ := ih he
    exact ⟨d,by simp [hd],hde⟩
  | case3 offset g gs hb hk ih =>
    rw [ofGlyphs_error offset g gs hb hk] at he
    rcases List.mem_cons.mp he with rfl | he
    · exact ⟨g,by simp,rfl⟩
    · obtain ⟨d,hd,hde⟩ := ih he
      exact ⟨d,by simp [hd],hde⟩
  | case4 offset g gs hb kind hk run width ih =>
    rw [ofGlyphs_token offset g gs kind hk] at he
    obtain ⟨d,hd,hde⟩ := ih he
    exact ⟨d,List.mem_cons_of_mem g ((List.dropWhile_sublist _).mem hd),hde⟩

end Scan

theorem Glyph.strays_errors (offset : Nat) (w : List UInt8) :
    (strays offset w).map error =
      w.mapIdx (fun i c => .lexical (offset+i) (.malformed (.badLead c))) := by
  apply List.ext_getElem
  · simp [strays]
  · intro i _ _
    simp [strays,error,fault]

/-- The error reports that bytes are missing at the end of a source. -/
def Error.Truncates (e : Error) : Prop := ∃ o n k,e = .lexical o (.malformed (.truncated n k))

theorem Glyph.Whole.not_truncates {g : Glyph} (h : g.Whole) : ¬ g.error.Truncates := by
  intro ht
  obtain ⟨o,n,k,he⟩ := ht
  obtain ⟨start,reading⟩ := g
  cases reading with
  | error d =>
    obtain ⟨_,rfl⟩ : start = o ∧ d = .truncated n k := by simpa [error,fault] using he
    exact h n k rfl
  | ok s => simp [error,fault] at he

theorem Scan.not_truncates_of_whole (offset : Nat) (gs : List Glyph) (hgs : ∀ g ∈ gs,g.Whole) :
    ∀ e ∈ (ofGlyphs offset gs).errors,¬ e.Truncates := by
  intro e he
  obtain ⟨g,hg,rfl⟩ := mem_errors_ofGlyphs offset gs e he
  exact (hgs g hg).not_truncates

theorem breaks_blank (offset : Nat) (b : UInt8) (r : List UInt8) (hb : b ∈ blankBytes) :
    ∃ g,g.start = offset ∧ Scan.Breaks g ∧ Glyph.cut offset (b::r) = g::Glyph.cut (offset+1) r ∧
      ∀ start gs,Scan.ofGlyphs start (g::gs) = Scan.ofGlyphs (offset+1) gs := by
  obtain ⟨s,c,hd,hs,hc,hbc⟩ := decode_blank b r hb
  have haccepted (accept : Char → Bool) : Glyph.accepted accept ⟨offset,.ok s⟩ = accept c := by
    rw [Glyph.accepted_ok accept offset (b::r) s hd,hc,Option.any_some]
  refine ⟨⟨offset,.ok s⟩,rfl,?_,?_,?_⟩
  · intro kind
    simp [haccepted,Kind.continues_iff,continuedBy_blank kind c hbc]
  · rw [Glyph.cut_step offset (b::r) _ (by simp) rfl,hd]
    simp [Glyph.width,hs]
  · intro start gs
    rw [Scan.ofGlyphs_blank start _ gs (by simp [haccepted,isBlank_iff,hbc])]
    simp [Glyph.stop,Glyph.width,hs]

/-- Where no byte is missing at the end of a window, it does not matter that others follow. -/
theorem Scan.ofGlyphs_complete (gs : List Glyph) (w r : List UInt8) (b : UInt8)
    (hb : b ∈ blankBytes) (hc : ∀ r,Glyph.cut 0 (w++r) = gs++Glyph.cut w.length r) :
    ofWindow .skip 0 w = ofGlyphs 0 gs ∧
      ofWindow .skip 0 (w++b::r) = (ofGlyphs 0 gs).join (ofWindow .skip (w.length+1) r) := by
  obtain ⟨g,hg,hbr,hcut,hskip⟩ := breaks_blank w.length b r hb
  constructor
  · have h := hc []
    rw [Glyph.cut_nil,List.append_nil,List.append_nil] at h
    rw [ofWindow_eq_ofGlyphs,h]
  · rw [ofWindow_eq_ofGlyphs,hc,hcut,ofGlyphs_append _ _ _ _ hbr,hskip,← ofWindow_eq_ofGlyphs]

/-- A truncated sequence behind other glyphs is one error more, and then there is only the end. -/
theorem Scan.ofGlyphs_broken (offset o n k : Nat) (gs : List Glyph) (hk : 0 < k) :
    ofGlyphs offset (gs++[⟨o,.error (.truncated n k)⟩]) =
      (ofGlyphs offset gs).join
        ⟨[.finish (o+k)],[.lexical o (.malformed (.truncated n k))],o+k⟩ := by
  have hstop : (Glyph.mk o (.error (.truncated n k))).stop = o+k :=
    congrArg (o+·) (Nat.max_eq_left hk)
  rw [ofGlyphs_append _ _ _ _ (breaks_of_none _ rfl),
    ofGlyphs_error _ _ _ (Glyph.not_accepted _ _ rfl) rfl,hstop,ofGlyphs_nil]
  rfl

/-- A window that ends with a truncated sequence has one error more than its whole glyphs. -/
theorem Scan.ofGlyphs_truncated (gs : List Glyph) (p q : List UInt8) (n k : Nat)
    (hq : Sequence.decode q = .error (.truncated n k))
    (hc : ∀ r,Glyph.cut 0 (p++q++r) = gs++Glyph.cut p.length (q++r)) :
    ofWindow .skip 0 (p++q) =
      (ofGlyphs 0 gs).join ⟨[.finish (p.length+q.length)],
        [.lexical p.length (.malformed (.truncated n k))],p.length+q.length⟩ := by
  obtain ⟨_,_,rfl,hk,_⟩ := Sequence.decode_truncated q n k hq
  have hpos : 0 < k := by rw [hk]; exact Nat.succ_pos _
  have h := hc []
  rw [List.append_nil,List.append_nil,Glyph.cut_truncated _ _ n k hq] at h
  rw [ofWindow_eq_ofGlyphs,h,ofGlyphs_broken 0 p.length n k gs hpos,hk]

/-- A blank after a truncated sequence interrupts it, and the scan goes on behind the blank. -/
theorem Scan.ofGlyphs_interrupted (gs : List Glyph) (p q r : List UInt8) (b : UInt8) (n k : Nat)
    (hb : b ∈ blankBytes) (hq : Sequence.decode q = .error (.truncated n k))
    (hc : ∀ r,Glyph.cut 0 (p++q++r) = gs++Glyph.cut p.length (q++r)) :
    ofWindow .skip 0 (p++q++b::r) = (ofGlyphs 0 gs).join
      { ofWindow .skip (p.length+q.length+1) r with
        errors := .lexical p.length (.malformed (.badContinuation b k))::
          q.tail.mapIdx (fun i c => .lexical (p.length+1+i) (.malformed (.badLead c)))++
            (ofWindow .skip (p.length+q.length+1) r).errors } := by
  obtain ⟨g,_,_,hcut,hskip⟩ := breaks_blank (p.length+q.length) b r hb
  have hi := Glyph.cut_interrupted p.length q r b n k hq (isContinuation_blank b hb)
  have he := Glyph.strays_errors (p.length+1) q.tail
  have hd : ∀ g ∈ Glyph.mk p.length (.error (.badContinuation b k))::
      Glyph.strays (p.length+1) q.tail,g.char? = none := by
    intro g hm
    cases hm with
    | head => rfl
    | tail _ hm =>
      obtain ⟨i,_,hi⟩ := List.mem_mapIdx.mp hm
      rw [← hi]
      rfl
  rw [ofWindow_eq_ofGlyphs,hc,hi,hcut,List.cons_append,
    ofGlyphs_append _ _ _ _ (breaks_of_none _ rfl),← List.cons_append,ofGlyphs_defects _ _ _ _ hd,
    hskip,← ofWindow_eq_ofGlyphs,List.map_cons,he]
  rfl

/-- Two texts with a blank byte between them have the tokens of the first one and those of the
second one, whose offsets and labels move with it; so for the errors if the first text is complete.
If a sequence of k bytes is truncated at its end, the blank is to blame for it in the longer text,
and the k-1 bytes before the blank are strays. -/
theorem scan_separated (a b s : Source) (sep : UInt8) (hsep : sep ∈ blankBytes)
    (hs : s.bytes = a.bytes++sep::b.bytes) :
    (s.scan .skip).tokens =
        (a.scan .skip).tokens.dropLast++((b.scan .skip).shift (a.size+1)).tokens ∧
      ((b.scan .skip).shift (a.size+1)).errors.map Error.label? =
        (b.scan .skip).errors.map (fun e => e.label?.map (Label.shift (a.size+1))) ∧
      ((∀ e ∈ (a.scan .skip).errors,¬ e.Truncates) →
        (s.scan .skip).errors = (a.scan .skip).errors++((b.scan .skip).shift (a.size+1)).errors) ∧
      ∀ o n k,.lexical o (.malformed (.truncated n k)) ∈ (a.scan .skip).errors →
        ∃ before,(∀ e ∈ before,¬ e.Truncates) ∧ a.size = o+k ∧
          (a.scan .skip).errors = before++[.lexical o (.malformed (.truncated n k))] ∧
          (s.scan .skip).errors = before++
            .lexical o (.malformed (.badContinuation sep k))::
              (a.bytes.drop (o+1)).mapIdx (fun i c => .lexical (o+1+i) (.malformed (.badLead c)))++
            ((b.scan .skip).shift (a.size+1)).errors := by
  obtain ⟨gs,p,q,hpq,hgs,hq,hc⟩ := Glyph.cut_split 0 a.bytes
  have hshift : (b.scan .skip).shift (a.size+1) = Scan.ofWindow .skip (a.size+1) b.bytes := by
    rw [b.scan_eq,← Scan.ofWindow_shift,Nat.zero_add]
  have hwhole : ∀ e ∈ (Scan.ofGlyphs 0 gs).errors,¬ e.Truncates := by
    intro e he
    obtain ⟨g,hg,rfl⟩ := Scan.mem_errors_ofGlyphs 0 gs e he
    exact (hgs g hg).not_truncates
  have hlabels := Scan.shift_labels (a.size+1) (b.scan .skip)
  rw [hshift] at hlabels ⊢
  rw [s.scan_eq,a.scan_eq,hs]
  rcases hq with rfl | ⟨n,hq⟩
  · have hp : a.bytes = p := by simpa using hpq
    have hc' : ∀ r,Glyph.cut 0 (a.bytes++r) = gs++Glyph.cut a.bytes.length r := by
      intro r
      simpa [← hp] using hc r
    obtain ⟨ha,hab⟩ := Scan.ofGlyphs_complete gs a.bytes b.bytes sep hsep hc'
    rw [ha,hab]
    refine ⟨rfl,hlabels,fun _ => rfl,?_⟩
    intro o n k he
    exact absurd ⟨o,n,k,rfl⟩ (hwhole _ he)
  · have hl : a.bytes.length = p.length+q.length := by rw [hpq,List.length_append]
    have htail : a.bytes.drop (p.length+1) = q.tail := by
      rw [hpq,← List.drop_drop,List.drop_left,List.drop_one]
    have hc' : ∀ r,Glyph.cut 0 (p++q++r) = gs++Glyph.cut p.length (q++r) := by
      intro r
      rw [← hpq,hc,Nat.zero_add]
    have ha := Scan.ofGlyphs_truncated gs p q n q.length hq hc'
    have hab := Scan.ofGlyphs_interrupted gs p q b.bytes sep n q.length hsep hq hc'
    rw [← hpq,← hl] at ha hab
    rw [ha,hab]
    refine ⟨by simp [Scan.join,Source.size],hlabels,?_,?_⟩
    · intro hnone
      have hm : Error.lexical p.length (.malformed (.truncated n q.length)) ∈
          ((Scan.ofGlyphs 0 gs).join ⟨[.finish a.bytes.length],
            [.lexical p.length (.malformed (.truncated n q.length))],a.bytes.length⟩).errors := by
        simp [Scan.join]
      exact absurd ⟨p.length,n,q.length,rfl⟩ (hnone _ hm)
    · intro o m k he
      rcases List.mem_append.mp he with he | he
      · exact absurd ⟨o,m,k,rfl⟩ (hwhole _ he)
      · obtain ⟨rfl,rfl,rfl⟩ : o = p.length ∧ m = n ∧ k = q.length := by simpa using he
        refine ⟨(Scan.ofGlyphs 0 gs).errors,hwhole,hl,rfl,?_⟩
        rw [htail]
        simp [Scan.join,Source.size]

/-- The letters `a` and `b`, first with two bytes of three behind `a`, then alone. -/
theorem scan_separated_letters :
    0x20 ∈ blankBytes ∧
      Error.lexical 1 (.malformed (.truncated 3 2)) ∈
        ((Source.ofUtf8 [0x61,0xE2,0x82]).scan .skip).errors ∧
      (∃ before,(∀ e ∈ before,¬ e.Truncates) ∧ 3 = 1+2 ∧
        ((Source.ofUtf8 [0x61,0xE2,0x82]).scan .skip).errors =
          before++[.lexical 1 (.malformed (.truncated 3 2))] ∧
        ((Source.ofUtf8 [0x61,0xE2,0x82,0x20,0x80,0x62]).scan .skip).errors =
          before++.lexical 1 (.malformed (.badContinuation 0x20 2))::
            [.lexical 2 (.malformed (.badLead 0x82)),.lexical 4 (.malformed (.badLead 0x80))]) ∧
      (∀ e ∈ ((Source.ofUtf8 [0x61]).scan .skip).errors,¬ e.Truncates) ∧
      ((Source.ofUtf8 [0x61,0x20,0x62]).scan .skip).tokens =
        [⟨.identifier,.ofWidth 0 1⟩,⟨.identifier,.ofWidth 2 1⟩,.finish 3] ∧
      ((Source.ofUtf8 [0x61,0x20,0x62]).scan .skip).errors = [] := by
  have hb : 0x20 ∈ blankBytes := by decide
  have hm : Error.lexical 1 (.malformed (.truncated 3 2)) ∈
      ((Source.ofUtf8 [0x61,0xE2,0x82]).scan .skip).errors := by decide +kernel
  have hnone : ((Source.ofUtf8 [0x61]).scan .skip).errors = [] := by decide +kernel
  have hwhole : ∀ e ∈ ((Source.ofUtf8 [0x61]).scan .skip).errors,¬ e.Truncates := by simp [hnone]
  have hcut := scan_separated (.ofUtf8 [0x61,0xE2,0x82]) (.ofUtf8 [0x80,0x62])
    (.ofUtf8 [0x61,0xE2,0x82,0x20,0x80,0x62]) 0x20 hb rfl
  have hplain := scan_separated (.ofUtf8 [0x61]) (.ofUtf8 [0x62])
    (.ofUtf8 [0x61,0x20,0x62]) 0x20 hb rfl
  obtain ⟨before,hbefore,hl,ha,hs⟩ := hcut.2.2.2 1 3 2 hm
  refine ⟨hb,hm,⟨before,hbefore,hl,ha,hs.trans ?_⟩,hwhole,hplain.1.trans ?_,
    (hplain.2.2.1 hwhole).trans ?_⟩
  · rw [List.append_assoc]
    exact congrArg (before++·) (by decide +kernel)
  · decide +kernel
  · decide +kernel

end Lexis
