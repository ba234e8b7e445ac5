import Lexis.Proofs.Alphabet
import Lexis.Proofs.Course

/-!
A scan in two passes. The first one cuts the bytes into glyphs and knows nothing of tokens; the
second one sees the glyphs only, and never a byte, and sorts them into blanks, letters, figures,
marks and what is none of these. `scan_eq_ofGlyphs` says that scanning in one pass, decoding as it
goes, comes to the same.
-/

namespace Lexis

/-- What stands at a place of a window: a scalar, or a defect of the bytes. -/
structure Glyph where
  start : Nat
  reading : Except Defect Symbol

namespace Glyph

/-- How the glyph is reported where no token takes it. -/
def fault (g : Glyph) : Fault :=
  match g.reading with
  | .ok symbol => .unrecognized symbol
  | .error defect => .malformed defect

def error (g : Glyph) : Error := .lexical g.start g.fault

/-- The bytes of a glyph, those of a defect up to where reading goes on. -/
def width (g : Glyph) : Nat :=
  match g.reading with
  | .ok symbol => symbol.width
  | .error defect => (Fault.malformed defect).resync

def stop (g : Glyph) : Nat := g.start+g.width

/-- The bytes of glyphs together. -/
def total : List Glyph → Nat
  | [] => 0
  | g::gs => g.width+total gs

/-- A defect is no character, nor is a surrogate or a scalar above 0x10FFFF. -/
def char? (g : Glyph) : Option Char :=
  match g.reading with
  | .ok symbol => if h : symbol.scalar.isValidChar then some ⟨symbol.scalar,h⟩ else none
  | .error _ => none

/-- The glyph is one of the given characters. -/
def accepted (accept : Char → Bool) (g : Glyph) : Bool := g.char?.any accept

/-- A decoded scalar is the character that the reader takes it for. The end of the input is none. -/
theorem char_eq (offset : Nat) (w : List UInt8) (s : Symbol) (h : Sequence.decode w = .ok s) :
    (Glyph.mk offset (.ok s)).char? = s.char? := by
  cases hs : s.isEnd with
  | false => simp [char?,Symbol.char?,hs]
  | true =>
    obtain rfl := (Sequence.decode_width w s h).2.mp (by simpa [Symbol.isEnd] using hs)
    obtain rfl : Symbol.endOfInput = s := by simpa [Sequence.decode] using h
    rfl

theorem accepted_ok (accept : Char → Bool) (offset : Nat) (w : List UInt8) (s : Symbol)
    (h : Sequence.decode w = .ok s) :
    accepted accept ⟨offset,.ok s⟩ = s.char?.any accept := by
  rw [accepted,char_eq offset w s h]

/-- A test of the reader accepts the characters of a class. -/
theorem accepted_eq (p : Char → Prop) [DecidablePred p] (accept : Char → Bool)
    (h : ∀ c,p c ↔ accept c = true) : accepted (p ·) = accepted accept := by
  have hp : (fun c => decide (p c)) = accept := by
    funext c
    rw [Bool.eq_iff_iff,decide_eq_true_eq,h c]
  rw [hp]

/-- What is no character is taken by no run. -/
theorem not_accepted (accept : Char → Bool) (g : Glyph) (h : g.char? = none) :
    ¬ g.accepted accept = true := by
  simp [accepted,h]

theorem width_pos (offset : Nat) (w : List UInt8) (hn : w ≠ []) :
    0 < (Glyph.mk offset (Sequence.decode w)).width := by
  cases hd : Sequence.decode w with
  | error d => exact Fault.resync_pos _
  | ok s =>
    have h0 : s.width ≠ 0 := fun h0 => hn ((Sequence.decode_width w s hd).2.mp h0)
    exact Nat.pos_of_ne_zero h0

/-- A fault of a window is one glyph, which no token takes. -/
theorem of_fault (offset : Nat) (w : List UInt8) (f : Fault) (h : Item.read w = .fault f) :
    (Glyph.mk offset (Sequence.decode w)).char?.bind Kind.begunBy? = none ∧
      (Glyph.mk offset (Sequence.decode w)).fault = f ∧
      (Glyph.mk offset (Sequence.decode w)).width = f.resync := by
  rcases (Item.read_eq_fault_iff w f).mp h with ⟨d,hd,rfl⟩ | ⟨s,hd,hs,hk,rfl⟩
  · rw [hd]
    exact ⟨rfl,rfl,rfl⟩
  · have hp : s.width ≠ 0 := by simpa [Symbol.isEnd] using hs
    rw [hd,char_eq offset w s hd,Kind.begunBy_eq]
    refine ⟨hk,rfl,?_⟩
    simp only [width,Fault.resync]
    omega

/-- Cuts a window that begins at the offset, glyph after glyph. -/
def cut (offset : Nat) (w : List UInt8) : List Glyph :=
  if _ : w = [] then []
  else
    let g : Glyph := ⟨offset,Sequence.decode w⟩
    g::cut g.stop (w.drop g.width)
termination_by w.length
decreasing_by
  have hp := width_pos offset w (by assumption)
  have hl := List.length_pos_iff.mpr (by assumption : w ≠ [])
  simp only [List.length_drop]
  omega

theorem cut_nil (offset : Nat) : cut offset [] = [] := by
  rw [cut]
  rfl

theorem cut_step (offset : Nat) (w : List UInt8) (g : Glyph) (hn : w ≠ [])
    (hg : g = ⟨offset,Sequence.decode w⟩) :
    cut offset w = g::cut (offset+g.width) (w.drop g.width) := by
  subst hg
  rw [cut,dif_neg hn]
  rfl

/-- The accepted glyphs at the front take the bytes of the run, and the others are those of the
bytes after it. -/
theorem cut_run (accept : Char → Bool) (offset : Nat) (w : List UInt8) :
    total ((cut offset w).takeWhile (accepted accept)) = runWidth accept w ∧
      (cut offset w).dropWhile (accepted accept) =
        cut (offset+runWidth accept w) (w.drop (runWidth accept w)) := by
  fun_induction runWidth accept w generalizing offset with
  | case1 w d h =>
    have hn := Sequence.ne_nil_of_error w d h
    have hg : ¬ accepted accept ⟨offset,.error d⟩ = true := not_accepted accept _ rfl
    rw [Nat.add_zero,List.drop_zero,cut_step offset w _ hn rfl,h,List.takeWhile_cons_of_neg hg,
      List.dropWhile_cons_of_neg hg]
    exact ⟨rfl,rfl⟩
  | case2 w s h ha ih =>
    obtain ⟨c,hc,_⟩ := (Option.any_eq_true accept s.char?).mp ha
    have hn := Sequence.ne_nil_of_char w s c h hc
    have hg : accepted accept ⟨offset,.ok s⟩ = true := by rwa [accepted_ok accept offset w s h]
    obtain ⟨ht,hd⟩ := ih (offset+s.width)
    rw [cut_step offset w _ hn rfl,h,List.takeWhile_cons_of_pos hg,List.dropWhile_cons_of_pos hg]
    constructor
    · exact congrArg (s.width+·) ht
    · rw [← Nat.add_assoc,← List.drop_drop]
      exact hd
  | case3 w s h ha =>
    by_cases hn : w = []
    · subst hn
      simp [cut_nil,total]
    · have hg : ¬ accepted accept ⟨offset,.ok s⟩ = true := by rwa [accepted_ok accept offset w s h]
      rw [Nat.add_zero,List.drop_zero,cut_step offset w _ hn rfl,h,List.takeWhile_cons_of_neg hg,
        List.dropWhile_cons_of_neg hg]
      exact ⟨rfl,rfl⟩

end Glyph

namespace Scan

/-- Scans glyphs, the first of which begins at the offset. Blanks are dropped. A letter takes with
it the letters, figures and underscores behind it, a figure the figures behind it, and a mark is a
token alone; any other glyph is an error. -/
def ofGlyphs (offset : Nat) : List Glyph → Scan
  | [] => ⟨[.finish offset],[],offset⟩
  | g::gs =>
    if g.accepted (IsBlank ·) then ofGlyphs g.stop gs
    else
      match g.char?.bind Kind.begunBy? with
      | none => (ofGlyphs g.stop gs).withError g.error
      | some kind =>
        let run := gs.takeWhile (Glyph.accepted (kind.Continues ·))
        let width := Glyph.total (g::run)
        (ofGlyphs (g.start+width) (gs.dropWhile (Glyph.accepted (kind.Continues ·)))).withToken
          ⟨kind,.ofWidth g.start width⟩
termination_by gs => gs.length
decreasing_by
  · simp
  · simp
  · exact Nat.lt_succ_of_le (List.dropWhile_sublist _).length_le

theorem ofGlyphs_nil (offset : Nat) : ofGlyphs offset [] = ⟨[.finish offset],[],offset⟩ := by
  rw [ofGlyphs]

theorem ofGlyphs_blank (offset : Nat) (g : Glyph) (gs : List Glyph)
    (hb : g.accepted (IsBlank ·) = true) : ofGlyphs offset (g::gs) = ofGlyphs g.stop gs := by
  rw [ofGlyphs,if_pos hb]

theorem ofGlyphs_error (offset : Nat) (g : Glyph) (gs : List Glyph)
    (hb : ¬ g.accepted (IsBlank ·) = true) (hk : g.char?.bind Kind.begunBy? = none) :
    ofGlyphs offset (g::gs) = (ofGlyphs g.stop gs).withError g.error := by
  rw [ofGlyphs,if_neg hb,hk]

theorem ofGlyphs_token (offset : Nat) (g : Glyph) (gs : List Glyph) (kind : Kind)
    (hk : g.char?.bind Kind.begunBy? = some kind) :
    ofGlyphs offset (g::gs) =
      let run := gs.takeWhile (Glyph.accepted (kind.Continues ·))
      let width := Glyph.total (g::run)
      (ofGlyphs (g.start+width) (gs.dropWhile (Glyph.accepted (kind.Continues ·)))).withToken
        ⟨kind,.ofWidth g.start width⟩ := by
  have hb : ¬ g.accepted (IsBlank ·) = true := by
    intro hb
    obtain ⟨c,hc,hf⟩ := Option.bind_eq_some_iff.mp hk
    have hcb : IsBlank c := by simpa [Glyph.accepted,hc] using hb
    rw [Kind.begunBy_eq,ofFirst_blank c ((isBlank_iff c).mp hcb)] at hf
    cases hf
  rw [ofGlyphs,if_neg hb,hk]

/-- The blanks at the front only move the scan forward. -/
theorem ofGlyphs_cut_blanks (offset : Nat) (w : List UInt8) :
    ofGlyphs offset (Glyph.cut offset w) =
      ofGlyphs (offset+runWidth isBlank w)
        (Glyph.cut (offset+runWidth isBlank w) (w.drop (runWidth isBlank w))) := by
  fun_induction runWidth isBlank w generalizing offset with
  | case1 w d h => rfl
  | case2 w s h ha ih =>
    obtain ⟨c,hc,_⟩ := (Option.any_eq_true isBlank s.char?).mp ha
    have hn := Sequence.ne_nil_of_char w s c h hc
    have hg : Glyph.accepted (IsBlank ·) ⟨offset,.ok s⟩ = true := by
      rwa [Glyph.accepted_eq IsBlank isBlank isBlank_iff,Glyph.accepted_ok isBlank offset w s h]
    rw [Glyph.cut_step offset w _ hn rfl,h,ofGlyphs_blank _ _ _ hg,← Nat.add_assoc,← List.drop_drop]
    exact ih (offset+s.width)
  | case3 w s h ha => rfl

/-- No blank is left after the blanks. -/
theorem not_blank_of_run (offset : Nat) (w : List UInt8) (h : runWidth isBlank w = 0) :
    ¬ Glyph.accepted (IsBlank ·) ⟨offset,Sequence.decode w⟩ = true := by
  rw [Glyph.accepted_eq IsBlank isBlank isBlank_iff]
  intro hb
  cases hd : Sequence.decode w with
  | error d => simp [hd,Glyph.accepted,Glyph.char?] at hb
  | ok s =>
    rw [hd,Glyph.accepted_ok isBlank offset w s hd] at hb
    obtain ⟨c,hc,hbc⟩ := (Option.any_eq_true isBlank s.char?).mp hb
    have hp := s.width_pos_of_char c hc
    have hr := runWidth_of_accept isBlank w s c hd hc hbc
    omega

theorem ofWindow_eq_ofGlyphs (offset : Nat) (w : List UInt8) :
    ofWindow .skip offset w = ofGlyphs offset (Glyph.cut offset w) := by
  induction offset, w using Scan.ofWindow.induct Recovery.skip with
  | case1 offset w rest h =>
    have hr : rest = [] := (Item.read_eq_finish_iff rest).mp h
    rw [ofWindow_finish .skip offset w h,ofGlyphs_cut_blanks]
    change _ = ofGlyphs _ (Glyph.cut _ rest)
    rw [hr,Glyph.cut_nil,ofGlyphs_nil]
  | case2 offset w start rest kind width h ih =>
    obtain ⟨s,c,hd,hc,hk,hw⟩ := (Item.read_eq_lexeme_iff rest kind width).mp h
    have hn : rest ≠ [] := (Item.width_pos_of_read rest (by simp [h])).2
    obtain ⟨ht,hr⟩ := Glyph.cut_run kind.continuedBy (start+s.width) (rest.drop s.width)
    have hg : (Glyph.mk start (.ok s)).width = s.width := rfl
    rw [← Glyph.accepted_eq kind.Continues kind.continuedBy kind.continues_iff] at ht hr
    have hf : (Glyph.mk start (.ok s)).char?.bind Kind.begunBy? = some kind := by
      rw [Glyph.char_eq start rest s hd,hc,Option.bind_some,Kind.begunBy_eq,hk]
    rw [ofWindow_token .skip offset w kind width h,ofGlyphs_cut_blanks]
    change (ofWindow .skip (start+width) (rest.drop width)).withToken _ =
      ofGlyphs start (Glyph.cut start rest)
    rw [ih,Glyph.cut_step start rest _ hn rfl,hd,ofGlyphs_token _ _ _ kind hf]
    simp only [hg,Glyph.total,ht,hr,← hw,List.drop_drop,Nat.add_assoc]
    rfl
  | case3 offset w rest f h hr => cases hr
  | case4 offset w start rest f h hr ih =>
    have hn : rest ≠ [] := (Item.width_pos_of_read rest (by simp [h])).2
    have hb := not_blank_of_run start rest (runWidth_drop isBlank w)
    obtain ⟨hk,hf,hw⟩ := Glyph.of_fault start rest f h
    rw [ofWindow_error offset w f h,ofGlyphs_cut_blanks]
    change (ofWindow .skip (start+f.resync) (rest.drop f.resync)).withError _ =
      ofGlyphs start (Glyph.cut start rest)
    rw [ih,Glyph.cut_step start rest _ hn rfl,ofGlyphs_error _ _ _ hb hk,Glyph.error,hf,Glyph.stop,hw]

end Scan

/-- Cutting all of a source before any token is looked for changes nothing in its scan, neither a
class, a span or a fault nor their order. -/
theorem scan_eq_ofGlyphs (s : Source) :
    s.scan .skip = Scan.ofGlyphs 0 (Glyph.cut 0 s.bytes) := by
  rw [s.scan_eq,Scan.ofWindow_eq_ofGlyphs]

end Lexis
