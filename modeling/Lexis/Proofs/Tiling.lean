import Lexis.Proofs.Course
import Mathlib.Logic.ExistsUnique

/-!
A scan that skips faults accounts for every byte once. `scan_accounts` cuts what it passes into
adjacent ranges, each a blank character, a returned token or a returned error, and finds only one
way to do so.
-/

namespace Lexis

/-- Ranges that are not empty, one after the other, from start to stop. -/
def Tiles (start stop : Nat) : List Span → Prop
  | [] => start = stop
  | s::rest => s.start = start ∧ start < s.stop ∧ Tiles s.stop stop rest

namespace Tiles

theorem append {start middle stop : Nat} {xs ys : List Span} (hx : Tiles start middle xs)
    (hy : Tiles middle stop ys) : Tiles start stop (xs++ys) := by
  induction xs generalizing start with
  | nil =>
    obtain rfl : start = middle := hx
    exact hy
  | cons s xs ih =>
    obtain ⟨hs,hlt,hr⟩ := hx
    exact ⟨hs,hlt,ih hr⟩

theorem le {start stop : Nat} {xs : List Span} (h : Tiles start stop xs) : start ≤ stop := by
  induction xs generalizing start with
  | nil => exact Nat.le_of_eq h
  | cons t xs ih =>
    have := ih h.2.2
    have := h.2.1
    omega

theorem start_le {start stop : Nat} {xs : List Span} (h : Tiles start stop xs) (s : Span)
    (hs : s ∈ xs) : start ≤ s.start := by
  induction xs generalizing start with
  | nil => simp at hs
  | cons t xs ih =>
    obtain ⟨ht,hlt,hr⟩ := h
    cases hs with
    | head => exact Nat.le_of_eq ht.symm
    | tail _ hs =>
      have := ih hr hs
      omega

end Tiles

/-- The range is that of one character, and the character is a blank. -/
def BlankAt (bytes : List UInt8) (span : Span) : Prop :=
  ∃ s c,Sequence.decode (bytes.drop span.start) = .ok s ∧ s.char? = some c ∧
    c ∈ [' ','\t','\n','\r'] ∧ span = .ofWidth span.start s.width

/-- What a scan makes of a range of bytes. -/
inductive Piece where
  | blank (span : Span)
  | token (token : Token)
  | error (error : Error)
  deriving DecidableEq, Repr

namespace Piece

/-- The bytes of a piece, those of an error up to where reading goes on. An error that has no place
has no bytes. -/
def span : Piece → Span
  | .blank span => span
  | .token t => t.span
  | .error e => .ofWidth (e.offset?.getD 0) (e.resync?.getD 0)

def token? : Piece → Option Token
  | .token t => some t
  | _ => none

def error? : Piece → Option Error
  | .error e => some e
  | _ => none

theorem mem_token {ps : List Piece} (t : Token) :
    Piece.token t ∈ ps ↔ t ∈ ps.filterMap token? := by
  constructor
  · intro h
    exact List.mem_filterMap.mpr ⟨.token t,h,rfl⟩
  · intro h
    obtain ⟨p,hp,ht⟩ := List.mem_filterMap.mp h
    cases p <;> simp [token?] at ht
    exact ht ▸ hp

theorem mem_error {ps : List Piece} (e : Error) :
    Piece.error e ∈ ps ↔ e ∈ ps.filterMap error? := by
  constructor
  · intro h
    exact List.mem_filterMap.mpr ⟨.error e,h,rfl⟩
  · intro h
    obtain ⟨p,hp,he⟩ := List.mem_filterMap.mp h
    cases p <;> simp [error?] at he
    exact he ▸ hp

end Piece

/-- The pieces fill the bytes from the offset on; their tokens are those of the scan without the
last one, their errors those of the scan, and the rest are blanks. -/
structure Accounts (bytes : List UInt8) (offset : Nat) (scan : Scan) (pieces : List Piece) :
    Prop where
  tiles : Tiles offset bytes.length (pieces.map Piece.span)
  blanks : ∀ span,Piece.blank span ∈ pieces → BlankAt bytes span
  tokens : pieces.filterMap Piece.token? = scan.tokens.dropLast
  errors : pieces.filterMap Piece.error? = scan.errors

theorem exists_blanks (bytes : List UInt8) (offset : Nat) (w : List UInt8)
    (hw : bytes.drop offset = w) :
    ∃ spans,Tiles offset (offset+runWidth isBlank w) spans ∧ ∀ s ∈ spans,BlankAt bytes s := by
  fun_induction runWidth isBlank w generalizing offset with
  | case1 w d h => exact ⟨[],rfl,by simp⟩
  | case2 w s h ha ih =>
    obtain ⟨c,hc,hb⟩ := (Option.any_eq_true isBlank s.char?).mp ha
    have hp := s.width_pos_of_char c hc
    have hd : bytes.drop (offset+s.width) = w.drop s.width := by rw [← List.drop_drop,hw]
    obtain ⟨spans,ht,hs⟩ := ih (offset+s.width) hd
    refine ⟨.ofWidth offset s.width::spans,⟨rfl,?_,?_⟩,?_⟩
    · exact Nat.lt_add_of_pos_right hp
    · rw [← Nat.add_assoc]
      exact ht
    · intro t hm
      cases hm with
      | head =>
        have hd : Sequence.decode (bytes.drop offset) = .ok s := by rw [hw,h]
        exact ⟨s,c,hd,hc,by simpa using blank_cases c hb,rfl⟩
      | tail _ hm => exact hs t hm
  | case3 w s h ha => exact ⟨[],rfl,by simp⟩

theorem filterMap_blank {β : Type} (f : Piece → Option β) (hf : ∀ span,f (.blank span) = none)
    (spans : List Span) : (spans.map Piece.blank).filterMap f = [] := by
  simp [hf]

/-- Blanks come first, then one item, then what the scan makes of the bytes after it. -/
theorem Accounts.step {bytes : List UInt8} {offset start : Nat} {spans : List Span}
    {scan tail : Scan} {p : Piece} {ps : List Piece} (hb : Tiles offset start spans)
    (hs : ∀ s ∈ spans,BlankAt bytes s) (hp : p.span.start = start) (hlt : start < p.span.stop)
    (hn : ∀ span,p ≠ .blank span) (h : Accounts bytes p.span.stop tail ps)
    (ht : scan.tokens.dropLast = p.token?.toList++tail.tokens.dropLast)
    (he : scan.errors = p.error?.toList++tail.errors) :
    Accounts bytes offset scan (spans.map Piece.blank++p::ps) where
  tiles := by
    have hm : (spans.map Piece.blank++p::ps).map Piece.span = spans++p.span::ps.map Piece.span := by
      simp [Piece.span,Function.comp_def]
    rw [hm]
    exact hb.append ⟨hp,hlt,h.tiles⟩
  blanks := by
    intro span hm
    rcases List.mem_append.mp hm with hm | hm
    · obtain ⟨s,hs',hq⟩ := List.mem_map.mp hm
      cases hq
      exact hs span hs'
    · rcases List.mem_cons.mp hm with hq | hm
      · exact absurd hq.symm (hn span)
      · exact h.blanks span hm
  tokens := by
    rw [List.filterMap_append,filterMap_blank _ (fun _ => rfl),ht,← h.tokens]
    cases hq : p.token? <;> simp [hq]
  errors := by
    rw [List.filterMap_append,filterMap_blank _ (fun _ => rfl),he,← h.errors]
    cases hq : p.error? <;> simp [hq]

theorem exists_accounts (bytes : List UInt8) (offset : Nat) (w : List UInt8)
    (hw : bytes.drop offset = w) (ho : offset ≤ bytes.length) :
    ∃ pieces,Accounts bytes offset (Scan.ofWindow .skip offset w) pieces := by
  induction offset, w using Scan.ofWindow.induct Recovery.skip with
  | case1 offset w rest h =>
    obtain ⟨spans,ht,hs⟩ := exists_blanks bytes offset w hw
    have hr : rest = [] := (Item.read_eq_finish_iff rest).mp h
    have hl : w.length ≤ runWidth isBlank w := List.drop_eq_nil_iff.mp hr
    have hb : offset+runWidth isBlank w = bytes.length := by
      have := runWidth_le isBlank w
      rw [← hw,List.length_drop] at hl this
      rw [← hw]
      omega
    rw [Scan.ofWindow_finish .skip offset w h]
    refine ⟨spans.map Piece.blank,?_,?_,?_,?_⟩
    · rw [← hb]
      simpa [Piece.span,Function.comp_def] using ht
    · intro span hm
      obtain ⟨s,hs',hq⟩ := List.mem_map.mp hm
      cases hq
      exact hs span hs'
    · exact filterMap_blank _ (fun _ => rfl) spans
    · exact filterMap_blank _ (fun _ => rfl) spans
  | case2 offset w start rest kind width h ih =>
    obtain ⟨spans,ht,hs⟩ := exists_blanks bytes offset w hw
    obtain ⟨hp,hle⟩ := Item.lexeme_width rest kind width h
    have hd : bytes.drop (start+width) = rest.drop width := by
      simp only [start,rest,← hw,List.drop_drop,Nat.add_assoc]
    have hl : start+width ≤ bytes.length := by
      simp only [start,rest,← hw,List.length_drop] at hle ⊢
      omega
    obtain ⟨pieces,hacc⟩ := ih hd hl
    obtain ⟨before,hbefore,_⟩ := Scan.skip_ends (start+width) (rest.drop width)
    have hne : (Scan.ofWindow .skip (start+width) (rest.drop width)).tokens ≠ [] := by
      rw [hbefore]
      simp
    rw [Scan.ofWindow_token .skip offset w kind width h]
    refine ⟨_,Accounts.step (p := .token ⟨kind,.ofWidth start width⟩) ht hs rfl ?_ ?_ hacc ?_ rfl⟩
    · exact Nat.lt_add_of_pos_right hp
    · simp
    · exact List.dropLast_cons_of_ne_nil hne
  | case3 offset w rest f h hr => cases hr
  | case4 offset w start rest f h hr ih =>
    obtain ⟨spans,ht,hs⟩ := exists_blanks bytes offset w hw
    have hp := f.resync_pos
    have hle := Item.resync_le rest f h
    have hd : bytes.drop (start+f.resync) = rest.drop f.resync := by
      simp only [start,rest,← hw,List.drop_drop,Nat.add_assoc]
    have hl : start+f.resync ≤ bytes.length := by
      simp only [start,rest,← hw,List.length_drop] at hle ⊢
      omega
    obtain ⟨pieces,hacc⟩ := ih hd hl
    rw [Scan.ofWindow_error offset w f h]
    refine ⟨_,Accounts.step (p := .error (.lexical start f)) ht hs rfl ?_ ?_ hacc rfl rfl⟩
    · exact Nat.lt_add_of_pos_right f.resync_pos
    · simp

/-- A blank character decides its range. -/
theorem BlankAt.unique {bytes : List UInt8} {x y : Span} (hx : BlankAt bytes x)
    (hy : BlankAt bytes y) (h : x.start = y.start) : x = y := by
  obtain ⟨s,_,hs,_,_,hxs⟩ := hx
  obtain ⟨t,_,ht,_,_,hyt⟩ := hy
  rw [h,ht] at hs
  obtain rfl : t = s := by simpa using hs
  rw [hxs,hyt,h]

/-- Of two tilings with the same tokens and errors, a token or error that comes first in one comes
first in the other: anything before it would take its bytes. -/
theorem eq_head_of_tiles {start stop : Nat} {p q : Piece} {ps qs : List Piece}
    (hp : Tiles start stop ((p::ps).map Piece.span)) (hq : q.span.start = start)
    (hn : ∀ span,q ≠ .blank span)
    (ht : (p::ps).filterMap Piece.token? = (q::qs).filterMap Piece.token?)
    (he : (p::ps).filterMap Piece.error? = (q::qs).filterMap Piece.error?) : p = q := by
  have hm : q ∈ p::ps := by
    cases q with
    | blank span => exact absurd rfl (hn span)
    | token t =>
      rw [Piece.mem_token,ht,← Piece.mem_token]
      exact List.mem_cons_self
    | error e =>
      rw [Piece.mem_error,he,← Piece.mem_error]
      exact List.mem_cons_self
  rcases List.mem_cons.mp hm with hm | hm
  · exact hm.symm
  · obtain ⟨_,hlt,hr⟩ := hp
    have := hr.start_le q.span (List.mem_map.mpr ⟨q,hm,rfl⟩)
    omega

theorem tiles_unique (bytes : List UInt8) (start : Nat) (ps qs : List Piece)
    (hp : Tiles start bytes.length (ps.map Piece.span))
    (hq : Tiles start bytes.length (qs.map Piece.span))
    (hpb : ∀ span,Piece.blank span ∈ ps → BlankAt bytes span)
    (hqb : ∀ span,Piece.blank span ∈ qs → BlankAt bytes span)
    (ht : ps.filterMap Piece.token? = qs.filterMap Piece.token?)
    (he : ps.filterMap Piece.error? = qs.filterMap Piece.error?) : ps = qs := by
  induction ps generalizing start qs with
  | nil =>
    cases qs with
    | nil => rfl
    | cons q qs =>
      have := hq.2.2.le
      have := hq.2.1
      have : start = bytes.length := hp
      omega
  | cons p ps ih =>
    cases qs with
    | nil =>
      have := hp.2.2.le
      have := hp.2.1
      have : start = bytes.length := hq
      omega
    | cons q qs =>
      have hpq : p = q := by
        by_cases hqn : ∃ span,q = .blank span
        · by_cases hpn : ∃ span,p = .blank span
          · obtain ⟨x,rfl⟩ := hpn
            obtain ⟨y,rfl⟩ := hqn
            have hs : x.start = y.start := hp.1.trans hq.1.symm
            rw [(hpb x (by simp)).unique (hqb y (by simp)) hs]
          · have hn : ∀ span,p ≠ .blank span := not_exists.mp hpn
            exact (eq_head_of_tiles hq hp.1 hn ht.symm he.symm).symm
        · have hn : ∀ span,q ≠ .blank span := not_exists.mp hqn
          exact eq_head_of_tiles hp hq.1 hn ht he
      subst hpq
      have hpr : ∀ span,Piece.blank span ∈ ps → BlankAt bytes span := by
        intro span hm
        exact hpb span (List.mem_cons_of_mem p hm)
      have hqr : ∀ span,Piece.blank span ∈ qs → BlankAt bytes span := by
        intro span hm
        exact hqb span (List.mem_cons_of_mem p hm)
      have hts : ps.filterMap Piece.token? = qs.filterMap Piece.token? := by
        cases h : p.token? <;> simpa [h] using ht
      have hes : ps.filterMap Piece.error? = qs.filterMap Piece.error? := by
        cases h : p.error? <;> simpa [h] using he
      rw [ih p.span.stop qs hp.2.2 hq.2.2 hpr hqr hts hes]

theorem Accounts.unique {bytes : List UInt8} {offset : Nat} {scan : Scan} {ps qs : List Piece}
    (hp : Accounts bytes offset scan ps) (hq : Accounts bytes offset scan qs) : ps = qs :=
  tiles_unique bytes offset ps qs hp.tiles hq.tiles hp.blanks hq.blanks
    (hp.tokens.trans hq.tokens.symm) (hp.errors.trans hq.errors.symm)

/-- Every byte from the cursor to the end belongs to one blank, one token or one error, in one way.
The end of the source is the last token and only the last, and the cursor stops there. -/
theorem scan_accounts (r : Reader) :
    (∃! pieces,Accounts r.source.bytes r.cursor (r.scan .skip).1 pieces) ∧
      (r.scan .skip).1.tokens.getLast? = some (.finish r.source.size) ∧
      (∀ t ∈ (r.scan .skip).1.tokens.dropLast,t.kind ≠ .endOfFile) ∧
      (r.scan .skip).2.cursor = r.source.size := by
  obtain ⟨pieces,hacc⟩ := exists_accounts r.source.bytes r.cursor r.window rfl r.cursor_le_size
  obtain ⟨before,ht,hk,hs⟩ := Scan.skip_ends r.cursor r.window
  have hl : r.cursor+r.window.length = r.source.size := by
    rw [r.window_length,Reader.remaining]
    exact Nat.add_sub_cancel' r.cursor_le_size
  rw [hl] at ht hs
  refine ⟨⟨pieces,hacc,fun qs hq => hq.unique hacc⟩,?_,?_,?_⟩
  · change (Scan.ofWindow .skip r.cursor r.window).tokens.getLast? = _
    rw [ht,List.getLast?_concat]
  · change ∀ t ∈ (Scan.ofWindow .skip r.cursor r.window).tokens.dropLast,_
    rw [ht,List.dropLast_concat]
    exact hk
  · have hc := r.cursor_le_size
    simp only [Reader.scan,Reader.forward,hs]
    omega

end Lexis
