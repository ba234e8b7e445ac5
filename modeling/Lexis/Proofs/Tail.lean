import Lexis.Proofs.Diagnosis
import Lexis.Proofs.Drive
import Lexis.Proofs.Stability
import Lexis.Proofs.Synchrony

/-!
Where a source breaks off. Its last bytes may be the beginning of a sequence that is not all there.
Wherever a scan that skips faults begins before them, it comes to their first byte and not to one
inside: the lead byte continues nothing, so no glyph reaches over it. There the scan meets its last
error, and passes all that is left.
-/

namespace Lexis

/-- The bytes from the offset on are the beginning of a sequence, and the rest of it is missing. -/
def Source.BreaksOff (s : Source) (o : Nat) : Prop :=
  ∃ x : Spelling,s.bytes.drop o ≠ [] ∧ s.bytes.drop o <+: x.bytes ∧
    s.bytes.drop o ≠ x.bytes

theorem Source.breaksOff_iff (s : Source) (o : Nat) :
    s.BreaksOff o ↔ ∃ n,Sequence.decode (s.bytes.drop o) = .error (.truncated n (s.size-o)) := by
  have hlength : (s.bytes.drop o).length = s.size-o := List.length_drop
  constructor
  · intro h
    obtain ⟨x,hn,hbegins,hne⟩ := h
    refine ⟨x.bytes.length,(Sequence.decode_eq_truncated_iff _ _ _).mpr ?_⟩
    exact ⟨⟨x,hn,hbegins,hne,rfl⟩,hlength.symm⟩
  · intro h
    obtain ⟨n,h⟩ := h
    obtain ⟨⟨x,hn,hbegins,hne,_⟩,_⟩ := (Sequence.decode_eq_truncated_iff _ _ _).mp h
    exact ⟨x,hn,hbegins,hne⟩

theorem Tiles.start_lt {start stop : Nat} {xs : List Span} (h : Tiles start stop xs) (s : Span)
    (hs : s ∈ xs) : s.start < stop := by
  induction xs generalizing start with
  | nil => simp at hs
  | cons t xs ih =>
    obtain ⟨ht,hlt,hr⟩ := h
    cases hs with
    | head =>
      have := hr.le
      omega
    | tail _ hs => exact ih hr hs

namespace Glyph

/-- A byte that continues no sequence begins a glyph, whatever stands before it. -/
theorem mem_cut (offset : Nat) (w : List UInt8) (i : Nat) (b : UInt8) (hb : w[i]? = some b)
    (hc : Sequence.isContinuation b = false) :
    ⟨offset+i,Sequence.decode (w.drop i)⟩ ∈ cut offset w := by
  induction offset, w using cut.induct generalizing i with
  | case1 offset => simp at hb
  | case2 offset w hn g ih =>
    rw [cut_step offset w g hn rfl]
    by_cases hi : i = 0
    · subst hi
      exact List.mem_cons_self
    · -- The first glyph ends before the byte or at it, so the byte is in what is cut next.
      have hg : g.width ≤ i := width_boundary offset w i b (Nat.pos_of_ne_zero hi) hb hc
      obtain ⟨j,rfl⟩ := Nat.exists_eq_add_of_le hg
      have hj : (w.drop g.width)[j]? = some b := by
        rw [List.getElem?_drop]
        exact hb
      have hm := ih j hj
      rw [List.drop_drop,stop] at hm
      rw [← Nat.add_assoc]
      exact List.mem_cons_of_mem g hm

/-- A window that is truncated from some byte on has a glyph there. -/
theorem mem_cut_of_truncated (offset : Nat) (w : List UInt8) (i n k : Nat)
    (h : Sequence.decode (w.drop i) = .error (.truncated n k)) :
    ⟨offset+i,.error (.truncated n k)⟩ ∈ cut offset w := by
  obtain ⟨b,rest,hw,_⟩ := Sequence.decode_truncated _ n k h
  have hb : w[i]? = some b := by
    rw [← Nat.add_zero i,← List.getElem?_drop,hw]
    rfl
  have hc : Sequence.isContinuation b = false := by
    cases hc : Sequence.isContinuation b with
    | false => rfl
    | true =>
      rw [hw,Sequence.decode_continuation b rest hc] at h
      simp at h
  have hm := mem_cut offset w i b hb hc
  rwa [h] at hm

/-- All glyphs of a window are whole, or all but the last one, which begins behind the others. -/
theorem cut_cases (offset : Nat) (w : List UInt8) :
    (∀ g ∈ cut offset w,g.Whole) ∨
      ∃ gs i n,Sequence.decode (w.drop i) = .error (.truncated n (w.length-i)) ∧
        cut offset w = gs++[⟨offset+i,.error (.truncated n (w.length-i))⟩] ∧
        ∀ g ∈ gs,g.Whole ∧ g.start < offset+i := by
  obtain ⟨gs,p,q,rfl,hgs,hq,hc⟩ := cut_split offset w
  have hcut := hc []
  rcases hq with rfl | ⟨n,hq⟩
  · simp only [List.append_nil,cut_nil] at hcut ⊢
    rw [hcut]
    exact .inl hgs
  · rw [List.append_nil,List.append_nil,cut_truncated _ q n _ hq] at hcut
    have hlength : (p++q).length-p.length = q.length := by
      rw [List.length_append,Nat.add_sub_cancel_left]
    have htiles := cut_tiles offset (p++q)
    rw [hcut,List.map_append] at htiles
    obtain ⟨middle,hfirst,hlast⟩ := htiles.split
    obtain rfl : offset+p.length = middle := hlast.1
    refine .inr ⟨gs,p.length,n,?_,?_,?_⟩
    · rw [List.drop_left,hlength]
      exact hq
    · rw [hlength]
      exact hcut
    · intro g hg
      exact ⟨hgs g hg,hfirst.start_lt g.span (List.mem_map.mpr ⟨g,hg,rfl⟩)⟩

end Glyph

/-- Every token but the last begins where a glyph does. -/
theorem Scan.mem_tokens_ofGlyphs (offset : Nat) (gs : List Glyph) (t : Token)
    (ht : t ∈ (ofGlyphs offset gs).tokens.dropLast) : ∃ g ∈ gs,t.span.start = g.start := by
  induction offset, gs using ofGlyphs.induct with
  | case1 offset => simp [ofGlyphs_nil] at ht
  | case2 offset g gs hb ih =>
    rw [ofGlyphs_blank offset g gs hb] at ht
    obtain ⟨d,hd,hs⟩ := ih ht
    exact ⟨d,List.mem_cons_of_mem g hd,hs⟩
  | case3 offset g gs hb hk ih =>
    rw [ofGlyphs_error offset g gs hb hk] at ht
    obtain ⟨d,hd,hs⟩ := ih ht
    exact ⟨d,List.mem_cons_of_mem g hd,hs⟩
  | case4 offset g gs hb kind hk run width ih =>
    rw [ofGlyphs_token offset g gs kind hk] at ht
    simp only [withToken,List.dropLast_cons_of_ne_nil (ofGlyphs_tokens_ne_nil _ _)] at ht
    rcases List.mem_cons.mp ht with rfl | ht
    · exact ⟨g,List.mem_cons_self,rfl⟩
    · obtain ⟨d,hd,hs⟩ := ih ht
      exact ⟨d,List.mem_cons_of_mem g ((List.dropWhile_sublist _).mem hd),hs⟩

namespace Reader

/-- Where the source breaks off ahead of a reader, a glyph of its window begins. -/
theorem glyph_of_breaksOff (r : Reader) (o : Nat) (hle : r.cursor ≤ o)
    (h : r.source.BreaksOff o) :
    ∃ n,⟨o,.error (.truncated n (r.source.size-o))⟩ ∈ Glyph.cut r.cursor r.window := by
  obtain ⟨n,h⟩ := (r.source.breaksOff_iff o).mp h
  have hw : r.window.drop (o-r.cursor) = r.source.bytes.drop o := by
    rw [window,List.drop_drop,Nat.add_sub_cancel' hle]
  rw [← hw] at h
  have hm := Glyph.mem_cut_of_truncated r.cursor r.window (o-r.cursor) n _ h
  rw [Nat.add_sub_cancel' hle] at hm
  exact ⟨n,hm⟩

/-- The scan goes up to the offset without an error of this kind, and there the rest is missing. -/
structure ScansTo (r : Reader) (o n : Nat) : Prop where
  ahead : r.cursor ≤ o
  decoded : Sequence.decode (r.source.bytes.drop o) = .error (.truncated n (r.source.size-o))
  errors : ∃ before,(∀ e ∈ before,¬ e.Truncates) ∧ (r.scan .skip).1.errors =
    before++[.lexical o (.malformed (.truncated n (r.source.size-o)))]
  tokens : ∀ t ∈ (r.scan .skip).1.tokens.dropLast,t.span.start < o

/-- A scan that skips faults meets no incomplete sequence, and the source breaks off nowhere ahead
of it; or it meets one behind all else, at the only place ahead where the source breaks off. -/
theorem scan_cases (r : Reader) :
    ((∀ e ∈ (r.scan .skip).1.errors,¬ e.Truncates) ∧
        ∀ o,r.cursor ≤ o → ¬ r.source.BreaksOff o) ∨
      ∃ o n,r.ScansTo o n ∧ ∀ p,r.cursor ≤ p → r.source.BreaksOff p → p = o := by
  have hscan : (r.scan .skip).1 = Scan.ofGlyphs r.cursor (Glyph.cut r.cursor r.window) :=
    Scan.ofWindow_eq_ofGlyphs r.cursor r.window
  rcases Glyph.cut_cases r.cursor r.window with hwhole | ⟨gs,i,n,hi,hcut,hgs⟩
  · rw [hscan]
    refine .inl ⟨Scan.not_truncates_of_whole r.cursor _ hwhole,?_⟩
    intro o hle ho
    obtain ⟨n,hm⟩ := r.glyph_of_breaksOff o hle ho
    exact hwhole _ hm n _ rfl
  · have hdrop : r.window.drop i = r.source.bytes.drop (r.cursor+i) := List.drop_drop
    have hlength : r.window.length-i = r.source.size-(r.cursor+i) := by
      rw [r.window_length,remaining,Nat.sub_sub]
    rw [hdrop,hlength] at hi
    rw [hlength] at hcut
    have hpos := Nat.sub_pos_of_lt (r.source.lt_size_of_defect _ _ hi)
    rw [hcut,Scan.ofGlyphs_broken _ _ _ _ _ hpos] at hscan
    refine .inr ⟨r.cursor+i,n,⟨Nat.le_add_right _ _,hi,?_,?_⟩,?_⟩
    · rw [hscan]
      refine ⟨_,?_,rfl⟩
      apply Scan.not_truncates_of_whole
      intro g hg
      exact (hgs g hg).1
    · intro t ht
      rw [hscan,Scan.join,List.dropLast_concat] at ht
      obtain ⟨g,hg,hstart⟩ := Scan.mem_tokens_ofGlyphs _ _ t ht
      rw [hstart]
      exact (hgs g hg).2
    · -- The other place would have a glyph too, and only the last glyph is not whole.
      intro o hle ho
      obtain ⟨m,hm⟩ := r.glyph_of_breaksOff o hle ho
      rw [hcut] at hm
      rcases List.mem_append.mp hm with hm | hm
      · exact absurd rfl ((hgs _ hm).1 m _)
      · exact congrArg Glyph.start (List.mem_singleton.mp hm)

/-- No other error of the scan is of this kind. -/
theorem ScansTo.mem_iff {r : Reader} {o n : Nat} (h : r.ScansTo o n) (e : Error) :
    e ∈ (r.scan .skip).1.errors ∧ e.status = .truncated ↔
      e = .lexical o (.malformed (.truncated n (r.source.size-o))) := by
  obtain ⟨before,hwhole,herrors⟩ := h.errors
  rw [herrors,e.status_eq_truncated_iff]
  constructor
  · intro he
    rcases List.mem_append.mp he.1 with hm | hm
    · exact absurd he.2 (hwhole e hm)
    · exact List.mem_singleton.mp hm
  · intro he
    refine ⟨?_,o,n,_,he⟩
    apply List.mem_append_right
    exact List.mem_singleton.mpr he

theorem ScansTo.countP_eq {r : Reader} {o n : Nat} (h : r.ScansTo o n) :
    (r.scan .skip).1.errors.countP (fun e => e.status == .truncated) = 1 := by
  obtain ⟨before,hwhole,herrors⟩ := h.errors
  rw [herrors,List.countP_append,(Error.filter_of_whole before hwhole).2]
  simp [Error.status]

/-- The error is the last one of the scan, met at the offset by a reader that then passes all that is
left; its label goes up to the end, and only the end is a token from there on. -/
structure EndsWith (r : Reader) (o : Nat) (e : Error) : Prop where
  offset : e.offset? = some o
  last : (r.scan .skip).1.errors.getLast? = some e
  met : ∃ r' : Reader,r'.source = r.source ∧ r'.cursor = o ∧ r'.next = (.error e,r') ∧
    r'.pass e = (r.source.size-o,(r.scan .skip).2) ∧ (r.scan .skip).2.cursor = r.source.size
  skipped : r.resume.skips.getLast? = some (r.source.size-o)
  labelled : ∃ label,e.label? = some label ∧ label.offset = o ∧
    label.offset+label.width = r.source.size
  tokens : (r.scan .skip).1.tokens.getLast? = some (.finish r.source.size) ∧
    ∀ t ∈ (r.scan .skip).1.tokens.dropLast,t.span.start < o

theorem scan_skip_ends (r : Reader) :
    (r.scan .skip).1.tokens.getLast? = some (.finish r.source.size) ∧
      (r.scan .skip).2 = ⟨r.source,r.source.size,Nat.le_refl _⟩ := by
  obtain ⟨before,ht,_,hs⟩ := Scan.skip_ends r.cursor r.window
  have hle := r.cursor_le_size
  have hl : r.cursor+r.window.length = r.source.size := by
    rw [r.window_length,remaining]
    exact Nat.add_sub_cancel' hle
  rw [hl] at ht hs
  constructor
  · change (Scan.ofWindow .skip r.cursor r.window).tokens.getLast? = _
    rw [ht,List.getLast?_concat]
  · simp only [scan,forward,hs,mk.injEq,true_and]
    omega

/-- Bytes that are no character are a fault, and no blank stands before it. -/
theorem next_of_defect (r : Reader) (d : Defect) (h : Sequence.decode r.window = .error d) :
    r.next = (.error (.lexical r.cursor (.malformed d)),r) := by
  have hblank := runWidth_of_error isBlank r.window d h
  have hstay : r.pastBlanks = r := by rw [pastBlanks,hblank,forward_zero]
  have hread : Item.read r.window = .fault (.malformed d) :=
    (Item.read_eq_fault_iff r.window _).mpr (.inl ⟨d,h,rfl⟩)
  rw [next_eq,hstay,hread]

theorem pass_to_end (r : Reader) (e : Error) (h : e.resync? = some r.remaining) :
    r.pass e = (r.remaining,⟨r.source,r.source.size,Nat.le_refl _⟩) := by
  have hle := r.cursor_le_size
  have hstop : r.cursor+r.remaining = r.source.size := Nat.add_sub_cancel' hle
  simp [pass,skip,forward,h,hstop]

theorem ScansTo.endsWith {r : Reader} {o n : Nat} (h : r.ScansTo o n) :
    r.EndsWith o (.lexical o (.malformed (.truncated n (r.source.size-o)))) := by
  obtain ⟨before,_,herrors⟩ := h.errors
  obtain ⟨hfinish,hrest⟩ := r.scan_skip_ends
  have hlt := r.source.lt_size_of_defect o _ h.decoded
  have hle : o ≤ r.source.size := Nat.le_of_lt hlt
  have hresync : (Error.lexical o (.malformed (.truncated n (r.source.size-o)))).resync? =
      some (r.source.size-o) := congrArg some (Nat.max_eq_left (Nat.sub_pos_of_lt hlt))
  have hlast : (r.scan .skip).1.errors.getLast? =
      some (.lexical o (.malformed (.truncated n (r.source.size-o)))) := by
    rw [herrors,List.getLast?_concat]
  let r' : Reader := ⟨r.source,o,hle⟩
  refine ⟨rfl,hlast,⟨r',rfl,rfl,r'.next_of_defect _ h.decoded,?_,?_⟩,?_,?_,⟨hfinish,h.tokens⟩⟩
  · rw [hrest]
    exact r'.pass_to_end _ hresync
  · rw [hrest]
  · obtain ⟨_,hsame,_,hskips⟩ := r.resume_eq
    have hmap := congrArg List.getLast? hskips
    rw [hsame,List.getLast?_map,List.getLast?_map,hlast,Option.map_some,hresync] at hmap
    obtain ⟨skip,hskip,hs⟩ := Option.map_eq_some_iff.mp hmap
    rw [hskip,hs]
  · exact ⟨_,rfl,rfl,Nat.add_sub_cancel' hle⟩

end Reader

/-- A scan that skips faults meets one incomplete sequence at most, and it is the last error: the
reader that met it passes all that is left, its label goes up to the end, and nothing but the end is
a token from there on. It is met if and only if the source breaks off ahead of the reader, in the
middle of an encoded sequence, and at that place. -/
theorem scan_breaks_off (r : Reader) :
    (r.scan .skip).1.errors.countP (fun e => e.status == .truncated) ≤ 1 ∧
      (∀ e ∈ (r.scan .skip).1.errors,e.status = .truncated → ∃ o,r.EndsWith o e) ∧
      ∀ o,(∃ e ∈ (r.scan .skip).1.errors,e.status = .truncated ∧ e.offset? = some o) ↔
        r.cursor ≤ o ∧ r.source.BreaksOff o := by
  rcases r.scan_cases with ⟨hwhole,hnone⟩ | ⟨o,n,hscan,honly⟩
  · have hcount := (Error.filter_of_whole _ hwhole).2
    have hstatus : ∀ e ∈ (r.scan .skip).1.errors,e.status ≠ .truncated := by
      intro e he hs
      exact hwhole e he (e.status_eq_truncated_iff.mp hs)
    refine ⟨by omega,?_,?_⟩
    · intro e he hs
      exact absurd hs (hstatus e he)
    · intro o
      constructor
      · intro h
        obtain ⟨e,he,hs,_⟩ := h
        exact absurd hs (hstatus e he)
      · intro h
        exact absurd h.2 (hnone o h.1)
  · refine ⟨Nat.le_of_eq hscan.countP_eq,?_,?_⟩
    · intro e he hs
      rw [(hscan.mem_iff e).mp ⟨he,hs⟩]
      exact ⟨o,hscan.endsWith⟩
    · intro p
      constructor
      · intro h
        obtain ⟨e,he,hs,hp⟩ := h
        rw [(hscan.mem_iff e).mp ⟨he,hs⟩] at hp
        obtain rfl : o = p := Option.some.inj hp
        exact ⟨hscan.ahead,(r.source.breaksOff_iff o).mpr ⟨n,hscan.decoded⟩⟩
      · intro h
        obtain rfl := honly p h.1 h.2
        obtain ⟨he,hs⟩ := (hscan.mem_iff _).mpr rfl
        exact ⟨_,he,hs,rfl⟩

/-- The bytes behind the bad lead are no beginning of a sequence, those behind the blank are. -/
example : ((Source.ofUtf8 [0xFF,0x82,0x20,0xE2,0x82]).scan .skip).errors.map Error.offset? =
    [some 0,some 1,some 3] := by decide +kernel

end Lexis
