import Lexis.Proofs.Course
import Lexis.Sequence.Encode

/-!
Texts whose scalars are spelled in any widths that hold them. A scan sees the scalars only: it is
the scan of the bare scalars, counted one by one, with every place in that list moved to the byte
where the scalar of the place begins. So two spellings of the same scalars are scanned alike.
-/

namespace Lexis

/-- A scalar and the width of a sequence that can carry it, be it the shortest one or not. -/
structure Spelling where
  scalar : Nat
  width : Nat
  fits : scalar < Sequence.capacity width

/-- A scalar where scalars are counted and not bytes. -/
def Symbol.single (scalar : Nat) : Symbol := ⟨UInt32.ofNat scalar,1⟩

namespace Spelling

theorem width_pos (x : Spelling) : 0 < x.width := by
  have hf := x.fits
  rcases Nat.eq_zero_or_pos x.width with h0 | hp
  · simp [h0,Sequence.capacity] at hf
  · exact hp

def symbol (x : Spelling) : Symbol := ⟨UInt32.ofNat x.scalar,x.width⟩

theorem symbol_isEnd (x : Spelling) : x.symbol.isEnd = false := by
  have hw := x.width_pos
  simp [symbol,Symbol.isEnd]
  omega

/-- The width has no part in which character a scalar is. -/
theorem char_symbol (x : Spelling) : x.symbol.char? = (Symbol.single x.scalar).char? := by
  have hs : (Symbol.single x.scalar).isEnd = false := rfl
  rw [Symbol.char?,Symbol.char?,x.symbol_isEnd,hs]
  rfl

def bytes (x : Spelling) : List UInt8 := Sequence.encode x.width x.scalar

theorem decode_bytes (x : Spelling) (r : List UInt8) :
    Sequence.decode (x.bytes++r) = .ok x.symbol :=
  Sequence.decode_encode x.width x.scalar x.fits r

theorem bytes_length (x : Spelling) : x.bytes.length = x.width := by
  obtain ⟨n,w,hf⟩ := x
  match w with
  | 0 => simp [Sequence.capacity] at hf
  | 1 => rfl
  | 2 => rfl
  | 3 => rfl
  | 4 => rfl
  | _+5 => simp [Sequence.capacity] at hf

/-- The sequences one after the other. -/
def text (xs : List Spelling) : List UInt8 := xs.flatMap bytes

/-- The byte where the scalar of the given place begins, behind those before it. The place behind
the last scalar is the end of the text. -/
def offset (xs : List Spelling) (place : Nat) : Nat := (text (xs.take place)).length

theorem text_cons (x : Spelling) (xs : List Spelling) : text (x::xs) = x.bytes++text xs := rfl

theorem text_append (xs ys : List Spelling) : text (xs++ys) = text xs++text ys :=
  List.flatMap_append

theorem text_split (xs : List Spelling) (place : Nat) :
    text xs = text (xs.take place)++text (xs.drop place) := by
  rw [← text_append,List.take_append_drop]

theorem offset_zero (xs : List Spelling) : offset xs 0 = 0 := rfl

theorem offset_succ (x : Spelling) (xs : List Spelling) (place : Nat) :
    offset (x::xs) (place+1) = x.width+offset xs place := by
  rw [offset,List.take_succ_cons,text_cons,List.length_append,x.bytes_length,offset]

theorem offset_add (xs : List Spelling) (i j : Nat) :
    offset xs (i+j) = offset xs i+offset (xs.drop i) j := by
  rw [offset,List.take_add,text_append,List.length_append,offset,offset]

theorem offset_le (xs : List Spelling) {i j : Nat} (h : i ≤ j) : offset xs i ≤ offset xs j := by
  obtain ⟨k,rfl⟩ := Nat.exists_eq_add_of_le h
  rw [offset_add]
  exact Nat.le_add_right _ _

theorem offset_le_length (xs : List Spelling) (place : Nat) :
    offset xs place ≤ (text xs).length := by
  rw [text_split xs place,List.length_append]
  exact Nat.le_add_right _ _

theorem offset_next (xs : List Spelling) (place : Nat) (x : Spelling) (rest : List Spelling)
    (h : xs.drop place = x::rest) : offset xs (place+1) = offset xs place+x.width := by
  rw [offset_add,h,offset_succ,offset_zero,Nat.add_zero]

theorem text_drop (xs : List Spelling) (place : Nat) :
    (text xs).drop (offset xs place) = text (xs.drop place) := by
  rw [text_split xs place,offset,List.drop_left]

theorem decode_text (x : Spelling) (xs : List Spelling) :
    Sequence.decode (text (x::xs)) = .ok x.symbol ∧
      (text (x::xs)).drop x.symbol.width = text xs := by
  refine ⟨x.decode_bytes (text xs),?_⟩
  change (text (x::xs)).drop x.width = text xs
  rw [text_cons,← x.bytes_length,List.drop_left]

/-- A run takes the scalars that are accepted, in whatever widths they are spelled. -/
theorem runWidth_text (accept : Char → Bool) (xs : List Spelling) :
    runWidth accept (text xs) = offset xs
      ((xs.map scalar).takeWhile (fun n => (Symbol.single n).char?.any accept)).length := by
  induction xs with
  | nil => exact runWidth_nil accept
  | cons x xs ih =>
    obtain ⟨hd,hdrop⟩ := decode_text x xs
    rw [List.map_cons]
    cases ha : (Symbol.single x.scalar).char?.any accept with
    | false =>
      rw [List.takeWhile_cons_of_neg (by simp [ha]),
        runWidth_of_reject accept _ x.symbol hd (by rw [x.char_symbol,ha])]
      rfl
    | true =>
      obtain ⟨c,hc,hac⟩ := (Option.any_eq_true accept _).mp ha
      rw [List.takeWhile_cons_of_pos (by simp [ha]),List.length_cons,offset_succ,← ih,
        runWidth_of_accept accept _ x.symbol c hd (x.char_symbol.trans hc) hac,hdrop]
      rfl

end Spelling

namespace Scan

/-- Scans bare scalars, the first of which has the given place. Spans and offsets count scalars. -/
def ofScalars (recovery : Recovery) (place : Nat) : List Nat → Scan
  | [] => ⟨[.finish place],[],place⟩
  | n::ns =>
    let symbol := Symbol.single n
    if symbol.char?.any isBlank then ofScalars recovery (place+1) ns
    else
      match symbol.char?.bind Kind.ofFirst? with
      | some kind =>
        let count :=
          (ns.takeWhile (fun m => (Symbol.single m).char?.any kind.continuedBy)).length
        (ofScalars recovery (place+(1+count)) (ns.drop count)).withToken
          ⟨kind,.ofWidth place (1+count)⟩
      | none =>
        match recovery with
        | .abort => ⟨[],[.lexical place (.unrecognized symbol)],place⟩
        | .skip =>
          (ofScalars recovery (place+1) ns).withError (.lexical place (.unrecognized symbol))
termination_by ns => ns.length
decreasing_by
  all_goals simp only [List.length_cons,List.length_drop]
  all_goals omega

section Equations

variable (recovery : Recovery) (place n : Nat) (ns : List Nat)

theorem ofScalars_nil : ofScalars recovery place [] = ⟨[.finish place],[],place⟩ := by
  rw [ofScalars]

theorem ofScalars_blank (hb : (Symbol.single n).char?.any isBlank = true) :
    ofScalars recovery place (n::ns) = ofScalars recovery (place+1) ns := by
  rw [ofScalars.eq_def]
  simp only [hb,if_true]

theorem ofScalars_token (kind : Kind) (hb : ¬ (Symbol.single n).char?.any isBlank = true)
    (hk : (Symbol.single n).char?.bind Kind.ofFirst? = some kind) :
    ofScalars recovery place (n::ns) =
      let count := (ns.takeWhile (fun m => (Symbol.single m).char?.any kind.continuedBy)).length
      (ofScalars recovery (place+(1+count)) (ns.drop count)).withToken
        ⟨kind,.ofWidth place (1+count)⟩ := by
  rw [ofScalars.eq_def]
  simp only [hb,hk]
  rfl

theorem ofScalars_abort (hb : ¬ (Symbol.single n).char?.any isBlank = true)
    (hk : (Symbol.single n).char?.bind Kind.ofFirst? = none) :
    ofScalars .abort place (n::ns) =
      ⟨[],[.lexical place (.unrecognized (.single n))],place⟩ := by
  rw [ofScalars.eq_def]
  simp only [hb,hk]
  rfl

theorem ofScalars_skip (hb : ¬ (Symbol.single n).char?.any isBlank = true)
    (hk : (Symbol.single n).char?.bind Kind.ofFirst? = none) :
    ofScalars .skip place (n::ns) =
      (ofScalars .skip (place+1) ns).withError
        (.lexical place (.unrecognized (.single n))) := by
  rw [ofScalars.eq_def]
  simp only [hb,hk]
  rfl

end Equations

/-- What is behind the blanks, and where, decides the scan. -/
theorem ofWindow_congr (recovery : Recovery) {offset offset' : Nat} {w w' : List UInt8}
    (ho : offset+runWidth isBlank w = offset'+runWidth isBlank w')
    (hw : w.drop (runWidth isBlank w) = w'.drop (runWidth isBlank w')) :
    ofWindow recovery offset w = ofWindow recovery offset' w' := by
  cases h : Item.read (w.drop (runWidth isBlank w)) with
  | finish =>
    have h' := hw ▸ h
    rw [ofWindow_finish recovery offset w h,ofWindow_finish recovery offset' w' h',ho]
  | lexeme kind width =>
    have h' := hw ▸ h
    rw [ofWindow_token recovery offset w kind width h,
      ofWindow_token recovery offset' w' kind width h',ho,hw]
  | fault f =>
    have h' := hw ▸ h
    cases recovery with
    | abort => rw [ofWindow_abort offset w f h,ofWindow_abort offset' w' f h',ho]
    | skip => rw [ofWindow_error offset w f h,ofWindow_error offset' w' f h',ho,hw]

/-- A blank at the front only moves the scan forward. -/
theorem ofWindow_blank (recovery : Recovery) (offset : Nat) (w : List UInt8) (s : Symbol)
    (hd : Sequence.decode w = .ok s) (hs : s.char?.any isBlank = true) :
    ofWindow recovery offset w = ofWindow recovery (offset+s.width) (w.drop s.width) := by
  obtain ⟨c,hc,hb⟩ := (Option.any_eq_true isBlank s.char?).mp hs
  have hw := runWidth_of_accept isBlank w s c hd hc hb
  apply ofWindow_congr
  · rw [hw,Nat.add_assoc]
  · rw [hw,List.drop_drop]

end Scan

/-- The range of bytes that the places between start and stop take in the text. -/
def Span.placed (xs : List Spelling) (s : Span) : Span :=
  ⟨Spelling.offset xs s.start,Spelling.offset xs s.stop,Spelling.offset_le xs s.start_le_stop⟩

def Token.placed (xs : List Spelling) (t : Token) : Token := ⟨t.kind,t.span.placed xs⟩

def Label.placed (xs : List Spelling) (l : Label) : Label :=
  ⟨Spelling.offset xs l.offset,
    Spelling.offset xs (l.offset+l.width)-Spelling.offset xs l.offset,l.text⟩

/-- The error at the byte that its place has in the text, with the scalar in its width there. -/
def Error.placed (xs : List Spelling) : Error → Error
  | .lexical place (.unrecognized s) =>
      .lexical (Spelling.offset xs place) (.unrecognized
        ⟨s.scalar,Spelling.offset xs (place+s.width)-Spelling.offset xs place⟩)
  | e => e

def Scan.placed (xs : List Spelling) (s : Scan) : Scan :=
  ⟨s.tokens.map (Token.placed xs),s.errors.map (Error.placed xs),Spelling.offset xs s.stop⟩

theorem Span.placed_ofWidth (xs : List Spelling) (place count : Nat) :
    (Span.ofWidth place count).placed xs =
      .ofWidth (Spelling.offset xs place) (Spelling.offset (xs.drop place) count) := by
  simp only [placed,ofWidth,Spelling.offset_add]

theorem Token.placed_finish (xs : List Spelling) (place : Nat) :
    (Token.finish place).placed xs = .finish (Spelling.offset xs place) := by
  rw [placed,finish,finish,Span.placed_ofWidth,Spelling.offset_zero]

theorem Error.placed_single (xs : List Spelling) (place : Nat) (x : Spelling)
    (rest : List Spelling) (h : xs.drop place = x::rest) :
    (Error.lexical place (.unrecognized (.single x.scalar))).placed xs =
      .lexical (Spelling.offset xs place) (.unrecognized x.symbol) := by
  have hw := Spelling.offset_next xs place x rest h
  simp only [placed,Symbol.single,hw,Nat.add_sub_cancel_left]
  rfl

namespace Scan

theorem placed_withToken (xs : List Spelling) (s : Scan) (t : Token) :
    (s.withToken t).placed xs = (s.placed xs).withToken (t.placed xs) := rfl

theorem placed_withError (xs : List Spelling) (s : Scan) (e : Error) :
    (s.withError e).placed xs = (s.placed xs).withError (e.placed xs) := rfl

/-! What a scan does at a place of a text depends on the scalar there. -/

section Front

variable {xs rest : List Spelling} {place : Nat} {x : Spelling} (hx : xs.drop place = x::rest)
include hx

theorem front_next : xs.drop (place+1) = rest ∧
    Spelling.offset xs (place+1) = Spelling.offset xs place+x.symbol.width := by
  constructor
  · rw [← List.drop_drop,hx,List.drop_one,List.tail_cons]
  · exact Spelling.offset_next xs place x rest hx

theorem front_blank (recovery : Recovery)
    (hb : (Symbol.single x.scalar).char?.any isBlank = true) :
    ofWindow recovery (Spelling.offset xs place) (Spelling.text (xs.drop place)) =
      ofWindow recovery (Spelling.offset xs (place+1)) (Spelling.text (xs.drop (place+1))) := by
  obtain ⟨hd,hdrop⟩ := Spelling.decode_text x rest
  obtain ⟨hrest,hoffset⟩ := front_next hx
  rw [← x.char_symbol] at hb
  rw [hx,ofWindow_blank recovery _ _ x.symbol hd hb,hdrop,hoffset,hrest]

variable (hb : ¬ (Symbol.single x.scalar).char?.any isBlank = true)
include hb

theorem front_run : runWidth isBlank (Spelling.text (xs.drop place)) = 0 := by
  rw [← x.char_symbol] at hb
  rw [hx]
  exact runWidth_of_reject isBlank _ x.symbol (Spelling.decode_text x rest).1 (by simpa using hb)

/-- A scalar that begins a token takes those with it that continue the token. -/
theorem front_token (recovery : Recovery) (kind : Kind)
    (hk : (Symbol.single x.scalar).char?.bind Kind.ofFirst? = some kind) (count : Nat)
    (hcount : count = ((rest.map Spelling.scalar).takeWhile
      (fun n => (Symbol.single n).char?.any kind.continuedBy)).length) :
    ofWindow recovery (Spelling.offset xs place) (Spelling.text (xs.drop place)) =
      (ofWindow recovery (Spelling.offset xs (place+(1+count)))
        (Spelling.text (xs.drop (place+(1+count))))).withToken
          ((Token.mk kind (.ofWidth place (1+count))).placed xs) := by
  obtain ⟨hd,hdrop⟩ := Spelling.decode_text x rest
  rw [← x.char_symbol] at hk
  obtain ⟨c,hc,hf⟩ := Option.bind_eq_some_iff.mp hk
  have hwidth : Spelling.offset (xs.drop place) (1+count) =
      x.symbol.width+runWidth kind.continuedBy (Spelling.text rest) := by
    rw [hx,Nat.add_comm,Spelling.offset_succ,Spelling.runWidth_text,hcount]
    rfl
  have hread : Item.read (Spelling.text (xs.drop place)) =
      .lexeme kind (Spelling.offset (xs.drop place) (1+count)) := by
    rw [hwidth,hx]
    exact (Item.read_eq_lexeme_iff _ _ _).mpr ⟨x.symbol,c,hd,hc,hf,by rw [hdrop]⟩
  have hw := front_run hx hb
  have hs := ofWindow_token recovery (Spelling.offset xs place) (Spelling.text (xs.drop place)) kind
    (Spelling.offset (xs.drop place) (1+count)) (by rw [hw]; exact hread)
  rw [hs,hw,List.drop_zero,Nat.add_zero,Spelling.text_drop,List.drop_drop,← Spelling.offset_add,
    Token.placed,Span.placed_ofWidth]

variable (hk : (Symbol.single x.scalar).char?.bind Kind.ofFirst? = none)
include hk

theorem front_fault : Item.read ((Spelling.text (xs.drop place)).drop
    (runWidth isBlank (Spelling.text (xs.drop place)))) = .fault (.unrecognized x.symbol) := by
  obtain ⟨hd,_⟩ := Spelling.decode_text x rest
  rw [front_run hx hb,List.drop_zero,hx]
  rw [← x.char_symbol] at hk
  exact (Item.read_eq_fault_iff _ _).mpr (.inr ⟨x.symbol,hd,x.symbol_isEnd,hk,rfl⟩)

theorem front_abort :
    ofWindow .abort (Spelling.offset xs place) (Spelling.text (xs.drop place)) =
      Scan.placed xs ⟨[],[.lexical place (.unrecognized (.single x.scalar))],place⟩ := by
  rw [ofWindow_abort _ _ _ (front_fault hx hb hk),front_run hx hb,placed,List.map_singleton,
    Error.placed_single xs place x rest hx]
  rfl

/-- A scalar that begins no token is passed whole, in any width. -/
theorem front_skip :
    ofWindow .skip (Spelling.offset xs place) (Spelling.text (xs.drop place)) =
      (ofWindow .skip (Spelling.offset xs (place+1)) (Spelling.text (xs.drop (place+1)))).withError
        ((Error.lexical place (.unrecognized (.single x.scalar))).placed xs) := by
  have hp : 0 < x.symbol.width := x.width_pos
  have hresync : (Fault.unrecognized x.symbol).resync = x.symbol.width := by
    simp only [Fault.resync]
    omega
  obtain ⟨hrest,hoffset⟩ := front_next hx
  rw [ofWindow_error _ _ _ (front_fault hx hb hk),front_run hx hb,hresync,List.drop_zero,
    Nat.add_zero,Error.placed_single xs place x rest hx,hx,(Spelling.decode_text x rest).2,hoffset,
    hrest]

end Front

theorem ofWindow_text (recovery : Recovery) (xs : List Spelling) (place : Nat) :
    ofWindow recovery (Spelling.offset xs place) (Spelling.text (xs.drop place)) =
      (ofScalars recovery place ((xs.drop place).map Spelling.scalar)).placed xs := by
  -- The induction is on the scan of the scalars: a step of it from one place to another is a step
  -- of the scan of the bytes, from the byte of the former place to the byte of the latter.
  generalize hns : (xs.drop place).map Spelling.scalar = ns
  induction place, ns using ofScalars.induct recovery with
  | case1 place =>
    have hnil : xs.drop place = [] := List.map_eq_nil_iff.mp hns
    have hr : Item.read ((Spelling.text []).drop (runWidth isBlank (Spelling.text []))) =
        .finish := by
      rw [Item.read_eq_finish_iff]
      exact List.drop_nil
    have hs := ofWindow_finish recovery (Spelling.offset xs place) (Spelling.text []) hr
    rw [hnil,hs,ofScalars_nil]
    simp [placed,Token.placed_finish,Spelling.text,runWidth_nil]
  | case2 place n ns symbol hb ih =>
    obtain ⟨x,rest,hx,rfl,rfl⟩ := List.map_eq_cons_iff.mp hns
    have hrest := (front_next hx).1
    rw [front_blank hx recovery hb,ih (by rw [hrest]),ofScalars_blank recovery place _ _ hb]
  | case3 place n ns symbol hb kind hk count ih =>
    obtain ⟨x,rest,hx,rfl,rfl⟩ := List.map_eq_cons_iff.mp hns
    have hrest : (xs.drop (place+(1+count))).map Spelling.scalar =
        (rest.map Spelling.scalar).drop count := by
      rw [← List.drop_drop,hx,Nat.add_comm,List.drop_succ_cons,List.map_drop]
    rw [front_token hx hb recovery kind hk count rfl,ih hrest,
      ofScalars_token recovery place _ _ kind hb hk]
    exact (placed_withToken _ _ _).symm
  | case4 place n ns symbol hb hk hr =>
    obtain ⟨x,rest,hx,rfl,rfl⟩ := List.map_eq_cons_iff.mp hns
    subst hr
    rw [front_abort hx hb hk,ofScalars_abort place _ _ hb hk]
  | case5 place n ns symbol hb hk hr ih =>
    obtain ⟨x,rest,hx,rfl,rfl⟩ := List.map_eq_cons_iff.mp hns
    subst hr
    have hrest := (front_next hx).1
    rw [front_skip hx hb hk,ih (by rw [hrest]),ofScalars_skip place _ _ hb hk,placed_withError]

/-- The places of a scan of scalars are places in the list: a token takes scalars of it unless it is
the end, and an error is about the scalar at its place. -/
structure Inside (place : Nat) (ns : List Nat) (s : Scan) : Prop where
  tokens : ∀ t ∈ s.tokens,(t.isEnd = true ↔ t.span.start = t.span.stop) ∧
    t.span.stop ≤ place+ns.length
  errors : ∀ e ∈ s.errors,∃ i n,ns[i]? = some n ∧
    e = .lexical (place+i) (.unrecognized (.single n))

theorem Inside.of_drop {place count : Nat} {ns : List Nat} {s : Scan} (hc : count ≤ ns.length)
    (h : Inside (place+count) (ns.drop count) s) : Inside place ns s := by
  constructor
  · intro t ht
    obtain ⟨hend,hstop⟩ := h.tokens t ht
    rw [List.length_drop] at hstop
    exact ⟨hend,by omega⟩
  · intro e he
    obtain ⟨i,n,hn,rfl⟩ := h.errors e he
    rw [List.getElem?_drop] at hn
    exact ⟨count+i,n,hn,by rw [Nat.add_assoc]⟩

theorem ofScalars_inside (recovery : Recovery) (place : Nat) (ns : List Nat) :
    Inside place ns (ofScalars recovery place ns) := by
  induction place, ns using ofScalars.induct recovery with
  | case1 place =>
    rw [ofScalars_nil]
    refine ⟨?_,by simp⟩
    intro t ht
    rw [List.mem_singleton.mp ht]
    exact ⟨iff_of_true rfl rfl,Nat.le_refl _⟩
  | case2 place n ns symbol hb ih =>
    rw [ofScalars_blank recovery place n ns hb]
    exact Inside.of_drop (Nat.le_add_left 1 _) ih
  | case3 place n ns symbol hb kind hk count ih =>
    have hcount : count ≤ ns.length := (List.takeWhile_sublist _).length_le
    have hle : 1+count ≤ (n::ns).length := by
      rw [List.length_cons]
      omega
    have hdrop : (n::ns).drop (1+count) = ns.drop count := by
      rw [Nat.add_comm,List.drop_succ_cons]
    obtain ⟨htokens,herrors⟩ : Inside place (n::ns)
        (ofScalars recovery (place+(1+count)) (ns.drop count)) :=
      Inside.of_drop hle (hdrop ▸ ih)
    rw [ofScalars_token recovery place n ns kind hb hk]
    refine ⟨?_,herrors⟩
    intro t ht
    rcases List.mem_cons.mp ht with rfl | ht
    · obtain ⟨c,_,hf⟩ := Option.bind_eq_some_iff.mp hk
      have hend : ¬ (Token.mk kind (.ofWidth place (1+count))).isEnd = true := by
        simpa [Token.isEnd] using Kind.ofFirst_ne_end c kind hf
      have hlt : place ≠ place+(1+count) := by omega
      exact ⟨iff_of_false hend hlt,Nat.add_le_add_left hle place⟩
    · exact htokens t ht
  | case4 place n ns symbol hb hk hr =>
    subst hr
    rw [ofScalars_abort place n ns hb hk]
    refine ⟨by simp,?_⟩
    intro e he
    exact ⟨0,n,rfl,List.mem_singleton.mp he⟩
  | case5 place n ns symbol hb hk hr ih =>
    subst hr
    obtain ⟨htokens,herrors⟩ : Inside place (n::ns) (ofScalars .skip (place+1) ns) :=
      Inside.of_drop (Nat.le_add_left 1 _) ih
    rw [ofScalars_skip place n ns hb hk]
    refine ⟨htokens,?_⟩
    intro e he
    rcases List.mem_cons.mp he with rfl | he
    · exact ⟨0,n,rfl,rfl⟩
    · exact herrors e he

theorem Inside.labels {place : Nat} {ns : List Nat} {s : Scan} (h : Inside place ns s)
    (xs : List Spelling) : (s.placed xs).errors.map Error.label? =
      s.errors.map (fun e => e.label?.map (Label.placed xs)) := by
  rw [placed,List.map_map]
  apply List.map_congr_left
  intro e he
  obtain ⟨i,n,_,rfl⟩ := h.errors e he
  rfl

end Scan

/-- A scan of spelled scalars is the scan of the bare scalars, each place moved to its byte. -/
theorem scan_spelled (xs : List Spelling) (s : Source) (hs : s.bytes = Spelling.text xs)
    (recovery : Recovery) :
    s.scan recovery = (Scan.ofScalars recovery 0 (xs.map Spelling.scalar)).placed xs := by
  rw [s.scan_eq,hs]
  exact Scan.ofWindow_text recovery xs 0

/-- Two texts with the same scalars, whatever the widths they are spelled in, are scanned alike: one
scan of the scalars has the tokens of both, with their kinds, and the errors of both, none of them
but for a scalar that begins no token. Its spans and labels are ranges of places in the list, and
each of the texts has them at the bytes that these places take there. -/
theorem scan_respelled (xs ys : List Spelling)
    (h : xs.map Spelling.scalar = ys.map Spelling.scalar) (s t : Source)
    (hs : s.bytes = Spelling.text xs) (ht : t.bytes = Spelling.text ys) (recovery : Recovery) :
    ∃ o : Scan,(s.scan recovery = o.placed xs ∧ t.scan recovery = o.placed ys) ∧
      (∀ u ∈ o.tokens,u.span.stop ≤ xs.length) ∧
      (∀ e ∈ o.errors,∃ i x,xs[i]? = some x ∧
        e = .lexical i (.unrecognized (.single x.scalar))) ∧
      (s.scan recovery).errors.map Error.label? =
        o.errors.map (fun e => e.label?.map (Label.placed xs)) ∧
      (t.scan recovery).errors.map Error.label? =
        o.errors.map (fun e => e.label?.map (Label.placed ys)) := by
  have hinside := Scan.ofScalars_inside recovery 0 (xs.map Spelling.scalar)
  have hfirst := scan_spelled xs s hs recovery
  have hsecond := scan_spelled ys t ht recovery
  rw [← h] at hsecond
  rw [hfirst,hsecond]
  refine ⟨_,⟨rfl,rfl⟩,?_,?_,hinside.labels xs,hinside.labels ys⟩
  · intro u hu
    have hstop := (hinside.tokens u hu).2
    rw [Nat.zero_add,List.length_map] at hstop
    exact hstop
  · intro e he
    obtain ⟨i,n,hn,rfl⟩ := hinside.errors e he
    rw [List.getElem?_map] at hn
    obtain ⟨x,hx,rfl⟩ := Option.map_eq_some_iff.mp hn
    exact ⟨i,x,hx,by rw [Nat.zero_add]⟩

/-- The word `a1` and a question mark in their shortest sequences and in longer ones. -/
theorem scan_respelled_word :
    let xs : List Spelling := [⟨0x61,1,by decide⟩,⟨0x31,1,by decide⟩,⟨0x3F,1,by decide⟩]
    let ys : List Spelling := [⟨0x61,3,by decide⟩,⟨0x31,2,by decide⟩,⟨0x3F,4,by decide⟩]
    xs.map Spelling.scalar = ys.map Spelling.scalar ∧
      (∃ o : Scan,(Source.ofUtf8 (Spelling.text xs)).scan .skip = o.placed xs ∧
        (Source.ofUtf8 (Spelling.text ys)).scan .skip = o.placed ys ∧
        ∀ u ∈ o.tokens,u.span.stop ≤ 3) ∧
      (Source.ofUtf8 (Spelling.text xs)).scan .skip =
        ⟨[⟨.identifier,.ofWidth 0 2⟩,.finish 3],[.lexical 2 (.unrecognized ⟨0x3F,1⟩)],3⟩ ∧
      (Source.ofUtf8 (Spelling.text ys)).scan .skip =
        ⟨[⟨.identifier,.ofWidth 0 5⟩,.finish 9],[.lexical 5 (.unrecognized ⟨0x3F,4⟩)],9⟩ := by
  intro xs ys
  have h : xs.map Spelling.scalar = ys.map Spelling.scalar := rfl
  obtain ⟨o,⟨hx,hy⟩,hplaces,_⟩ := scan_respelled xs ys h (.ofUtf8 (Spelling.text xs))
    (.ofUtf8 (Spelling.text ys)) rfl rfl .skip
  exact ⟨h,⟨o,hx,hy,hplaces⟩,by decide +kernel,by decide +kernel⟩

end Lexis
