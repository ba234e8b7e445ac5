import Lexis.Lexeme
import Lexis.Proofs.Course
import Mathlib.Data.List.Chain

/-!
Lexemes set side by side. Any lexemes, from any sources, can be put into one text with blanks
around them; `scan_spaced` says that a scan finds them again exactly if a blank stands wherever two
of them would merge.
-/

namespace Lexis

/-- A token of the first class takes the characters of a token of the second one that follows. -/
def Kind.merges : Kind → Kind → Bool
  | .identifier,.identifier => true
  | .identifier,.integer => true
  | .integer,.integer => true
  | _,_ => false

theorem Kind.continuedBy_first (kind next : Kind) (c : Char) (h : ofFirst? c = some next) :
    kind.continuedBy c = kind.merges next := by
  rcases ofFirst_cases c next h with ⟨ha,rfl⟩ | ⟨ha,hd,rfl⟩ | ⟨ha,hd,hp⟩
  · have hd : c.isDigit = false := by
      by_contra hd
      rw [alphabetic_digit c (by simpa using hd)] at ha
      simp at ha
    cases kind <;> simp [continuedBy,merges,isWordChar,ha,hd]
  · cases kind <;> simp [continuedBy,merges,isWordChar,hd]
  · obtain ⟨hi,hn,_⟩ := punctuator_class c next hp
    have hu : c ≠ '_' := by
      intro hu
      rw [hu] at hp
      simp [punctuator?] at hp
    have hm : kind.merges next = false := by
      cases kind <;> cases next <;> first | rfl | contradiction
    rw [hm]
    cases kind <;> simp [continuedBy,isWordChar,ha,hd,hu]

/-- What of a token is left when its place is forgotten. -/
def Lexeme.spelling (l : Lexeme) : Kind × List UInt8 := (l.token.kind,l.bytes)

/-- How tokens of a source are spelled. -/
def Source.spellings (s : Source) (tokens : List Token) : List (Kind × List UInt8) :=
  (Lexeme.ofTokens s tokens).map Lexeme.spelling

theorem Source.spellings_cons (s : Source) (t : Token) (tokens : List Token) :
    s.spellings (t::tokens) = (t.kind,(Lexeme.mk s t).bytes)::s.spellings tokens := rfl

theorem Source.slice_of_drop (s : Source) (start : Nat) (l r : List UInt8)
    (h : s.bytes.drop start = l++r) : s.slice start (start+l.length) = l := by
  by_cases hl : l = []
  · simp [slice,hl]
  · have hp := List.length_pos_iff.mpr hl
    have hd := congrArg List.length h
    rw [List.length_drop,List.length_append] at hd
    have hs : start ≤ start+l.length ∧ start+l.length ≤ s.size := by
      rw [size]
      omega
    rw [slice,if_pos hs,h,Nat.add_sub_cancel_left,List.take_left]

theorem Source.bytes_of_drop (s : Source) (kind : Kind) (start : Nat) (l r : List UInt8)
    (h : s.bytes.drop start = l++r) : (Lexeme.mk s ⟨kind,.ofWidth start l.length⟩).bytes = l :=
  s.slice_of_drop start l r h

theorem Reader.bytes_take (r : Reader) (kind : Kind) (width : Nat) (h : width ≤ r.window.length) :
    (Lexeme.mk r.source ⟨kind,.ofWidth r.cursor width⟩).bytes = r.window.take width := by
  have hb := r.source.bytes_of_drop kind r.cursor (r.window.take width) (r.window.drop width)
    (List.take_append_drop width r.window).symm
  rwa [List.length_take_of_le h] at hb

/-- A token that a reader gives is spelled by bytes that read as that token on their own. -/
theorem Reader.read_of_next (r : Reader) (t : Token) (h : r.next.1 = .ok t)
    (hk : t.kind ≠ .endOfFile) :
    Item.read (Lexeme.mk r.source t).bytes =
      .lexeme t.kind (Lexeme.mk r.source t).bytes.length := by
  rw [next] at h
  split at h
  · injection h with h
    rw [← h] at hk
    exact absurd rfl hk
  · next kind width hr =>
    injection h with h
    have hw := (Item.lexeme_width _ kind width hr).2
    have hb := bytes_take _ kind width hw
    rw [forward_source,h] at hb
    rw [hb,← h,List.length_take_of_le hw]
    exact Item.read_take _ kind width hr
  · cases h

/-- Blank bytes are passed one and all. -/
theorem runWidth_blanks (bs r : List UInt8) (h : ∀ b ∈ bs,b ∈ blankBytes) :
    runWidth isBlank (bs++r) = bs.length+runWidth isBlank r := by
  induction bs with
  | nil => simp
  | cons b bs ih =>
    have hbs : ∀ d ∈ bs,d ∈ blankBytes := by
      intro d hd
      exact h d (List.mem_cons_of_mem b hd)
    obtain ⟨s,c,hd,hs,hc,hb⟩ := decode_blank b (bs++r) (h b (by simp))
    rw [List.cons_append,runWidth_of_accept isBlank _ s c hd hc hb,hs,List.drop_one,List.tail_cons,
      ih hbs,List.length_cons]
    omega

namespace Item

theorem runWidth_of_lexeme (w : List UInt8) (kind : Kind) (width : Nat)
    (h : read w = .lexeme kind width) : runWidth isBlank w = 0 := by
  obtain ⟨s,c,hd,hc,hf,_⟩ := (read_eq_lexeme_iff w kind width).mp h
  refine runWidth_of_reject isBlank w s hd ?_
  cases hb : isBlank c with
  | false => simp [hc,hb]
  | true => simp [ofFirst_blank c hb] at hf

/-- A lexeme is continued by the one after it if the two classes merge. -/
theorem runWidth_eq_zero_iff (kind next : Kind) (w : List UInt8) (width : Nat)
    (h : read w = .lexeme next width) :
    runWidth kind.continuedBy w = 0 ↔ kind.merges next = false := by
  obtain ⟨s,c,hd,hc,hf,_⟩ := (read_eq_lexeme_iff w next width).mp h
  have hp := s.width_pos_of_char c hc
  rw [← Kind.continuedBy_first kind next c hf]
  cases ha : kind.continuedBy c with
  | false => simp [runWidth_of_reject kind.continuedBy w s hd (by simp [hc,ha])]
  | true =>
    rw [runWidth_of_accept _ w s c hd hc ha]
    simp
    omega

end Item

theorem Kind.runWidth_blank (kind : Kind) (b : UInt8) (r : List UInt8) (h : b ∈ blankBytes) :
    runWidth kind.continuedBy (b::r) = 0 := by
  obtain ⟨s,c,hd,_,hc,hb⟩ := decode_blank b r h
  exact runWidth_of_reject _ _ s hd (by simp [hc,continuedBy_blank kind c hb])

namespace Scan

theorem ofWindow_blanks (recovery : Recovery) (offset : Nat) (bs : List UInt8)
    (h : ∀ b ∈ bs,b ∈ blankBytes) :
    ofWindow recovery offset bs = ⟨[.finish (offset+bs.length)],[],offset+bs.length⟩ := by
  have hw := runWidth_blanks bs [] h
  rw [List.append_nil,runWidth_nil] at hw
  have hr : Item.read (bs.drop (runWidth isBlank bs)) = .finish := by
    rw [Item.read_eq_finish_iff,hw]
    simp
  rw [ofWindow_finish recovery offset bs hr,hw]
  rfl

/-- A lexeme is found behind its blanks, together with what continues it. -/
theorem ofWindow_spaced (recovery : Recovery) (offset : Nat) (bs l r : List UInt8) (kind : Kind)
    (hb : ∀ b ∈ bs,b ∈ blankBytes) (hl : Item.read l = .lexeme kind l.length) :
    ofWindow recovery offset (bs++(l++r)) =
      (ofWindow recovery (offset+bs.length+(l.length+runWidth kind.continuedBy r))
        (r.drop (runWidth kind.continuedBy r))).withToken
          ⟨kind,.ofWidth (offset+bs.length) (l.length+runWidth kind.continuedBy r)⟩ := by
  have hr := Item.read_append l r kind hl
  have hw : runWidth isBlank (bs++(l++r)) = bs.length := by
    rw [runWidth_blanks bs _ hb,Item.runWidth_of_lexeme _ _ _ hr,Nat.add_zero]
  have hd : (bs++(l++r)).drop (runWidth isBlank (bs++(l++r))) = l++r := by
    rw [hw,List.drop_left]
  rw [← hd] at hr
  have ht := ofWindow_token recovery offset (bs++(l++r)) kind _ hr
  rw [hd,hw,← List.drop_drop,List.drop_left] at ht
  exact ht

end Scan

/-- A token that some reader gave, and blank bytes to put before it. -/
structure Spaced where
  blanks : List UInt8
  reader : Reader
  token : Token
  blank : ∀ b ∈ blanks,b ∈ blankBytes
  given : reader.next.1 = .ok token
  notEnd : token.kind ≠ .endOfFile

namespace Spaced

/-- The word `a1`, the second token of its source. -/
def word (blanks : List UInt8) (h : ∀ b ∈ blanks,b ∈ blankBytes) : Spaced where
  blanks := blanks
  reader := ⟨.ofUtf8 [0x2B,0x20,0x61,0x31,0x2B],1,by decide⟩
  token := ⟨.identifier,.ofWidth 2 2⟩
  blank := h
  given := by decide +kernel
  notEnd := by decide

/-- The number 7, the only token of its source. -/
def seven (blanks : List UInt8) (h : ∀ b ∈ blanks,b ∈ blankBytes) : Spaced where
  blanks := blanks
  reader := .ofSource (.ofUtf8 [0x37])
  token := ⟨.integer,.ofWidth 0 1⟩
  blank := h
  given := by decide +kernel
  notEnd := by decide

def lexeme (x : Spaced) : Lexeme := ⟨x.reader.source,x.token⟩

theorem read_lexeme (x : Spaced) :
    Item.read x.lexeme.bytes = .lexeme x.token.kind x.lexeme.bytes.length :=
  x.reader.read_of_next x.token x.given x.notEnd

/-- The lexemes one after the other, each one after its blanks, and some bytes at the end. -/
def text : List Spaced → List UInt8 → List UInt8
  | [],after => after
  | x::xs,after => x.blanks++(x.lexeme.bytes++text xs after)

/-- Blanks stand between any two lexemes that would merge. -/
def Apart (xs : List Spaced) : Prop :=
  xs.IsChain (fun x y => x.token.kind.merges y.token.kind = true → y.blanks ≠ [])

theorem runWidth_text (kind : Kind) (xs : List Spaced) (after : List UInt8)
    (ha : ∀ b ∈ after,b ∈ blankBytes) :
    runWidth kind.continuedBy (text xs after) = 0 ↔
      ∀ y ∈ xs.head?,kind.merges y.token.kind = true → y.blanks ≠ [] := by
  cases xs with
  | nil =>
    cases after with
    | nil => simp [text,runWidth_nil]
    | cons b r => simp [text,kind.runWidth_blank b r (ha b (by simp))]
  | cons y ys =>
    cases hb : y.blanks with
    | nil =>
      have hr := Item.read_append _ (text ys after) y.token.kind y.read_lexeme
      simp [text,hb,Item.runWidth_eq_zero_iff kind _ _ _ hr]
    | cons b r =>
      have hbl : b ∈ blankBytes := y.blank b (by simp [hb])
      simp [text,hb,kind.runWidth_blank b _ hbl]

/-- How the tokens were spelled where they were given. -/
def spellings (xs : List Spaced) : List (Kind × List UInt8) := xs.map (fun x => x.lexeme.spelling)

/-- Of a text of lexemes the first one is found, with all that continues it. -/
theorem scan_cons (recovery : Recovery) (s : Source) (offset : Nat) (x : Spaced) (r : List UInt8)
    (hs : s.bytes.drop offset = x.blanks++(x.lexeme.bytes++r)) :
    ∃ start,s.bytes.drop start = r.drop (runWidth x.token.kind.continuedBy r) ∧
      (Scan.ofWindow recovery offset (s.bytes.drop offset)).errors =
        (Scan.ofWindow recovery start (s.bytes.drop start)).errors ∧
      s.spellings (Scan.ofWindow recovery offset (s.bytes.drop offset)).tokens =
        (x.token.kind,x.lexeme.bytes++r.take (runWidth x.token.kind.continuedBy r))::
          s.spellings (Scan.ofWindow recovery start (s.bytes.drop start)).tokens := by
  have hw := runWidth_le x.token.kind.continuedBy r
  have hscan := Scan.ofWindow_spaced recovery offset x.blanks x.lexeme.bytes r x.token.kind x.blank
    x.read_lexeme
  generalize runWidth x.token.kind.continuedBy r = m at hw hscan ⊢
  have hl : (x.lexeme.bytes++r.take m).length = x.lexeme.bytes.length+m := by
    rw [List.length_append,List.length_take_of_le hw]
  have hfirst : s.bytes.drop (offset+x.blanks.length) = (x.lexeme.bytes++r.take m)++r.drop m := by
    rw [← List.drop_drop,hs,List.drop_left,List.append_assoc,List.take_append_drop]
  have hrest : s.bytes.drop (offset+x.blanks.length+(x.lexeme.bytes.length+m)) = r.drop m := by
    rw [← List.drop_drop,hfirst,← hl,List.drop_left]
  have hbytes := s.bytes_of_drop x.token.kind _ _ _ hfirst
  rw [hl] at hbytes
  refine ⟨_,hrest,?_,?_⟩
  · rw [hs,hscan,hrest]
    rfl
  · rw [hs,hscan,hrest]
    apply (s.spellings_cons _ _).trans
    rw [hbytes]

theorem apart_cons (x : Spaced) (xs : List Spaced) (after : List UInt8)
    (ha : ∀ b ∈ after,b ∈ blankBytes) :
    Apart (x::xs) ↔ runWidth x.token.kind.continuedBy (text xs after) = 0 ∧ Apart xs := by
  rw [runWidth_text x.token.kind xs after ha]
  exact List.isChain_cons

theorem scan_apart (recovery : Recovery) (s : Source) (offset : Nat) (xs : List Spaced)
    (after : List UInt8) (ha : ∀ b ∈ after,b ∈ blankBytes)
    (hs : s.bytes.drop offset = text xs after) (h : Apart xs) :
    (Scan.ofWindow recovery offset (s.bytes.drop offset)).errors = [] ∧
      s.spellings (Scan.ofWindow recovery offset (s.bytes.drop offset)).tokens =
        spellings xs++[(.endOfFile,[])] := by
  induction xs generalizing offset with
  | nil =>
    rw [hs,text,Scan.ofWindow_blanks recovery offset after ha]
    refine ⟨rfl,?_⟩
    simp [Source.spellings,Lexeme.ofTokens,Lexeme.spelling,Lexeme.bytes,Token.finish,spellings,
      Span.ofWidth,Source.slice]
  | cons x xs ih =>
    obtain ⟨hm,hxs⟩ := (apart_cons x xs after ha).mp h
    obtain ⟨start,hstart,he,ht⟩ := scan_cons recovery s offset x (text xs after) hs
    rw [hm] at hstart ht
    obtain ⟨he',ht'⟩ := ih start hstart hxs
    refine ⟨he.trans he',?_⟩
    rw [ht,ht',List.take_zero,List.append_nil]
    rfl

/-- Where two lexemes merge, the first one that does is found longer than it was. -/
theorem scan_merged (recovery : Recovery) (s : Source) (offset : Nat) (xs : List Spaced)
    (after : List UInt8) (ha : ∀ b ∈ after,b ∈ blankBytes)
    (hs : s.bytes.drop offset = text xs after) (h : ¬ Apart xs) :
    ¬ spellings xs <+:
      s.spellings (Scan.ofWindow recovery offset (s.bytes.drop offset)).tokens := by
  induction xs generalizing offset with
  | nil => exact absurd .nil h
  | cons x xs ih =>
    obtain ⟨start,hstart,_,ht⟩ := scan_cons recovery s offset x (text xs after) hs
    intro hp
    rw [ht] at hp
    obtain ⟨hhead,htail⟩ := List.cons_prefix_cons.mp hp
    have hm : runWidth x.token.kind.continuedBy (text xs after) = 0 := by
      have hb := congrArg (fun p => p.2.length) hhead
      have hw := runWidth_le x.token.kind.continuedBy (text xs after)
      simp only [Lexeme.spelling,List.length_append,List.length_take_of_le hw] at hb
      omega
    rw [hm] at hstart
    have hxs : ¬ Apart xs := by
      intro hxs
      exact h ((apart_cons x xs after ha).mpr ⟨hm,hxs⟩)
    exact ih start hstart hxs htail

end Spaced

/-- Lexemes from anywhere, with blanks around them, are found again in their order and without an
error if blanks keep apart those that would merge. If not, they are not even the first ones that
are found. -/
theorem scan_spaced (xs : List Spaced) (after : List UInt8) (ha : ∀ b ∈ after,b ∈ blankBytes)
    (s : Source) (hs : s.bytes = Spaced.text xs after) (recovery : Recovery) :
    (Spaced.Apart xs →
        (s.scan recovery).errors = [] ∧
          s.spellings (s.scan recovery).tokens = Spaced.spellings xs++[(.endOfFile,[])]) ∧
      (¬ Spaced.Apart xs →
        ¬ Spaced.spellings xs <+: s.spellings (s.scan recovery).tokens) := by
  rw [s.scan_eq]
  constructor
  · exact Spaced.scan_apart recovery s 0 xs after ha hs
  · exact Spaced.scan_merged recovery s 0 xs after ha hs

/-- A number may touch the word after it, a word not the number after it. -/
theorem scan_spaced_word_seven :
    (∀ b ∈ [(0x0A : UInt8)],b ∈ blankBytes) ∧
      Spaced.Apart [.seven [] (by simp),.word [] (by simp)] ∧
      ((Source.ofUtf8 [0x37,0x61,0x31,0x0A]).scan .abort).errors = [] ∧
      (Source.ofUtf8 [0x37,0x61,0x31,0x0A]).spellings
          ((Source.ofUtf8 [0x37,0x61,0x31,0x0A]).scan .abort).tokens =
        [(.integer,[0x37]),(.identifier,[0x61,0x31]),(.endOfFile,[])] ∧
      ¬ Spaced.Apart [.word [] (by simp),.seven [] (by simp)] ∧
      ¬ [(.identifier,[0x61,0x31]),(.integer,[0x37])] <+:
        (Source.ofUtf8 [0x61,0x31,0x37,0x0A]).spellings
          ((Source.ofUtf8 [0x61,0x31,0x37,0x0A]).scan .skip).tokens := by
  have hb : ∀ b ∈ [(0x0A : UInt8)],b ∈ blankBytes := by simp [blankBytes]
  have ha : Spaced.Apart [.seven [] (by simp),.word [] (by simp)] := by
    simp [Spaced.Apart,Spaced.seven,Spaced.word,Kind.merges]
  have hm : ¬ Spaced.Apart [.word [] (by simp),.seven [] (by simp)] := by
    simp [Spaced.Apart,Spaced.seven,Spaced.word,Kind.merges]
  obtain ⟨he,hf⟩ := (scan_spaced _ _ hb (.ofUtf8 [0x37,0x61,0x31,0x0A]) rfl .abort).1 ha
  exact ⟨hb,ha,he,hf,hm,(scan_spaced _ _ hb (.ofUtf8 [0x61,0x31,0x37,0x0A]) rfl .skip).2 hm⟩

end Lexis
