import Lexis.Proofs.Next
import Lexis.Proofs.Spacing
import Lexis.Proofs.Strict

/-!
The texts of tokens. A lexeme is a whole number of characters of its class, so the only thing that
keeps it from being strict UTF-8 is a character in a longer sequence than it needs. `texts_strict`
says when a token has the bytes of its lexeme for its text and when it has no text at all.
-/

namespace Lexis

/-- The characters form a token of the class: the first one begins it and the others continue it.
Only the end of a source has none. -/
def Kind.Spelled (kind : Kind) : List Char → Prop
  | [] => kind = .endOfFile
  | c::cs => ofFirst? c = some kind ∧ ∀ d ∈ cs,kind.continuedBy d = true

/-- What neither begins nor continues a token is in none. -/
theorem Kind.Spelled.not_mem {kind : Kind} {cs : List Char} (h : kind.Spelled cs) (c : Char)
    (hfirst : ofFirst? c = none) (hnext : kind.continuedBy c = false) : c ∉ cs := by
  intro hc
  cases cs with
  | nil => cases hc
  | cons d cs =>
    obtain ⟨hd,hcs⟩ := h
    rcases List.mem_cons.mp hc with rfl | hc
    · rw [hfirst] at hd
      cases hd
    · have hin := hcs c hc
      rw [hnext] at hin
      cases hin

/-- A window that is one run decodes to the characters of the run. -/
theorem decodeAll_of_run (accept : Char → Bool) (w : List UInt8)
    (h : runWidth accept w = w.length) :
    ∃ ss,∃ cs : List Char,Sequence.decodeAll w = .ok ss ∧ ss.map Symbol.char? = cs.map some ∧
      ∀ c ∈ cs,accept c = true := by
  fun_induction runWidth accept w with
  | case1 w d hd =>
    obtain rfl := List.eq_nil_of_length_eq_zero h.symm
    exact ⟨[],[],Sequence.decodeAll_nil,rfl,by simp⟩
  | case2 w s hd ha ih =>
    obtain ⟨c,hc,hac⟩ := (Option.any_eq_true accept s.char?).mp ha
    have hn := Sequence.ne_nil_of_char w s c hd hc
    have hrest : runWidth accept (w.drop s.width) = (w.drop s.width).length := by
      rw [List.length_drop]
      omega
    obtain ⟨ss,cs,hss,hcs,hall⟩ := ih hrest
    refine ⟨s::ss,c::cs,?_,?_,?_⟩
    · rw [Sequence.decodeAll_symbol w s hn hd,hss]
      rfl
    · rw [List.map_cons,List.map_cons,hc,hcs]
    · intro d hd
      rcases List.mem_cons.mp hd with rfl | hd
      · exact hac
      · exact hall d hd
  | case3 w s hd ha =>
    obtain rfl := List.eq_nil_of_length_eq_zero h.symm
    exact ⟨[],[],Sequence.decodeAll_nil,rfl,by simp⟩

/-- A window that is one lexeme decodes to characters that spell its class. -/
theorem Item.decodeAll_of_lexeme (w : List UInt8) (kind : Kind)
    (h : read w = .lexeme kind w.length) :
    ∃ ss,∃ cs : List Char,Sequence.decodeAll w = .ok ss ∧ ss.map Symbol.char? = cs.map some ∧
      kind.Spelled cs := by
  obtain ⟨s,c,hd,hc,hf,hw⟩ := (read_eq_lexeme_iff w kind w.length).mp h
  have hn := Sequence.ne_nil_of_char w s c hd hc
  have hrun : runWidth kind.continuedBy (w.drop s.width) = (w.drop s.width).length := by
    rw [List.length_drop]
    omega
  obtain ⟨ss,cs,hss,hcs,hall⟩ := decodeAll_of_run kind.continuedBy _ hrun
  refine ⟨s::ss,c::cs,?_,?_,hf,hall⟩
  · rw [Sequence.decodeAll_symbol w s hn hd,hss]
    rfl
  · rw [List.map_cons,List.map_cons,hc,hcs]

namespace Lexeme

/-- Some reader of the source gave the token. -/
def Given (l : Lexeme) : Prop := ∃ r : Reader,r.source = l.source ∧ r.next.1 = .ok l.token

/-- A token of the class of the end is the end. -/
theorem Given.eq_finish {l : Lexeme} (h : l.Given) (hk : l.token.kind = .endOfFile) :
    l.token = .finish l.source.size := by
  obtain ⟨r,hsource,hn⟩ := h
  have hnext : r.next = (.ok l.token,r.next.2) := Prod.ext hn rfl
  rw [← hsource]
  exact (Reader.next_of_end hnext (by simpa [Token.isEnd] using hk)).1

/-- The lexeme of a token is a whole number of characters, and they spell its class. -/
theorem Given.symbols {l : Lexeme} (h : l.Given) :
    ∃ ss,∃ cs : List Char,Sequence.decodeAll l.bytes = .ok ss ∧ ss.map Symbol.char? = cs.map some ∧
      l.token.kind.Spelled cs := by
  by_cases hk : l.token.kind = .endOfFile
  · have hbytes : l.bytes = [] := by
      rw [bytes,h.eq_finish hk]
      simp [Token.finish,Span.ofWidth,Source.slice]
    rw [hbytes]
    exact ⟨[],[],Sequence.decodeAll_nil,rfl,hk⟩
  · obtain ⟨r,hsource,hn⟩ := h
    have hread := r.read_of_next l.token hn hk
    rw [hsource] at hread
    exact Item.decodeAll_of_lexeme l.bytes l.token.kind hread

section Text

variable {l : Lexeme} {ss : List Symbol} {cs : List Char}
  (hss : Sequence.decodeAll l.bytes = .ok ss) (hcs : ss.map Symbol.char? = cs.map some)
include hss

theorem text_of_shortest (hcs : ss.map Symbol.char? = cs.map some)
    (hshort : ∀ s ∈ ss,s.IsShortest) :
    l.text = String.ofList cs ∧ l.text.toUTF8 = l.bytes.toByteArray := by
  have hall : ss.map Symbol.char? = (String.ofList cs).toList.map some := by
    rw [String.toList_ofList]
    exact hcs
  have hread := (fromUTF8_iff_decodeAll l.bytes (String.ofList cs)).mpr ⟨ss,hss,hshort,hall⟩
  have htext : l.text = String.ofList cs := by
    rw [text,hread]
    rfl
  have hbytes := (fromUTF8_eq_some_iff l.bytes _).mp hread
  rw [String.toList_ofList] at hbytes
  refine ⟨htext,?_⟩
  rw [htext,hbytes]
  rfl

theorem text_of_overlong (hlong : ¬ ∀ s ∈ ss,s.IsShortest) : l.text = "" := by
  rw [text]
  cases hread : String.fromUTF8? l.bytes.toByteArray with
  | none => rfl
  | some found =>
    obtain ⟨ss',hss',hshort,_⟩ := (fromUTF8_iff_decodeAll l.bytes found).mp hread
    obtain rfl : ss = ss' := by simpa [hss] using hss'
    exact absurd hshort hlong

end Text

/-- The text of a token is empty or spells its class. -/
theorem Given.text_spelled {l : Lexeme} (h : l.Given) :
    l.text = "" ∨ l.token.kind.Spelled l.text.toList := by
  obtain ⟨ss,cs,hss,hcs,hspelled⟩ := h.symbols
  by_cases hshort : ∀ s ∈ ss,s.IsShortest
  · right
    rw [(text_of_shortest hss hcs hshort).1,String.toList_ofList]
    exact hspelled
  · exact .inl (text_of_overlong hss hshort)

end Lexeme

/-- Strict UTF-8 knows no sequence that is longer than its scalar needs, none for a surrogate and
none above the last character. It accepts exactly the bytes that decode to their end, symbol after
symbol, each a character in its shortest sequence, and it reads the same characters in them. A token
is a whole number of characters. If all of them are in their shortest sequences, its text is its
lexeme, byte for byte; otherwise it has no text. So a token that is not empty has an empty text
exactly if one of its characters is in a longer sequence than it needs. -/
theorem texts_strict :
    (∀ bytes : List UInt8,
      ((String.fromUTF8? bytes.toByteArray).isSome = true ↔ Sequence.Strict bytes) ∧
      ((String.fromUTF8? bytes.toByteArray).isSome = true ↔
        ∃ ss,Sequence.decodeAll bytes = .ok ss ∧
          ∀ s ∈ ss,s.char?.isSome = true ∧ s.IsShortest) ∧
      ∀ text ss,String.fromUTF8? bytes.toByteArray = some text →
        Sequence.decodeAll bytes = .ok ss → ss.map Symbol.char? = text.toList.map some) ∧
    ∀ l : Lexeme,l.Given → ∃ ss,Sequence.decodeAll l.bytes = .ok ss ∧
      (∀ s ∈ ss,s.char?.isSome = true) ∧
      ((∀ s ∈ ss,s.IsShortest) → l.text.toUTF8 = l.bytes.toByteArray) ∧
      ((¬ ∀ s ∈ ss,s.IsShortest) → l.text = "") ∧
      (l.token.span.start < l.token.span.stop →
        (l.text = "" ↔ ∃ s ∈ ss,¬ s.IsShortest)) := by
  constructor
  · intro bytes
    have haccepts := fromUTF8_isSome_iff bytes
    refine ⟨haccepts,haccepts.trans (strict_iff_decodeAll bytes),?_⟩
    intro text ss htext hss
    obtain ⟨ss',hss',_,hcs⟩ := (fromUTF8_iff_decodeAll bytes text).mp htext
    obtain rfl : ss = ss' := by simpa [hss] using hss'
    exact hcs
  · intro l h
    obtain ⟨ss,cs,hss,hcs,hspelled⟩ := h.symbols
    refine ⟨ss,hss,(forall_char_iff ss).mpr ⟨cs,hcs⟩,
      fun hs => (Lexeme.text_of_shortest hss hcs hs).2,Lexeme.text_of_overlong hss,?_⟩
    intro hspan
    constructor
    · intro hempty
      by_contra hnone
      have hshort : ∀ s ∈ ss,s.IsShortest := by
        intro s hs
        by_contra hlong
        exact hnone ⟨s,hs,hlong⟩
      -- Without characters the token would be the end, which has no bytes.
      have htext := (Lexeme.text_of_shortest hss hcs hshort).1
      obtain rfl : cs = [] := String.ofList_eq_empty_iff.mp (htext.symm.trans hempty)
      rw [h.eq_finish hspelled] at hspan
      exact absurd hspan (Nat.lt_irrefl _)
    · rintro ⟨s,hs,hlong⟩
      exact Lexeme.text_of_overlong hss (fun hshort => hlong (hshort s hs))

/-- Two letters, the second in two bytes where one would do. -/
theorem texts_strict_letters :
    let l : Lexeme := ⟨.ofUtf8 [0x61,0xC1,0x81],⟨.identifier,.ofWidth 0 3⟩⟩
    l.Given ∧ l.token.span.start < l.token.span.stop ∧ l.text = "" ∧
      ∃ ss,Sequence.decodeAll l.bytes = .ok ss ∧ ∃ s ∈ ss,¬ s.IsShortest := by
  intro l
  have hgiven : l.Given := ⟨.ofSource l.source,rfl,by decide +kernel⟩
  have hspan : l.token.span.start < l.token.span.stop := by decide
  have htext : l.text = "" := by decide +kernel
  obtain ⟨_,hempty⟩ := texts_strict
  obtain ⟨ss,hss,_,_,_,hlong⟩ := hempty l hgiven
  exact ⟨hgiven,hspan,htext,ss,hss,(hlong hspan).mp htext⟩

end Lexis
