import Lexis.Proofs.Next
import Lexis.Proofs.Spacing
import Lexis.Proofs.Spelling
import Mathlib.Logic.Function.Iterate

/-!
Texts of characters in strict UTF-8, each character in its shortest sequence. A reader gives the
characters one by one, and whatever a scan finds begins and ends between two of them: no sequence
is malformed, an error is about one character, and a token has the characters of its range for its
text.
-/

namespace Lexis

/-- A character in its shortest sequence. -/
def Symbol.ofChar (c : Char) : Symbol := ⟨c.val,c.utf8Size⟩

theorem Symbol.char_ofChar (c : Char) : (ofChar c).char? = some c := by
  have hp := c.utf8Size_pos
  have he : (ofChar c).isEnd = false := by
    simp [ofChar,isEnd]
    omega
  have hv : (ofChar c).scalar.isValidChar := c.valid
  rw [char?,he,dif_pos hv]
  rfl

/-- The sum of the sizes of the characters before the given place. -/
def Text.offset : List Char → Nat → Nat
  | c::cs,place+1 => c.utf8Size+offset cs place
  | _,_ => 0

theorem utf8Size_cases (c : Char) :
    (c.utf8Size = 1 ∧ c.toNat ≤ 127) ∨ (c.utf8Size = 2 ∧ 127 < c.toNat ∧ c.toNat ≤ 2047) ∨
      (c.utf8Size = 3 ∧ 2047 < c.toNat ∧ c.toNat ≤ 65535) ∨
        (c.utf8Size = 4 ∧ 65535 < c.toNat ∧ c.toNat < 0x110000) := by
  rcases c.utf8Size_eq with h | h | h | h
  · exact .inl ⟨h,UInt32.le_iff_toNat_le.mp (Char.utf8Size_eq_one_iff.mp h)⟩
  · obtain ⟨hl,hu⟩ := Char.utf8Size_eq_two_iff.mp h
    exact .inr (.inl ⟨h,UInt32.lt_iff_toNat_lt.mp hl,UInt32.le_iff_toNat_le.mp hu⟩)
  · obtain ⟨hl,hu⟩ := Char.utf8Size_eq_three_iff.mp h
    exact .inr (.inr (.inl ⟨h,UInt32.lt_iff_toNat_lt.mp hl,UInt32.le_iff_toNat_le.mp hu⟩))
  · have hl : 65535 < c.toNat := UInt32.lt_iff_toNat_lt.mp (Char.utf8Size_eq_four_iff.mp h)
    have hu : c.toNat < 0x110000 := by
      rcases c.valid with hv | ⟨_,hv⟩
      · exact Nat.lt_trans hv (by decide)
      · exact hv
    exact .inr (.inr (.inr ⟨h,hl,hu⟩))

namespace Spelling

def ofChar (c : Char) : Spelling where
  scalar := c.toNat
  width := c.utf8Size
  fits := by
    rcases utf8Size_cases c with ⟨h,_⟩ | ⟨h,_⟩ | ⟨h,_⟩ | ⟨h,_⟩ <;>
      simp only [h,Sequence.capacity] <;> omega

theorem symbol_ofChar (c : Char) : (ofChar c).symbol = .ofChar c := by
  have hv : UInt32.ofNat c.toNat = c.val := UInt32.ofNat_toNat
  simp only [symbol,ofChar,hv,Symbol.ofChar]

/-- In its shortest sequence a character is spelled as strict UTF-8 has it. -/
theorem bytes_ofChar (c : Char) : (ofChar c).bytes = String.utf8EncodeChar c := by
  change Sequence.encode c.utf8Size c.toNat = String.utf8EncodeChar c
  rw [String.utf8EncodeChar]
  change _ = if c.toNat ≤ 127 then _ else if c.toNat ≤ 2047 then _ else
    if c.toNat ≤ 65535 then _ else _
  rcases utf8Size_cases c with ⟨h,hu⟩ | ⟨h,hl,hu⟩ | ⟨h,hl,hu⟩ | ⟨h,hl,hu⟩
  · rw [h,if_pos hu]
    rfl
  · have hd : c.toNat/64%32 = c.toNat/64 := Nat.mod_eq_of_lt (by omega)
    rw [h,if_neg (by omega),if_pos hu]
    simp [Sequence.encode,Sequence.continuations,Sequence.weight,hd,Nat.add_comm]
  · have hd : c.toNat/4096%16 = c.toNat/4096 := Nat.mod_eq_of_lt (by omega)
    rw [h,if_neg (by omega),if_neg (by omega),if_pos hu]
    simp [Sequence.encode,Sequence.continuations,Sequence.weight,hd,Nat.add_comm]
  · have hd : c.toNat/262144%8 = c.toNat/262144 := Nat.mod_eq_of_lt (by omega)
    rw [h,if_neg (by omega),if_neg (by omega),if_neg (by omega)]
    simp [Sequence.encode,Sequence.continuations,Sequence.weight,hd,Nat.add_comm]

theorem text_ofChars (cs : List Char) :
    text (cs.map ofChar) = cs.flatMap String.utf8EncodeChar := by
  rw [text,List.flatMap_map]
  exact congrArg (List.flatMap · cs) (funext bytes_ofChar)

theorem offset_ofChars (cs : List Char) (place : Nat) :
    offset (cs.map ofChar) place = Text.offset cs place := by
  induction cs generalizing place with
  | nil =>
    rw [List.map_nil,offset,List.take_nil]
    rfl
  | cons c cs ih =>
    cases place with
    | zero => rfl
    | succ place =>
      rw [List.map_cons,offset_succ,ih]
      rfl

/-- Bytes that are the UTF-8 of characters spell them. -/
theorem eq_text_of_toUTF8 (bytes : List UInt8) (cs : List Char)
    (h : bytes.toByteArray = (String.ofList cs).toUTF8) : bytes = text (cs.map ofChar) := by
  have hs : (String.ofList cs).toUTF8 = (cs.flatMap String.utf8EncodeChar).toByteArray := rfl
  rw [hs,List.toByteArray_inj] at h
  rw [h,text_ofChars]

/-- The bytes between two places are those of the scalars between them. -/
theorem slice_text (xs : List Spelling) (s : Source) (hs : s.bytes = text xs) (place count : Nat) :
    s.slice (offset xs place) (offset xs (place+count)) = text ((xs.drop place).take count) := by
  have hd : s.bytes.drop (offset xs place) =
      text ((xs.drop place).take count)++text ((xs.drop place).drop count) := by
    rw [hs,text_drop]
    exact text_split (xs.drop place) count
  rw [offset_add]
  exact s.slice_of_drop _ _ _ hd

/-- The first scalar of a text is decoded, or the end of the input if there is none. -/
theorem decode_head (xs : List Spelling) :
    Sequence.decode (text xs) = .ok (xs.head?.elim .endOfInput symbol) := by
  cases xs with
  | nil => rfl
  | cons x xs => exact (decode_text x xs).1

/-- The end of the input has no bytes, so the end of a text stays where it is. -/
theorem offset_symbol (xs : List Spelling) (place : Nat) :
    offset xs (place+1) = offset xs place+(xs[place]?.elim .endOfInput symbol).width := by
  rw [← List.head?_drop]
  cases hd : xs.drop place with
  | nil =>
    rw [offset_add,hd]
    rfl
  | cons x rest => exact offset_next xs place x rest hd

end Spelling

namespace Reader

/-- Reading a text gives its scalars one by one and moves over each of them whole. -/
theorem advance_text (xs : List Spelling) (s : Source) (hs : s.bytes = Spelling.text xs)
    (count : Nat) :
    ((fun r => r.advance.2)^[count] (ofSource s)).cursor = Spelling.offset xs count ∧
      ((fun r => r.advance.2)^[count] (ofSource s)).advance.1 =
        .ok (xs[count]?.elim .endOfInput Spelling.symbol) := by
  have hpeek (place : Nat) : ((ofSource s).forward (Spelling.offset xs place)).peek =
      .ok (xs[place]?.elim .endOfInput Spelling.symbol) := by
    have hw : ((ofSource s).forward (Spelling.offset xs place)).window =
        Spelling.text (xs.drop place) := by
      rw [forward_window,window]
      change (s.bytes.drop 0).drop _ = _
      rw [List.drop_zero,hs,Spelling.text_drop]
    rw [peek,hw,Spelling.decode_head,List.head?_drop]
  have hmoves : (fun r => r.advance.2)^[count] (ofSource s) =
      (ofSource s).forward (Spelling.offset xs count) := by
    induction count with
    | zero =>
      rw [Spelling.offset_zero,forward_zero]
      rfl
    | succ count ih =>
      rw [Function.iterate_succ_apply',ih,Spelling.offset_symbol,← forward_forward]
      simp only [advance,hpeek count]
  rw [hmoves]
  constructor
  · have hle := Spelling.offset_le_length xs count
    rw [← hs] at hle
    change min (0+Spelling.offset xs count) s.bytes.length = Spelling.offset xs count
    omega
  · simp only [advance,hpeek count]

end Reader

theorem fromUTF8_text (cs : List Char) :
    String.fromUTF8? (Spelling.text (cs.map .ofChar)).toByteArray = some (String.ofList cs) := by
  have hb : (Spelling.text (cs.map .ofChar)).toByteArray = cs.utf8Encode := by
    rw [Spelling.text_ofChars,List.utf8Encode]
  rw [hb,String.fromUTF8?,dif_pos ByteArray.isValidUTF8_utf8Encode]
  rfl

/-- The text of bytes is the one that they are the UTF-8 of. -/
theorem fromUTF8_eq_some_iff (bytes : List UInt8) (text : String) :
    String.fromUTF8? bytes.toByteArray = some text ↔
      bytes = text.toList.flatMap String.utf8EncodeChar := by
  constructor
  · intro h
    have hs : bytes.toByteArray = (String.ofList text.toList).toUTF8 := by
      rw [String.ofList_toList]
      unfold String.fromUTF8? at h
      split at h
      · rw [← Option.some.inj h]
        rfl
      · cases h
    rw [← Spelling.text_ofChars]
    exact Spelling.eq_text_of_toUTF8 bytes text.toList hs
  · intro h
    rw [h,← Spelling.text_ofChars,fromUTF8_text,String.ofList_toList]

section Scan

variable {cs : List Char} {s : Source} (hs : s.bytes = Spelling.text (cs.map .ofChar))
  (recovery : Recovery)
include hs

theorem scan_of_characters : ∃ o : Scan,Scan.Inside 0 (cs.map Char.toNat) o ∧
    s.scan recovery = o.placed (cs.map .ofChar) := by
  have hscalars : (cs.map Spelling.ofChar).map Spelling.scalar = cs.map Char.toNat := by
    rw [List.map_map]
    rfl
  refine ⟨_,Scan.ofScalars_inside recovery 0 (cs.map Char.toNat),?_⟩
  rw [scan_spelled (cs.map .ofChar) s hs recovery,hscalars]

/-- No sequence is malformed, and an error blames one character. -/
theorem error_of_characters (e : Error) (he : e ∈ (s.scan recovery).errors) :
    ∃ i c,cs[i]? = some c ∧
      e = .lexical (Text.offset cs i) (.unrecognized (.ofChar c)) ∧
      e.label? = some ⟨Text.offset cs i,c.utf8Size,"here"⟩ := by
  obtain ⟨o,hinside,hscan⟩ := scan_of_characters hs recovery
  rw [hscan] at he
  obtain ⟨d,hd,rfl⟩ := List.mem_map.mp he
  obtain ⟨i,n,hn,rfl⟩ := hinside.errors d hd
  rw [List.getElem?_map] at hn
  obtain ⟨c,hc,rfl⟩ := Option.map_eq_some_iff.mp hn
  obtain ⟨hlt,hc'⟩ := List.getElem?_eq_some_iff.mp hc
  have hdrop : (cs.map Spelling.ofChar).drop i =
      .ofChar c::(cs.map Spelling.ofChar).drop (i+1) := by
    rw [← List.map_drop,List.drop_eq_getElem_cons hlt,hc',List.map_cons,List.map_drop]
  have hplaced := Error.placed_single _ i _ _ hdrop
  rw [Spelling.offset_ofChars,Spelling.symbol_ofChar] at hplaced
  rw [Nat.zero_add]
  refine ⟨i,c,hc,hplaced,?_⟩
  exact congrArg Error.label? hplaced

/-- A token has the characters of its places for its text. -/
theorem token_of_characters (t : Token) (ht : t ∈ (s.scan recovery).tokens) :
    ∃ i count,i+count ≤ cs.length ∧ t.span.start = Text.offset cs i ∧
      t.span.stop = Text.offset cs (i+count) ∧
      (Lexeme.mk s t).text = String.ofList ((cs.drop i).take count) ∧
      ((Lexeme.mk s t).text = "" ↔ t.isEnd = true) := by
  obtain ⟨o,hinside,hscan⟩ := scan_of_characters hs recovery
  rw [hscan] at ht
  obtain ⟨u,hu,rfl⟩ := List.mem_map.mp ht
  obtain ⟨hend,hstop⟩ := hinside.tokens u hu
  obtain ⟨count,hcount⟩ := Nat.exists_eq_add_of_le u.span.start_le_stop
  rw [Nat.zero_add,List.length_map,hcount] at hstop
  have hbytes : (Lexeme.mk s (u.placed (cs.map .ofChar))).bytes =
      Spelling.text (((cs.drop u.span.start).take count).map .ofChar) := by
    rw [List.map_take,List.map_drop,← Spelling.slice_text (cs.map .ofChar) s hs,← hcount]
    rfl
  have htext : (Lexeme.mk s (u.placed (cs.map .ofChar))).text =
      String.ofList ((cs.drop u.span.start).take count) := by
    rw [Lexeme.text,hbytes,fromUTF8_text]
    rfl
  refine ⟨u.span.start,count,hstop,Spelling.offset_ofChars cs _,?_,htext,?_⟩
  · rw [← hcount]
    exact Spelling.offset_ofChars cs _
  · have hempty : (cs.drop u.span.start).take count = [] ↔ count = 0 := by
      rw [List.take_eq_nil_iff,List.drop_eq_nil_iff]
      omega
    change _ ↔ u.isEnd = true
    rw [htext,hend,hcount,String.ofList_eq_empty_iff,hempty]
    omega

end Scan

/-- In a text of characters the reader gives each of them in order and stands behind it, at the sum
of their sizes, until the end of the input. A scan meets no malformed sequence: its errors are about
single characters. Its tokens begin and end between characters, the text of each one is the
characters between, and only the end of the source has none. -/
theorem scan_characters (cs : List Char) (s : Source)
    (hs : s.bytes.toByteArray = (String.ofList cs).toUTF8) :
    (∀ count,
      let r := (fun r => r.advance.2)^[count] (Reader.ofSource s)
      r.cursor = Text.offset cs count ∧
        r.advance.1 = .ok (cs[count]?.elim .endOfInput .ofChar) ∧
        r.advance.1.map Symbol.char? = .ok cs[count]?) ∧
      Text.offset cs cs.length = s.size ∧
      ∀ recovery,
        (∀ e ∈ (s.scan recovery).errors,∃ i c,cs[i]? = some c ∧
          e = .lexical (Text.offset cs i) (.unrecognized (.ofChar c)) ∧
          e.label? = some ⟨Text.offset cs i,c.utf8Size,"here"⟩) ∧
        ∀ t ∈ (s.scan recovery).tokens,∃ i count,i+count ≤ cs.length ∧
          t.span.start = Text.offset cs i ∧ t.span.stop = Text.offset cs (i+count) ∧
          (Lexeme.mk s t).text = String.ofList ((cs.drop i).take count) ∧
          ((Lexeme.mk s t).text = "" ↔ t.isEnd = true) := by
  have htext := Spelling.eq_text_of_toUTF8 s.bytes cs hs
  refine ⟨?_,?_,?_⟩
  · intro count r
    obtain ⟨hcursor,hgives⟩ := Reader.advance_text (cs.map .ofChar) s htext count
    have hsymbol : (cs.map Spelling.ofChar)[count]?.elim .endOfInput Spelling.symbol =
        cs[count]?.elim .endOfInput .ofChar := by
      rw [List.getElem?_map]
      cases cs[count]? with
      | none => rfl
      | some c => exact Spelling.symbol_ofChar c
    rw [hsymbol] at hgives
    refine ⟨hcursor.trans (Spelling.offset_ofChars cs count),hgives,?_⟩
    change (((fun r => r.advance.2)^[count] (Reader.ofSource s)).advance.1).map _ = _
    rw [hgives]
    cases cs[count]? with
    | none => rfl
    | some c => exact congrArg Except.ok (Symbol.char_ofChar c)
  · rw [← Spelling.offset_ofChars,Spelling.offset,List.take_of_length_le (by simp),← htext]
    rfl
  · intro recovery
    exact ⟨error_of_characters htext recovery,token_of_characters htext recovery⟩

/-- A word of a letter of two bytes and a digit, a blank, and a question mark. -/
theorem scan_characters_word :
    let cs := ['é','1',' ','?']
    let s := Source.ofUtf8 [0xC3,0xA9,0x31,0x20,0x3F]
    s.bytes.toByteArray = (String.ofList cs).toUTF8 ∧
      ((fun r => r.advance.2)^[1] (Reader.ofSource s)).cursor = 2 ∧
      ((fun r => r.advance.2)^[1] (Reader.ofSource s)).advance.1.map Symbol.char? =
        .ok (some '1') ∧
      (∀ t ∈ (s.scan .skip).tokens,∃ i count,i+count ≤ 4 ∧
        (Lexeme.mk s t).text = String.ofList ((cs.drop i).take count)) ∧
      (s.scan .skip).tokens = [⟨.identifier,.ofWidth 0 3⟩,.finish 5] ∧
      (s.scan .skip).errors = [.lexical 4 (.unrecognized ⟨0x3F,1⟩)] := by
  intro cs s
  have hs : s.bytes.toByteArray = (String.ofList cs).toUTF8 := by decide +kernel
  obtain ⟨hreads,_,hscan⟩ := scan_characters cs s hs
  obtain ⟨hcursor,_,hchar⟩ := hreads 1
  refine ⟨hs,hcursor,hchar,?_,by decide +kernel,by decide +kernel⟩
  intro t ht
  obtain ⟨i,count,hle,_,_,htext,_⟩ := (hscan .skip).2 t ht
  exact ⟨i,count,hle,htext⟩

end Lexis
