import Lexis.Proofs.Characters
import Lexis.Proofs.Payload

/-!
Strict UTF-8 next to plain decoding. The strict form is told by its bytes, `Strict`; decoding to the
end, `decodeAll`, takes more. `strict_iff_decodeAll` says how much more: strict UTF-8 is what decodes
to characters, each of them in its shortest sequence. `fromUTF8_iff_decodeAll` says that these are
the characters of the text.
-/

namespace Lexis

namespace Sequence

/-- The sequences of strict UTF-8. The least and the greatest lead bytes narrow down the byte that
follows them, and so does the one before the surrogates. -/
inductive StrictSequence : List UInt8 → Prop where
  | one {a : UInt8} (lead : a < 0x80) : StrictSequence [a]
  | two {a b : UInt8} (least : 0xC2 ≤ a) (lead : a < 0xE0) (second : isContinuation b = true) :
      StrictSequence [a,b]
  | three {a b c : UInt8} (least : 0xE0 ≤ a) (lead : a < 0xF0)
      (second : isContinuation b = true) (third : isContinuation c = true)
      (shortest : a = 0xE0 → 0xA0 ≤ b) (surrogate : a = 0xED → b < 0xA0) :
      StrictSequence [a,b,c]
  | four {a b c d : UInt8} (least : 0xF0 ≤ a) (lead : a < 0xF5)
      (second : isContinuation b = true) (third : isContinuation c = true)
      (fourth : isContinuation d = true) (shortest : a = 0xF0 → 0x90 ≤ b)
      (greatest : a = 0xF4 → b < 0x90) : StrictSequence [a,b,c,d]

/-- Sequences of strict UTF-8 one after the other. -/
inductive Strict : List UInt8 → Prop where
  | nil : Strict []
  | append {w rest : List UInt8} (first : StrictSequence w) (more : Strict rest) : Strict (w++rest)

/-- Decodes a window to its end, symbol after symbol. -/
def decodeAll (w : List UInt8) : Except Defect (List Symbol) :=
  if _ : w = [] then .ok []
  else
    match _ : decode w with
    | .error defect => .error defect
    | .ok symbol => (decodeAll (w.drop symbol.width)).map (symbol::·)
termination_by w.length
decreasing_by
  have hn : w ≠ [] := by assumption
  have hs := decode_width w symbol (by assumption)
  have hp : symbol.width ≠ 0 := fun h0 => hn (hs.2.mp h0)
  have hl := List.length_pos_iff.mpr hn
  simp only [List.length_drop]
  exact Nat.sub_lt hl (Nat.pos_of_ne_zero hp)

theorem decodeAll_nil : decodeAll [] = .ok [] := by
  rw [decodeAll]
  rfl

theorem decodeAll_symbol (w : List UInt8) (s : Symbol) (hn : w ≠ []) (h : decode w = .ok s) :
    decodeAll w = (decodeAll (w.drop s.width)).map (s::·) := by
  rw [decodeAll,dif_neg hn]
  split <;> simp_all

end Sequence

namespace Symbol

/-- No smaller number of bytes carries the scalar. -/
def IsShortest (s : Symbol) : Prop :=
  ∀ width,width < s.width → Sequence.capacity width ≤ s.scalar.toNat

instance (s : Symbol) : Decidable s.IsShortest :=
  inferInstanceAs (Decidable (∀ width,width < s.width → Sequence.capacity width ≤ s.scalar.toNat))

/-- The sequence of the symbol's width for its scalar. -/
def bytes (s : Symbol) : List UInt8 := Sequence.encode s.width s.scalar.toNat

theorem bytes_ofChar (c : Char) : (ofChar c).bytes = String.utf8EncodeChar c :=
  Spelling.bytes_ofChar c

theorem isShortest_ofChar (c : Char) : (ofChar c).IsShortest := by
  intro width hlt
  show Sequence.capacity width ≤ c.toNat
  have hw : width < c.utf8Size := hlt
  have hsize := utf8Size_cases c
  match width with
  | 0 => exact Nat.zero_le _
  | 1 =>
    show 0x80 ≤ c.toNat
    omega
  | 2 =>
    show 0x800 ≤ c.toNat
    omega
  | 3 =>
    show 0x10000 ≤ c.toNat
    omega
  | _+4 => omega

/-- Of the symbols that can be decoded to a character only one is the shortest. -/
theorem eq_ofChar (s : Symbol) (c : Char) (hc : s.char? = some c)
    (hfits : s.scalar.toNat < Sequence.capacity s.width) (hs : s.IsShortest) : s = ofChar c := by
  have hscalar : s.scalar = c.val := by
    unfold char? at hc
    split at hc
    · cases hc
    · split at hc
      · rw [← Option.some.inj hc]
      · cases hc
  have hwidth : s.width = c.utf8Size := by
    apply Nat.le_antisymm
    · by_contra hlt
      have hsmall := hs c.utf8Size (by omega)
      have hchar : c.toNat < Sequence.capacity c.utf8Size := (Spelling.ofChar c).fits
      rw [hscalar] at hsmall
      exact absurd hchar (Nat.not_lt.mpr hsmall)
    · by_contra hlt
      have hsmall := isShortest_ofChar c s.width (by show s.width < c.utf8Size; omega)
      rw [hscalar] at hfits
      exact absurd hfits (Nat.not_lt.mpr hsmall)
  rw [ofChar,← hscalar,← hwidth]

end Symbol

namespace Sequence

/-- What was decoded to the end is spelled by its symbols, and nothing else is. -/
theorem bytes_of_decodeAll (w : List UInt8) (ss : List Symbol) (h : decodeAll w = .ok ss) :
    w = ss.flatMap Symbol.bytes ∧ ∀ s ∈ ss,s.scalar.toNat < capacity s.width := by
  fun_induction decodeAll w generalizing ss with
  | case1 =>
    obtain rfl : [] = ss := by simpa using h
    simp
  | case2 w hn d hd => cases h
  | case3 w hn s hd ih =>
    cases hr : decodeAll (w.drop s.width) with
    | error d =>
      rw [hr] at h
      cases h
    | ok more =>
      rw [hr] at h
      obtain rfl : s::more = ss := by simpa [Except.map] using h
      have hs : s.width ≠ 0 := by
        intro h0
        exact hn ((decode_width w s hd).2.mp h0)
      obtain ⟨htake,hfits⟩ := decode_spells w s hd (Nat.pos_of_ne_zero hs)
      obtain ⟨hrest,hall⟩ := ih more hr
      constructor
      · rw [List.flatMap_cons,Symbol.bytes,← htake,← hrest,List.take_append_drop]
      · intro t ht
        rcases List.mem_cons.mp ht with rfl | ht
        · exact hfits
        · exact hall t ht

theorem decodeAll_text (xs : List Spelling) :
    decodeAll (Spelling.text xs) = .ok (xs.map Spelling.symbol) := by
  induction xs with
  | nil => exact decodeAll_nil
  | cons x xs ih =>
    obtain ⟨hd,hdrop⟩ := Spelling.decode_text x xs
    have hn : Spelling.text (x::xs) ≠ [] := by
      intro hn
      have hw := x.bytes_length
      have hp := x.width_pos
      rw [Spelling.text_cons,List.append_eq_nil_iff] at hn
      rw [hn.1,List.length_nil] at hw
      omega
    rw [decodeAll_symbol _ x.symbol hn hd,hdrop,ih]
    rfl

theorem decodeAll_characters (cs : List Char) :
    decodeAll (cs.flatMap String.utf8EncodeChar) = .ok (cs.map Symbol.ofChar) := by
  have hsymbols : (cs.map Spelling.ofChar).map Spelling.symbol = cs.map Symbol.ofChar := by
    rw [List.map_map]
    exact List.map_congr_left (fun c _ => Spelling.symbol_ofChar c)
  rw [← Spelling.text_ofChars,decodeAll_text,hsymbols]

/-- Where all symbols are the shortest of some characters, those characters spell the bytes. -/
theorem eq_characters (w : List UInt8) (ss : List Symbol) (cs : List Char)
    (h : decodeAll w = .ok ss) (hshort : ∀ s ∈ ss,s.IsShortest)
    (hcs : ss.map Symbol.char? = cs.map some) : w = cs.flatMap String.utf8EncodeChar := by
  obtain ⟨rfl,hfits⟩ := bytes_of_decodeAll w ss h
  clear h
  induction ss generalizing cs with
  | nil =>
    cases cs with
    | nil => rfl
    | cons c cs => cases hcs
  | cons s ss ih =>
    cases cs with
    | nil => cases hcs
    | cons c cs =>
      obtain ⟨hc,hmore⟩ := List.cons.inj hcs
      have hs := s.eq_ofChar c hc (hfits s List.mem_cons_self) (hshort s List.mem_cons_self)
      have hrest := ih cs (fun t ht => hshort t (List.mem_cons_of_mem s ht)) hmore
        (fun t ht => hfits t (List.mem_cons_of_mem s ht))
      rw [List.flatMap_cons,List.flatMap_cons,hrest,hs,Symbol.bytes_ofChar]

/-- More bytes carry larger scalars. -/
theorem capacity_mono (narrow wide : Nat) (h : narrow ≤ wide) (hwide : wide ≤ 4) :
    capacity narrow ≤ capacity wide := by
  have hall : ∀ narrow wide : Fin 5,narrow ≤ wide → capacity narrow ≤ capacity wide := by decide
  exact hall ⟨narrow,by omega⟩ ⟨wide,by omega⟩ h

theorem toNat_marked (tag d : Nat) (h : tag+d < 256) : (UInt8.ofNat (tag+d)).toNat = tag+d :=
  UInt8.toNat_ofNat_of_lt' h

/-- The shortest sequence of a character is strict. -/
theorem strictSequence_encode (width n : Nat) (hn : n < capacity width)
    (hshort : ∀ narrow,narrow < width → capacity narrow ≤ n) (hvalid : n.isValidChar) :
    StrictSequence (encode width n) := by
  have hs : n < 0xD800 ∨ 0xDFFF < n ∧ n < 0x110000 := hvalid
  have group (count : Nat) : isContinuation (UInt8.ofNat (0x80+n/weight count%64)) = true :=
    isContinuation_group _ (Nat.mod_lt _ (by decide))
  match width with
  | 0 => exact absurd hn (Nat.not_lt_zero n)
  | 1 =>
    have hhigh : n < 0x80 := hn
    have ha := toNat_marked 0 n (by omega)
    rw [Nat.zero_add] at ha
    apply StrictSequence.one
    rw [UInt8.lt_iff_toNat_lt,ha]
    exact hhigh
  | 2 =>
    have hlow : 0x80 ≤ n := hshort 1 (by decide)
    have hhigh : n < 0x800 := hn
    have ha := toNat_marked 0xC0 (n/64) (by omega)
    refine .two ?_ ?_ (group 0)
    all_goals simp only [weight,UInt8.le_iff_toNat_le,UInt8.lt_iff_toNat_lt,ha,UInt8.toNat_ofNat]
    all_goals omega
  | 3 =>
    have hlow : 0x800 ≤ n := hshort 2 (by decide)
    have hhigh : n < 0x10000 := hn
    have ha := toNat_marked 0xE0 (n/4096) (by omega)
    have hb := toNat_marked 0x80 (n/64%64) (by omega)
    refine .three ?_ ?_ (group 1) (group 0) ?_ ?_
    all_goals simp only [weight,UInt8.le_iff_toNat_le,UInt8.lt_iff_toNat_lt,← UInt8.toNat_inj,ha,hb,
      UInt8.toNat_ofNat]
    all_goals omega
  | 4 =>
    have hlow : 0x10000 ≤ n := hshort 3 (by decide)
    have ha := toNat_marked 0xF0 (n/262144) (by omega)
    have hb := toNat_marked 0x80 (n/4096%64) (by omega)
    refine .four ?_ ?_ (group 2) (group 1) (group 0) ?_ ?_
    all_goals simp only [weight,UInt8.le_iff_toNat_le,UInt8.lt_iff_toNat_lt,← UInt8.toNat_inj,ha,hb,
      UInt8.toNat_ofNat]
    all_goals omega
  | _+5 => exact absurd hn (Nat.not_lt_zero n)

theorem ofNat_eq (b : UInt8) (n : Nat) (h : n = b.toNat) : UInt8.ofNat n = b := by
  rw [h,UInt8.ofNat_toNat]

/-- A strict sequence is the shortest one of a character. -/
theorem exists_encode (w : List UInt8) (h : StrictSequence w) :
    ∃ width n,encode width n = w ∧ n < capacity width ∧
      (∀ narrow,narrow < width → capacity narrow ≤ n) ∧ n.isValidChar := by
  -- Every narrower sequence carries less than the one that is a byte shorter.
  have widest (width n : Nat) (hw : width < 4) (hn : capacity width ≤ n) :
      ∀ narrow,narrow < width+1 → capacity narrow ≤ n := by
    intro narrow hlt
    exact Nat.le_trans (capacity_mono narrow width (by omega) (by omega)) hn
  cases h with
  | @one a lead =>
    have ha : a.toNat < 0x80 := UInt8.lt_iff_toNat_lt.mp lead
    refine ⟨1,a.toNat,?_,ha,widest 0 _ (by decide) (Nat.zero_le _),.inl ?_⟩
    · show [UInt8.ofNat a.toNat] = [a]
      rw [UInt8.ofNat_toNat]
    · omega
  | @two a b least lead second =>
    obtain ⟨hb,hb',_⟩ := payload_continuation b second
    simp only [UInt8.le_iff_toNat_le,UInt8.lt_iff_toNat_lt,UInt8.toNat_ofNat] at least lead
    refine ⟨2,(a.toNat-0xC0)*64+(b.toNat-0x80),?_,?_,widest 1 _ (by decide) ?_,.inl ?_⟩
    · show [UInt8.ofNat _,UInt8.ofNat _] = [a,b]
      rw [ofNat_eq a,ofNat_eq b]
      all_goals simp only [weight]
      all_goals omega
    · simp only [capacity]
      omega
    · simp only [capacity]
      omega
    · omega
  | @three a b c least lead second third shortest surrogate =>
    obtain ⟨hb,hb',_⟩ := payload_continuation b second
    obtain ⟨hc,hc',_⟩ := payload_continuation c third
    simp only [UInt8.le_iff_toNat_le,UInt8.lt_iff_toNat_lt,← UInt8.toNat_inj,
      UInt8.toNat_ofNat] at least lead shortest surrogate
    refine ⟨3,(a.toNat-0xE0)*4096+(b.toNat-0x80)*64+(c.toNat-0x80),?_,?_,
      widest 2 _ (by decide) ?_,?_⟩
    · show [UInt8.ofNat _,UInt8.ofNat _,UInt8.ofNat _] = [a,b,c]
      rw [ofNat_eq a,ofNat_eq b,ofNat_eq c]
      all_goals simp only [weight]
      all_goals omega
    · simp only [capacity]
      omega
    · simp only [capacity]
      omega
    · simp only [Nat.isValidChar]
      omega
  | @four a b c d least lead second third fourth shortest greatest =>
    obtain ⟨hb,hb',_⟩ := payload_continuation b second
    obtain ⟨hc,hc',_⟩ := payload_continuation c third
    obtain ⟨hd,hd',_⟩ := payload_continuation d fourth
    simp only [UInt8.le_iff_toNat_le,UInt8.lt_iff_toNat_lt,← UInt8.toNat_inj,
      UInt8.toNat_ofNat] at least lead shortest greatest
    refine ⟨4,(a.toNat-0xF0)*262144+(b.toNat-0x80)*4096+(c.toNat-0x80)*64+(d.toNat-0x80),?_,?_,
      widest 3 _ (by decide) ?_,.inr ?_⟩
    · show [UInt8.ofNat _,UInt8.ofNat _,UInt8.ofNat _,UInt8.ofNat _] = [a,b,c,d]
      rw [ofNat_eq a,ofNat_eq b,ofNat_eq c,ofNat_eq d]
      all_goals simp only [weight]
      all_goals omega
    · simp only [capacity]
      omega
    · simp only [capacity]
      omega
    · omega

theorem strictSequence_iff (w : List UInt8) :
    StrictSequence w ↔ ∃ c,w = String.utf8EncodeChar c := by
  constructor
  · intro h
    obtain ⟨width,n,rfl,hn,hshort,hvalid⟩ := exists_encode w h
    have hsmall := Nat.lt_of_lt_of_le hn (capacity_le width)
    have hscalar : (UInt32.ofNat n).toNat = n := by
      apply UInt32.toNat_ofNat_of_lt'
      show n < 4294967296
      exact Nat.lt_trans hsmall (by decide)
    let s : Symbol := ⟨UInt32.ofNat n,width⟩
    have hend : s.isEnd = false := Spelling.symbol_isEnd ⟨n,width,hn⟩
    have hv : s.scalar.isValidChar := by
      show (UInt32.ofNat n).toNat.isValidChar
      rw [hscalar]
      exact hvalid
    let c : Char := ⟨s.scalar,hv⟩
    have hc : s.char? = some c := by simp [Symbol.char?,hend,hv,c]
    have hfits : s.scalar.toNat < capacity s.width := by
      show (UInt32.ofNat n).toNat < capacity width
      rwa [hscalar]
    have hs : s.IsShortest := by
      show ∀ narrow,narrow < width → capacity narrow ≤ (UInt32.ofNat n).toNat
      rwa [hscalar]
    refine ⟨c,?_⟩
    rw [← Symbol.bytes_ofChar,← s.eq_ofChar c hc hfits hs]
    show encode width n = encode width (UInt32.ofNat n).toNat
    rw [hscalar]
  · rintro ⟨c,rfl⟩
    rw [← Symbol.bytes_ofChar]
    exact strictSequence_encode c.utf8Size c.toNat (Spelling.ofChar c).fits
      (Symbol.isShortest_ofChar c) c.valid

theorem strict_iff (bytes : List UInt8) :
    Strict bytes ↔ ∃ cs : List Char,bytes = cs.flatMap String.utf8EncodeChar := by
  constructor
  · intro h
    induction h with
    | nil => exact ⟨[],rfl⟩
    | append first _ ih =>
      obtain ⟨c,rfl⟩ := (strictSequence_iff _).mp first
      obtain ⟨cs,rfl⟩ := ih
      exact ⟨c::cs,rfl⟩
  · rintro ⟨cs,rfl⟩
    induction cs with
    | nil => exact .nil
    | cons c cs ih =>
      rw [List.flatMap_cons]
      exact .append ((strictSequence_iff _).mpr ⟨c,rfl⟩) ih

end Sequence

/-- Symbols that are all characters are the symbols of those characters. -/
theorem forall_char_iff (ss : List Symbol) :
    (∀ s ∈ ss,s.char?.isSome = true) ↔ ∃ cs : List Char,ss.map Symbol.char? = cs.map some := by
  constructor
  · intro h
    induction ss with
    | nil => exact ⟨[],rfl⟩
    | cons s ss ih =>
      obtain ⟨c,hc⟩ := Option.isSome_iff_exists.mp (h s List.mem_cons_self)
      obtain ⟨cs,hcs⟩ := ih (fun t ht => h t (List.mem_cons_of_mem s ht))
      refine ⟨c::cs,?_⟩
      rw [List.map_cons,List.map_cons,hc,hcs]
  · rintro ⟨cs,hcs⟩ s hs
    have hc : s.char? ∈ cs.map some := by
      rw [← hcs]
      exact List.mem_map_of_mem hs
    obtain ⟨c,_,hc⟩ := List.mem_map.mp hc
    rw [← hc]
    rfl

/-- The text of bytes is the characters that they decode to, if each is in its shortest sequence. -/
theorem fromUTF8_iff_decodeAll (bytes : List UInt8) (text : String) :
    String.fromUTF8? bytes.toByteArray = some text ↔
      ∃ ss,Sequence.decodeAll bytes = .ok ss ∧ (∀ s ∈ ss,s.IsShortest) ∧
        ss.map Symbol.char? = text.toList.map some := by
  rw [fromUTF8_eq_some_iff]
  constructor
  · rintro rfl
    refine ⟨_,Sequence.decodeAll_characters text.toList,?_,?_⟩
    · intro s hs
      obtain ⟨c,_,rfl⟩ := List.mem_map.mp hs
      exact Symbol.isShortest_ofChar c
    · rw [List.map_map]
      exact List.map_congr_left (fun c _ => Symbol.char_ofChar c)
  · rintro ⟨ss,h,hshort,hcs⟩
    exact Sequence.eq_characters bytes ss text.toList h hshort hcs

theorem fromUTF8_isSome_iff (bytes : List UInt8) :
    (String.fromUTF8? bytes.toByteArray).isSome = true ↔ Sequence.Strict bytes := by
  rw [Sequence.strict_iff,Option.isSome_iff_exists]
  constructor
  · rintro ⟨text,h⟩
    exact ⟨text.toList,(fromUTF8_eq_some_iff bytes text).mp h⟩
  · rintro ⟨cs,h⟩
    refine ⟨String.ofList cs,(fromUTF8_eq_some_iff bytes _).mpr ?_⟩
    rw [String.toList_ofList]
    exact h

/-- Strict UTF-8 is what decodes to the end, each symbol being a character in its shortest
sequence. -/
theorem strict_iff_decodeAll (bytes : List UInt8) :
    Sequence.Strict bytes ↔ ∃ ss,Sequence.decodeAll bytes = .ok ss ∧
      ∀ s ∈ ss,s.char?.isSome = true ∧ s.IsShortest := by
  rw [← fromUTF8_isSome_iff,Option.isSome_iff_exists]
  simp only [fromUTF8_iff_decodeAll]
  constructor
  · rintro ⟨text,ss,h,hshort,hcs⟩
    have hchars := (forall_char_iff ss).mpr ⟨text.toList,hcs⟩
    exact ⟨ss,h,fun s hs => ⟨hchars s hs,hshort s hs⟩⟩
  · rintro ⟨ss,h,hall⟩
    obtain ⟨cs,hcs⟩ := (forall_char_iff ss).mp (fun s hs => (hall s hs).1)
    refine ⟨String.ofList cs,ss,h,fun s hs => (hall s hs).2,?_⟩
    rw [String.toList_ofList]
    exact hcs

end Lexis
