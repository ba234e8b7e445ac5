import Lexis.Proofs.Run
import Mathlib.Tactic.SplitIfs

/-!
Token classes by their characters: which character begins a token of a class, and which ones
continue it. `read_eq` puts reading an item in these terms, one case for all classes of tokens, and
`read_append` says how a lexeme is read where other bytes follow it.
-/

namespace Lexis

namespace Kind

/-- The class of the token that a character begins. -/
def ofFirst? (c : Char) : Option Kind :=
  if Unicode.isAlphabetic c then some .identifier
  else if c.isDigit then some .integer
  else punctuator? c

/-- The characters that continue a token of the class. A punctuator has no more than one. -/
def continuedBy : Kind → Char → Bool
  | .identifier => isWordChar
  | .integer => Char.isDigit
  | _ => fun _ => false

theorem punctuator_class (c : Char) (kind : Kind) (h : punctuator? c = some kind) :
    kind ≠ .identifier ∧ kind ≠ .integer ∧ kind ≠ .endOfFile := by
  unfold punctuator? at h
  split at h <;> simp at h <;> subst h <;> simp

theorem continuedBy_of_punctuator (c : Char) (kind : Kind) (h : punctuator? c = some kind) :
    kind.continuedBy = fun _ => false := by
  obtain ⟨hi,hn,_⟩ := punctuator_class c kind h
  cases kind <;> first | rfl | contradiction

theorem ofFirst_cases (c : Char) (kind : Kind) (h : ofFirst? c = some kind) :
    (Unicode.isAlphabetic c = true ∧ kind = .identifier) ∨
      (Unicode.isAlphabetic c = false ∧ c.isDigit = true ∧ kind = .integer) ∨
        (Unicode.isAlphabetic c = false ∧ c.isDigit = false ∧ punctuator? c = some kind) := by
  unfold ofFirst? at h
  split_ifs at h with ha hd
  · exact .inl ⟨ha,(Option.some.inj h).symm⟩
  · exact .inr (.inl ⟨by simpa using ha,hd,(Option.some.inj h).symm⟩)
  · exact .inr (.inr ⟨by simpa using ha,by simpa using hd,h⟩)

/-- The end of a source is no character. -/
theorem ofFirst_ne_end (c : Char) (kind : Kind) (h : ofFirst? c = some kind) :
    kind ≠ .endOfFile := by
  rcases ofFirst_cases c kind h with ⟨_,rfl⟩ | ⟨_,_,rfl⟩ | ⟨_,_,hp⟩
  · simp
  · simp
  · exact (punctuator_class c kind hp).2.2

end Kind

/-- The letters begin after the digits, the punctuators and the blanks. -/
theorem alphabetic_low (c : Char) (h : c.toNat < 0x41) : Unicode.isAlphabetic c = false := by
  have hu : c.toNat ≤ 0x5A := by omega
  have hl : ¬ 0x41 ≤ c.toNat := by omega
  change (if c.toNat ≤ 0x5A then decide (0x41 ≤ c.toNat) else _) = false
  rw [if_pos hu,decide_eq_false hl]

theorem alphabetic_digit (c : Char) (h : c.isDigit = true) : Unicode.isAlphabetic c = false := by
  obtain ⟨_,hu⟩ : 48 ≤ c.val ∧ c.val ≤ 57 := by simpa [Char.isDigit] using h
  have hn : c.toNat ≤ 57 := UInt32.le_iff_toNat_le.mp hu
  exact alphabetic_low c (by omega)

theorem blank_cases (c : Char) (h : isBlank c = true) :
    c = ' ' ∨ c = '\t' ∨ c = '\n' ∨ c = '\r' := by
  simpa [isBlank,or_assoc] using h

theorem ofFirst_blank (c : Char) (h : isBlank c = true) : Kind.ofFirst? c = none := by
  rcases blank_cases c h with rfl | rfl | rfl | rfl <;> rfl

/-- A blank ends every token. -/
theorem continuedBy_blank (kind : Kind) (c : Char) (h : isBlank c = true) :
    kind.continuedBy c = false := by
  rcases blank_cases c h with rfl | rfl | rfl | rfl <;> cases kind <;> rfl

/-- The blanks in their shortest form, a byte each. -/
def blankBytes : List UInt8 := [0x20,0x09,0x0A,0x0D]

theorem blankBytes_cases (b : UInt8) (hb : b ∈ blankBytes) :
    b = 0x20 ∨ b = 0x09 ∨ b = 0x0A ∨ b = 0x0D := by
  simpa [blankBytes] using hb

theorem decode_blank (b : UInt8) (r : List UInt8) (hb : b ∈ blankBytes) :
    ∃ s c,Sequence.decode (b::r) = .ok s ∧ s.width = 1 ∧ s.char? = some c ∧ isBlank c = true := by
  rcases blankBytes_cases b hb with rfl | rfl | rfl | rfl
  · exact ⟨⟨0x20,1⟩,' ',rfl,rfl,rfl,rfl⟩
  · exact ⟨⟨0x09,1⟩,'\t',rfl,rfl,rfl,rfl⟩
  · exact ⟨⟨0x0A,1⟩,'\n',rfl,rfl,rfl,rfl⟩
  · exact ⟨⟨0x0D,1⟩,'\r',rfl,rfl,rfl,rfl⟩

/-- A blank byte continues no sequence. -/
theorem isContinuation_blank (b : UInt8) (hb : b ∈ blankBytes) :
    Sequence.isContinuation b = false := by
  rcases blankBytes_cases b hb with rfl | rfl | rfl | rfl <;> rfl

namespace Item

theorem read_eq (w : List UInt8) :
    read w = match Sequence.decode w with
      | .error d => .fault (.malformed d)
      | .ok s =>
        if s.isEnd then .finish
        else match s.char?.bind Kind.ofFirst? with
          | none => .fault (.unrecognized s)
          | some kind => .lexeme kind (s.width+runWidth kind.continuedBy (w.drop s.width)) := by
  cases hd : Sequence.decode w with
  | error d => simp [read,hd]
  | ok s =>
    cases hs : s.isEnd with
    | true => simp [read,hd,hs]
    | false =>
      cases hc : s.char? with
      | none => simp [read,hd,hs,hc]
      | some c =>
        by_cases ha : Unicode.isAlphabetic c = true
        · have hr := runWidth_of_accept isWordChar w s c hd hc (by simp [isWordChar,ha])
          simp [read,hd,hs,hc,Kind.ofFirst?,Kind.continuedBy,ha,hr]
        · by_cases hn : c.isDigit = true
          · have hr := runWidth_of_accept Char.isDigit w s c hd hc hn
            simp [read,hd,hs,hc,Kind.ofFirst?,Kind.continuedBy,ha,hn,hr]
          · cases hp : Kind.punctuator? c with
            | none => simp [read,hd,hs,hc,Kind.ofFirst?,ha,hn,hp]
            | some kind =>
              simp [read,hd,hs,hc,Kind.ofFirst?,ha,hn,hp,
                Kind.continuedBy_of_punctuator c kind hp,runWidth_never]

theorem read_eq_finish_iff (w : List UInt8) : read w = .finish ↔ w = [] := by
  constructor
  · intro h
    rw [read_eq] at h
    split at h
    · simp at h
    · next s hd =>
      split_ifs at h with hs
      · exact (Sequence.decode_width w s hd).2.mp (by simpa [Symbol.isEnd] using hs)
      · split at h <;> simp at h
  · intro h
    rw [h]
    rfl

theorem read_eq_lexeme_iff (w : List UInt8) (kind : Kind) (width : Nat) :
    read w = .lexeme kind width ↔
      ∃ s c,Sequence.decode w = .ok s ∧ s.char? = some c ∧ Kind.ofFirst? c = some kind ∧
        width = s.width+runWidth kind.continuedBy (w.drop s.width) := by
  constructor
  · intro h
    rw [read_eq] at h
    split at h
    · simp at h
    · next s hd =>
      split_ifs at h with hs
      split at h
      · simp at h
      · next k hk =>
        obtain ⟨rfl,rfl⟩ : k = kind ∧ s.width+runWidth k.continuedBy (w.drop s.width) = width := by
          simpa using h
        obtain ⟨c,hc,hf⟩ := Option.bind_eq_some_iff.mp hk
        exact ⟨s,c,hd,hc,hf,rfl⟩
  · intro h
    obtain ⟨s,c,hd,hc,hf,rfl⟩ := h
    have hs : s.isEnd = false := by
      have hp := s.width_pos_of_char c hc
      simp [Symbol.isEnd]
      omega
    simp [read_eq,hd,hs,hc,hf]

theorem read_eq_fault_iff (w : List UInt8) (f : Fault) :
    read w = .fault f ↔
      (∃ d,Sequence.decode w = .error d ∧ f = .malformed d) ∨
        ∃ s,Sequence.decode w = .ok s ∧ s.isEnd = false ∧ s.char?.bind Kind.ofFirst? = none ∧
          f = .unrecognized s := by
  constructor
  · intro h
    rw [read_eq] at h
    split at h
    · next d hd => exact .inl ⟨d,hd,by simpa using h.symm⟩
    · next s hd =>
      split_ifs at h with hs
      split at h
      · next hk => exact .inr ⟨s,hd,by simpa using hs,hk,by simpa using h.symm⟩
      · simp at h
  · intro h
    rcases h with ⟨d,hd,rfl⟩ | ⟨s,hd,hs,hk,rfl⟩
    · simp [read_eq,hd]
    · simp [read_eq,hd,hs,hk]

/-- A lexeme lies inside its window and takes at least a byte. -/
theorem lexeme_width (w : List UInt8) (kind : Kind) (width : Nat)
    (h : read w = .lexeme kind width) : 0 < width ∧ width ≤ w.length := by
  obtain ⟨s,c,hd,hc,_,rfl⟩ := (read_eq_lexeme_iff w kind width).mp h
  have hp := s.width_pos_of_char c hc
  have hw := (Sequence.decode_width w s hd).1
  have hr := runWidth_le kind.continuedBy (w.drop s.width)
  rw [List.length_drop] at hr
  omega

/-- The bytes of a lexeme are that lexeme in a window of their own. -/
theorem read_take (w : List UInt8) (kind : Kind) (width : Nat)
    (h : read w = .lexeme kind width) : read (w.take width) = .lexeme kind width := by
  obtain ⟨s,c,hd,hc,hf,rfl⟩ := (read_eq_lexeme_iff w kind width).mp h
  apply (read_eq_lexeme_iff _ _ _).mpr
  refine ⟨s,c,?_,hc,hf,?_⟩
  · exact Sequence.decode_take w s _ hd (by omega)
  · rw [List.drop_take,Nat.add_sub_cancel_left,runWidth_take]

/-- Bytes after a lexeme change it only by continuing it. -/
theorem read_append (l r : List UInt8) (kind : Kind) (h : read l = .lexeme kind l.length) :
    read (l++r) = .lexeme kind (l.length+runWidth kind.continuedBy r) := by
  obtain ⟨s,c,hd,hc,hf,hl⟩ := (read_eq_lexeme_iff l kind l.length).mp h
  have hw := (Sequence.decode_width l s hd).1
  have hp := s.width_pos_of_char c hc
  have hn : l ≠ [] := List.length_pos_iff.mp (by omega)
  have hr : runWidth kind.continuedBy (l.drop s.width) = (l.drop s.width).length := by
    rw [List.length_drop]
    omega
  apply (read_eq_lexeme_iff _ _ _).mpr
  refine ⟨s,c,?_,hc,hf,?_⟩
  · exact Sequence.decode_append_of_ok l r s hn hd
  · rw [List.drop_append_of_le_length hw,runWidth_append _ _ _ hr,List.length_drop]
    omega

end Item

end Lexis
