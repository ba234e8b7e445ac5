import Lexis.Proofs.Class

/-!
The characters that tokens are made of, said without the tests that read them: blanks, letters,
figures and marks as lists and ranges. The reader tests for nothing else: `begunBy_eq` says so of
the first character of a token, `continues_iff` of those behind it.
-/

namespace Lexis

/-- Characters that stand between tokens. -/
def IsBlank (c : Char) : Prop := c ∈ [' ','\t','\n','\r']

/-- Characters with the property Alphabetic. -/
def IsLetter (c : Char) : Prop :=
  ∃ range ∈ Unicode.alphabetic,range.1 ≤ c.toNat ∧ c.toNat ≤ range.2

def IsFigure (c : Char) : Prop := '0' ≤ c ∧ c ≤ '9'

/-- Characters of a word behind its first letter. -/
def ContinuesWord (c : Char) : Prop := IsLetter c ∨ IsFigure c ∨ c = '_'

instance : DecidablePred IsBlank := fun c => inferInstanceAs (Decidable (c ∈ [' ','\t','\n','\r']))

instance : DecidablePred IsLetter := fun c =>
  inferInstanceAs (Decidable (∃ range ∈ Unicode.alphabetic,range.1 ≤ c.toNat ∧ c.toNat ≤ range.2))

instance : DecidablePred IsFigure := fun c => inferInstanceAs (Decidable ('0' ≤ c ∧ c ≤ '9'))

instance : DecidablePred ContinuesWord := fun c =>
  inferInstanceAs (Decidable (IsLetter c ∨ IsFigure c ∨ c = '_'))

namespace Kind

/-- Characters that are tokens, with their classes. -/
def marks : List (Char × Kind) :=
  [('(',.leftParen),(')',.rightParen),('+',.plus),('-',.minus),('*',.star),('/',.slash),
   ('=',.equals)]

/-- Characters that go on with a token of the class. Nothing goes on with a mark. -/
def Continues (kind : Kind) (c : Char) : Prop :=
  kind = .identifier ∧ ContinuesWord c ∨ kind = .integer ∧ IsFigure c

/-- The class of the token that a character begins. -/
def begunBy? (c : Char) : Option Kind :=
  if IsLetter c then some .identifier
  else if IsFigure c then some .integer
  else marks.lookup c

instance (kind : Kind) : DecidablePred kind.Continues := fun c =>
  inferInstanceAs (Decidable
    (kind = .identifier ∧ ContinuesWord c ∨ kind = .integer ∧ IsFigure c))

end Kind

theorem isBlank_iff (c : Char) : IsBlank c ↔ isBlank c = true := by
  simp [IsBlank,isBlank,or_assoc]

theorem isLetter_iff (c : Char) : IsLetter c ↔ Unicode.isAlphabetic c = true :=
  (Unicode.Ranges.holds_iff 0 _ Unicode.alphabetic_increasing c.toNat).symm

theorem isDigit_iff (c : Char) : IsFigure c ↔ c.isDigit = true := by
  simp only [IsFigure,Char.isDigit,Bool.and_eq_true,decide_eq_true_eq]
  rfl

theorem isWordChar_iff (c : Char) : ContinuesWord c ↔ isWordChar c = true := by
  simp [ContinuesWord,isLetter_iff,isDigit_iff,isWordChar,or_assoc]

namespace Kind

theorem mem_marks_iff (c : Char) (kind : Kind) : (c,kind) ∈ marks ↔ punctuator? c = some kind := by
  constructor
  · intro h
    simp only [marks,List.mem_cons,Prod.mk.injEq,List.not_mem_nil,or_false] at h
    rcases h with ⟨rfl,rfl⟩ | ⟨rfl,rfl⟩ | ⟨rfl,rfl⟩ | ⟨rfl,rfl⟩ | ⟨rfl,rfl⟩ | ⟨rfl,rfl⟩ |
      ⟨rfl,rfl⟩ <;> rfl
  · intro h
    unfold punctuator? at h
    split at h <;> simp at h <;> subst h <;> simp [marks]

/-- No letter and no figure is a punctuator. -/
theorem ofFirst_of_punctuator (c : Char) (kind : Kind) (h : punctuator? c = some kind) :
    ofFirst? c = some kind := by
  have hlow : c.toNat < 0x41 ∧ c.isDigit = false := by
    unfold punctuator? at h
    split at h <;> first | exact ⟨by decide,by decide⟩ | cases h
  rw [ofFirst?,alphabetic_low c hlow.1,hlow.2]
  exact h

theorem ofFirst_eq_identifier_iff (c : Char) : ofFirst? c = some .identifier ↔ IsLetter c := by
  constructor
  · intro h
    rcases ofFirst_cases c _ h with ⟨ha,_⟩ | ⟨_,_,hk⟩ | ⟨_,_,hp⟩
    · exact (isLetter_iff c).mpr ha
    · cases hk
    · exact absurd rfl (punctuator_class c _ hp).1
  · intro h
    exact if_pos ((isLetter_iff c).mp h)

theorem ofFirst_eq_integer_iff (c : Char) : ofFirst? c = some .integer ↔ IsFigure c := by
  rw [isDigit_iff]
  constructor
  · intro h
    rcases ofFirst_cases c _ h with ⟨_,hk⟩ | ⟨_,hd,_⟩ | ⟨_,_,hp⟩
    · cases hk
    · exact hd
    · exact absurd rfl (punctuator_class c _ hp).2.1
  · intro hd
    rw [ofFirst?,alphabetic_digit c hd,hd]
    rfl

theorem ofFirst_eq_mark_iff (c : Char) (kind : Kind) (hword : kind ≠ .identifier)
    (hnumber : kind ≠ .integer) : ofFirst? c = some kind ↔ (c,kind) ∈ marks := by
  rw [mem_marks_iff]
  constructor
  · intro h
    rcases ofFirst_cases c kind h with ⟨_,hk⟩ | ⟨_,_,hk⟩ | ⟨_,_,hp⟩
    · exact absurd hk hword
    · exact absurd hk hnumber
    · exact hp
  · exact ofFirst_of_punctuator c kind

theorem lookup_marks (c : Char) : marks.lookup c = punctuator? c := by
  unfold punctuator?
  split
  case h_8 hleft hright hplus hminus hstar hslash hequals =>
    rw [List.lookup_eq_none_iff]
    simpa [marks] using ⟨hleft,hright,hplus,hminus,hstar,hslash,hequals⟩
  all_goals rfl

theorem begunBy_eq : begunBy? = ofFirst? := by
  funext c
  rw [begunBy?,ofFirst?,lookup_marks]
  simp only [isLetter_iff,isDigit_iff]

theorem continues_iff (kind : Kind) (c : Char) : kind.Continues c ↔ kind.continuedBy c = true := by
  cases kind <;> simp [Continues,continuedBy,isWordChar_iff,isDigit_iff]

end Kind

end Lexis
