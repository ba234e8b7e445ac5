import Lexis.Proofs.Spelling

/-!
What the bytes of a sequence carry. Each continuation byte brings six bits, and the scalar has room
for all of them: it never outgrows 21 bits. So a scalar that was read holds every bit of its
sequence, and spelling it in the same width gives the same bytes back.
-/

namespace Lexis

namespace Sequence

/-- The bits that mark the lead byte of a sequence of the given width. -/
def mark : Nat → Nat
  | 2 => 0xC0
  | 3 => 0xE0
  | 4 => 0xF0
  | _ => 0

theorem encode_succ (following n : Nat) (h : following < 4) :
    encode (following+1) n =
      UInt8.ofNat (mark (following+1)+n/weight following)::continuations following n := by
  match following with
  | 0 => simp [encode,mark,weight,continuations]
  | 1 => rfl
  | 2 => rfl
  | 3 => rfl

theorem weight_pos (count : Nat) : 0 < weight count := by
  induction count with
  | zero => decide
  | succ count ih => exact Nat.mul_pos ih (by decide)

/-- The scalar fits into 21 bits together with the continuation bytes that are still missing. -/
def Room (missing : Nat) (scalar : UInt32) : Prop := (scalar.toNat+1)*weight missing ≤ capacity 4

theorem Room.lt {missing : Nat} {scalar : UInt32} (h : Room (missing+1) scalar) :
    scalar.toNat < 0x8000 := by
  have hw := weight_pos missing
  have hc : (scalar.toNat+1)*64*weight missing ≤ 0x200000 := by
    rw [Nat.mul_assoc,Nat.mul_comm 64]
    exact h
  have hm : (scalar.toNat+1)*64 ≤ (scalar.toNat+1)*64*weight missing := Nat.le_mul_of_pos_right _ hw
  omega

/-- Taking a mark off a byte that is not below it. -/
theorem toNat_unmark (b tag : UInt8) (h : ¬ b < tag) :
    tag.toNat ≤ b.toNat ∧ (b.toUInt32-tag.toUInt32).toNat = b.toNat-tag.toNat := by
  have hle : tag.toNat ≤ b.toNat := UInt8.le_iff_toNat_le.mp (UInt8.not_lt.mp h)
  have hword : tag.toUInt32 ≤ b.toUInt32 := by
    apply UInt32.le_iff_toNat_le.mpr
    rw [UInt8.toNat_toUInt32,UInt8.toNat_toUInt32]
    exact hle
  refine ⟨hle,?_⟩
  rw [UInt32.toNat_sub_of_le _ _ hword,UInt8.toNat_toUInt32,UInt8.toNat_toUInt32]

theorem payload_continuation (b : UInt8) (h : isContinuation b = true) :
    0x80 ≤ b.toNat ∧ b.toNat < 0xC0 ∧ (b.toUInt32-0x80).toNat = b.toNat-0x80 := by
  obtain ⟨hl,hu⟩ : 0x80 ≤ b ∧ b < 0xC0 := by simpa [isContinuation] using h
  obtain ⟨hle,hp⟩ := toNat_unmark b 0x80 (UInt8.not_lt.mpr hl)
  exact ⟨hle,UInt8.lt_iff_toNat_lt.mp hu,hp⟩

/-- A continuation byte joins the scalar with all its bits, and there is room for the rest. -/
theorem Room.step {missing : Nat} {scalar : UInt32} (b : UInt8) (h : Room (missing+1) scalar)
    (hb : isContinuation b = true) :
    (scalar*64+(b.toUInt32-0x80)).toNat = scalar.toNat*64+(b.toNat-0x80) ∧
      Room missing (scalar*64+(b.toUInt32-0x80)) := by
  obtain ⟨hl,hu,hp⟩ := payload_continuation b hb
  have hlt := h.lt
  have hvalue : (scalar*64+(b.toUInt32-0x80)).toNat = scalar.toNat*64+(b.toNat-0x80) := by
    rw [UInt32.toNat_add,UInt32.toNat_mul,hp]
    change (scalar.toNat*64%4294967296+(b.toNat-0x80))%4294967296 = _
    omega
  refine ⟨hvalue,?_⟩
  have hgroup : scalar.toNat*64+(b.toNat-0x80)+1 ≤ (scalar.toNat+1)*64 := by omega
  calc
    ((scalar*64+(b.toUInt32-0x80)).toNat+1)*weight missing
        = (scalar.toNat*64+(b.toNat-0x80)+1)*weight missing := by rw [hvalue]
    _ ≤ (scalar.toNat+1)*64*weight missing := Nat.mul_le_mul_right _ hgroup
    _ = (scalar.toNat+1)*weight (missing+1) := by rw [weight,Nat.mul_assoc,Nat.mul_comm 64]
    _ ≤ capacity 4 := h

/-- The scalar that was gathered has the former one above the six-bit groups of the bytes. -/
theorem gather_spells (missing taken : Nat) (scalar : UInt32) (w : List UInt8) (s : Symbol)
    (hr : Room missing scalar) (h : gather missing taken scalar w = .ok s) :
    s.scalar.toNat/weight missing = scalar.toNat ∧
      w.take missing = continuations missing s.scalar.toNat := by
  induction missing generalizing taken scalar w with
  | zero =>
    have hs : Symbol.mk scalar taken = s := by simpa [gather] using h
    rw [← hs]
    exact ⟨Nat.div_one _,rfl⟩
  | succ missing ih =>
    cases w with
    | nil => simp [gather] at h
    | cons b rest =>
      cases hb : isContinuation b with
      | false => simp [gather,hb] at h
      | true =>
        simp only [gather,hb,if_true] at h
        obtain ⟨hl,hu,_⟩ := payload_continuation b hb
        obtain ⟨hvalue,hroom⟩ := hr.step b hb
        obtain ⟨hdiv,htake⟩ := ih _ _ rest hroom h
        rw [hvalue] at hdiv
        constructor
        · rw [weight,← Nat.div_div_eq_div_mul,hdiv]
          omega
        · have hgroup : 0x80+s.scalar.toNat/weight missing%64 = b.toNat := by
            rw [hdiv]
            omega
          rw [List.take_succ_cons,htake,continuations,hgroup,UInt8.ofNat_toNat]

/-- A lead byte is its mark with the uppermost bits of the scalar, and leaves room for the rest. -/
theorem lead_some (b : UInt8) (following : Nat) (scalar : UInt32)
    (h : lead? b = some (following,scalar)) :
    following < 4 ∧ b.toNat = mark (following+1)+scalar.toNat ∧
      (scalar.toNat+1)*weight following ≤ capacity (following+1) := by
  -- Each kind of lead byte is bounded by the mark of the next one.
  have marked (tag next : UInt8) (hl : ¬ b < tag) (hu : b < next) :
      b.toNat = tag.toNat+(b.toUInt32-tag.toUInt32).toNat ∧
        (b.toUInt32-tag.toUInt32).toNat+1 ≤ next.toNat-tag.toNat := by
    obtain ⟨hle,hp⟩ := toNat_unmark b tag hl
    have hlt : b.toNat < next.toNat := UInt8.lt_iff_toNat_lt.mp hu
    omega
  unfold lead? at h
  split_ifs at h with h1 h2 h3 h4 h5
  · obtain ⟨rfl,rfl⟩ : 0 = following ∧ b.toUInt32 = scalar := by simpa using h
    have hlt : b.toNat < 0x80 := UInt8.lt_iff_toNat_lt.mp h1
    rw [UInt8.toNat_toUInt32]
    refine ⟨by decide,(Nat.zero_add _).symm,?_⟩
    change (b.toNat+1)*1 ≤ 0x80
    omega
  · obtain ⟨rfl,rfl⟩ : 1 = following ∧ b.toUInt32-0xC0 = scalar := by simpa using h
    obtain ⟨hb,hroom⟩ := marked 0xC0 0xE0 h2 h3
    exact ⟨by decide,hb,Nat.mul_le_mul_right 64 hroom⟩
  · obtain ⟨rfl,rfl⟩ : 2 = following ∧ b.toUInt32-0xE0 = scalar := by simpa using h
    obtain ⟨hb,hroom⟩ := marked 0xE0 0xF0 h3 h4
    exact ⟨by decide,hb,Nat.mul_le_mul_right 4096 hroom⟩
  · obtain ⟨rfl,rfl⟩ : 3 = following ∧ b.toUInt32-0xF0 = scalar := by simpa using h
    obtain ⟨hb,hroom⟩ := marked 0xF0 0xF8 h4 h5
    exact ⟨by decide,hb,Nat.mul_le_mul_right 262144 hroom⟩

theorem capacity_le (width : Nat) : capacity width ≤ capacity 4 := by
  match width with
  | 0 | 1 | 2 | 3 | 4 => decide
  | _+5 => exact Nat.zero_le _

/-- No sequence is longer than four bytes. -/
theorem width_le_of_fits (width n : Nat) (h : n < capacity width) : width ≤ 4 := by
  match width with
  | 0 | 1 | 2 | 3 | 4 => decide
  | _+5 => exact absurd h (Nat.not_lt_zero n)

theorem lead_room (b : UInt8) (following : Nat) (scalar : UInt32)
    (h : lead? b = some (following,scalar)) : Room following scalar :=
  Nat.le_trans (lead_some b following scalar h).2.2 (capacity_le _)

/-- What is decoded was spelled so: the bytes that were read spell the scalar in their number. -/
theorem decode_spells (w : List UInt8) (s : Symbol) (h : decode w = .ok s) (hs : 0 < s.width) :
    w.take s.width = encode s.width s.scalar.toNat ∧ s.scalar.toNat < capacity s.width := by
  cases w with
  | nil =>
    have hend : Symbol.endOfInput = s := by simpa [decode] using h
    rw [← hend] at hs
    exact absurd hs (Nat.lt_irrefl 0)
  | cons b rest =>
    cases hl : lead? b with
    | none => simp [decode,hl] at h
    | some l =>
      obtain ⟨following,scalar⟩ := l
      simp only [decode,hl] at h
      obtain ⟨hlt,hb,hroom⟩ := lead_some b following scalar hl
      obtain ⟨hdiv,htake⟩ := gather_spells _ _ _ _ _ (lead_room b following scalar hl) h
      have hwidth : s.width = following+1 := by
        rw [(gather_width _ _ _ _ _ h).1,Nat.add_comm]
      rw [hwidth]
      constructor
      · rw [encode_succ _ _ hlt,hdiv,← hb,UInt8.ofNat_toNat,List.take_succ_cons,htake]
      · refine Nat.lt_of_lt_of_le ?_ hroom
        apply (Nat.div_lt_iff_lt_mul (weight_pos following)).mp
        rw [hdiv]
        exact Nat.lt_succ_self _

end Sequence

namespace Spelling

/-- A window gives a symbol if and only if it begins with a spelling of it. -/
theorem decode_eq_ok_iff (w : List UInt8) (s : Symbol) (hs : 0 < s.width) :
    Sequence.decode w = .ok s ↔ ∃ x : Spelling,x.symbol = s ∧ x.bytes <+: w := by
  constructor
  · intro h
    obtain ⟨htake,hfits⟩ := Sequence.decode_spells w s h hs
    refine ⟨⟨s.scalar.toNat,s.width,hfits⟩,?_,?_⟩
    · rw [symbol,UInt32.ofNat_toNat]
    · rw [bytes,← htake]
      exact List.take_prefix _ _
  · intro h
    obtain ⟨x,rfl,r,rfl⟩ := h
    exact x.decode_bytes r

end Spelling

end Lexis
