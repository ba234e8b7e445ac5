import Lexis.Proofs.Payload

/-!
Decoding is the inverse of spelling. Here it is done with masks and shifts on words of 32 bits, and
each shift is watched for bits that it pushes out. `decodeMasked_eq` says that none is lost and that
the outcome is that of `decode`; `decode_inverts` that every scalar is read as it was spelled, and
that nothing else is read.
-/

namespace Lexis.Sequence

/-- What holds for each of the 256 bytes holds for all. -/
theorem forall_byte {p : UInt8 → Prop} (h : ∀ n : Fin 256,p ⟨⟨n⟩⟩) (b : UInt8) : p b :=
  h b.toBitVec.toFin

/-- The length of the sequence that a lead byte begins, and the mask for the bits it carries. -/
def shape? (lead : UInt8) : Option (Nat × UInt8) :=
  if lead &&& 0b10000000 = 0 then some (1,0b01111111)
  else if lead &&& 0b11100000 = 0b11000000 then some (2,0b00011111)
  else if lead &&& 0b11110000 = 0b11100000 then some (3,0b00001111)
  else if lead &&& 0b11111000 = 0b11110000 then some (4,0b00000111)
  else none

/-- Six places to the left. There is no result if a bit leaves the word. -/
def shift? (scalar : UInt32) : Option UInt32 :=
  if scalar <<< 6 >>> 6 = scalar then some (scalar <<< 6) else none

/-- Takes in the bytes that are there, the first of which has the given index. -/
def takeIn (index : Nat) (scalar : UInt32) : List UInt8 → Option (Except Defect UInt32)
  | [] => some (.ok scalar)
  | b::rest =>
    if b &&& 0b11000000 ≠ 0b10000000 then some (.error (.badContinuation b index))
    else (shift? scalar).bind fun shifted =>
      takeIn (index+1) (shifted ||| (b &&& 0b00111111).toUInt32) rest

/-- Only when all that is there was taken in does it count that some is missing. -/
def conclude (length available : Nat) : Except Defect UInt32 → Except Defect Symbol
  | .error defect => .error defect
  | .ok scalar =>
    if available < length then .error (.truncated length available) else .ok ⟨scalar,length⟩

def decodeMasked : List UInt8 → Option (Except Defect Symbol)
  | [] => some (.ok .endOfInput)
  | lead::rest =>
    match shape? lead with
    | none => some (.error (.badLead lead))
    | some (length,mask) =>
      let available := min (lead::rest).length length
      (takeIn 1 (lead &&& mask).toUInt32 (((lead::rest).take available).drop 1)).map
        (conclude length available)

theorem lead_shape (b : UInt8) :
    lead? b = (shape? b).map (fun shape => (shape.1-1,(b &&& shape.2).toUInt32)) := by
  revert b
  apply forall_byte
  decide +kernel

theorem shape_length (b : UInt8) (length : Nat) (mask : UInt8) (h : shape? b = some (length,mask)) :
    0 < length := by
  unfold shape? at h
  split_ifs at h <;> simp at h <;> omega

theorem continuation_masked (b : UInt8) :
    isContinuation b = true ↔ b &&& 0b11000000 = 0b10000000 := by
  revert b
  apply forall_byte
  decide +kernel

theorem payload_masked (b : UInt8) (h : isContinuation b = true) :
    (b &&& 0b00111111).toUInt32 = b.toUInt32-0x80 := by
  revert b
  apply forall_byte
  decide +kernel

/-- While there is room for another group, a shift loses nothing, and or-ing the group is adding. -/
theorem shift_room (missing : Nat) (scalar d : UInt32) (h : Room (missing+1) scalar)
    (hd : d.toNat < 64) : ∃ shifted,shift? scalar = some shifted ∧ (shifted ||| d) = scalar*64+d := by
  have hlt := h.lt
  have hleft : (scalar <<< 6).toNat = scalar.toNat <<< 6 := by
    rw [UInt32.toNat_shiftLeft]
    change scalar.toNat <<< 6%4294967296 = _
    rw [Nat.shiftLeft_eq]
    omega
  refine ⟨scalar <<< 6,if_pos ?_,?_⟩
  · apply UInt32.toNat_inj.mp
    rw [UInt32.toNat_shiftRight,hleft]
    exact Nat.shiftLeft_shiftRight _ 6
  · apply UInt32.toNat_inj.mp
    rw [UInt32.toNat_or,hleft,← Nat.shiftLeft_add_eq_or_of_lt hd,Nat.shiftLeft_eq,UInt32.toNat_add,
      UInt32.toNat_mul]
    change _ = (scalar.toNat*64%4294967296+d.toNat)%4294967296
    omega

theorem takeIn_eq (missing taken : Nat) (scalar : UInt32) (w : List UInt8)
    (h : Room missing scalar) :
    (takeIn taken scalar (w.take missing)).map
        (conclude (taken+missing) (taken+min w.length missing)) =
      some (gather missing taken scalar w) := by
  induction missing generalizing taken scalar w with
  | zero => simp [takeIn,conclude,gather]
  | succ missing ih =>
    cases w with
    | nil => simp [takeIn,conclude,gather,Nat.add_assoc]
    | cons b rest =>
      rw [List.take_succ_cons]
      by_cases hb : isContinuation b = true
      · have hmask := (continuation_masked b).mp hb
        obtain ⟨_,hu,hp⟩ := payload_continuation b hb
        obtain ⟨shifted,hshift,hor⟩ := shift_room missing scalar (b.toUInt32-0x80) h (by omega)
        have hr := ih (taken+1) _ rest (h.step b hb).2
        have hm : taken+1+min rest.length missing = taken+min (b::rest).length (missing+1) := by
          rw [List.length_cons]
          omega
        rw [hm,Nat.add_right_comm] at hr
        simp only [takeIn,hmask,ne_eq,not_true_eq_false,if_false,hshift,Option.bind_some,
          payload_masked b hb,hor,gather,hb,if_true]
        exact hr
      · have hmask : b &&& 0b11000000 ≠ 0b10000000 := by
          intro hmask
          exact hb ((continuation_masked b).mpr hmask)
        simp [takeIn,hmask,conclude,gather,hb]

/-- The bytes behind the lead that the loop goes over. -/
theorem available_drop (b : UInt8) (rest : List UInt8) (following : Nat) :
    ((b::rest).take (min (b::rest).length (following+1))).drop 1 = rest.take following := by
  rw [List.length_cons,Nat.add_min_add_right,List.take_succ_cons,List.drop_one,List.tail_cons,
    Nat.min_comm,← List.take_eq_take_min]

/-- Masks and shifts come to what adding and multiplying come to, and no bit is ever lost. -/
theorem decodeMasked_eq (w : List UInt8) : decodeMasked w = some (decode w) := by
  cases w with
  | nil => rfl
  | cons b rest =>
    have hlead := lead_shape b
    cases hs : shape? b with
    | none =>
      rw [hs,Option.map_none] at hlead
      simp only [decodeMasked,decode,hs,hlead]
    | some shape =>
      obtain ⟨length,mask⟩ := shape
      have hlength := shape_length b length mask hs
      obtain ⟨following,rfl⟩ : ∃ n,length = n+1 := ⟨length-1,by omega⟩
      rw [hs,Option.map_some,Nat.add_sub_cancel] at hlead
      have hloop := takeIn_eq following 1 _ rest (lead_room b following _ hlead)
      have havailable : 1+min rest.length following = min (b::rest).length (following+1) := by
        rw [List.length_cons]
        omega
      rw [havailable,Nat.add_comm 1] at hloop
      simp only [decodeMasked,decode,hs,hlead,available_drop]
      exact hloop

/-- Every scalar that a width can carry is read back from its sequence in this width, whatever bytes
follow. What is read at all was spelled so, in one to four bytes: two windows that give the same
symbol begin with the same bytes, no bit is lost on the way into the word, and the mark of the end
is no scalar. Only the empty window gives the end. -/
theorem decode_inverts :
    (∀ width n,n < capacity width → ∀ r,decode (encode width n++r) = .ok ⟨UInt32.ofNat n,width⟩ ∧
        (encode width n).length = width ∧ (UInt32.ofNat n).toNat = n) ∧
      (∀ w s,decode w = .ok s → 0 < s.width → s.width ≤ 4 ∧
        w.take s.width = encode s.width s.scalar.toNat ∧ s.scalar.toNat < capacity s.width ∧
        s.scalar ≠ Symbol.endOfInput.scalar) ∧
      (∀ w w' s,decode w = .ok s → decode w' = .ok s → w.take s.width = w'.take s.width) ∧
      (∀ w,decodeMasked w = some (decode w)) ∧
      (∀ w s,decode w = .ok s → (s.width = 0 ↔ w = [])) ∧
      decode [] = .ok ⟨0xFFFFFFFF,0⟩ := by
  refine ⟨?_,?_,?_,decodeMasked_eq,?_,rfl⟩
  · intro width n hn r
    have hsmall : n < 0x200000 := Nat.lt_of_lt_of_le hn (capacity_le width)
    have hword : n < 4294967296 := by omega
    exact ⟨decode_encode width n hn r,Spelling.bytes_length ⟨n,width,hn⟩,
      UInt32.toNat_ofNat_of_lt' hword⟩
  · intro w s h hs
    obtain ⟨htake,hfits⟩ := decode_spells w s h hs
    have hmost := capacity_le s.width
    refine ⟨width_le_of_fits s.width _ hfits,htake,hfits,?_⟩
    intro heq
    have hsmall : s.scalar.toNat < 0x200000 := Nat.lt_of_lt_of_le hfits (capacity_le s.width)
    rw [heq] at hsmall
    exact absurd hsmall (by decide)
  · intro w w' s h h'
    by_cases hs : s.width = 0
    · rw [hs,List.take_zero,List.take_zero]
    · have hp : 0 < s.width := Nat.pos_of_ne_zero hs
      rw [(decode_spells w s h hp).1,(decode_spells w' s h' hp).1]
  · intro w s h
    exact (decode_width w s h).2

/-- The largest scalar of all, with every bit set. -/
example : decodeMasked [0xF7,0xBF,0xBF,0xBF] = some (.ok ⟨0x1FFFFF,4⟩) := rfl

end Lexis.Sequence
