import Lexis.Sequence

/-!
Decoding where the window grows or shrinks. Only an incomplete sequence asks for more bytes; every
other answer is the same whatever follows, and needs no byte past the sequence itself.
-/

namespace Lexis.Sequence

theorem gather_append (missing taken : Nat) (scalar : UInt32) (w r : List UInt8)
    (h : ∀ n k,gather missing taken scalar w ≠ .error (.truncated n k)) :
    gather missing taken scalar (w++r) = gather missing taken scalar w := by
  induction missing generalizing taken scalar w with
  | zero => rfl
  | succ missing ih =>
    cases w with
    | nil => exact absurd rfl (h _ _)
    | cons b w =>
      cases hb : isContinuation b with
      | false => simp [gather,hb]
      | true =>
        simp only [gather,hb,if_true,List.cons_append] at h ⊢
        exact ih _ _ _ h

theorem gather_take (missing taken : Nat) (scalar : UInt32) (w : List UInt8) :
    gather missing taken scalar (w.take missing) = gather missing taken scalar w := by
  induction missing generalizing taken scalar w with
  | zero => rfl
  | succ missing ih =>
    cases w with
    | nil => rfl
    | cons b w => simp only [List.take_succ_cons,gather,ih]

/-- A truncated sequence has only continuation bytes, and takes all that is left. -/
theorem gather_truncated (missing taken : Nat) (scalar : UInt32) (w : List UInt8) (n k : Nat)
    (h : gather missing taken scalar w = .error (.truncated n k)) :
    n = taken+missing ∧ k = taken+w.length ∧ w.length < missing ∧
      ∀ b ∈ w,isContinuation b = true := by
  induction missing generalizing taken scalar w with
  | zero => simp [gather] at h
  | succ missing ih =>
    cases w with
    | nil =>
      obtain ⟨hn,hk⟩ : taken+missing+1 = n ∧ taken = k := by simpa [gather] using h
      refine ⟨by omega,by simpa using hk.symm,by simp,by simp⟩
    | cons b w =>
      cases hb : isContinuation b with
      | false => simp [gather,hb] at h
      | true =>
        simp only [gather,hb,if_true] at h
        obtain ⟨hn,hk,hl,hall⟩ := ih _ _ _ h
        simp only [List.length_cons,List.mem_cons]
        refine ⟨by omega,by omega,by omega,?_⟩
        intro c hc
        rcases hc with rfl | hc
        · exact hb
        · exact hall c hc

/-- The first byte that continues no sequence is to blame, wherever continuation bytes end. -/
theorem gather_interrupted (missing taken : Nat) (scalar : UInt32) (w r : List UInt8) (b : UInt8)
    (hw : ∀ c ∈ w,isContinuation c = true) (hl : w.length < missing)
    (hb : isContinuation b = false) :
    gather missing taken scalar (w++b::r) = .error (.badContinuation b (taken+w.length)) := by
  induction w generalizing missing taken scalar with
  | nil =>
    cases missing with
    | zero => simp at hl
    | succ missing => simp [gather,hb]
  | cons c w ih =>
    cases missing with
    | zero => simp at hl
    | succ missing =>
      have hc : isContinuation c = true := hw c (by simp)
      have hall : ∀ d ∈ w,isContinuation d = true := by
        intro d hd
        exact hw d (List.mem_cons_of_mem c hd)
      have hlt : w.length < missing := by simpa using hl
      have hr := ih missing (taken+1) (scalar*64+(c.toUInt32-0x80)) hall hlt
      simp only [List.cons_append,gather,hc,if_true,hr,List.length_cons]
      congr 2
      omega

/-- Bytes after a window change its first character only if that one is incomplete. -/
theorem decode_append (w r : List UInt8) (hn : w ≠ [])
    (h : ∀ n k,decode w ≠ .error (.truncated n k)) : decode (w++r) = decode w := by
  cases w with
  | nil => exact absurd rfl hn
  | cons b w =>
    cases hl : lead? b with
    | none => simp [decode,hl]
    | some l =>
      simp only [decode,hl,List.cons_append] at h ⊢
      exact gather_append _ _ _ _ _ h

theorem ne_nil_of_error (w : List UInt8) (d : Defect) (h : decode w = .error d) : w ≠ [] := by
  intro hw
  simp [hw,decode] at h

theorem ne_nil_of_char (w : List UInt8) (s : Symbol) (c : Char) (h : decode w = .ok s)
    (hc : s.char? = some c) : w ≠ [] := by
  have hp := s.width_pos_of_char c hc
  have hw := decode_width w s h
  intro hn
  have := hw.2.mpr hn
  omega

theorem decode_append_of_ok (w r : List UInt8) (s : Symbol) (hn : w ≠ [])
    (h : decode w = .ok s) : decode (w++r) = .ok s := by
  rw [decode_append w r hn (by simp [h]),h]

/-- Bytes past the first character do not count. -/
theorem decode_take (w : List UInt8) (s : Symbol) (count : Nat) (h : decode w = .ok s)
    (hc : s.width ≤ count) : decode (w.take count) = .ok s := by
  cases w with
  | nil => simpa using h
  | cons b w =>
    cases hl : lead? b with
    | none => simp [decode,hl] at h
    | some l =>
      simp only [decode,hl] at h
      have hw := gather_width _ _ _ _ _ h
      obtain ⟨count,rfl⟩ : ∃ m,count = m+1 := ⟨count-1,by omega⟩
      have hm : min l.1 count = l.1 := by omega
      simp only [List.take_succ_cons,decode,hl]
      rw [← gather_take,List.take_take,hm,gather_take]
      exact h

/-- A truncated sequence is a lead byte with all that is left of the window, too little of it. -/
theorem decode_truncated (w : List UInt8) (n k : Nat)
    (h : decode w = .error (.truncated n k)) :
    ∃ b rest,w = b::rest ∧ k = w.length ∧ k < n ∧ ∀ c ∈ rest,isContinuation c = true := by
  cases w with
  | nil => simp [decode] at h
  | cons b w =>
    cases hl : lead? b with
    | none => simp [decode,hl] at h
    | some l =>
      simp only [decode,hl] at h
      obtain ⟨hn,hk,hlt,hall⟩ := gather_truncated _ _ _ _ _ _ h
      refine ⟨b,w,rfl,?_,by omega,hall⟩
      simp only [List.length_cons]
      omega

/-- What was truncated turns into a bad continuation when another byte comes after it. -/
theorem decode_interrupted (w r : List UInt8) (b : UInt8) (n k : Nat)
    (h : decode w = .error (.truncated n k)) (hb : isContinuation b = false) :
    decode (w++b::r) = .error (.badContinuation b k) := by
  cases w with
  | nil => simp [decode] at h
  | cons c w =>
    cases hl : lead? c with
    | none => simp [decode,hl] at h
    | some l =>
      simp only [decode,hl,List.cons_append] at h ⊢
      obtain ⟨_,hk,hlt,hall⟩ := gather_truncated _ _ _ _ _ _ h
      rw [gather_interrupted _ _ _ _ _ _ hall hlt hb,hk]

theorem lead_continuation (b : UInt8) (h : isContinuation b = true) : lead? b = none := by
  obtain ⟨hl,hu⟩ : 0x80 ≤ b ∧ b < 0xC0 := by simpa [isContinuation] using h
  have hn : ¬ b < 0x80 := UInt8.not_lt.mpr hl
  simp [lead?,hn,hu]

/-- A continuation byte begins no sequence. -/
theorem decode_continuation (b : UInt8) (r : List UInt8) (h : isContinuation b = true) :
    decode (b::r) = .error (.badLead b) := by
  simp [decode,lead_continuation b h]

end Lexis.Sequence
