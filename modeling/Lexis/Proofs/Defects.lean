import Lexis.Proofs.Payload

/-!
What each defect tells of a window. A bad lead begins no sequence; a bad continuation is the first
byte out of place in a sequence that was announced, be the rest of it there or not; and a window is
truncated if bytes behind it could make it a sequence. Only then does it matter what follows.
-/

namespace Lexis.Sequence

/-- Some sequence of the length begins with the byte. -/
def Announces (lead : UInt8) (length : Nat) : Prop :=
  ∃ x : Spelling,x.bytes.head? = some lead ∧ x.bytes.length = length

theorem gather_complete (missing taken : Nat) (scalar : UInt32) (w : List UInt8)
    (hw : ∀ c ∈ w,isContinuation c = true) (hl : w.length = missing) :
    ∃ s,gather missing taken scalar w = .ok s := by
  induction missing generalizing taken scalar w with
  | zero => exact ⟨_,rfl⟩
  | succ missing ih =>
    cases w with
    | nil => simp at hl
    | cons c rest =>
      have hc : isContinuation c = true := hw c List.mem_cons_self
      simp only [gather,hc,if_true]
      apply ih
      · intro d hd
        exact hw d (List.mem_cons_of_mem c hd)
      · simpa using hl

theorem gather_ne_badLead (missing taken : Nat) (scalar : UInt32) (w : List UInt8) (b : UInt8) :
    gather missing taken scalar w ≠ .error (.badLead b) := by
  induction missing generalizing taken scalar w with
  | zero => simp [gather]
  | succ missing ih =>
    cases w with
    | nil => simp [gather]
    | cons c rest =>
      cases hc : isContinuation c with
      | false => simp [gather,hc]
      | true =>
        simp only [gather,hc,if_true]
        exact ih _ _ _

theorem forall_mem_take (w : List UInt8) (j : Nat) :
    (∀ c ∈ w.take j,isContinuation c = true) ↔
      ∀ k c,k < j → w[k]? = some c → isContinuation c = true := by
  constructor
  · intro h k c hk hc
    apply h
    apply List.mem_of_getElem? (i := k)
    rw [List.getElem?_take_of_lt hk]
    exact hc
  · intro h c hc
    obtain ⟨k,hk⟩ := List.mem_iff_getElem?.mp hc
    have hkj : k < j := by
      have hlength := (List.getElem?_eq_some_iff.mp hk).1
      rw [List.length_take] at hlength
      omega
    rw [List.getElem?_take_of_lt hkj] at hk
    exact h k c hkj hk

/-- The byte to blame is the first that is no continuation byte, among those that are missing. -/
theorem gather_eq_badContinuation_iff (missing taken : Nat) (scalar : UInt32) (w : List UInt8)
    (b : UInt8) (i : Nat) :
    gather missing taken scalar w = .error (.badContinuation b i) ↔
      ∃ j,i = taken+j ∧ j < missing ∧ w[j]? = some b ∧ isContinuation b = false ∧
        ∀ c ∈ w.take j,isContinuation c = true := by
  constructor
  · intro h
    induction missing generalizing taken scalar w with
    | zero => simp [gather] at h
    | succ missing ih =>
      cases w with
      | nil => simp [gather] at h
      | cons c rest =>
        cases hc : isContinuation c with
        | false =>
          obtain ⟨rfl,rfl⟩ : c = b ∧ taken = i := by simpa [gather,hc] using h
          exact ⟨0,rfl,Nat.succ_pos missing,rfl,hc,by simp⟩
        | true =>
          simp only [gather,hc,if_true] at h
          obtain ⟨j,hi,hj,hb,hbad,hall⟩ := ih _ _ rest h
          refine ⟨j+1,by omega,by omega,hb,hbad,?_⟩
          intro d hd
          rcases List.mem_cons.mp hd with rfl | hd
          · exact hc
          · exact hall d hd
  · intro h
    obtain ⟨j,rfl,hj,hb,hbad,hall⟩ := h
    obtain ⟨hlt,hget⟩ := List.getElem?_eq_some_iff.mp hb
    have hlength : (w.take j).length = j := List.length_take_of_le (Nat.le_of_lt hlt)
    have hsplit : w = w.take j++b::w.drop (j+1) := by
      rw [← hget,← List.drop_eq_getElem_cons hlt,List.take_append_drop]
    have hr := gather_interrupted missing taken scalar (w.take j) (w.drop (j+1)) b hall
      (by omega) hbad
    rw [hlength] at hr
    rw [hsplit]
    exact hr

/-- The lead byte of a sequence tells its length. -/
theorem lead_of_spelling (x : Spelling) (lead : UInt8) (rest : List UInt8)
    (h : x.bytes = lead::rest) : ∃ scalar,lead? lead = some (rest.length,scalar) := by
  have hd := x.decode_bytes []
  have hl := x.bytes_length
  rw [List.append_nil,h] at hd
  rw [h,List.length_cons] at hl
  cases hlead : lead? lead with
  | none => simp [decode,hlead] at hd
  | some l =>
    obtain ⟨following,scalar⟩ := l
    simp only [decode,hlead] at hd
    have hw : x.width = 1+following := (gather_width _ _ _ _ _ hd).1
    obtain rfl : rest.length = following := by omega
    exact ⟨scalar,rfl⟩

/-- A lead byte and no more continuation bytes than it announces begin a sequence. -/
theorem exists_spelling (lead : UInt8) (rest : List UInt8) (following : Nat) (scalar : UInt32)
    (hl : lead? lead = some (following,scalar)) (hrest : ∀ c ∈ rest,isContinuation c = true)
    (hle : rest.length ≤ following) :
    ∃ x : Spelling,lead::rest <+: x.bytes ∧ x.bytes.length = following+1 := by
  -- Any continuation bytes will do for the missing ones.
  let filled := rest++List.replicate (following-rest.length) 0x80
  have hall : ∀ c ∈ filled,isContinuation c = true := by
    intro c hc
    rcases List.mem_append.mp hc with hc | hc
    · exact hrest c hc
    · rw [List.eq_of_mem_replicate hc]
      rfl
  have hlength : filled.length = following := by
    simp only [filled,List.length_append,List.length_replicate]
    omega
  obtain ⟨s,hs⟩ := gather_complete following 1 scalar filled hall hlength
  have hwidth : s.width = 1+following := (gather_width _ _ _ _ _ hs).1
  have hd : decode (lead::filled) = .ok s := by simp only [decode,hl,hs]
  obtain ⟨x,rfl,hx⟩ := (Spelling.decode_eq_ok_iff _ _ (by omega)).mp hd
  have hxl : x.bytes.length = 1+following := x.bytes_length.trans hwidth
  have hx : x.bytes = lead::filled := by
    apply hx.eq_of_length
    rw [List.length_cons,hlength,hxl,Nat.add_comm]
  refine ⟨x,?_,by omega⟩
  rw [hx]
  exact List.prefix_append (lead::rest) _

theorem announces_iff (lead : UInt8) (length : Nat) :
    Announces lead length ↔ ∃ following scalar,lead? lead = some (following,scalar) ∧
      length = following+1 := by
  constructor
  · intro h
    obtain ⟨x,hhead,rfl⟩ := h
    obtain ⟨rest,hx⟩ := List.head?_eq_some_iff.mp hhead
    obtain ⟨scalar,hl⟩ := lead_of_spelling x lead rest hx
    exact ⟨rest.length,scalar,hl,by rw [hx,List.length_cons]⟩
  · intro h
    obtain ⟨following,scalar,hl,rfl⟩ := h
    obtain ⟨x,⟨r,hx⟩,hlength⟩ := exists_spelling lead [] following scalar hl (by simp) (by simp)
    exact ⟨x,by rw [← hx]; rfl,hlength⟩

/-- A byte announces one length at most. -/
theorem announces_of_lead (lead : UInt8) (following : Nat) (scalar : UInt32)
    (hl : lead? lead = some (following,scalar)) (length : Nat) :
    Announces lead length ↔ length = following+1 := by
  rw [announces_iff,hl]
  constructor
  · intro h
    obtain ⟨_,_,hsome,rfl⟩ := h
    obtain ⟨rfl,_⟩ := Prod.mk.inj (Option.some.inj hsome)
    rfl
  · intro h
    exact ⟨following,scalar,rfl,h⟩

theorem decode_eq_badLead_iff (w : List UInt8) (b : UInt8) :
    decode w = .error (.badLead b) ↔ w.head? = some b ∧ ∀ length,¬ Announces b length := by
  cases w with
  | nil => simp [decode]
  | cons lead rest =>
    cases hl : lead? lead with
    | none =>
      have hnone (length : Nat) : ¬ Announces lead length := by
        intro h
        obtain ⟨_,_,hsome,_⟩ := (announces_iff lead length).mp h
        simp [hl] at hsome
      constructor
      · intro h
        obtain rfl : lead = b := by simpa [decode,hl] using h
        exact ⟨rfl,hnone⟩
      · intro h
        obtain rfl : lead = b := by simpa using h.1
        simp [decode,hl]
    | some l =>
      obtain ⟨following,scalar⟩ := l
      constructor
      · intro h
        simp only [decode,hl] at h
        exact absurd h (gather_ne_badLead _ _ _ _ b)
      · intro h
        obtain ⟨hhead,hnone⟩ := h
        obtain rfl : lead = b := by simpa using hhead
        exact absurd ((announces_of_lead lead following scalar hl _).mpr rfl) (hnone _)

/-- Where a byte is to blame, the bytes between the lead and it are continuation bytes. -/
theorem decode_eq_badContinuation_iff (w : List UInt8) (b : UInt8) (i : Nat) :
    decode w = .error (.badContinuation b i) ↔
      ∃ lead length,w.head? = some lead ∧ Announces lead length ∧ 1 ≤ i ∧ i < min length w.length ∧
        w[i]? = some b ∧ isContinuation b = false ∧
        ∀ j c,1 ≤ j → j < i → w[j]? = some c → isContinuation c = true := by
  cases w with
  | nil => simp [decode]
  | cons lead rest =>
    cases hl : lead? lead with
    | none =>
      constructor
      · intro h
        simp [decode,hl] at h
      · intro h
        obtain ⟨first,length,hhead,hlead,_⟩ := h
        obtain rfl : lead = first := by simpa using hhead
        obtain ⟨_,_,hsome,_⟩ := (announces_iff lead length).mp hlead
        simp [hl] at hsome
    | some l =>
      obtain ⟨following,scalar⟩ := l
      have hannounced := announces_of_lead lead following scalar hl
      simp only [decode,hl]
      rw [gather_eq_badContinuation_iff]
      constructor
      · intro h
        obtain ⟨j,rfl,hj,hb,hbad,hall⟩ := h
        have hlt := (List.getElem?_eq_some_iff.mp hb).1
        refine ⟨lead,following+1,rfl,(hannounced _).mpr rfl,by omega,?_,?_,hbad,?_⟩
        · rw [List.length_cons]
          omega
        · rw [Nat.add_comm,List.getElem?_cons_succ]
          exact hb
        · intro k c hk hkj hc
          obtain ⟨k,rfl⟩ : ∃ m,k = m+1 := ⟨k-1,by omega⟩
          rw [List.getElem?_cons_succ] at hc
          exact (forall_mem_take rest j).mp hall k c (by omega) hc
      · intro h
        obtain ⟨first,length,hhead,hlead,hi,hlt,hb,hbad,hall⟩ := h
        obtain rfl : lead = first := by simpa using hhead
        obtain rfl := (hannounced length).mp hlead
        obtain ⟨j,rfl⟩ : ∃ m,i = m+1 := ⟨i-1,by omega⟩
        rw [List.length_cons] at hlt
        refine ⟨j,Nat.add_comm j 1,by omega,hb,hbad,(forall_mem_take rest j).mpr ?_⟩
        intro k c hk hc
        exact hall (k+1) c (by omega) (by omega) hc

/-- A sequence that is cut short is truncated, wherever it is cut. -/
theorem decode_cut (x : Spelling) (w r : List UInt8) (hx : w++r = x.bytes) (hn : w ≠ [])
    (hr : r ≠ []) : decode w = .error (.truncated x.bytes.length w.length) := by
  have hread : decode (w++r) = .ok x.symbol := by
    have hd := x.decode_bytes []
    rwa [List.append_nil,← hx] at hd
  by_cases ht : ∃ n k,decode w = .error (.truncated n k)
  · obtain ⟨n,k,ht⟩ := ht
    obtain ⟨lead,rest,rfl,hk,_⟩ := decode_truncated w n k ht
    obtain ⟨scalar,hl⟩ := lead_of_spelling x lead (rest++r) hx.symm
    have hgather := ht
    simp only [decode,hl] at hgather
    have hlength := (gather_truncated _ _ _ _ _ _ hgather).1
    have hexpected : n = x.bytes.length := by
      rw [hlength,← hx,List.cons_append,List.length_cons,Nat.add_comm]
    rw [ht,hexpected,hk]
  · -- All other answers are the same for the longer window, whose sequence is too long for `w`.
    have hsame := decode_append w r hn (fun n k htrunc => ht ⟨n,k,htrunc⟩)
    rw [hread] at hsame
    have hw : x.width ≤ w.length := (decode_width w x.symbol hsame.symm).1
    have hxl : w.length+r.length = x.width := by
      rw [← List.length_append,hx]
      exact x.bytes_length
    have hpos := List.length_pos_iff.mpr hr
    omega

/-- A window is truncated if and only if it is the beginning of a longer sequence. -/
theorem decode_eq_truncated_iff (w : List UInt8) (n k : Nat) :
    decode w = .error (.truncated n k) ↔
      (∃ x : Spelling,w ≠ [] ∧ w <+: x.bytes ∧ w ≠ x.bytes ∧ x.bytes.length = n) ∧
        k = w.length := by
  constructor
  · intro h
    obtain ⟨lead,rest,rfl,hk,hlt,hall⟩ := decode_truncated w n k h
    cases hl : lead? lead with
    | none => simp [decode,hl] at h
    | some l =>
      obtain ⟨following,scalar⟩ := l
      simp only [decode,hl] at h
      obtain ⟨hn,_,hshort,_⟩ := gather_truncated _ _ _ _ _ _ h
      obtain ⟨x,hx,hlength⟩ :=
        exists_spelling lead rest following scalar hl hall (Nat.le_of_lt hshort)
      refine ⟨⟨x,List.cons_ne_nil _ _,hx,?_,by omega⟩,hk⟩
      intro heq
      rw [← heq,List.length_cons] at hlength
      omega
  · intro h
    obtain ⟨⟨x,hn,⟨r,hr⟩,hne,rfl⟩,rfl⟩ := h
    apply decode_cut x w r hr hn
    intro hnil
    rw [hnil,List.append_nil] at hr
    exact hne hr

/-- Each defect says exactly what is wrong with a window. A bad lead byte is the first one and
begins no sequence; a bad continuation byte is the first byte that continues nothing, among those of
the announced length that are there; a truncated window is the beginning of a sequence whose length
is the expected one. Any other window that is not empty is read in the same way whatever follows. -/
theorem decode_eq_error_iff :
    (∀ w b,decode w = .error (.badLead b) ↔ w.head? = some b ∧ ∀ length,¬ Announces b length) ∧
      (∀ w b i,decode w = .error (.badContinuation b i) ↔
        ∃ lead length,w.head? = some lead ∧ Announces lead length ∧ 1 ≤ i ∧
          i < min length w.length ∧ w[i]? = some b ∧ isContinuation b = false ∧
          ∀ j c,1 ≤ j → j < i → w[j]? = some c → isContinuation c = true) ∧
      (∀ w n k,decode w = .error (.truncated n k) ↔
        (∃ x : Spelling,w ≠ [] ∧ w <+: x.bytes ∧ w ≠ x.bytes ∧ x.bytes.length = n) ∧
          k = w.length) ∧
      ∀ w,w ≠ [] → (∀ n k,decode w ≠ .error (.truncated n k)) →
        ∀ r,decode (w++r) = decode w := by
  refine ⟨decode_eq_badLead_iff,decode_eq_badContinuation_iff,decode_eq_truncated_iff,?_⟩
  intro w hn h r
  exact decode_append w r hn h

/-- Of a window that is both broken and too short the broken byte is told. -/
example : decode [0xF0,0x9F,0x41] = .error (.badContinuation 0x41 2) := rfl

end Lexis.Sequence
