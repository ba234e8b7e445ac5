import Lexis.Item
import Lexis.Proofs.Extension

/-!
Runs of accepted characters: where a run ends, and how it goes on when bytes follow it.
-/

namespace Lexis

theorem runWidth_of_error (accept : Char → Bool) (w : List UInt8) (d : Defect)
    (h : Sequence.decode w = .error d) : runWidth accept w = 0 := by
  rw [runWidth]
  split <;> simp_all

theorem runWidth_of_reject (accept : Char → Bool) (w : List UInt8) (s : Symbol)
    (h : Sequence.decode w = .ok s) (hs : s.char?.any accept = false) :
    runWidth accept w = 0 := by
  rw [runWidth]
  split <;> simp_all

theorem runWidth_nil (accept : Char → Bool) : runWidth accept [] = 0 :=
  Nat.le_zero.mp (runWidth_le accept [])

theorem runWidth_never (w : List UInt8) : runWidth (fun _ => false) w = 0 := by
  cases h : Sequence.decode w with
  | error d => exact runWidth_of_error _ w d h
  | ok s => exact runWidth_of_reject _ w s h (by simp)

/-- A run takes all it can: no run begins where one ends. -/
theorem runWidth_drop (accept : Char → Bool) (w : List UInt8) :
    runWidth accept (w.drop (runWidth accept w)) = 0 := by
  fun_induction runWidth accept w with
  | case1 w d h => exact runWidth_of_error accept _ d h
  | case2 w s h ha ih => rw [← List.drop_drop,ih]
  | case3 w s h ha => exact runWidth_of_reject accept _ s h (by simpa using ha)

/-- A run is a run on its own. -/
theorem runWidth_take (accept : Char → Bool) (w : List UInt8) :
    runWidth accept (w.take (runWidth accept w)) = runWidth accept w := by
  fun_induction runWidth accept w with
  | case1 w d h => exact runWidth_nil accept
  | case2 w s h ha ih =>
    obtain ⟨c,hc,hac⟩ := (Option.any_eq_true accept s.char?).mp ha
    have hd := Sequence.decode_take w s (s.width+runWidth accept (w.drop s.width)) h (by omega)
    rw [runWidth_of_accept accept _ s c hd hc hac,List.drop_take,Nat.add_sub_cancel_left,ih]
  | case3 w s h ha => exact runWidth_nil accept

/-- Where accepted characters fill a window, the run goes on into the bytes that follow. -/
theorem runWidth_append (accept : Char → Bool) (w r : List UInt8)
    (hw : runWidth accept w = w.length) :
    runWidth accept (w++r) = w.length+runWidth accept r := by
  fun_induction runWidth accept w with
  | case1 w d h =>
    have hn : w = [] := List.eq_nil_of_length_eq_zero hw.symm
    simp [hn]
  | case2 w s h ha ih =>
    obtain ⟨c,hc,hac⟩ := (Option.any_eq_true accept s.char?).mp ha
    have hs := Sequence.decode_width w s h
    have hn := Sequence.ne_nil_of_char w s c h hc
    have hd := Sequence.decode_append_of_ok w r s hn h
    have hl : runWidth accept (w.drop s.width) = (w.drop s.width).length := by
      rw [List.length_drop]
      omega
    rw [runWidth_of_accept accept _ s c hd hc hac,List.drop_append_of_le_length hs.1,ih hl,
      List.length_drop]
    omega
  | case3 w s h ha =>
    have hn : w = [] := List.eq_nil_of_length_eq_zero hw.symm
    simp [hn]

end Lexis
