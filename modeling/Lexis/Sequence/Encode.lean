import Lexis.Sequence

/-!
The sequence of a given width for a scalar, the shortest or a longer one. `decode_encode` says that
decoding reads it back, whatever bytes follow.
-/

namespace Lexis.Sequence

/-- A sequence of this width spells the scalars below this bound. -/
def capacity : Nat → Nat
  | 1 => 0x80
  | 2 => 0x800
  | 3 => 0x10000
  | 4 => 0x200000
  | _ => 0

/-- The value of the lowest bit that has the given number of six-bit groups below it. -/
def weight : Nat → Nat
  | 0 => 1
  | count+1 => weight count*64

/-- The lowest groups of six bits, the highest of them first, each in a continuation byte. -/
def continuations : Nat → Nat → List UInt8
  | 0,_ => []
  | count+1,n => UInt8.ofNat (0x80+n/weight count%64)::continuations count n

def encode : Nat → Nat → List UInt8
  | 1,n => [UInt8.ofNat n]
  | 2,n => UInt8.ofNat (0xC0+n/weight 1)::continuations 1 n
  | 3,n => UInt8.ofNat (0xE0+n/weight 2)::continuations 2 n
  | 4,n => UInt8.ofNat (0xF0+n/weight 3)::continuations 3 n
  | _,_ => []

theorem isContinuation_group (d : Nat) (hd : d < 64) :
    isContinuation (UInt8.ofNat (0x80+d)) = true := by
  have hb : (UInt8.ofNat (0x80+d)).toNat = 0x80+d := UInt8.toNat_ofNat_of_lt' (by
    show 0x80+d < 256
    omega)
  simp only [isContinuation,Bool.and_eq_true,decide_eq_true_eq,UInt8.le_iff_toNat_le,
    UInt8.lt_iff_toNat_lt,hb]
  constructor
  · show 0x80 ≤ 0x80+d
    omega
  · show 0x80+d < 0xC0
    omega

theorem payload_group (mark d : Nat) (h : mark+d < 256) :
    (UInt8.ofNat (mark+d)).toUInt32-UInt32.ofNat mark = UInt32.ofNat d := by
  have hb : (UInt8.ofNat (mark+d)).toUInt32 = UInt32.ofNat mark+UInt32.ofNat d := by
    apply UInt32.toNat_inj.mp
    have hm : (UInt8.ofNat (mark+d)).toNat = mark+d := UInt8.toNat_ofNat_of_lt' h
    rw [UInt8.toNat_toUInt32,hm,← UInt32.ofNat_add,UInt32.toNat_ofNat_of_lt']
    show mark+d < 4294967296
    omega
  rw [hb]
  grind

theorem gather_continuations (count taken n : Nat) (scalar : UInt32) (r : List UInt8) :
    gather count taken scalar (continuations count n++r) =
      .ok ⟨scalar*UInt32.ofNat (weight count)+UInt32.ofNat (n%weight count),taken+count⟩ := by
  induction count generalizing taken scalar with
  | zero => simp [gather,weight,Nat.mod_one]
  | succ count ih =>
    have hd : n/weight count%64 < 64 := Nat.mod_lt _ (by omega)
    have hp : (UInt8.ofNat (0x80+n/weight count%64)).toUInt32-0x80 =
        UInt32.ofNat (n/weight count%64) :=
      payload_group 0x80 _ (by omega)
    have hn : n%weight (count+1) = n/weight count%64*weight count+n%weight count := by
      rw [weight,Nat.mod_mul]
      grind
    simp only [continuations,List.cons_append,gather,isContinuation_group _ hd,if_true,hp,ih]
    rw [hn,UInt32.ofNat_add,UInt32.ofNat_mul,weight,UInt32.ofNat_mul]
    have h64 : UInt32.ofNat 64 = 64 := rfl
    grind

theorem lead_one (n : Nat) (hn : n < 128) :
    lead? (UInt8.ofNat n) = some (0,UInt32.ofNat n) := by
  have hb : (UInt8.ofNat n).toNat = n := UInt8.toNat_ofNat_of_lt' (show n < 256 by omega)
  have hs : (UInt8.ofNat n).toUInt32 = UInt32.ofNat n := by
    apply UInt32.toNat_inj.mp
    rw [UInt8.toNat_toUInt32,hb,UInt32.toNat_ofNat_of_lt']
    show n < 4294967296
    omega
  have h1 : UInt8.ofNat n < 0x80 := UInt8.lt_iff_toNat_lt.mpr (by
    rw [hb]
    exact hn)
  simp [lead?,h1,hs]

theorem lead_two (d : Nat) (hd : d < 32) :
    lead? (UInt8.ofNat (0xC0+d)) = some (1,UInt32.ofNat d) := by
  have hb : (UInt8.ofNat (0xC0+d)).toNat = 0xC0+d :=
    UInt8.toNat_ofNat_of_lt' (show 0xC0+d < 256 by omega)
  have hp : (UInt8.ofNat (0xC0+d)).toUInt32-0xC0 = UInt32.ofNat d :=
    payload_group 0xC0 d (by omega)
  have h1 : ¬ 0xC0+d < 128 := by omega
  have h2 : ¬ 0xC0+d < 192 := by omega
  have hu : 0xC0+d < 224 := by omega
  simp only [lead?,UInt8.lt_iff_toNat_lt,hb,hp]
  simp [h1,h2,hu]

theorem lead_three (d : Nat) (hd : d < 16) :
    lead? (UInt8.ofNat (0xE0+d)) = some (2,UInt32.ofNat d) := by
  have hb : (UInt8.ofNat (0xE0+d)).toNat = 0xE0+d :=
    UInt8.toNat_ofNat_of_lt' (show 0xE0+d < 256 by omega)
  have hp : (UInt8.ofNat (0xE0+d)).toUInt32-0xE0 = UInt32.ofNat d :=
    payload_group 0xE0 d (by omega)
  have h1 : ¬ 0xE0+d < 128 := by omega
  have h2 : ¬ 0xE0+d < 192 := by omega
  have h3 : ¬ 0xE0+d < 224 := by omega
  have hu : 0xE0+d < 240 := by omega
  simp only [lead?,UInt8.lt_iff_toNat_lt,hb,hp]
  simp [h1,h2,h3,hu]

theorem lead_four (d : Nat) (hd : d < 8) :
    lead? (UInt8.ofNat (0xF0+d)) = some (3,UInt32.ofNat d) := by
  have hb : (UInt8.ofNat (0xF0+d)).toNat = 0xF0+d :=
    UInt8.toNat_ofNat_of_lt' (show 0xF0+d < 256 by omega)
  have hp : (UInt8.ofNat (0xF0+d)).toUInt32-0xF0 = UInt32.ofNat d :=
    payload_group 0xF0 d (by omega)
  have h1 : ¬ 0xF0+d < 128 := by omega
  have h2 : ¬ 0xF0+d < 192 := by omega
  have h3 : ¬ 0xF0+d < 224 := by omega
  have h4 : ¬ 0xF0+d < 240 := by omega
  have hu : 0xF0+d < 248 := by omega
  simp only [lead?,UInt8.lt_iff_toNat_lt,hb,hp]
  simp [h1,h2,h3,h4,hu]

theorem decode_encode (width n : Nat) (hn : n < capacity width) (r : List UInt8) :
    decode (encode width n++r) = .ok ⟨UInt32.ofNat n,width⟩ := by
  have group (count : Nat) :
      UInt32.ofNat (n/weight count)*UInt32.ofNat (weight count)+
        UInt32.ofNat (n%weight count) = UInt32.ofNat n := by
    rw [← UInt32.ofNat_mul,← UInt32.ofNat_add,Nat.div_add_mod']
  match width with
  | 0 => simp [capacity] at hn
  | 1 => simp [encode,decode,lead_one n hn,gather]
  | 2 =>
    have hd : n/weight 1 < 32 := Nat.div_lt_of_lt_mul hn
    simp only [encode,decode,List.cons_append,lead_two _ hd,gather_continuations,group]
  | 3 =>
    have hd : n/weight 2 < 16 := Nat.div_lt_of_lt_mul hn
    simp only [encode,decode,List.cons_append,lead_three _ hd,gather_continuations,group]
  | 4 =>
    have hd : n/weight 3 < 8 := Nat.div_lt_of_lt_mul hn
    simp only [encode,decode,List.cons_append,lead_four _ hd,gather_continuations,group]
  | _+5 => simp [capacity] at hn

end Lexis.Sequence
