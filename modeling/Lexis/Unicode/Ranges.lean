/-!
Sets of code points as inclusive ranges in increasing order. `holds_iff` says that the search
through such a list decides membership.
-/

namespace Lexis.Unicode

abbrev Ranges := List (Nat × Nat)

namespace Ranges

/-- The first range that does not end before the point decides. -/
def holds : Ranges → Nat → Bool
  | [],_ => false
  | (first,last)::rest,n => if n ≤ last then first ≤ n else holds rest n

/-- Every range is in order, and begins at or above the floor and past the range before it. -/
def increasing (floor : Nat) : Ranges → Bool
  | [] => true
  | (first,last)::rest => floor ≤ first && first ≤ last && increasing (last+1) rest

theorem floor_le_of_mem (floor : Nat) (rs : Ranges) (hs : rs.increasing floor = true)
    (r : Nat × Nat) (hr : r ∈ rs) : floor ≤ r.1 := by
  induction rs generalizing floor with
  | nil => simp at hr
  | cons q rs ih =>
    obtain ⟨⟨hf,hl⟩,ht⟩ : (floor ≤ q.1 ∧ q.1 ≤ q.2) ∧ increasing (q.2+1) rs = true := by
      simpa [increasing] using hs
    cases hr with
    | head => exact hf
    | tail _ hr =>
      have := ih (q.2+1) ht hr
      omega

theorem holds_iff (floor : Nat) (rs : Ranges) (hs : rs.increasing floor = true) (n : Nat) :
    rs.holds n = true ↔ ∃ r ∈ rs, r.1 ≤ n ∧ n ≤ r.2 := by
  induction rs generalizing floor with
  | nil => simp [holds]
  | cons q rs ih =>
    obtain ⟨_,ht⟩ : (floor ≤ q.1 ∧ q.1 ≤ q.2) ∧ increasing (q.2+1) rs = true := by
      simpa [increasing] using hs
    by_cases hn : n ≤ q.2
    · have hrest : ¬ ∃ r ∈ rs, r.1 ≤ n ∧ n ≤ r.2 := by
        rintro ⟨r,hr,hb,_⟩
        have := floor_le_of_mem (q.2+1) rs ht r hr
        omega
      simp [holds,hn]
      intro a b hab ha hb
      exact absurd ⟨(a,b),hab,ha,hb⟩ hrest
    · simp [holds,hn,ih (q.2+1) ht]

end Ranges

end Lexis.Unicode
