import Mathlib

/-! Token buckets. A bucket fills up at a constant rate to its capacity, and what is taken
from it in any window of time is bounded by the capacity and what flows in during that
window. -/

namespace LinuxCLearning

universe u
variable {Time : Type u} [Field Time] [LinearOrder Time]

/-- How much is in a bucket, and the instant at which that was so. -/
structure TokenBucket (Time : Type u) where
  level : Time
  instant : Time

namespace TokenBucket

/-- The amount of what was taken between two instants. -/
def taken (grants : List (Time × Time)) (first last : Time) : Time :=
  ((grants.filter fun grant => first ≤ grant.1 ∧ grant.1 ≤ last).map Prod.snd).sum

/-- The level is within the capacity; what has been taken since an instant and the rest in
the bucket come from the capacity and the inflow; and so in every window that is over. -/
structure Bounded (capacity rate : Time) (bucket : TokenBucket Time) (grants : List (Time × Time)) :
    Prop where
  low : 0 ≤ bucket.level
  high : bucket.level ≤ capacity
  past : ∀ grant ∈ grants, grant.1 ≤ bucket.instant
  current : ∀ first ≤ bucket.instant,
    taken grants first bucket.instant + bucket.level ≤ capacity + rate * (bucket.instant - first)
  window : ∀ first last, first ≤ last → taken grants first last ≤ capacity + rate * (last - first)

section Taken
variable {grants : List (Time × Time)} {first last : Time}

theorem taken_nil : taken [] first last = (0 : Time) := rfl

/-- A window that ends later contains no more, if there is nothing between the two ends. -/
theorem taken_later {later : Time} (past : ∀ grant ∈ grants, grant.1 ≤ last)
    (behind : last ≤ later) :
    taken grants first later = taken grants first last := by
  unfold taken
  congr 2
  apply List.filter_congr
  intro grant member
  have before := past grant member
  simp only [decide_eq_decide]
  exact and_congr_right fun _ => iff_of_true (before.trans behind) before

theorem taken_behind (past : ∀ grant ∈ grants, grant.1 < first) : taken grants first last = 0 := by
  have nothing : grants.filter (fun grant => first ≤ grant.1 ∧ grant.1 ≤ last) = [] := by
    rw [List.filter_eq_nil_iff]
    intro grant member inside
    exact absurd (past grant member) (not_lt.mpr (of_decide_eq_true inside).1)
  rw [taken, nothing]
  rfl

theorem taken_inside {instant amount : Time} (from_first : first ≤ instant)
    (to_last : instant ≤ last) :
    taken ((instant, amount) :: grants) first last = amount + taken grants first last := by
  simp only [taken, List.filter_cons, from_first, to_last, and_self, decide_true,
    if_true, List.map_cons,
    List.sum_cons]

theorem taken_outside {instant amount : Time} (outside : ¬ (first ≤ instant ∧ instant ≤ last)) :
    taken ((instant, amount) :: grants) first last = taken grants first last := by
  simp only [taken, List.filter_cons, outside, decide_false, if_false, Bool.false_eq_true]

end Taken

namespace Bounded
variable [IsStrictOrderedRing Time] {capacity rate : Time} {bucket : TokenBucket Time}
  {grants : List (Time × Time)}

theorem full (positive : 0 ≤ capacity) (flows : 0 ≤ rate) (instant : Time) :
    Bounded capacity rate ⟨capacity, instant⟩ [] where
  low := positive
  high := le_refl capacity
  past := by
    intro grant member
    cases member
  current := by
    intro first before
    have inflow : 0 ≤ rate * (instant - first) := mul_nonneg flows (sub_nonneg.mpr before)
    rw [taken_nil]
    linarith
  window := by
    intro first last before
    have inflow : 0 ≤ rate * (last - first) := mul_nonneg flows (sub_nonneg.mpr before)
    rw [taken_nil]
    linarith

theorem elapse (bounded : Bounded capacity rate bucket grants) (flows : 0 ≤ rate) {now : Time}
    (later : bucket.instant ≤ now) :
    Bounded capacity rate ⟨min capacity (bucket.level + rate * (now - bucket.instant)), now⟩
      grants where
  low := by
    have inflow : 0 ≤ rate * (now - bucket.instant) := mul_nonneg flows (sub_nonneg.mpr later)
    exact le_min (bounded.low.trans bounded.high) (add_nonneg bounded.low inflow)
  high := min_le_left _ _
  past := by
    intro grant member
    exact (bounded.past grant member).trans later
  current := by
    intro first before
    by_cases earlier : first ≤ bucket.instant
    · have kept := bounded.current first earlier
      have level := min_le_right capacity (bucket.level + rate * (now - bucket.instant))
      rw [taken_later bounded.past later]
      linarith
    · have nothing : taken grants first now = 0 := by
        apply taken_behind
        intro grant member
        exact (bounded.past grant member).trans_lt (not_le.mp earlier)
      have inflow : 0 ≤ rate * (now - first) := mul_nonneg flows (sub_nonneg.mpr before)
      have level := min_le_left capacity (bucket.level + rate * (now - bucket.instant))
      rw [nothing]
      linarith
  window := bounded.window

theorem take (bounded : Bounded capacity rate bucket grants) (flows : 0 ≤ rate) {amount : Time}
    (positive : 0 ≤ amount) (there : amount ≤ bucket.level) :
    Bounded capacity rate ⟨bucket.level - amount, bucket.instant⟩
      ((bucket.instant, amount) :: grants) where
  low := sub_nonneg.mpr there
  high := (sub_le_self _ positive).trans bounded.high
  past := by
    intro grant member
    rcases List.mem_cons.mp member with newest | earlier
    · rw [newest]
    · exact bounded.past grant earlier
  current := by
    intro first before
    have kept := bounded.current first before
    rw [taken_inside before (le_refl _)]
    linarith
  window := by
    intro first last before
    by_cases inside : first ≤ bucket.instant ∧ bucket.instant ≤ last
    · have kept := bounded.current first inside.1
      have inflow : rate * (bucket.instant - first) ≤ rate * (last - first) :=
        mul_le_mul_of_nonneg_left (sub_le_sub_right inside.2 first) flows
      rw [taken_inside inside.1 inside.2, taken_later bounded.past inside.2]
      linarith
    · rw [taken_outside inside]
      exact bounded.window first last before

end Bounded

end TokenBucket

end LinuxCLearning
