import Mathlib.Data.List.Basic
import Mathlib.Data.List.Count
import Mathlib.Algebra.GroupWithZero.Nat
import Mathlib.Order.Lattice

/-!
# Rolling windows and token buckets

Two limits on a sequence of instants. A rolling window admits an instant only if fewer than `limit`
earlier ones lie within `width` before it; then any stretch of time shorter than the window holds
at most `limit` of them (`RollingLimit.countP_le`). A token bucket refills with time up to its
capacity and pays a fixed cost for each instant; then an interval of length `d` holds at most as
many instants as a full bucket and the refill during `d` pay for (`Bucket.countP_mul_cost_le`).
-/

set_option autoImplicit false

namespace StaticHostAgent.Library

/-! ## Rolling windows -/

/-- Every instant found fewer than `limit` earlier ones within `width` before it, and none after
it. -/
inductive RollingLimit (limit : Nat) (width : Int) : List Int → Prop where
  | nil : RollingLimit limit width []
  | snoc {times : List Int} {now : Int} (earlier : RollingLimit limit width times)
      (latest : ∀ time ∈ times, time ≤ now)
      (room : times.countP (fun time => decide (now - width < time)) < limit) :
      RollingLimit limit width (times ++ [now])

namespace RollingLimit

variable {limit : Nat} {width : Int} {times : List Int}

theorem pairwise (limited : RollingLimit limit width times) : times.Pairwise (· ≤ ·) := by
  induction limited with
  | nil => exact List.Pairwise.nil
  | snoc _ latest _ ih =>
      apply List.pairwise_append.2
      refine ⟨ih, List.pairwise_singleton _ _, ?_⟩
      intro time htime now hnow
      obtain rfl := List.mem_singleton.1 hnow
      exact latest time htime

/-- A stretch of time in which any two instants are less than `width` apart holds at most `limit`
of them. -/
theorem countP_le (limited : RollingLimit limit width times) {within : Int → Bool}
    (close : ∀ s t, within s = true → within t = true → t - s < width) :
    times.countP within ≤ limit := by
  induction limited with
  | nil => exact Nat.zero_le _
  | @snoc times now _ _ room ih =>
      rw [List.countP_append, List.countP_singleton]
      by_cases hnow : within now = true
      · -- all the others of the stretch lie in the window that ends now
        have hsub : times.countP within ≤
            times.countP (fun time => decide (now - width < time)) := by
          apply List.countP_mono_left
          intro time _ htime
          have hclose := close time now htime hnow
          apply decide_eq_true
          omega
        rw [if_pos hnow]
        omega
      · rw [if_neg hnow]
        exact ih

end RollingLimit

/-! ## Token buckets -/

/-- A bucket that holds at most `capacity` and pays `cost` for each instant. -/
structure Bucket where
  capacity : Int
  cost : Int
  payable : 0 < cost ∧ cost ≤ capacity

namespace Bucket

variable (bucket : Bucket)

/-- The bucket refills with the time elapsed and pays for one instant, if it can. -/
def spend (credit elapsed : Int) : Option Int :=
  let filled := min bucket.capacity (credit + elapsed)
  if filled < bucket.cost then none else some (filled - bucket.cost)

/-- The credit left after the instants, the first of which comes `time - previous` after the credit
was read. -/
def replay : Int → Int → List Int → Option Int
  | credit, _, [] => some credit
  | credit, previous, time :: times =>
      (bucket.spend credit (time - previous)).bind fun left => replay left time times

variable {bucket} {credit elapsed left previous : Int} {times : List Int}

theorem spend_eq_some :
    bucket.spend credit elapsed = some left ↔
      bucket.cost ≤ min bucket.capacity (credit + elapsed) ∧
        left = min bucket.capacity (credit + elapsed) - bucket.cost := by
  unfold spend
  by_cases hpoor : min bucket.capacity (credit + elapsed) < bucket.cost
  · rw [if_pos hpoor]
    constructor
    · intro h
      exact nomatch h
    · rintro ⟨hpay, -⟩
      omega
  · rw [if_neg hpoor, Option.some.injEq]
    constructor
    · intro h
      exact ⟨by omega, h.symm⟩
    · rintro ⟨-, rfl⟩
      rfl

/-- What is left is not negative, has paid the cost and is no more than the refill allows. -/
theorem spend_bounds (h : bucket.spend credit elapsed = some left) :
    0 ≤ left ∧ left + bucket.cost ≤ bucket.capacity ∧ left + bucket.cost ≤ credit + elapsed := by
  obtain ⟨hpay, rfl⟩ := spend_eq_some.1 h
  omega

/-- A bucket that had the time to fill from empty pays. -/
theorem spend_of_full (hcredit : 0 ≤ credit) (hfull : bucket.cost ≤ elapsed) :
    ∃ left, bucket.spend credit elapsed = some left := by
  have hpayable := bucket.payable
  exact ⟨_, spend_eq_some.2 ⟨by omega, rfl⟩⟩

theorem replay_cons {time : Int} :
    bucket.replay credit previous (time :: times) = some left ↔
      ∃ paid, bucket.spend credit (time - previous) = some paid ∧
        bucket.replay paid time times = some left :=
  Option.bind_eq_some_iff

theorem replay_append {later : List Int} :
    bucket.replay credit previous (times ++ later) =
      (bucket.replay credit previous times).bind fun paid =>
        bucket.replay paid (times.getLast?.getD previous) later := by
  induction times generalizing credit previous with
  | nil => rfl
  | cons time times ih =>
      show ((bucket.spend credit (time - previous)).bind fun paid =>
          bucket.replay paid time (times ++ later)) =
        ((bucket.spend credit (time - previous)).bind fun paid =>
          bucket.replay paid time times).bind _
      rw [Option.bind_assoc]
      congr 1
      funext paid
      rw [ih, List.getLast?_cons]
      rfl

/-- Whatever is replayed in full leaves no debt. -/
theorem replay_nonneg (hcredit : 0 ≤ credit)
    (h : bucket.replay credit previous times = some left) : 0 ≤ left := by
  induction times generalizing credit previous with
  | nil =>
      obtain rfl : credit = left := Option.some.inj h
      exact hcredit
  | cons time times ih =>
      obtain ⟨paid, hspend, hrest⟩ := replay_cons.1 h
      exact ih (spend_bounds hspend).1 hrest

/-- The instants up to `finish` cost no more than the credit at `previous` and the refill since. -/
theorem countP_le_mul_cost {finish : Int} (hcredit : 0 ≤ credit) (hstart : previous ≤ finish)
    (h : bucket.replay credit previous times = some left) (sorted : times.Pairwise (· ≤ ·)) :
    (times.countP (fun time => decide (time ≤ finish)) : Int) * bucket.cost ≤
      credit + (finish - previous) := by
  induction times generalizing credit previous with
  | nil =>
      rw [List.countP_nil]
      omega
  | cons time times ih =>
      obtain ⟨paid, hspend, hrest⟩ := replay_cons.1 h
      obtain ⟨hpaid, _, hrefill⟩ := spend_bounds hspend
      obtain ⟨hfirst, hsorted⟩ := List.pairwise_cons.1 sorted
      by_cases hin : time ≤ finish
      · have hcount := ih hpaid hin hrest hsorted
        rw [List.countP_cons, if_pos (decide_eq_true hin), Int.natCast_add, Int.add_mul]
        push_cast
        omega
      · -- the instants are in order: none of the later ones is before the end either
        have hnone : (time :: times).countP (fun time => decide (time ≤ finish)) = 0 := by
          apply List.countP_eq_zero.2
          intro other hother
          rcases List.mem_cons.1 hother with rfl | hlater
          · simpa using hin
          · have hle := hfirst other hlater
            simp only [decide_eq_true_eq]
            omega
        rw [hnone]
        omega

/-- The instants of an interval cost no more than a full bucket and the refill during the
interval. -/
theorem countP_mul_cost_le {start finish : Int} (hstart : start ≤ finish)
    (h : bucket.replay credit previous times = some left) (sorted : times.Pairwise (· ≤ ·)) :
    (times.countP (fun time => decide (start ≤ time) && decide (time ≤ finish)) : Int) *
        bucket.cost ≤ bucket.capacity + (finish - start) := by
  have hpayable := bucket.payable
  induction times generalizing credit previous with
  | nil =>
      rw [List.countP_nil]
      omega
  | cons time times ih =>
      obtain ⟨paid, hspend, hrest⟩ := replay_cons.1 h
      obtain ⟨hpaid, hcap, _⟩ := spend_bounds hspend
      obtain ⟨hfirst, hsorted⟩ := List.pairwise_cons.1 sorted
      rw [List.countP_cons]
      by_cases hbefore : time < start
      · have hout : (decide (start ≤ time) && decide (time ≤ finish)) = false := by
          simp only [Bool.and_eq_false_iff, decide_eq_false_iff_not]
          omega
        rw [hout]
        exact ih hrest hsorted
      · -- from its first instant on, the interval is bounded by the credit that is left there
        have hle : times.countP (fun time => decide (start ≤ time) && decide (time ≤ finish)) ≤
            times.countP (fun time => decide (time ≤ finish)) := by
          apply List.countP_mono_left
          intro other _ hother
          exact (Bool.and_eq_true_iff.1 hother).2
        by_cases hafter : finish < time
        · have hnone : times.countP
              (fun time => decide (start ≤ time) && decide (time ≤ finish)) = 0 := by
            apply List.countP_eq_zero.2
            intro other hother
            have hle := hfirst other hother
            simp only [Bool.and_eq_true, decide_eq_true_eq]
            omega
          have hout : (decide (start ≤ time) && decide (time ≤ finish)) = false := by
            simp only [Bool.and_eq_false_iff, decide_eq_false_iff_not]
            omega
          rw [hnone, hout]
          simp only [Bool.false_eq_true, ↓reduceIte]
          omega
        · have hin : (decide (start ≤ time) && decide (time ≤ finish)) = true := by
            simp only [Bool.and_eq_true, decide_eq_true_eq]
            omega
          have hcount := countP_le_mul_cost hpaid (show time ≤ finish by omega) hrest hsorted
          have hmul : (times.countP
              (fun time => decide (start ≤ time) && decide (time ≤ finish)) : Int) *
                bucket.cost ≤
              (times.countP (fun time => decide (time ≤ finish)) : Int) * bucket.cost := by
            apply Int.mul_le_mul_of_nonneg_right (by exact_mod_cast hle)
            omega
          rw [if_pos hin, Int.natCast_add, Int.add_mul]
          push_cast
          omega

end Bucket

end StaticHostAgent.Library
