import Mathlib.Data.List.Basic
import Mathlib.Data.List.Perm.Basic
import Mathlib.Algebra.GroupWithZero.Nat
import Mathlib.Order.Lattice

/-!
# Tilings

Ranges of positions that follow one another without a gap. Every position between the ends of a
tiling lies in exactly one of its ranges, and the parts of a list in the ranges make up the part
between the ends.
-/

set_option autoImplicit false

namespace StaticHostAgent.Library

variable {α : Type}

/-- The elements from one position up to another. -/
def slice (list : List α) (start stop : Nat) : List α := (list.take stop).drop start

theorem slice_length {list : List α} {start stop : Nat} (h : stop ≤ list.length) :
    (slice list start stop).length = stop - start := by
  unfold slice
  rw [List.length_drop, List.length_take, Nat.min_eq_left h]

theorem slice_self (list : List α) (position : Nat) : slice list position position = [] := by
  unfold slice
  apply List.drop_eq_nil_of_le
  exact List.length_take_le position list

theorem slice_all (list : List α) : slice list 0 list.length = list := List.take_length

theorem slice_append (list : List α) {start middle stop : Nat} (hstart : start ≤ middle)
    (hstop : middle ≤ stop) :
    slice list start middle ++ slice list middle stop = slice list start stop := by
  unfold slice
  have hsplit : list.take stop = list.take middle ++ (list.take stop).drop middle := by
    have hparts := List.take_append_drop middle (list.take stop)
    rw [List.take_take, Nat.min_eq_left hstop] at hparts
    exact hparts.symm
  by_cases hle : start ≤ (list.take middle).length
  · rw [hsplit, List.drop_append_of_le_length hle, ← hsplit]
  · -- the list ends before the range
    have hshort : list.length ≤ start := by
      rw [List.length_take] at hle
      omega
    have hnil : ∀ n m : Nat, start ≤ m → (list.take n).drop m = [] := by
      intro n m hm
      apply List.drop_eq_nil_of_le
      exact Nat.le_trans (List.length_take_le' n list) (Nat.le_trans hshort hm)
    rw [hnil middle start (Nat.le_refl _), hnil stop middle hstart, hnil stop start (Nat.le_refl _)]
    rfl

/-- A slice as the elements behind a position. -/
theorem slice_eq_drop_take (list : List α) (start length : Nat) :
    slice list start (start + length) = (list.drop start).take length := by
  unfold slice
  rw [List.take_drop]

/-- Ranges that follow one another from `start` to `final`. -/
inductive Tiles : Nat → List (Nat × Nat) → Nat → Prop where
  | nil {position : Nat} : Tiles position [] position
  | cons {start stop final : Nat} {ranges : List (Nat × Nat)} :
      start ≤ stop → Tiles stop ranges final → Tiles start ((start, stop) :: ranges) final

/-- A position lies in a range. -/
def covers (position : Nat) (range : Nat × Nat) : Bool :=
  decide (range.1 ≤ position ∧ position < range.2)

section Tiles

variable {start middle final : Nat} {ranges more : List (Nat × Nat)}

theorem Tiles.le (tiles : Tiles start ranges final) : start ≤ final := by
  induction tiles with
  | nil => exact Nat.le_refl _
  | cons hle _ ih => exact Nat.le_trans hle ih

theorem Tiles.append (tiles : Tiles start ranges middle) (rest : Tiles middle more final) :
    Tiles start (ranges ++ more) final := by
  induction tiles with
  | nil => exact rest
  | cons hle _ ih => exact .cons hle (ih rest)

/-- The parts in the ranges make up the whole. -/
theorem Tiles.slices (tiles : Tiles start ranges final) (list : List α) :
    (ranges.flatMap fun range => slice list range.1 range.2) = slice list start final := by
  induction tiles with
  | nil => exact (slice_self list _).symm
  | cons hle hrest ih =>
      rw [List.flatMap_cons, ih]
      exact slice_append list hle hrest.le

/-- The number of ranges that a position lies in: one between the ends, none elsewhere. -/
theorem Tiles.countP (tiles : Tiles start ranges final) (position : Nat) :
    ranges.countP (covers position) =
      if start ≤ position ∧ position < final then 1 else 0 := by
  induction tiles with
  | nil =>
      rw [List.countP_nil, if_neg]
      omega
  | @cons start stop final ranges hle hrest ih =>
      have hend := hrest.le
      rw [List.countP_cons, ih]
      have hfirst : covers position (start, stop) = true ↔ start ≤ position ∧ position < stop :=
        decide_eq_true_iff
      -- before, inside or behind the first range
      by_cases hbefore : position < start
      · rw [if_neg (by omega), if_neg (by rw [hfirst]; omega), if_neg (by omega)]
      · by_cases hinside : position < stop
        · rw [if_neg (by omega), if_pos (hfirst.2 (by omega)), if_pos (by omega)]
        · rw [if_neg (c := covers position (start, stop) = true) (by rw [hfirst]; omega)]
          by_cases hbehind : position < final
          · rw [if_pos (by omega), if_pos (by omega)]
          · rw [if_neg (by omega), if_neg (by omega)]

/-- The same for the ranges in another order. -/
theorem Tiles.countP_perm (tiles : Tiles start ranges final) (hperm : more.Perm ranges)
    (position : Nat) :
    more.countP (covers position) =
      if start ≤ position ∧ position < final then 1 else 0 := by
  rw [hperm.countP_eq]
  exact tiles.countP position

theorem Tiles.within (tiles : Tiles start ranges final) {range : Nat × Nat}
    (h : range ∈ ranges) : start ≤ range.1 ∧ range.1 ≤ range.2 ∧ range.2 ≤ final := by
  induction tiles with
  | nil => cases h
  | cons hle hrest ih =>
      rcases List.mem_cons.1 h with rfl | h
      · exact ⟨Nat.le_refl _, hle, hrest.le⟩
      · obtain ⟨hfrom, hrange, hto⟩ := ih h
        exact ⟨Nat.le_trans hle hfrom, hrange, hto⟩

end Tiles

end StaticHostAgent.Library
