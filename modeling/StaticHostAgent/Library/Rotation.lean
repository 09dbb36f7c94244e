import Mathlib.Data.List.Rotate
import Mathlib.Data.List.Sort
import Mathlib.Data.List.Sublists
import Mathlib.Algebra.GroupWithZero.Nat
import Mathlib.Order.Lattice

/-!
# Rotating queues

A queue is served in batches: each call takes the first `limit` entries and puts them behind the
others. Between two calls entries may leave. An entry that stays is served before the batches have
counted as many places as were before it (`Rotates.mem_picks`), and between two services of any
entry every entry that stays is served (`Rotates.mem_between`). If nobody leaves, the services
follow the cyclic order of the first queue (`rotations_picks`).

A queue need not be kept: an ordered list of the entries and the entry served last determine it
(`resume_last`).
-/

set_option autoImplicit false

namespace StaticHostAgent.Library

variable {α : Type} {limit : Nat}

/-! ## Sublists and positions -/

/-- An entry that a sublist keeps splits it as it splits the list. -/
theorem sublist_split {queue before after : List α} {x : α}
    (hsub : queue.Sublist (before ++ x :: after)) (hnodup : (before ++ x :: after).Nodup)
    (hx : x ∈ queue) :
    ∃ b a, queue = b ++ x :: a ∧ b.Sublist before ∧ a.Sublist after := by
  obtain ⟨b, rest, rfl, hb, hrest⟩ := List.sublist_append_iff.1 hsub
  obtain ⟨_, hxafter, hdisjoint⟩ := List.nodup_append.1 hnodup
  have hxb : x ∉ b := fun h => hdisjoint x (hb.subset h) x (List.mem_cons_self) rfl
  have hxrest : x ∈ rest := (List.mem_append.1 hx).resolve_left hxb
  cases hrest with
  | cons _ hlater => exact absurd (hlater.subset hxrest) (List.nodup_cons.1 hxafter).1
  | @cons_cons a _ _ hafter => exact ⟨b, a, rfl, hb, hafter⟩

/-- `x` comes first: wherever `y` stands, `x` stands before it. -/
theorem mem_of_split {b r before after : List α} {x y : α} (hne : x ≠ y) (hb : y ∉ b)
    (h : b ++ x :: r = before ++ y :: after) : x ∈ before := by
  rcases List.append_eq_append_iff.1 h with ⟨c, rfl, hc⟩ | ⟨c, rfl, hc⟩
  · cases c with
    | nil => exact absurd (List.cons.inj hc).1 hne
    | cons head c =>
        obtain ⟨rfl, -⟩ := List.cons.inj hc
        exact List.mem_append_right _ List.mem_cons_self
  · cases c with
    | nil => exact absurd (List.cons.inj hc).1.symm hne
    | cons head c =>
        obtain ⟨rfl, -⟩ := List.cons.inj hc
        exact absurd (List.mem_append_right _ List.mem_cons_self) hb

/-! ## Queues that are served -/

/-- The queue after a call. -/
def served (limit : Nat) (queue : List α) : List α := queue.drop limit ++ queue.take limit

theorem served_perm (limit : Nat) (queue : List α) : (served limit queue).Perm queue := by
  have hswap : (queue.drop limit ++ queue.take limit).Perm (queue.take limit ++ queue.drop limit) :=
    List.perm_append_comm
  rw [List.take_append_drop] at hswap
  exact hswap

/-- The queues of successive calls, where each is what is left of the line at that moment. -/
inductive Rotates (limit : Nat) : List α → List (List α) → Prop where
  | done (line : List α) : Rotates limit line []
  | call {line queue : List α} {queues : List (List α)} (stays : queue.Sublist line)
      (later : Rotates limit (served limit queue) queues) : Rotates limit line (queue :: queues)

/-- All that is served, in order. -/
def picks (limit : Nat) (queues : List (List α)) : List α := queues.flatMap (List.take limit)

theorem picks_cons (queue : List α) (queues : List (List α)) :
    picks limit (queue :: queues) = queue.take limit ++ picks limit queues :=
  List.flatMap_cons

theorem not_mem_of_take {queue before c : List α} {y : α} (hnodup : queue.Nodup)
    (htake : queue.take limit = before ++ y :: c) : y ∉ c := by
  have htwice := hnodup.sublist (List.take_sublist limit queue)
  rw [htake] at htwice
  exact (List.nodup_cons.1 (List.nodup_append.1 htwice).2.1).1

/-- After a batch that serves `y`, whatever it did not serve after `y` stands before `y`. -/
theorem served_before {queue before c : List α} {x y : α} (hnodup : queue.Nodup)
    (htake : queue.take limit = before ++ y :: c) (hx : x ∈ queue) (hne : x ≠ y) (hc : x ∉ c) :
    ∃ b a, served limit queue = b ++ x :: a ∧ y ∉ b := by
  have hqueue : (queue.take limit ++ queue.drop limit).Nodup := by
    rw [List.take_append_drop]
    exact hnodup
  obtain ⟨htakes, _, hdisjoint⟩ := List.nodup_append.1 hqueue
  have hydrop : y ∉ queue.drop limit := fun h =>
    hdisjoint y (by rw [htake]; exact List.mem_append_right _ List.mem_cons_self) y h rfl
  unfold served
  rw [← List.take_append_drop limit queue] at hx
  rcases List.mem_append.1 hx with hserved | hwaits
  · rw [htake] at hserved htakes ⊢
    have hbefore : x ∈ before := by
      rcases List.mem_append.1 hserved with h | h
      · exact h
      · rcases List.mem_cons.1 h with rfl | h
        · exact absurd rfl hne
        · exact absurd h hc
    have hybefore : y ∉ before := fun h =>
      (List.nodup_append.1 htakes).2.2 y h y List.mem_cons_self rfl
    obtain ⟨b, a, rfl⟩ := List.append_of_mem hbefore
    refine ⟨queue.drop limit ++ b, a ++ y :: c, ?_, ?_⟩
    · rw [List.append_assoc, List.append_assoc, List.cons_append]
    · intro h
      rcases List.mem_append.1 h with h | h
      · exact hydrop h
      · exact hybefore (List.mem_append_left _ h)
  · obtain ⟨b, a, hsplit⟩ := List.append_of_mem hwaits
    refine ⟨b, a ++ queue.take limit, ?_, ?_⟩
    · rw [hsplit, List.append_assoc, List.cons_append]
    · intro h
      rw [hsplit] at hydrop
      exact hydrop (List.mem_append_left _ h)

namespace Rotates

variable {line : List α} {queues : List (List α)} {x y : α}

/-- An entry that stays is served in time. -/
theorem mem_picks (rotates : Rotates limit line queues) (hnodup : line.Nodup)
    (stays : ∀ queue ∈ queues, x ∈ queue) {before after : List α}
    (split : line = before ++ x :: after) (htime : before.length < queues.length * limit) :
    x ∈ picks limit queues := by
  induction rotates generalizing before after with
  | done => rw [List.length_nil, Nat.zero_mul] at htime; exact absurd htime (Nat.not_lt_zero _)
  | @call line queue queues hsub _ ih =>
      subst split
      obtain ⟨b, a, rfl, hb, -⟩ := sublist_split hsub hnodup (stays _ List.mem_cons_self)
      rw [picks_cons]
      by_cases hnow : b.length < limit
      · apply List.mem_append_left
        rw [List.take_append, List.take_cons (by omega)]
        exact List.mem_append_right _ List.mem_cons_self
      · -- not yet: a whole batch of those before it is behind it now
        apply List.mem_append_right
        have hline : served limit (b ++ x :: a) =
            b.drop limit ++ x :: (a ++ (b ++ x :: a).take limit) := by
          unfold served
          rw [List.drop_append_of_le_length (by omega), List.append_assoc, List.cons_append]
        apply ih ((served_perm _ _).nodup_iff.2 (hnodup.sublist hsub))
          (fun queue hqueue => stays queue (List.mem_cons_of_mem _ hqueue)) hline
        have hshort := hb.length_le
        rw [List.length_cons, Nat.add_mul, Nat.one_mul] at htime
        rw [List.length_drop]
        omega

/-- Once `x` stands before `y`, it is served before `y` is. -/
theorem mem_before (rotates : Rotates limit line queues) (hnodup : line.Nodup)
    (stays : ∀ queue ∈ queues, x ∈ queue) (hne : x ≠ y) {b a : List α}
    (split : line = b ++ x :: a) (hy : y ∉ b) {before after : List α}
    (hpicks : picks limit queues = before ++ y :: after) : x ∈ before := by
  induction rotates generalizing b a before with
  | done => exact absurd hpicks.symm (List.append_ne_nil_of_right_ne_nil _ (List.cons_ne_nil _ _))
  | @call line queue queues hsub _ ih =>
      subst split
      obtain ⟨b', a', rfl, hb, -⟩ := sublist_split hsub hnodup (stays _ List.mem_cons_self)
      have hy' : y ∉ b' := fun h => hy (hb.subset h)
      rw [picks_cons] at hpicks
      by_cases hnow : b'.length < limit
      · rw [List.take_append, List.take_of_length_le (by omega), List.take_cons (by omega),
          List.append_assoc, List.cons_append] at hpicks
        exact mem_of_split hne hy' hpicks
      · have htake : (b' ++ x :: a').take limit = b'.take limit :=
          List.take_append_of_le_length (by omega)
        rw [htake] at hpicks
        have hyt : y ∉ b'.take limit := fun h => hy' (List.take_subset _ _ h)
        have hline : served limit (b' ++ x :: a') =
            b'.drop limit ++ x :: (a' ++ b'.take limit) := by
          unfold served
          rw [htake, List.drop_append_of_le_length (by omega), List.append_assoc,
            List.cons_append]
        have hlater : ∀ queue ∈ queues, x ∈ queue :=
          fun queue hqueue => stays queue (List.mem_cons_of_mem _ hqueue)
        have hperm := (served_perm limit (b' ++ x :: a')).nodup_iff.2 (hnodup.sublist hsub)
        have hyd : y ∉ b'.drop limit := fun h => hy' (List.drop_subset _ _ h)
        rcases List.append_eq_append_iff.1 hpicks with ⟨c, rfl, hc⟩ | ⟨c, htake, hc⟩
        · exact List.mem_append_right _ (ih hperm hlater hline hyd hc)
        · cases c with
          | nil =>
              have hnone : x ∈ [] := ih hperm hlater hline hyd hc.symm
              exact absurd hnone List.not_mem_nil
          | cons head c =>
              obtain ⟨rfl, -⟩ := List.cons.inj hc
              rw [htake] at hyt
              exact absurd (List.mem_append_right _ List.mem_cons_self) hyt

/-- Between two services of `y` every other entry that stays is served. -/
theorem mem_between (rotates : Rotates limit line queues) (hnodup : line.Nodup)
    (stays : ∀ queue ∈ queues, x ∈ queue) (hne : x ≠ y) {before between after : List α}
    (hpicks : picks limit queues = before ++ y :: (between ++ y :: after)) : x ∈ between := by
  induction rotates generalizing before with
  | done => exact absurd hpicks.symm (List.append_ne_nil_of_right_ne_nil _ (List.cons_ne_nil _ _))
  | @call line queue queues hsub later ih =>
      have hqueue := hnodup.sublist hsub
      have hperm := (served_perm limit queue).nodup_iff.2 hqueue
      have hlater : ∀ queue ∈ queues, x ∈ queue :=
        fun queue hqueue => stays queue (List.mem_cons_of_mem _ hqueue)
      rw [picks_cons] at hpicks
      rcases List.append_eq_append_iff.1 hpicks with ⟨c, rfl, hc⟩ | ⟨c, htake, hc⟩
      · exact ih hperm hlater hc
      · cases c with
        | nil =>
            have hsame : picks limit queues = [] ++ y :: (between ++ y :: after) := hc.symm
            exact ih hperm hlater hsame
        | cons head c =>
            obtain ⟨rfl, hrest⟩ := List.cons.inj hc
            by_cases hxc : x ∈ c
            · -- `x` is served in the batch that serves `y` first
              rcases List.append_eq_append_iff.1 hrest with ⟨d, rfl, hd⟩ | ⟨d, rfl, hd⟩
              · cases d with
                | nil => rw [List.append_nil] at hxc; exact hxc
                | cons head d =>
                    obtain ⟨rfl, -⟩ := List.cons.inj hd
                    exact absurd (List.mem_append_right _ List.mem_cons_self)
                      (not_mem_of_take hqueue htake)
              · exact List.mem_append_left _ hxc
            · -- otherwise it stands before `y` in the line that the call leaves
              obtain ⟨b, a, hline, hy⟩ :=
                served_before hqueue htake (stays queue List.mem_cons_self) hne hxc
              rcases List.append_eq_append_iff.1 hrest with ⟨d, rfl, hd⟩ | ⟨d, rfl, hd⟩
              · cases d with
                | nil =>
                    have hnone : x ∈ [] := later.mem_before hperm hlater hne hline hy hd.symm
                    exact absurd hnone List.not_mem_nil
                | cons head d =>
                    obtain ⟨rfl, -⟩ := List.cons.inj hd
                    exact absurd (List.mem_append_right _ List.mem_cons_self)
                      (not_mem_of_take hqueue htake)
              · exact List.mem_append_right _ (later.mem_before hperm hlater hne hline hy hd)

end Rotates

/-! ## Queues that nobody leaves -/

theorem served_eq_rotate (limit : Nat) (queue : List α) :
    served limit queue = queue.rotate (min limit queue.length) := by
  unfold served
  rw [List.rotate_eq_drop_append_take (Nat.min_le_right _ _)]
  rcases Nat.le_total limit queue.length with hle | hle
  · rw [Nat.min_eq_left hle]
  · rw [Nat.min_eq_right hle, List.drop_eq_nil_of_le hle, List.take_of_length_le hle,
      List.drop_length, List.take_length]

/-- The queues of `calls` calls. -/
def rotations (limit : Nat) : List α → Nat → List (List α)
  | _, 0 => []
  | queue, calls + 1 => queue :: rotations limit (served limit queue) calls

theorem rotations_length (queue : List α) (calls : Nat) :
    (rotations limit queue calls).length = calls := by
  induction calls generalizing queue with
  | zero => rfl
  | succ calls ih => exact congrArg Nat.succ (ih (served limit queue))

theorem rotations_perm {queue other : List α} {calls : Nat}
    (hother : other ∈ rotations limit queue calls) : other.Perm queue := by
  induction calls generalizing queue with
  | zero => exact absurd hother List.not_mem_nil
  | succ calls ih =>
      rcases List.mem_cons.1 hother with rfl | hlater
      · exact List.Perm.refl _
      · exact (ih hlater).trans (served_perm limit queue)

theorem rotations_picks_length (limit : Nat) (queue : List α) (calls : Nat) :
    (picks limit (rotations limit queue calls)).length = calls * min limit queue.length := by
  induction calls generalizing queue with
  | zero => rw [Nat.zero_mul]; rfl
  | succ calls ih =>
      show (picks limit (queue :: rotations limit (served limit queue) calls)).length = _
      rw [picks_cons, List.length_append, List.length_take, ih, (served_perm _ _).length_eq,
        Nat.add_mul, Nat.one_mul, Nat.add_comm]

/-- The services go round the first queue. -/
theorem rotations_picks (limit : Nat) (queue : List α) (calls : Nat) {i : Nat}
    (hi : i < calls * min limit queue.length) :
    (picks limit (rotations limit queue calls))[i]? = queue[i % queue.length]? := by
  induction calls generalizing queue i with
  | zero => rw [Nat.zero_mul] at hi; exact absurd hi (Nat.not_lt_zero _)
  | succ calls ih =>
      show (picks limit (queue :: rotations limit (served limit queue) calls))[i]? = _
      rw [picks_cons]
      have hlength : (queue.take limit).length = min limit queue.length := List.length_take
      by_cases hnow : i < min limit queue.length
      · rw [List.getElem?_append_left (by omega), List.getElem?_take_of_lt (by omega),
          Nat.mod_eq_of_lt (by omega)]
      · have hpos : 0 < queue.length := by
          by_contra hzero
          rw [Nat.eq_zero_of_not_pos hzero, Nat.min_zero, Nat.mul_zero] at hi
          exact absurd hi (Nat.not_lt_zero _)
        rw [Nat.add_mul, Nat.one_mul] at hi
        have hsame : (served limit queue).length = queue.length := (served_perm _ _).length_eq
        rw [List.getElem?_append_right (by omega), hlength, ih _ (by rw [hsame]; omega), hsame,
          served_eq_rotate, List.getElem?_rotate (Nat.mod_lt _ hpos), Nat.mod_add_mod]
        congr 2
        omega

/-! ## Queues kept as a cursor -/

section Resume

variable [LinearOrder α]

/-- The insertion point behind all entries of an ordered list that are at most `x`. -/
def bisectRight (ordered : List α) (x : α) : Nat :=
  (ordered.takeWhile fun entry => decide (entry ≤ x)).length

/-- The ordered entries from the first one after the cursor on, round to the cursor. -/
def resume (ordered : List α) : Option α → List α
  | none => ordered
  | some cursor => ordered.rotate (bisectRight ordered cursor)

theorem resume_eq_rotate (ordered : List α) (cursor : Option α) :
    ∃ start, resume ordered cursor = ordered.rotate start := by
  cases cursor with
  | none => exact ⟨0, (List.rotate_zero _).symm⟩
  | some cursor => exact ⟨_, rfl⟩

theorem resume_perm (ordered : List α) (cursor : Option α) :
    (resume ordered cursor).Perm ordered := by
  cases cursor with
  | none => exact List.Perm.refl _
  | some cursor => exact List.rotate_perm _ _

theorem takeWhile_le_eq_filter {ordered : List α} (sorted : ordered.Pairwise (· < ·)) (x : α) :
    ordered.takeWhile (fun entry => decide (entry ≤ x)) =
        ordered.filter (fun entry => decide (entry ≤ x)) ∧
      ordered.dropWhile (fun entry => decide (entry ≤ x)) =
        ordered.filter (fun entry => decide (x < entry)) := by
  induction ordered with
  | nil => exact ⟨rfl, rfl⟩
  | cons entry ordered ih =>
      obtain ⟨hfirst, hsorted⟩ := List.pairwise_cons.1 sorted
      obtain ⟨htake, hdrop⟩ := ih hsorted
      by_cases hle : entry ≤ x
      · have hnot : ¬ x < entry := not_lt.2 hle
        simp only [List.takeWhile_cons, List.dropWhile_cons, List.filter_cons, hle, hnot,
          decide_true, decide_false, ↓reduceIte, Bool.false_eq_true, htake, hdrop, and_self]
      · -- every later entry is above the cursor too
        have hlt : x < entry := not_le.1 hle
        have hnone : ordered.filter (fun entry => decide (entry ≤ x)) = [] := by
          apply List.filter_eq_nil_iff.2
          intro later hlater
          have habove := lt_trans hlt (hfirst later hlater)
          simpa using habove
        have hall : ordered.filter (fun entry => decide (x < entry)) = ordered := by
          apply List.filter_eq_self.2
          intro later hlater
          exact decide_eq_true (lt_trans hlt (hfirst later hlater))
        simp only [List.takeWhile_cons, List.dropWhile_cons, List.filter_cons, hle, hlt, hnone,
          hall, decide_true, decide_false, ↓reduceIte, Bool.false_eq_true, and_self]

theorem resume_some {ordered : List α} (sorted : ordered.Pairwise (· < ·)) (cursor : α) :
    resume ordered (some cursor) =
      ordered.filter (fun entry => decide (cursor < entry)) ++
        ordered.filter (fun entry => decide (entry ≤ cursor)) := by
  obtain ⟨htake, hdrop⟩ := takeWhile_le_eq_filter sorted cursor
  have hrotate := List.rotate_append_length_eq
    (ordered.takeWhile fun entry => decide (entry ≤ cursor))
    (ordered.dropWhile fun entry => decide (entry ≤ cursor))
  rw [List.takeWhile_append_dropWhile] at hrotate
  show ordered.rotate (ordered.takeWhile fun entry => decide (entry ≤ cursor)).length = _
  rw [hrotate, htake, hdrop]

/-- What is left of the entries keeps its order. -/
theorem resume_sublist {ordered remaining : List α} (sorted : ordered.Pairwise (· < ·))
    (hsub : remaining.Sublist ordered) (cursor : Option α) :
    (resume remaining cursor).Sublist (resume ordered cursor) := by
  cases cursor with
  | none => exact hsub
  | some cursor =>
      rw [resume_some sorted, resume_some (sorted.sublist hsub)]
      exact (hsub.filter _).append (hsub.filter _)

theorem bisectRight_getElem {ordered : List α} (sorted : ordered.Pairwise (· < ·)) {j : Nat}
    (hj : j < ordered.length) : bisectRight ordered ordered[j] = j + 1 := by
  induction ordered generalizing j with
  | nil => exact absurd hj (Nat.not_lt_zero _)
  | cons entry ordered ih =>
      obtain ⟨hfirst, hsorted⟩ := List.pairwise_cons.1 sorted
      unfold bisectRight
      cases j with
      | zero =>
          have hnone : ordered.takeWhile (fun later => decide (later ≤ entry)) = [] := by
            rw [(takeWhile_le_eq_filter hsorted entry).1, List.filter_eq_nil_iff]
            intro later hlater
            simpa using hfirst later hlater
          rw [List.getElem_cons_zero, List.takeWhile_cons, if_pos (decide_eq_true le_rfl), hnone]
          rfl
      | succ j =>
          have hj' : j < ordered.length := Nat.lt_of_succ_lt_succ hj
          have hbelow : entry ≤ ordered[j] := le_of_lt (hfirst _ (List.getElem_mem hj'))
          rw [List.getElem_cons_succ, List.takeWhile_cons, if_pos (decide_eq_true hbelow),
            List.length_cons]
          exact congrArg Nat.succ (ih hsorted hj')

/-- The entry that was served last is where the next call has to resume. -/
theorem resume_last {ordered : List α} (sorted : ordered.Pairwise (· < ·)) {cursor : Option α}
    {last : α} (hlast : ((resume ordered cursor).take limit).getLast? = some last) :
    resume ordered (some last) = served limit (resume ordered cursor) := by
  obtain ⟨start, hstart⟩ := resume_eq_rotate ordered cursor
  rw [hstart] at hlast ⊢
  rw [served_eq_rotate, List.rotate_rotate, List.length_rotate]
  have hlength : ((ordered.rotate start).take limit).length = min limit ordered.length := by
    rw [List.length_take, List.length_rotate]
  rw [List.getLast?_eq_getElem?, hlength] at hlast
  have hpos : 0 < min limit ordered.length := by
    by_contra hzero
    rw [List.getElem?_eq_none (by omega)] at hlast
    exact nomatch hlast
  have hn : 0 < ordered.length := by omega
  rw [List.getElem?_take_of_lt (by omega), List.getElem?_rotate (by omega)] at hlast
  -- the place of the last entry of the batch
  generalize hplace : (min limit ordered.length - 1 + start) % ordered.length = place at hlast
  have hbound : place < ordered.length := by
    rw [← hplace]
    exact Nat.mod_lt _ hn
  rw [List.getElem?_eq_getElem hbound] at hlast
  obtain rfl := Option.some.inj hlast
  show ordered.rotate (bisectRight ordered ordered[place]) = _
  rw [bisectRight_getElem sorted hbound, ← List.rotate_mod, ← hplace, Nat.mod_add_mod,
    List.rotate_mod]
  congr 1
  omega

end Resume

end StaticHostAgent.Library
