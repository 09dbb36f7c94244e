import StaticHostAgent.Contracts.Texts
import StaticHostAgent.Library.Checks
import StaticHostAgent.Library.Rotation
import Mathlib.Data.String.Basic

/-!
# Recovery batches

A startup hands over at most `limit` of the unfinished jobs. A file keeps the identity that was
handed over last; the next call resumes after it in the order of the identities, whatever jobs are
left by then. `recoveryBatch_fairness` says what a job can count on.
-/

set_option autoImplicit false

namespace StaticHostAgent.Jobs

open Library Contracts

inductive RecoveryError where
  | value (message : String)
  | contract (message : String)
  | stateRecord (message : String)
  deriving DecidableEq

/-! ## One call -/

/-- The text of the cursor file, if there is one. -/
abbrev CursorFile : Type := Option String

def readCursor : CursorFile → Except RecoveryError (Option String)
  | none => .ok none
  | some rawCursor => do
      require (isUuid7 rawCursor) (.stateRecord "recovery cursor is invalid")
      pure (some rawCursor)

/-- The batch of an inventory that is not empty, and the cursor file it leaves. -/
def nextBatch (limit : Int) (canonical : List String) (cursor : Option String) :
    List String × CursorFile :=
  let start := match cursor with
    | none => 0
    | some cursor => bisectRight canonical cursor % canonical.length
  let count := min limit.toNat canonical.length
  let batch := (List.range count).map fun offset =>
    canonical.getD ((start + offset) % canonical.length) ""
  (batch, batch.getLast?)

/-- `select_recovery_batch`, with the cursor file before and after the call. -/
def selectRecoveryBatch (limit : Int) (file : CursorFile) (jobIds : List String) :
    Except RecoveryError (List String × CursorFile) := do
  require (decide (0 < limit)) (.value "recovery batch limit must be a positive integer")
  require (jobIds.all isUuid7) (.contract "identifier is not a canonical UUIDv7")
  let canonical := jobIds.insertionSort (· ≤ ·)
  require (decide canonical.Nodup) (.stateRecord "recovery inventory contains duplicate job IDs")
  if canonical.isEmpty then
    pure ([], file)
  else do
    let cursor ← readCursor file
    pure (nextBatch limit canonical cursor)

/-- Successive calls, each with the inventory it finds. -/
def recoveryBatches (limit : Int) : CursorFile → List (List String) →
    Except RecoveryError (List (List String))
  | _, [] => .ok []
  | file, jobIds :: later => do
      let (batch, file) ← selectRecoveryBatch limit file jobIds
      let batches ← recoveryBatches limit file later
      pure (batch :: batches)

/-! ## The queue behind the cursor -/

/-- Distinct canonical identities, in any order. -/
structure Inventory (jobIds : List String) : Prop where
  canonical : ∀ jobId ∈ jobIds, isUuid7 jobId = true
  distinct : jobIds.Nodup

/-- No file, or one that a call has written. -/
def CursorFile.Sound (file : CursorFile) : Prop := ∀ text, file = some text → isUuid7 text = true

/-- The jobs in the order in which they are due. -/
def dueQueue (file : CursorFile) (jobIds : List String) : List String :=
  resume (jobIds.insertionSort (· ≤ ·)) file

variable {limit : Nat} {file : CursorFile} {jobIds : List String}

theorem sorted_lt (inventory : Inventory jobIds) :
    (jobIds.insertionSort (· ≤ ·)).Pairwise (· < ·) := by
  have hle := List.pairwise_insertionSort (· ≤ ·) jobIds
  have hnodup := (List.perm_insertionSort (· ≤ ·) jobIds).nodup_iff.2 inventory.distinct
  exact (hle.and hnodup).imp fun ⟨hle, hne⟩ => lt_of_le_of_ne hle hne

theorem dueQueue_perm (file : CursorFile) (jobIds : List String) :
    (dueQueue file jobIds).Perm jobIds :=
  (resume_perm _ _).trans (List.perm_insertionSort (· ≤ ·) jobIds)

/-- The arithmetic of the cursor takes the front of the queue. -/
theorem nextBatch_eq {canonical : List String} (cursor : Option String) :
    nextBatch limit canonical cursor =
      ((resume canonical cursor).take limit, ((resume canonical cursor).take limit).getLast?) := by
  suffices h : (nextBatch limit canonical cursor).1 = (resume canonical cursor).take limit by
    rw [← h]
    rfl
  obtain ⟨start, hstart, hresume⟩ : ∃ start,
      (match cursor with
        | none => 0
        | some cursor => bisectRight canonical cursor % canonical.length) = start ∧
      resume canonical cursor = canonical.rotate start := by
    cases cursor with
    | none => exact ⟨0, rfl, (List.rotate_zero _).symm⟩
    | some cursor => exact ⟨_, rfl, (List.rotate_mod _ _).symm⟩
  show (List.range (min (limit : Int).toNat canonical.length)).map
    (fun offset => canonical.getD (_ % canonical.length) "") = _
  rw [hstart, hresume]
  apply List.ext_getElem
  · rw [List.length_map, List.length_range, List.length_take, List.length_rotate, Int.toNat_natCast]
  · intro i hi _
    rw [List.length_map, List.length_range] at hi
    have hn : 0 < canonical.length := by omega
    rw [List.getElem_map, List.getElem_range, List.getElem_take, List.getElem_rotate,
      List.getD_eq_getElem?_getD, List.getElem?_eq_getElem (Nat.mod_lt _ hn), Option.getD_some]
    congr 2
    exact Nat.add_comm _ _

/-- A call takes the front of the queue; what it leaves in the file is sound, and the whole queue
stands behind what it took. -/
theorem selectRecoveryBatch_ok (hlimit : 0 < limit) (sound : file.Sound)
    (inventory : Inventory jobIds) :
    ∃ after : CursorFile,
      selectRecoveryBatch limit file jobIds = .ok ((dueQueue file jobIds).take limit, after) ∧
      after.Sound ∧
      resume (jobIds.insertionSort (· ≤ ·)) after = served limit (dueQueue file jobIds) := by
  have hperm := List.perm_insertionSort (· ≤ ·) jobIds
  have hall : jobIds.all isUuid7 = true := List.all_eq_true.2 inventory.canonical
  have hnodup := hperm.nodup_iff.2 inventory.distinct
  unfold selectRecoveryBatch
  rw [decide_eq_true (Int.natCast_pos.2 hlimit), require_true, ok_bind, hall, require_true, ok_bind]
  dsimp only
  rw [decide_eq_true hnodup, require_true, ok_bind]
  by_cases hempty : (jobIds.insertionSort (· ≤ ·)).isEmpty = true
  · have hnil := List.isEmpty_iff.1 hempty
    have hdue : dueQueue file jobIds = [] := by
      unfold dueQueue
      exact List.perm_nil.1 ((resume_perm _ _).trans (List.Perm.of_eq hnil))
    refine ⟨file, ?_, sound, ?_⟩
    · rw [if_pos hempty, hdue, List.take_nil]
      rfl
    · show dueQueue file jobIds = _
      rw [hdue]
      exact (List.perm_nil.1 (served_perm limit [])).symm
  · rw [if_neg hempty]
    have hread : readCursor file = .ok file := by
      cases file with
      | none => rfl
      | some text =>
          show (require (isUuid7 text) _ >>= fun _ => _) = _
          rw [sound text rfl, require_true]
          rfl
    rw [hread, ok_bind, nextBatch_eq]
    refine ⟨_, rfl, ?_, ?_⟩
    · intro text htext
      have hmem := (List.take_subset _ _) (List.mem_of_getLast? htext)
      exact inventory.canonical text ((dueQueue_perm file jobIds).mem_iff.1 hmem)
    · have hne : (resume (jobIds.insertionSort (· ≤ ·)) file).take limit ≠ [] := by
        intro hnil
        rcases List.take_eq_nil_iff.1 hnil with hzero | hnil
        · omega
        · have hperm := resume_perm (jobIds.insertionSort (· ≤ ·)) file
          rw [hnil] at hperm
          exact hempty (List.isEmpty_iff.2 (List.nil_perm.1 hperm))
      have hlast := List.getLast?_eq_some_getLast hne
      rw [hlast]
      exact resume_last (sorted_lt inventory) hlast

/-! ## Successive calls -/

/-- Jobs leave between calls, none comes. -/
def Shrinking (inventories : List (List String)) : Prop :=
  inventories.IsChain fun jobIds next => ∀ jobId ∈ next, jobId ∈ jobIds

theorem dueQueue_sublist {next : List String} (inventory : Inventory jobIds)
    (remaining : Inventory next) (hsub : ∀ jobId ∈ next, jobId ∈ jobIds) (file : CursorFile) :
    (dueQueue file next).Sublist (resume (jobIds.insertionSort (· ≤ ·)) file) := by
  apply resume_sublist (sorted_lt inventory)
  apply List.sublist_of_subperm_of_pairwise (r := (· ≤ ·))
  · apply List.Nodup.subperm ((sorted_lt remaining).imp ne_of_lt)
    intro jobId hjobId
    exact (List.mem_insertionSort (· ≤ ·)).2 (hsub jobId ((List.mem_insertionSort (· ≤ ·)).1 hjobId))
  · exact List.pairwise_insertionSort (· ≤ ·) next
  · exact List.pairwise_insertionSort (· ≤ ·) jobIds

/-- The run lemma: calls over a shrinking inventory serve rotating queues. -/
theorem recoveryBatches_rotate (hlimit : 0 < limit) (sound : file.Sound)
    {inventories : List (List String)} (all : ∀ jobIds ∈ inventories, Inventory jobIds)
    (shrinking : Shrinking inventories) {line : List String}
    (hline : ∀ jobIds ∈ inventories.head?, (dueQueue file jobIds).Sublist line) :
    ∃ queues, recoveryBatches limit file inventories = .ok (queues.map (List.take limit)) ∧
      Rotates limit line queues ∧ List.Forall₂ List.Perm queues inventories := by
  induction inventories generalizing file line with
  | nil => exact ⟨[], rfl, Rotates.done line, List.Forall₂.nil⟩
  | cons jobIds later ih =>
      have hfirst := all jobIds List.mem_cons_self
      obtain ⟨after, hcall, hsound, hafter⟩ := selectRecoveryBatch_ok hlimit sound hfirst
      have hnext : ∀ next ∈ later.head?,
          (dueQueue after next).Sublist (served limit (dueQueue file jobIds)) := by
        intro next hnext
        have hmem := List.mem_of_mem_head? hnext
        rw [← hafter]
        apply dueQueue_sublist hfirst (all next (List.mem_cons_of_mem _ hmem))
        exact (List.isChain_cons.1 shrinking).1 next hnext
      obtain ⟨queues, hrun, hrotates, hperm⟩ := ih hsound
        (fun next hnext => all next (List.mem_cons_of_mem _ hnext))
        (List.isChain_cons.1 shrinking).2 hnext
      refine ⟨dueQueue file jobIds :: queues, ?_,
        Rotates.call (hline jobIds rfl) hrotates,
        List.Forall₂.cons (dueQueue_perm file jobIds) hperm⟩
      show (selectRecoveryBatch limit file jobIds >>= fun _ => _) = _
      rw [hcall, ok_bind]
      dsimp only
      rw [hrun, ok_bind]
      rfl

/-- If the set of jobs stays, the queues are the rotations of the first one. -/
theorem recoveryBatches_fixed (hlimit : 0 < limit) (sound : file.Sound)
    (inventory : Inventory jobIds) {inventories : List (List String)}
    (fixed : ∀ other ∈ inventories, other.Perm jobIds) :
    recoveryBatches limit file inventories = .ok
      ((rotations limit (dueQueue file jobIds) inventories.length).map (List.take limit)) := by
  induction inventories generalizing file with
  | nil => rfl
  | cons first later ih =>
      have hperm := fixed first List.mem_cons_self
      have hsort : first.insertionSort (· ≤ ·) = jobIds.insertionSort (· ≤ ·) := by
        apply List.Perm.eq_of_pairwise' (List.pairwise_insertionSort (· ≤ ·) first)
          (List.pairwise_insertionSort (· ≤ ·) jobIds)
        exact (List.perm_insertionSort (· ≤ ·) first).trans
          (hperm.trans (List.perm_insertionSort (· ≤ ·) jobIds).symm)
      have hfirst : Inventory first :=
        ⟨fun jobId hjobId => inventory.canonical jobId (hperm.mem_iff.1 hjobId),
          hperm.nodup_iff.2 inventory.distinct⟩
      obtain ⟨after, hcall, hsound, hafter⟩ := selectRecoveryBatch_ok hlimit sound hfirst
      have hdue : dueQueue file first = dueQueue file jobIds := by
        unfold dueQueue
        rw [hsort]
      rw [hdue, hsort] at hafter
      have hrest := ih hsound fun other hother => fixed other (List.mem_cons_of_mem _ hother)
      show (selectRecoveryBatch limit file first >>= fun _ => _) = _
      rw [hcall, ok_bind]
      dsimp only
      rw [hrest, ok_bind, hdue]
      show Except.ok _ = Except.ok (_ :: List.map _ (rotations limit (served limit _) _))
      rw [← hafter]
      rfl

/-- How many calls a limit needs for `n` jobs. -/
def callsFor (n limit : Nat) : Nat := (n + limit - 1) / limit

theorem le_callsFor_mul (hlimit : 0 < limit) (n : Nat) : n ≤ callsFor n limit * limit := by
  have hdiv := Nat.div_add_mod (n + limit - 1) limit
  have hmod := Nat.mod_lt (n + limit - 1) hlimit
  have hcomm := Nat.mul_comm ((n + limit - 1) / limit) limit
  unfold callsFor
  omega

/-- What the unfinished jobs can count on, from any sound cursor and however the inventories are
listed. -/
structure RecoveryFairness : Prop where
  /-- Over a fixed set the batches are full and go round the ordered identities. -/
  cyclic : ∀ (limit : Nat) (file : CursorFile) (jobIds : List String)
    (inventories : List (List String)), 0 < limit → file.Sound → Inventory jobIds →
    (∀ other ∈ inventories, other.Perm jobIds) →
    ∃ (batches : List (List String)) (start : Nat),
      recoveryBatches limit file inventories = .ok batches ∧
      batches.length = inventories.length ∧
      (∀ batch ∈ batches, batch.length = min limit jobIds.length) ∧
      ∀ i < batches.flatten.length, batches.flatten[i]? =
        (jobIds.insertionSort (· ≤ ·))[(start + i) % jobIds.length]?
  /-- Between two selections of one job every other job is selected. -/
  apart : ∀ (limit : Nat) (file : CursorFile) (jobIds : List String)
    (inventories : List (List String)), 0 < limit → file.Sound → Inventory jobIds →
    (∀ other ∈ inventories, other.Perm jobIds) →
    ∃ batches, recoveryBatches limit file inventories = .ok batches ∧
      ∀ (before between after : List String) (twice other : String),
        batches.flatten = before ++ twice :: (between ++ twice :: after) →
        other ∈ jobIds → other ≠ twice → other ∈ between
  /-- `callsFor` calls select every job. -/
  served : ∀ (limit : Nat) (file : CursorFile) (jobIds : List String)
    (inventories : List (List String)), 0 < limit → file.Sound → Inventory jobIds →
    (∀ other ∈ inventories, other.Perm jobIds) →
    callsFor jobIds.length limit ≤ inventories.length →
    ∃ batches, recoveryBatches limit file inventories = .ok batches ∧
      ∀ jobId ∈ jobIds, jobId ∈ batches.flatten
  /-- Where jobs leave, a job that stays is selected between two selections of any other. -/
  leavingApart : ∀ (limit : Nat) (file : CursorFile) (inventories : List (List String)),
    0 < limit → file.Sound → (∀ jobIds ∈ inventories, Inventory jobIds) → Shrinking inventories →
    ∃ batches, recoveryBatches limit file inventories = .ok batches ∧
      ∀ (before between after : List String) (twice other : String),
        batches.flatten = before ++ twice :: (between ++ twice :: after) →
        (∀ jobIds ∈ inventories, other ∈ jobIds) → other ≠ twice → other ∈ between
  /-- And it is selected as soon as the first set was small enough for. -/
  leavingServed : ∀ (limit : Nat) (file : CursorFile) (first : List String)
    (later : List (List String)), 0 < limit → file.Sound →
    (∀ jobIds ∈ first :: later, Inventory jobIds) → Shrinking (first :: later) →
    callsFor first.length limit ≤ (first :: later).length →
    ∃ batches, recoveryBatches limit file (first :: later) = .ok batches ∧
      ∀ jobId, (∀ jobIds ∈ first :: later, jobId ∈ jobIds) → jobId ∈ batches.flatten

theorem mem_queue {queues inventories : List (List String)}
    (hperm : List.Forall₂ List.Perm queues inventories) {jobId : String}
    (stays : ∀ jobIds ∈ inventories, jobId ∈ jobIds) : ∀ queue ∈ queues, jobId ∈ queue := by
  induction hperm with
  | nil => exact fun queue hqueue => absurd hqueue List.not_mem_nil
  | cons hfirst _ ih =>
      intro queue hqueue
      rcases List.mem_cons.1 hqueue with rfl | hlater
      · exact hfirst.mem_iff.2 (stays _ List.mem_cons_self)
      · exact ih (fun jobIds hjobIds => stays jobIds (List.mem_cons_of_mem _ hjobIds)) queue hlater

/-- The line of a first call. -/
theorem head_sublist (file : CursorFile) (inventories : List (List String)) :
    ∀ jobIds ∈ inventories.head?,
      (dueQueue file jobIds).Sublist (dueQueue file (inventories.head?.getD [])) := by
  intro jobIds hjobIds
  rw [Option.mem_def.1 hjobIds]
  exact List.Sublist.refl _

theorem head_nodup (file : CursorFile) {inventories : List (List String)}
    (all : ∀ jobIds ∈ inventories, Inventory jobIds) :
    (dueQueue file (inventories.head?.getD [])).Nodup := by
  apply (dueQueue_perm _ _).nodup_iff.2
  cases inventories with
  | nil => exact List.nodup_nil
  | cons first later => exact (all first List.mem_cons_self).distinct

/-- A fixed set is a shrinking one. -/
theorem fixed_shrinking (inventory : Inventory jobIds) {inventories : List (List String)}
    (fixed : ∀ other ∈ inventories, other.Perm jobIds) :
    (∀ other ∈ inventories, Inventory other) ∧ Shrinking inventories ∧
      ∀ jobId ∈ jobIds, ∀ other ∈ inventories, jobId ∈ other := by
  refine ⟨?_, ?_, fun jobId hjobId other hother => (fixed other hother).mem_iff.2 hjobId⟩
  · intro other hother
    have hperm := fixed other hother
    exact ⟨fun jobId hjobId => inventory.canonical jobId (hperm.mem_iff.1 hjobId),
      hperm.nodup_iff.2 inventory.distinct⟩
  · induction inventories with
    | nil => exact List.IsChain.nil
    | cons first later ih =>
        refine List.isChain_cons.2 ⟨?_, ih fun other hother =>
          fixed other (List.mem_cons_of_mem _ hother)⟩
        intro next hnext jobId hjobId
        have hmem := List.mem_cons_of_mem first (List.mem_of_mem_head? hnext)
        exact (fixed first List.mem_cons_self).mem_iff.2 ((fixed next hmem).mem_iff.1 hjobId)

theorem recoveryBatches_apart (hlimit : 0 < limit) (sound : file.Sound)
    {inventories : List (List String)} (all : ∀ jobIds ∈ inventories, Inventory jobIds)
    (shrinking : Shrinking inventories) :
    ∃ batches, recoveryBatches limit file inventories = .ok batches ∧
      ∀ (before between after : List String) (twice other : String),
        batches.flatten = before ++ twice :: (between ++ twice :: after) →
        (∀ jobIds ∈ inventories, other ∈ jobIds) → other ≠ twice → other ∈ between := by
  obtain ⟨queues, hrun, hrotates, hperm⟩ :=
    recoveryBatches_rotate hlimit sound all shrinking (head_sublist file inventories)
  refine ⟨_, hrun, ?_⟩
  intro before between after twice other hpicks hstays hne
  exact hrotates.mem_between (head_nodup file all) (mem_queue hperm hstays) hne hpicks

theorem recoveryBatches_served (hlimit : 0 < limit) (sound : file.Sound) {first : List String}
    {later : List (List String)} (all : ∀ jobIds ∈ first :: later, Inventory jobIds)
    (shrinking : Shrinking (first :: later))
    (enough : callsFor first.length limit ≤ (first :: later).length) :
    ∃ batches, recoveryBatches limit file (first :: later) = .ok batches ∧
      ∀ jobId, (∀ jobIds ∈ first :: later, jobId ∈ jobIds) → jobId ∈ batches.flatten := by
  obtain ⟨queues, hrun, hrotates, hperm⟩ :=
    recoveryBatches_rotate hlimit sound all shrinking (head_sublist file (first :: later))
  refine ⟨_, hrun, ?_⟩
  intro jobId hstays
  have hmem : jobId ∈ dueQueue file first :=
    (dueQueue_perm file first).mem_iff.2 (hstays first List.mem_cons_self)
  obtain ⟨before, after, hsplit⟩ := List.append_of_mem hmem
  apply hrotates.mem_picks (head_nodup file all) (mem_queue hperm hstays) hsplit
  have hlength := (dueQueue_perm file first).length_eq
  rw [hsplit, List.length_append, List.length_cons] at hlength
  have hcalls := le_callsFor_mul hlimit first.length
  have hmul := Nat.mul_le_mul_right limit enough
  rw [hperm.length_eq]
  omega

theorem recoveryBatch_fairness : RecoveryFairness where
  cyclic := by
    intro limit file jobIds inventories hlimit sound inventory fixed
    obtain ⟨start, hstart⟩ := resume_eq_rotate (jobIds.insertionSort (· ≤ ·)) file
    have hcount : (dueQueue file jobIds).length = jobIds.length :=
      (dueQueue_perm file jobIds).length_eq
    refine ⟨_, start, recoveryBatches_fixed hlimit sound inventory fixed, ?_, ?_, ?_⟩
    · rw [List.length_map, rotations_length]
    · intro batch hbatch
      obtain ⟨queue, hqueue, rfl⟩ := List.mem_map.1 hbatch
      rw [List.length_take, (rotations_perm hqueue).length_eq, hcount]
    · intro i hi
      have hlength := rotations_picks_length limit (dueQueue file jobIds) inventories.length
      have hi : i < (picks limit (rotations limit (dueQueue file jobIds)
        inventories.length)).length := hi
      rw [hlength] at hi
      have hn : 0 < jobIds.length := by
        by_contra hzero
        rw [hcount, Nat.eq_zero_of_not_pos hzero, Nat.min_zero, Nat.mul_zero] at hi
        exact absurd hi (Nat.not_lt_zero _)
      have hsorted : (jobIds.insertionSort (· ≤ ·)).length = jobIds.length :=
        List.length_insertionSort (· ≤ ·) jobIds
      have hpick := rotations_picks limit (dueQueue file jobIds) inventories.length hi
      rw [hcount] at hpick
      refine hpick.trans ?_
      unfold dueQueue
      rw [hstart, List.getElem?_rotate (by rw [hsorted]; exact Nat.mod_lt _ hn), hsorted,
        Nat.mod_add_mod, Nat.add_comm]
  apart := by
    intro limit file jobIds inventories hlimit sound inventory fixed
    obtain ⟨all, shrinking, stays⟩ := fixed_shrinking inventory fixed
    obtain ⟨batches, hrun, hbetween⟩ := recoveryBatches_apart hlimit sound all shrinking
    refine ⟨batches, hrun, ?_⟩
    intro before between after twice other hpicks hother
    exact hbetween before between after twice other hpicks (stays other hother)
  served := by
    intro limit file jobIds inventories hlimit sound inventory fixed enough
    obtain ⟨all, shrinking, stays⟩ := fixed_shrinking inventory fixed
    cases inventories with
    | nil =>
        -- no call is needed only if there is no job
        have hnone := le_callsFor_mul hlimit jobIds.length
        rw [Nat.le_zero.1 enough, Nat.zero_mul] at hnone
        obtain rfl := List.length_eq_zero_iff.1 (Nat.le_zero.1 hnone)
        exact ⟨[], rfl, fun jobId hjobId => hjobId⟩
    | cons first later =>
        rw [← (fixed first List.mem_cons_self).length_eq] at enough
        obtain ⟨batches, hrun, hserved⟩ := recoveryBatches_served hlimit sound all shrinking enough
        exact ⟨batches, hrun, fun jobId hjobId => hserved jobId (stays jobId hjobId)⟩
  leavingApart := fun _ _ _ hlimit sound all shrinking =>
    recoveryBatches_apart hlimit sound all shrinking
  leavingServed := fun _ _ _ _ hlimit sound all shrinking enough =>
    recoveryBatches_served hlimit sound all shrinking enough

end StaticHostAgent.Jobs
