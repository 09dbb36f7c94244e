import StaticHostAgent.Library.Checks
import StaticHostAgent.Library.RateLimits
import Mathlib.Data.List.Sort

/-!
# Rate of new correlations

A new authorization is admitted only if the acceptance times already on record leave room for it: in
the hour before it, and in a token bucket that is replayed from the first of them. The record has no
order of its own; the admission sorts it. Instants are microseconds of universal time.

`Admitted` are the records that this limiter itself built up, `admitRate_bounds` says what they can
hold and that they never close it for good.
-/

set_option autoImplicit false

namespace StaticHostAgent.Jobs

open Library

inductive RateError where
  | correlationRateLimit (message : String)
  deriving DecidableEq

/-- `_RATE_WINDOW` -/
def rateWindow : Int := 60 * 60 * 1000000

/-- `_MAXIMUM_PER_WINDOW` -/
def maximumPerWindow : Nat := 60

/-- `_BURST_CAPACITY` -/
def burstCapacity : Int := 5

/-- `_TOKEN_INTERVAL_MICROSECONDS` -/
def tokenIntervalMicroseconds : Int := 60 * 1000000

/-- `_TOKEN_CAPACITY_MICROSECONDS` -/
def tokenCapacityMicroseconds : Int := burstCapacity * tokenIntervalMicroseconds

/-! ## The difference of two instants -/

/-- A difference as the standard library keeps it: whole days, then seconds of a day, then
microseconds of a second. -/
structure Timedelta where
  days : Int
  seconds : Int
  microseconds : Int

def elapsedSince (previous time : Int) : Timedelta :=
  { days := (time - previous) / 86400000000
    seconds := (time - previous) % 86400000000 / 1000000
    microseconds := (time - previous) % 1000000 }

def elapsedMicroseconds (elapsed : Timedelta) : Int :=
  elapsed.days * 86400000000 + elapsed.seconds * 1000000 + elapsed.microseconds

theorem elapsedMicroseconds_elapsedSince (previous time : Int) :
    elapsedMicroseconds (elapsedSince previous time) = time - previous := by
  show (time - previous) / 86400000000 * 86400000000 +
    (time - previous) % 86400000000 / 1000000 * 1000000 + (time - previous) % 1000000 = _
  omega

/-! ## The admission -/

/-- The replay of the token bucket: the loop of `_admit_rate`, from the credit and the instant it
has reached. -/
def replayCredit : Int → Int → List Int → Except RateError Unit
  | _, _, [] => .ok ()
  | credit, previous, timestamp :: timestamps => do
      let credit := min tokenCapacityMicroseconds
        (credit + elapsedMicroseconds (elapsedSince previous timestamp))
      require (decide (tokenIntervalMicroseconds ≤ credit))
        (.correlationRateLimit "correlation burst limit is exhausted")
      replayCredit (credit - tokenIntervalMicroseconds) timestamp timestamps

/-- `_admit_rate` -/
def admitRate (history : List Int) (candidate : Int) : Except RateError Unit := do
  let ordered := history.insertionSort (· ≤ ·)
  require (!ordered.getLast?.any fun last => decide (candidate < last))
    (.correlationRateLimit "wall-clock rollback closes new correlation admission")
  let windowStart := candidate - rateWindow
  require (decide (ordered.countP (fun timestamp => decide (windowStart < timestamp)) <
      maximumPerWindow))
    (.correlationRateLimit "rolling-hour correlation limit is exhausted")
  replayCredit tokenCapacityMicroseconds (ordered.head?.getD candidate) (ordered ++ [candidate])

/-- The histories the limiter builds up: each admission was accepted over the ones before it, read
back in whatever order. -/
inductive Admitted : List Int → Prop where
  | nil : Admitted []
  | snoc {admissions history : List Int} {now : Int} (earlier : Admitted admissions)
      (record : history.Perm admissions) (accepted : admitRate history now = .ok ()) :
      Admitted (admissions ++ [now])

/-! ## The two limits behind it -/

/-- The bucket that the admission replays. -/
def tokenBucket : Bucket where
  capacity := tokenCapacityMicroseconds
  cost := tokenIntervalMicroseconds
  payable := by decide

theorem replayCredit_ok {credit : Int} {previous : Int} {timestamps : List Int} :
    replayCredit credit previous timestamps = .ok () ↔
      ∃ left, tokenBucket.replay credit previous timestamps = some left := by
  induction timestamps generalizing credit previous with
  | nil => exact ⟨fun _ => ⟨credit, rfl⟩, fun _ => rfl⟩
  | cons timestamp timestamps ih =>
      unfold replayCredit
      rw [elapsedMicroseconds_elapsedSince]
      constructor
      · intro h
        obtain ⟨_, hpay, hrest⟩ := bind_eq_ok.1 h
        obtain ⟨left, hleft⟩ := ih.1 hrest
        have hpay := of_decide_eq_true (require_eq_ok.1 hpay)
        exact ⟨left, Bucket.replay_cons.2 ⟨_, Bucket.spend_eq_some.2 ⟨hpay, rfl⟩, hleft⟩⟩
      · rintro ⟨left, hleft⟩
        obtain ⟨paid, hspend, hrest⟩ := Bucket.replay_cons.1 hleft
        obtain ⟨hpay, rfl⟩ := Bucket.spend_eq_some.1 hspend
        exact bind_eq_ok.2 ⟨(), require_eq_ok.2 (decide_eq_true hpay), ih.2 ⟨left, hrest⟩⟩

theorem insertionSort_record {admissions history : List Int}
    (sorted : admissions.Pairwise (· ≤ ·)) (record : history.Perm admissions) :
    history.insertionSort (· ≤ ·) = admissions :=
  List.Perm.eq_of_pairwise' (List.pairwise_insertionSort (· ≤ ·) history) sorted
    ((List.perm_insertionSort (· ≤ ·) history).trans record)

theorem le_getLast {admissions : List Int} (sorted : admissions.Pairwise (· ≤ ·)) {time : Int}
    (htime : time ∈ admissions) (fallback : Int) :
    time ≤ admissions.getLast?.getD fallback := by
  rw [List.getLast?_eq_some_getLast (List.ne_nil_of_mem htime)]
  exact List.Pairwise.rel_getLast sorted htime

/-- Over a record whose admissions were made in order, the three checks of an admission. -/
theorem admitRate_ok {admissions history : List Int} {now : Int}
    (sorted : admissions.Pairwise (· ≤ ·)) (record : history.Perm admissions) :
    admitRate history now = .ok () ↔
      (∀ time ∈ admissions, time ≤ now) ∧
      admissions.countP (fun time => decide (now - rateWindow < time)) < maximumPerWindow ∧
      ∃ left, tokenBucket.replay tokenCapacityMicroseconds (admissions.head?.getD now)
        (admissions ++ [now]) = some left := by
  have hsort := insertionSort_record sorted record
  unfold admitRate
  rw [hsort]
  constructor
  · intro h
    obtain ⟨_, hlast, h⟩ := bind_eq_ok.1 h
    obtain ⟨_, hroom, h⟩ := bind_eq_ok.1 h
    refine ⟨?_, of_decide_eq_true (require_eq_ok.1 hroom), replayCredit_ok.1 h⟩
    intro time htime
    have hne : admissions ≠ [] := List.ne_nil_of_mem htime
    have hlast := require_eq_ok.1 hlast
    rw [List.getLast?_eq_some_getLast hne] at hlast
    have hle := List.Pairwise.rel_getLast sorted htime
    simp only [Option.any_some, Bool.not_eq_true', decide_eq_false_iff_not] at hlast
    omega
  · rintro ⟨hlatest, hroom, hreplay⟩
    refine bind_eq_ok.2 ⟨(), require_eq_ok.2 ?_, bind_eq_ok.2 ⟨(),
      require_eq_ok.2 (decide_eq_true hroom), replayCredit_ok.2 hreplay⟩⟩
    cases hlast : admissions.getLast? with
    | none => rfl
    | some last =>
        have hle := hlatest last (List.mem_of_getLast? hlast)
        simp only [Option.any_some, Bool.not_eq_true', decide_eq_false_iff_not]
        omega

/-! ## The record of the limiter itself -/

namespace Admitted

variable {admissions : List Int}

theorem rolling (admitted : Admitted admissions) :
    RollingLimit maximumPerWindow rateWindow admissions := by
  induction admitted with
  | nil => exact RollingLimit.nil
  | snoc _ record accepted ih =>
      obtain ⟨hlatest, hroom, _⟩ := (admitRate_ok ih.pairwise record).1 accepted
      exact RollingLimit.snoc ih hlatest hroom

theorem sorted (admitted : Admitted admissions) : admissions.Pairwise (· ≤ ·) :=
  admitted.rolling.pairwise

/-- The bucket can be replayed over the whole record; only an empty record has no first instant. -/
theorem replay (admitted : Admitted admissions) (fallback : Int) :
    ∃ left, tokenBucket.replay tokenCapacityMicroseconds (admissions.head?.getD fallback)
      admissions = some left := by
  cases admitted with
  | nil => exact ⟨_, rfl⟩
  | @snoc admissions _ now earlier record accepted =>
      obtain ⟨_, _, hreplay⟩ := (admitRate_ok earlier.sorted record).1 accepted
      have hhead : (admissions ++ [now]).head?.getD fallback = admissions.head?.getD now := by
        cases admissions with
        | nil => rfl
        | cons first rest => rfl
      rw [hhead]
      exact hreplay

/-- What was accepted once is accepted again over the same record, in whatever order it is read. -/
theorem readmitted (admitted : Admitted admissions) {earlier later history : List Int}
    {now : Int} (split : admissions = earlier ++ now :: later) (record : history.Perm earlier) :
    admitRate history now = .ok () := by
  induction admitted generalizing later with
  | nil =>
      have hlength := congrArg List.length split
      simp at hlength
  | @snoc admissions read last before hread accepted ih =>
      rcases List.eq_nil_or_concat later with rfl | ⟨later, final, rfl⟩
      · -- the instant is the last one
        obtain ⟨rfl, hlast⟩ := List.append_inj' split rfl
        obtain rfl : last = now := by simpa using hlast
        have hfacts := (admitRate_ok before.sorted hread).1 accepted
        exact (admitRate_ok before.sorted record).2 hfacts
      · refine ih (?_ : admissions = earlier ++ now :: later)
        have hsplit : admissions ++ [last] = (earlier ++ now :: later) ++ [final] := by
          rw [split, List.append_assoc, List.cons_append, List.concat_eq_append]
        exact (List.append_inj' hsplit rfl).1

/-- From an hour after the last admission on, the next one is accepted. -/
theorem reopens (admitted : Admitted admissions) {now : Int}
    (later : ∀ time ∈ admissions, time + rateWindow ≤ now) {history : List Int}
    (record : history.Perm admissions) : admitRate history now = .ok () := by
  have hwindow : (0 : Int) < rateWindow := by decide
  refine (admitRate_ok admitted.sorted record).2 ⟨?_, ?_, ?_⟩
  · intro time htime
    have hlater := later time htime
    omega
  · have hnone : admissions.countP (fun time => decide (now - rateWindow < time)) = 0 := by
      apply List.countP_eq_zero.2
      intro time htime
      have hlater := later time htime
      simp only [decide_eq_true_eq]
      omega
    rw [hnone]
    decide
  · obtain ⟨left, hleft⟩ := admitted.replay now
    have hnonneg := Bucket.replay_nonneg (by decide) hleft
    have hfull : ∃ paid, tokenBucket.spend left
        (now - admissions.getLast?.getD (admissions.head?.getD now)) = some paid := by
      cases hlast : admissions.getLast? with
      | none =>
          -- nothing was admitted yet: the bucket is full
          obtain rfl := List.getLast?_eq_none_iff.1 hlast
          obtain rfl : tokenCapacityMicroseconds = left := Option.some.inj hleft
          exact ⟨tokenCapacityMicroseconds - tokenIntervalMicroseconds, by simp; decide⟩
      | some last =>
          have hpast := later last (List.mem_of_getLast? hlast)
          apply Bucket.spend_of_full hnonneg
          show tokenIntervalMicroseconds ≤ now - last
          have hhour : tokenIntervalMicroseconds ≤ rateWindow := by decide
          omega
    obtain ⟨paid, hpaid⟩ := hfull
    refine ⟨paid, ?_⟩
    rw [Bucket.replay_append, hleft]
    exact Bucket.replay_cons.2 ⟨paid, hpaid, rfl⟩

end Admitted

/-- What holds of the admissions of a limiter that never saw its clock go back. -/
structure RateBounds (admissions : List Int) : Prop where
  /-- A rolling hour that includes its start. -/
  hour : ∀ start : Int,
    admissions.countP (fun time => decide (start ≤ time) && decide (time < start + rateWindow)) ≤
      maximumPerWindow
  /-- A rolling hour that includes its end. -/
  hourEnding : ∀ finish : Int,
    admissions.countP (fun time => decide (finish - rateWindow < time) && decide (time ≤ finish)) ≤
      maximumPerWindow
  interval : ∀ start d : Int, 0 ≤ d →
    (admissions.countP
      (fun time => decide (start ≤ time) && decide (time ≤ start + d)) : Int) ≤
      burstCapacity + d / tokenIntervalMicroseconds
  /-- The loop of the token bucket, over the whole record. -/
  replayed : ∀ (history : List Int) (fallback : Int), history.Perm admissions →
    let ordered := history.insertionSort (· ≤ ·)
    replayCredit tokenCapacityMicroseconds (ordered.head?.getD fallback) ordered = .ok ()
  /-- Every admission again, over the record it found. -/
  readmitted : ∀ (earlier later history : List Int) (now : Int),
    admissions = earlier ++ now :: later → history.Perm earlier → admitRate history now = .ok ()
  reopens : ∃ instant : Int, (∀ time ∈ admissions, time < instant) ∧
    ∀ (history : List Int) (now : Int), history.Perm admissions → instant ≤ now →
      admitRate history now = .ok ()

theorem admitRate_bounds {admissions : List Int} (admitted : Admitted admissions) :
    RateBounds admissions where
  hour := by
    intro start
    apply admitted.rolling.countP_le
    intro s t hs ht
    simp only [Bool.and_eq_true, decide_eq_true_eq] at hs ht
    omega
  hourEnding := by
    intro finish
    apply admitted.rolling.countP_le
    intro s t hs ht
    simp only [Bool.and_eq_true, decide_eq_true_eq] at hs ht
    omega
  interval := by
    intro start d hd
    obtain ⟨left, hleft⟩ := admitted.replay 0
    have hcost := Bucket.countP_mul_cost_le
      (show start ≤ start + d by omega) hleft admitted.sorted
    have hinterval : tokenBucket.cost = 60000000 := rfl
    have hcapacity : tokenBucket.capacity = 300000000 := rfl
    rw [hinterval, hcapacity] at hcost
    show _ ≤ (5 : Int) + d / 60000000
    omega
  replayed := by
    intro history fallback record
    have hsort : history.insertionSort (· ≤ ·) = admissions :=
      insertionSort_record admitted.sorted record
    show replayCredit _ ((history.insertionSort (· ≤ ·)).head?.getD fallback) _ = _
    rw [hsort]
    exact replayCredit_ok.2 (admitted.replay fallback)
  readmitted := fun _ _ _ _ split record => admitted.readmitted split record
  reopens := by
    have hwindow : (0 : Int) < rateWindow := by decide
    -- the instants are in order, an hour after the last one is an hour after all of them
    refine ⟨admissions.getLast?.getD 0 + rateWindow, ?_, ?_⟩
    · intro time htime
      have hle := le_getLast admitted.sorted htime 0
      omega
    · intro history now record hnow
      apply admitted.reopens ?_ record
      intro time htime
      have hle := le_getLast admitted.sorted htime 0
      omega

/-- Five at once, the sixth a minute later. -/
theorem admitRate_bounds_burst :
    RateBounds ([] ++ [0] ++ [0] ++ [0] ++ [0] ++ [0] ++ [60000000]) := by
  have hadmission : ∀ {admissions : List Int} {now : Int}, Admitted admissions →
      admitRate admissions now = .ok () → Admitted (admissions ++ [now]) :=
    fun earlier accepted => Admitted.snoc earlier (List.Perm.refl _) accepted
  exact admitRate_bounds (hadmission (hadmission (hadmission (hadmission (hadmission (hadmission Admitted.nil
    rfl) rfl) rfl) rfl) rfl) rfl)

end StaticHostAgent.Jobs
