import StaticHostAgent.Commit.Agreement
import StaticHostAgent.Commit.SharedSteps

/-!
# What a later run of a commit finds

The states on the way of a commit: a file it writes has the old or the new content, so the shared
checks that passed at the start pass there again.
-/

set_option autoImplicit false

namespace StaticHostAgent.Commit

open Library Contracts Host Audit State

variable {host : StateHost} {path : CommitPath} {job : AuthorizationJob}
  {result : OperationResult} {s₀ s : Store}

/-! ## Records -/

/-- A record that is readable at the start and is replaced by one that fits is readable later. -/
theorem readLocked_along {record : StateRecordPath} {d d' : Document}
    (hread : readLocked host record s₀ = .ok d) (hfits : record.Fits host.encoding d')
    (h : s.find? record.components = some d' ∨
      s.find? record.components = s₀.find? record.components) :
    readLocked host record s = .ok d' ∨ readLocked host record s = .ok d := by
  rcases h with h | h
  · exact Or.inl (readLocked_eq_ok.2 ⟨h, hfits⟩)
  · right
    rw [readLocked_same h]
    exact hread

theorem ResultReady.fits (h : ResultReady host job result s) :
    StateRecordPath.Fits host.encoding (.authorizationResult job.jobId)
      (.operationResult result) := by
  by_cases hnone : s.find? (.result job.jobId) = none
  · exact encodeNew_fits (h.publishable hnone)
  · exact (readLocked_eq_ok.1 (h.published hnone)).2

theorem ResultReady.along (hstart : ResultReady host job result s₀)
    (h : s.find? (.result job.jobId) = some (.operationResult result) ∨
      s.find? (.result job.jobId) = s₀.find? (.result job.jobId)) :
    ResultReady host job result s := by
  have hfits := hstart.fits
  rcases h with h | h
  · refine ⟨fun hnone => ?_, fun _ => readLocked_eq_ok.2 ⟨h, hfits⟩⟩
    rw [h] at hnone
    cases hnone
  · refine ⟨fun hnone => hstart.publishable (h.symm.trans hnone), fun hne => ?_⟩
    rw [(@readLocked_same _ (.authorizationResult job.jobId)) h]
    exact hstart.published fun hnone => hne (h.trans hnone)

theorem ResultReady.missing {message : String} (h : ResultReady host job result s) :
    missingExact host message (.authorizationResult job.jobId) (.operationResult result) s =
      .ok (s.find? (.result job.jobId)).isNone := by
  rw [missingExact_eq_ok]
  cases hfind : s.find? (.result job.jobId) with
  | none => exact Or.inl ⟨hfind, rfl⟩
  | some d => exact Or.inr ⟨h.published (by rw [hfind]; simp), rfl⟩

/-- The result is pending exactly while its file is missing. -/
theorem ResultReady.pending (h : ResultReady host job result s) :
    CommitStep.pending host (.put (.result job.jobId) (.operationResult result)) s =
      (s.find? (.result job.jobId)).isNone := by
  show decide (s.find? (.result job.jobId) ≠ _) = _
  cases hfind : s.find? (.result job.jobId) with
  | none => rfl
  | some d =>
      have hread := (readLocked_eq_ok.1 (h.published (by rw [hfind]; simp))).1
      rw [← hfind, show s.find? (.result job.jobId) = _ from hread]
      simp

/-- The job that a later run finds. -/
def jobNow (job : AuthorizationJob) (s : Store) : AuthorizationJob :=
  if s.find? (.job job.jobId) = some (.authorizationJob (completedJob job)) then completedJob job
  else job

theorem jobNow_cases (job : AuthorizationJob) (s : Store) :
    jobNow job s = job ∨ jobNow job s = completedJob job := by
  unfold jobNow
  split
  · exact Or.inr rfl
  · exact Or.inl rfl

@[simp] theorem jobNow_jobId (job : AuthorizationJob) (s : Store) :
    (jobNow job s).jobId = job.jobId := by
  rcases jobNow_cases job s with h | h
  · rw [h]
  · rw [h]
    rfl

@[simp] theorem completedJob_jobNow (job : AuthorizationJob) (s : Store) :
    completedJob (jobNow job s) = completedJob job := by
  rcases jobNow_cases job s with h | h
  · rw [h]
  · rw [h]
    rfl

theorem sameAuthority_jobNow (forget : Dispatch → Dispatch) (job : AuthorizationJob) (s : Store) :
    sameAuthority forget (jobNow job s) = sameAuthority forget job := by
  rcases jobNow_cases job s with h | h
  · rw [h]
  · rw [h]
    rfl

theorem ResultReady.now {s s' : Store} (h : ResultReady host job result s) :
    ResultReady host (jobNow job s') result s := by
  rcases jobNow_cases job s' with hnow | hnow
  · rw [hnow]
    exact h
  · rw [hnow]
    exact ⟨h.publishable, h.published⟩

theorem JobReady.along (hstart : JobReady host job s₀)
    (h : s.find? (.job job.jobId) = some (.authorizationJob (completedJob job)) ∨
      s.find? (.job job.jobId) = s₀.find? (.job job.jobId)) :
    JobReady host (jobNow job s) s := by
  have hstored := readJob_eq_ok.1 hstart.stored
  refine ⟨?_, by rw [jobNow_jobId, completedJob_jobNow]; exact hstart.completes⟩
  rw [jobNow_jobId]
  unfold jobNow
  split
  · rename_i hcompleted
    exact readJob_eq_ok.2 ⟨hcompleted, hstart.completes⟩
  · rename_i hother
    exact readJob_eq_ok.2 ⟨(h.resolve_left hother).trans hstored.1, hstored.2⟩

/-- The job that was accepted at the start is accepted later. -/
theorem requireSameJob_along {forget : Dispatch → Dispatch} {expected job : AuthorizationJob}
    (hstart : requireSameJob host path forget expected s₀ = .ok job)
    (h : JobReady host (jobNow job s) s) :
    requireSameJob host path forget expected s = .ok (jobNow job s) := by
  obtain ⟨-, hsame, hphase⟩ := requireSameJob_eq_ok.1 hstart
  have hstored := h.stored
  rw [jobNow_jobId, ← (requireSameJob_stored hstart).1] at hstored
  refine requireSameJob_eq_ok.2 ⟨hstored, ?_, ?_⟩
  · rw [sameAuthority_jobNow]
    exact hsame
  · rcases jobNow_cases job s with hjob | hjob <;> rw [hjob]
    · exact hphase
    · exact List.mem_cons_of_mem _ List.mem_cons_self

/-- The job is pending exactly while it is claimed. -/
theorem JobReady.pending (h : JobReady host job s)
    (hphase : job.phase ∈ [JobPhase.claimed, .completed]) :
    CommitStep.pending host (.put (.job job.jobId) (.authorizationJob (completedJob job))) s =
      decide (job.phase = .claimed) := by
  show decide (s.find? (.job job.jobId) ≠ _) = _
  rw [(readJob_eq_ok.1 h.stored).1]
  simp only [List.mem_cons, List.not_mem_nil, or_false] at hphase
  rcases hphase with hclaimed | hcompleted
  · rw [hclaimed]
    refine decide_eq_true fun heq => ?_
    have hsame : job = completedJob job := by simpa using heq
    rw [hsame] at hclaimed
    cases hclaimed
  · rw [completedJob_of_completed hcompleted, hcompleted]
    simp

/-! ## Intents -/

/-- An intent that stays where it is stays the sole exact intent. -/
theorem requireExactIntent_same {intentId : Uuid7} {intent : TransactionIntent}
    (h : ∀ i, s.find? (.intent i) = s₀.find? (.intent i)) :
    requireExactIntent host path intentId intent s =
      requireExactIntent host path intentId intent s₀ := by
  unfold requireExactIntent measureIntentRecords readIntent
  rw [measureRecords_same (l := Listing.intents) h, h]

/-- A sole exact intent can be cleared. -/
theorem reconciled_of_exact {intentId : Uuid7} {intent : TransactionIntent} {records : List Uuid7}
    (hmeasured : measureIntentRecords host s = .ok records)
    (hintent : s.find? (.intent intentId) = some (.transactionIntent intent))
    (hfits : StateRecordPath.Fits host.encoding (.transactionIntent intentId)
      (.transactionIntent intent)) :
    ReconciledIntent host (.transactionIntent intentId)
      (revision host (.transactionIntent intent)) s :=
  ⟨rfl, ⟨_, readLocked_eq_ok.2 ⟨hintent, hfits⟩, rfl⟩, records, hmeasured⟩

/-! ## Admission -/

theorem admitResult_same (h : measureInventory host s = measureInventory host s₀) :
    admitResult host result s = admitResult host result s₀ := by
  unfold admitResult admitInventory
  simp only [h]

/-- While the inventory is kept, the result stays admitted. -/
theorem admitResult_along {steps : List CommitStep} (h : OnTheWay host steps s₀ s)
    (hkeeps : ∀ e ∈ steps, e.keepsInventory = true) :
    admitResult host result s = admitResult host result s₀ :=
  admitResult_same (along_invariant
    (P := fun u => measureInventory host u = measureInventory host s₀) h
    (fun e he u hu => (measureInventory_apply (hkeeps e he) u).trans hu) rfl)

/-- What was admitted at the start is admitted for what remains, when the reservations are those of
the pending steps beside a constant one. -/
theorem admitRemaining_along {limits : HostCapacityLimits} {steps : List CommitStep}
    {records₀ records : List (Bool × Document)} {audit₀ audit : Bool}
    {bytes inodes : Nat} (h : OnTheWay host steps s₀ s) (hseparate : Separate host steps)
    (hbytes₀ : reservedBytes host records₀ audit₀ =
      pendingSum host (CommitStep.bytes host) steps s₀ + bytes)
    (hinodes₀ : reservedInodes records₀ audit₀ =
      pendingSum host CommitStep.inodes steps s₀ + inodes)
    (hbytes : reservedBytes host records audit =
      pendingSum host (CommitStep.bytes host) steps s + bytes)
    (hinodes : reservedInodes records audit = pendingSum host CommitStep.inodes steps s + inodes)
    (hbounded : FlaggedBounded host records₀ → FlaggedBounded host records)
    (hstart : admitRemaining host limits (flagged records₀) audit₀ s₀ = .ok ()) :
    admitRemaining host limits (flagged records) audit s = .ok () := by
  have hle := pendingSum_inodes_le h hseparate
  rcases admitRemaining_flagged_eq_ok.1 hstart with hzero | ⟨hbounded₀, hadmits⟩
  · refine admitRemaining_flagged_eq_ok.2 (Or.inl ?_)
    omega
  · rw [hbytes₀, hinodes₀] at hadmits
    refine admitRemaining_flagged_eq_ok.2 (Or.inr ⟨hbounded hbounded₀, ?_⟩)
    rw [hbytes, hinodes]
    exact admits_along h hseparate hadmits

/-! ## The last steps of a commit -/

/-- Publish the result, complete the job, clear the transaction intent. -/
def closingSteps (job : AuthorizationJob) (result : OperationResult) (intentId : Uuid7) :
    List CommitStep :=
  [.put (.result job.jobId) (.operationResult result),
    .put (.job job.jobId) (.authorizationJob (completedJob job)), .remove (.intent intentId)]

theorem closingSteps_jobNow (job : AuthorizationJob) (s : Store) (result : OperationResult)
    (intentId : Uuid7) :
    closingSteps (jobNow job s) result intentId = closingSteps job result intentId := by
  unfold closingSteps
  rw [jobNow_jobId, completedJob_jobNow]

theorem closingSteps_ready (job : AuthorizationJob) (result : OperationResult) (intentId : Uuid7) :
    ∀ e ∈ closingSteps job result intentId, ∀ u, e.Ready host u := by
  simp [closingSteps, CommitStep.Ready]

/-- The files that the last steps of a commit read. -/
def closingFiles (job : AuthorizationJob) : FilePath → Bool
  | .result j => decide (j = job.jobId)
  | .job j => decide (j = job.jobId)
  | .intent _ => true
  | _ => false

theorem closingFiles_result (job : AuthorizationJob) :
    closingFiles job (.result job.jobId) = true := decide_eq_true rfl

theorem closingFiles_job (job : AuthorizationJob) :
    closingFiles job (.job job.jobId) = true := decide_eq_true rfl

/-- What the last steps of a commit need. -/
structure ClosingReady (host : StateHost) (job : AuthorizationJob) (result : OperationResult)
    (intentId : Uuid7) (intent : TransactionIntent) (s : Store) : Prop where
  resultReady : ResultReady host job result s
  jobReady : JobReady host job s
  reconciled : ReconciledIntent host (.transactionIntent intentId)
    (revision host (.transactionIntent intent)) s

theorem ClosingReady.same {intentId : Uuid7} {intent : TransactionIntent} {s s' : Store}
    (h : ClosingReady host job result intentId intent s)
    (hsame : ∀ p, closingFiles job p = true → s'.find? p = s.find? p) :
    ClosingReady host job result intentId intent s' := by
  have hresult := hsame (.result job.jobId) (closingFiles_result job)
  have hjob := hsame (.job job.jobId) (closingFiles_job job)
  refine ⟨h.resultReady.along (Or.inr hresult), ⟨?_, h.jobReady.completes⟩, h.reconciled.intent, ?_,
    ?_⟩
  · rw [readJob_eq_ok, hjob]
    exact readJob_eq_ok.1 h.jobReady.stored
  · obtain ⟨d, hread, hrevision⟩ := h.reconciled.current
    refine ⟨d, ?_, hrevision⟩
    rw [(@readLocked_same _ (.transactionIntent intentId)) (hsame (.intent intentId) rfl)]
    exact hread
  · obtain ⟨ids, hids⟩ := h.reconciled.measured
    refine ⟨ids, ?_⟩
    unfold measureIntentRecords
    rw [measureRecords_same (l := Listing.intents) fun i => hsame (.intent i) rfl]
    exact hids

/-- The step writes none of the files that the last steps read. -/
def avoidsClosing (job : AuthorizationJob) : CommitStep → Bool
  | .put p _ | .remove p => !closingFiles job p
  | _ => true

theorem avoids_touches {e : CommitStep} {p : FilePath} (he : avoidsClosing job e = true)
    (hp : closingFiles job p = true) :
    Place.file p ∉ e.touches := by
  intro htouched
  cases e with
  | put q d =>
      obtain rfl : p = q := by simpa [CommitStep.touches] using htouched
      simp [avoidsClosing, hp] at he
  | remove q =>
      obtain rfl : p = q := by simpa [CommitStep.touches] using htouched
      simp [avoidsClosing, hp] at he
  | _ => simp [CommitStep.touches] at htouched

theorem settleAll_closingFiles {es : List CommitStep} {p : FilePath}
    (havoid : ∀ e ∈ es, avoidsClosing job e = true)
    (hp : closingFiles job p = true) : (settleAll (stepsOf host es) s).find? p = s.find? p :=
  (@CommitStep.settleAll_same _ _ _ (.file p)) fun e he => avoids_touches (havoid e he) hp

/-- Steps that avoid the files of the last steps keep them ready. -/
theorem ClosingReady.settle {intentId : Uuid7} {intent : TransactionIntent} {es : List CommitStep}
    (h : ClosingReady host job result intentId intent s)
    (havoid : ∀ e ∈ es, avoidsClosing job e = true) :
    ClosingReady host job result intentId intent (settleAll (stepsOf host es) s) :=
  h.same fun _ hp => settleAll_closingFiles havoid hp

theorem closing_performs {intentId : Uuid7} {intent : TransactionIntent} {missing : Bool} {α : Type}
    (outcome : α)
    (h : ClosingReady host job result intentId intent s)
    (hmissing : missing = (s.find? (.result job.jobId)).isNone) :
    Performs (do
      ensureResult host path job result missing
      ensureCompletedJob host job
      removeReconciledIntent host (.transactionIntent intentId)
        (revision host (.transactionIntent intent))
      pure outcome : Durable Store AgentError α)
      (stepsOf host (closingSteps job result intentId)) s outcome := by
  have hresult := (@ensureResult_performs _ path) h.resultReady hmissing
  -- the job and the intents are as before the result
  have hsame : ∀ p, p ≠ .result job.jobId →
      (settleAll (stepsOf host [.put (.result job.jobId) (.operationResult result)]) s).find? p =
        s.find? p := by
    intro p hp
    exact (@CommitStep.settleAll_same _ _ _ (.file p)) (by simp [CommitStep.touches, hp])
  have hjobReady : JobReady host job
      (settleAll (stepsOf host [.put (.result job.jobId) (.operationResult result)]) s) := by
    refine ⟨?_, h.jobReady.completes⟩
    rw [readJob_eq_ok, hsame _ (by simp)]
    exact readJob_eq_ok.1 h.jobReady.stored
  have hjob := ensureCompletedJob_performs hjobReady
  have hintents : ∀ i, (settleAll (stepsOf host
        [.put (.job job.jobId) (.authorizationJob (completedJob job))])
      (settleAll (stepsOf host [.put (.result job.jobId) (.operationResult result)]) s)).find?
        (.intent i) = s.find? (.intent i) := by
    intro i
    rw [← hsame (.intent i) (by simp)]
    exact (@CommitStep.settleAll_same _ _ _ (.file (.intent i))) (by simp [CommitStep.touches])
  refine hresult.bind (hjob.bind ?_)
  have hremove : Performs (removeReconciledIntent host (.transactionIntent intentId)
        (revision host (.transactionIntent intent))) (stepsOf host [.remove (.intent intentId)])
      (settleAll (stepsOf host [.put (.job job.jobId) (.authorizationJob (completedJob job))])
        (settleAll (stepsOf host [.put (.result job.jobId) (.operationResult result)]) s)) () := by
    refine removeReconciledIntent_performs ⟨rfl, ?_, ?_⟩
    · obtain ⟨d, hread, hrevision⟩ := h.reconciled.current
      refine ⟨d, ?_, hrevision⟩
      rw [(@readLocked_same _ (.transactionIntent intentId)) (hintents intentId)]
      exact hread
    · obtain ⟨ids, hids⟩ := h.reconciled.measured
      refine ⟨ids, ?_⟩
      unfold measureIntentRecords
      rw [measureRecords_same (l := Listing.intents) hintents]
      exact hids
  exact hremove.bind (Performs.pure outcome _)

/-- What a successful end of a commit had. -/
theorem closing_ok {removal : ExactIntent} {missing : Bool} {α : Type} {outcome r : α} (h : ((do
      ensureResult host path job result missing
      ensureCompletedJob host job
      removeReconciledIntent host removal.path removal.token
      pure outcome : Durable Store AgentError α) s).result = .ok r)
    (hmissing : missing = (s.find? (.result job.jobId)).isNone)
    (hstored : readJob host job.jobId s = .ok job) :
    ResultReady host job result s ∧ JobReady host job s := by
  obtain ⟨⟨⟩, hresult, h⟩ := Durable.bind_result_ok h
  obtain ⟨⟨⟩, hjob, -⟩ := Durable.bind_result_ok h
  exact ⟨ensureResult_ok hresult hmissing, ensureCompletedJob_ok hjob hstored⟩

section ClosingAlong

variable {intentId : Uuid7} {before : List CommitStep}

/-- The result and the job that were ready at the start are ready on the way. -/
theorem closing_along (h : OnTheWay host (before ++ closingSteps job result intentId) s₀ s)
    (havoid : ∀ e ∈ before, avoidsClosing job e = true) (hresult : ResultReady host job result s₀)
    (hjob : JobReady host job s₀) :
    ResultReady host (jobNow job s) result s ∧ JobReady host (jobNow job s) s := by
  constructor
  · exact (hresult.along ((put_along h rfl fun e he => avoids_touches (havoid e he)
      (closingFiles_result job)).imp_left And.right)).now
  · refine hjob.along (((@put_along _ _ (before ++ [.put (.result job.jobId)
      (.operationResult result)]) [.remove (.intent intentId)]) h
      (by simp [closingSteps]) fun e he => ?_).imp_left And.right)
    rcases List.mem_append.1 he with he | he
    · exact avoids_touches (havoid e he) (closingFiles_job job)
    · obtain rfl := List.mem_singleton.1 he
      simp [CommitStep.touches]

/-- A result that is still missing was admitted at the start, and is. -/
theorem admitResult_missing (h : OnTheWay host (before ++ closingSteps job result intentId) s₀ s)
    (havoid : ∀ e ∈ before, avoidsClosing job e = true)
    (hkeeps : ∀ e ∈ before, e.keepsInventory = true)
    (hstart : (s₀.find? (.result job.jobId)).isNone = true → admitResult host result s₀ = .ok ())
    (hmissing : (s.find? (.result job.jobId)).isNone = true) :
    admitResult host result s = .ok () := by
  have hpending : CommitStep.pending host (.put (.result job.jobId) (.operationResult result)) s =
      true := by
    show decide (s.find? (.result job.jobId) ≠ _) = true
    rw [Option.isNone_iff_eq_none.1 hmissing]
    simp
  have hinitial := along_before h rfl hpending
  have hsame : s.find? (.result job.jobId) = s₀.find? (.result job.jobId) :=
    (@along_same _ _ _ _ (.file (.result job.jobId))) hinitial fun e he =>
      avoids_touches (havoid e he) (closingFiles_result job)
  rw [admitResult_along hinitial hkeeps]
  exact hstart (by rw [← hsame, hmissing])

/-- While the intent is there, all intents are as at the start. -/
theorem intents_along (h : OnTheWay host (before ++ closingSteps job result intentId) s₀ s)
    (havoid : ∀ e ∈ before, avoidsClosing job e = true)
    (hintent : (s.find? (.intent intentId)).isSome = true) (i : Uuid7) :
    s.find? (.intent i) = s₀.find? (.intent i) := by
  have hinitial := (@along_before _ _ (before ++ [.put (.result job.jobId)
    (.operationResult result), .put (.job job.jobId) (.authorizationJob (completedJob job))]) [] (.remove (.intent intentId))) h (by simp [closingSteps]) hintent
  refine (@along_same _ _ _ _ (.file (.intent i))) hinitial fun e he => ?_
  rcases List.mem_append.1 he with he | he
  · exact avoids_touches (havoid e he) rfl
  · simp only [List.mem_cons, List.not_mem_nil, or_false] at he
    rcases he with rfl | rfl
    · simp [CommitStep.touches]
    · simp [CommitStep.touches]

/-- The other intents are never touched. -/
theorem otherIntents_along (h : OnTheWay host (before ++ closingSteps job result intentId) s₀ s)
    (havoid : ∀ e ∈ before, avoidsClosing job e = true) {i : Uuid7} (hi : i ≠ intentId) :
    s.find? (.intent i) = s₀.find? (.intent i) := by
  refine (@along_same _ _ _ _ (.file (.intent i))) h fun e he => ?_
  rcases List.mem_append.1 he with he | he
  · exact avoids_touches (havoid e he) rfl
  · simp only [closingSteps, List.mem_cons, List.not_mem_nil, or_false] at he
    rcases he with rfl | rfl | rfl
    · simp [CommitStep.touches]
    · simp [CommitStep.touches]
    · simp [CommitStep.touches, hi]

/-- When the intent is gone, every step is done. -/
theorem settled_of_cleared (h : OnTheWay host (before ++ closingSteps job result intentId) s₀ s)
    (havoid : ∀ e ∈ before, avoidsClosing job e = true)
    (hstart : (s₀.find? (.intent intentId)).isSome = true)
    (hcleared : s.find? (.intent intentId) = none) :
    ∀ e ∈ before ++ closingSteps job result intentId, e.pending host s = false := by
  have hsplit : before ++ closingSteps job result intentId =
      (before ++ [.put (.result job.jobId) (.operationResult result),
        .put (.job job.jobId) (.authorizationJob (completedJob job))]) ++
          .remove (.intent intentId) :: [] := by simp [closingSteps]
  have hfree : ∀ e ∈ before ++ [.put (.result job.jobId) (.operationResult result),
      .put (.job job.jobId) (.authorizationJob (completedJob job))],
      Place.file (.intent intentId) ∉ e.touches := by
    intro e he
    rcases List.mem_append.1 he with he | he
    · exact avoids_touches (havoid e he) rfl
    · simp only [List.mem_cons, List.not_mem_nil, or_false] at he
      rcases he with rfl | rfl
      · simp [CommitStep.touches]
      · simp [CommitStep.touches]
  rcases along_split h hsplit hfree with ⟨hbefore, hdone⟩ | hsame
  · rw [hsplit]
    intro e he
    rcases List.mem_append.1 he with he | he
    · exact hbefore e he
    · rw [List.mem_singleton.1 he]
      exact hdone
  · rw [show s.find? (.intent intentId) = s₀.find? (.intent intentId) from hsame] at hcleared
    rw [hcleared] at hstart
    cases hstart

end ClosingAlong

/-- The end of a commit: everything planned is there, the chain ends with the entry, the job is
terminal and the intent is gone. -/
structure Committed (host : StateHost) (plan : TransitionPlan) (job : AuthorizationJob)
    (s : Store) : Prop where
  desired : s.find? (.desired plan.tenantId) = some (.site plan.manifest)
  observed : s.find? (.observed plan.tenantId) = some (.tenantObservedState plan.observedState)
  audited : ∃ state, inspectStateAudit host s = .ok state ∧
    state.entryCount = plan.auditEntry.sequence + 1 ∧
      state.terminalDigest = some (auditEntryDigest host.encoding plan.auditEntry)
  result : s.find? (.result job.jobId) = some (.operationResult plan.result)
  completed : ∃ terminal, s.find? (.job job.jobId) = some (.authorizationJob terminal) ∧
    terminal.phase = .completed
  cleared : s.find? (.intent plan.intentId) = none

/-- A file with its content is not written again. -/
theorem put_settled {p : FilePath} {d : Document} :
    CommitStep.pending host (.put p d) s = false ↔ s.find? p = some d := by
  simp [CommitStep.pending]

theorem read_of_settled {record : StateRecordPath} {d : Document}
    (hfits : record.Fits host.encoding d)
    (h : CommitStep.pending host (.put record.components d) s = false) :
    readLocked host record s = .ok d := readLocked_eq_ok.2 ⟨put_settled.1 h, hfits⟩

/-- A file that is gone is not removed again. -/
theorem remove_settled {p : FilePath} :
    CommitStep.pending host (.remove p) s = false ↔ s.find? p = none := by
  simp [CommitStep.pending]

/-- Where no intents are listed, none is stored. -/
theorem intent_cleared (h : measureIntentRecords host s = .ok []) (i : Uuid7) :
    s.find? (.intent i) = none := by
  obtain ⟨hids, -⟩ := measureIntentRecords_eq_ok.1 h
  rw [← Option.not_isSome_iff_eq_none]
  intro hsome
  have hmem : i ∈ Listing.intents.ids s := Listing.mem_ids.2 hsome
  rw [← hids] at hmem
  cases hmem

/-- A chain that ends with the entry stays that way. -/
theorem appendable_of_ended {entry : AuditEntry}
    (h : inspectNeedsAppend host path entry s = .ok false) : Appendable host entry s.audit := by
  obtain ⟨state, hinspect, hneeds⟩ := inspectNeedsAppend_eq_ok.1 h
  rcases auditNeedsAppend_eq_ok.1 hneeds with ⟨-, hmissing⟩ | ⟨hended, -⟩
  · cases hmissing
  · exact ⟨state, hinspect, Or.inl hended⟩

/-- No intents are left when the only one is gone. -/
theorem measureIntentRecords_cleared {intentId : Uuid7}
    (hstart : measureIntentRecords host s₀ = .ok [intentId])
    (hothers : ∀ i, i ≠ intentId → s.find? (.intent i) = s₀.find? (.intent i))
    (hcleared : s.find? (.intent intentId) = none) : measureIntentRecords host s = .ok [] := by
  obtain ⟨hids, -, hbounded⟩ := measureIntentRecords_eq_ok.1 hstart
  have hnone : ∀ i, s.find? (.intent i) = none := by
    intro i
    by_cases hi : i = intentId
    · rw [hi, hcleared]
    · rw [hothers i hi, ← Option.not_isSome_iff_eq_none]
      intro hsome
      have hmem : i ∈ Listing.intents.ids s₀ := Listing.mem_ids.2 hsome
      rw [← hids] at hmem
      exact hi (List.mem_singleton.1 hmem)
  refine measureIntentRecords_eq_ok.2 ⟨?_, by simp, fun i d hd => ?_⟩
  · refine (List.eq_nil_iff_forall_not_mem.2 fun i hi => ?_).symm
    have hsome := Listing.mem_ids.1 hi
    rw [show s.find? (Listing.intents.path i) = none from hnone i] at hsome
    cases hsome
  · rw [hnone i] at hd
    cases hd

/-- Where every step is done, the commit is at its end. -/
theorem committed_of_settled {plan : TransitionPlan}
    (hdesired : CommitStep.pending host (.put (.desired plan.tenantId) (.site plan.manifest)) s =
      false)
    (hobserved : CommitStep.pending host
      (.put (.observed plan.tenantId) (.tenantObservedState plan.observedState)) s = false)
    (happended : CommitStep.pending host (.append plan.auditEntry) s = false)
    (happendable : Appendable host plan.auditEntry s.audit)
    (hclosing : ∀ e ∈ closingSteps job plan.result plan.intentId, e.pending host s = false) :
    Committed host plan job s := by
  refine ⟨put_settled.1 hdesired, put_settled.1 hobserved, ?_,
    put_settled.1 (hclosing _ List.mem_cons_self),
    ⟨completedJob job, put_settled.1 (hclosing _ (by simp [closingSteps])), rfl⟩, ?_⟩
  · obtain ⟨state, hinspect, hended | ⟨hcount, hprevious, -⟩⟩ := happendable
    · exact ⟨state, hinspect, hended⟩
    · have hmissing : auditMissing host plan.auditEntry s = true := by
        unfold auditMissing inspectStateAudit
        rw [hinspect]
        simp [hcount, hprevious]
      rw [show CommitStep.pending host (.append plan.auditEntry) s = auditMissing host
        plan.auditEntry s from rfl, hmissing] at happended
      cases happended
  · exact remove_settled.1 (hclosing _ (by simp [closingSteps]))

end StaticHostAgent.Commit
