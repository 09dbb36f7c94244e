import StaticHostAgent.Commit.Shared

/-!
# What the parts of the terminal commits do

When each shared check succeeds, and which step each shared write performs. `Appendable` is the
invariant of the audit chain under a commit: it ends with the entry, or a verified plan appends it.
-/

set_option autoImplicit false

namespace StaticHostAgent.Commit

open Library Contracts Host Audit State

variable {host : StateHost} {path : CommitPath}

/-! ## Checks -/

theorem readJob_eq_ok {jobId : Uuid7} {s : Store} {job : AuthorizationJob} :
    readJob host jobId s = .ok job ↔ s.find? (.job jobId) = some (.authorizationJob job) ∧
      StateRecordPath.Fits host.encoding (.authorizationJob jobId) (.authorizationJob job) := by
  unfold readJob
  rw [bind_eq_ok]
  constructor
  · rintro ⟨d, hread, h⟩
    split at h
    · rw [pure_eq_ok] at h
      rw [← h]
      exact readLocked_eq_ok.1 hread
    · cases h
  · intro h
    exact ⟨_, readLocked_eq_ok.2 h, rfl⟩

theorem requireSameJob_eq_ok {forget : Dispatch → Dispatch} {expected job : AuthorizationJob}
    {s : Store} :
    requireSameJob host path forget expected s = .ok job ↔
      readJob host expected.jobId s = .ok job ∧
        sameAuthority forget expected = sameAuthority forget job ∧
          job.phase ∈ [JobPhase.claimed, .completed] := by
  unfold requireSameJob
  simp only [bind_eq_ok, require_eq_ok, Bool.and_eq_true, decide_eq_true_eq, pure_eq_ok]
  constructor
  · rintro ⟨current, hread, -, ⟨hsame, hphase⟩, rfl⟩
    exact ⟨hread, hsame, hphase⟩
  · rintro ⟨hread, hsame, hphase⟩
    exact ⟨job, hread, (), ⟨hsame, hphase⟩, rfl⟩

/-- The accepted job is the one that is stored under its identity. -/
theorem requireSameJob_stored {forget : Dispatch → Dispatch} {expected job : AuthorizationJob}
    {s : Store} (h : requireSameJob host path forget expected s = .ok job) :
    expected.jobId = job.jobId ∧ readJob host job.jobId s = .ok job := by
  obtain ⟨hread, hauthority, -⟩ := requireSameJob_eq_ok.1 h
  have hid : (sameAuthority forget expected).jobId = (sameAuthority forget job).jobId := by
    rw [hauthority]
  change expected.jobId = job.jobId at hid
  rw [hid] at hread
  exact ⟨hid, hread⟩

theorem readDeployment_eq_ok {t d : Uuid7} {s : Store} {record : DeploymentRecord} :
    readDeployment host t d s = .ok record ↔
      s.find? (.deployment t d) = some (.deploymentRecord record) ∧
        StateRecordPath.Fits host.encoding (.tenantDeployment t d) (.deploymentRecord record) := by
  unfold readDeployment
  rw [bind_eq_ok]
  constructor
  · rintro ⟨d', hread, h⟩
    split at h
    · rw [pure_eq_ok] at h
      rw [← h]
      exact readLocked_eq_ok.1 hread
    · cases h
  · intro h
    exact ⟨_, readLocked_eq_ok.2 h, rfl⟩

/-- A record is read under its own identity. -/
theorem readDeployment_identity {t d : Uuid7} {s : Store} {record : DeploymentRecord}
    (h : readDeployment host t d s = .ok record) : record.tenantId = t ∧ record.id = d := by
  have hbound : (decide (record.tenantId = t) && decide (record.id = d)) = true :=
    (readDeployment_eq_ok.1 h).2.bound
  simpa using hbound

theorem readIntent_eq_ok {intentId : Uuid7} {s : Store} {i : TransactionIntent}
    {p : StateRecordPath} :
    readIntent host intentId s = .ok (p, .transactionIntent i) ↔
      (s.find? (.intent intentId) = some (.transactionIntent i) ∧
        StateRecordPath.Fits host.encoding (.transactionIntent intentId) (.transactionIntent i)) ∧
          p = .transactionIntent intentId := by
  unfold readIntent
  cases hfind : s.find? (.intent intentId) with
  | none => simp [throw, throwThe, MonadExceptOf.throw]
  | some d =>
      simp only [bind_eq_ok, liftContract_eq_ok, validateContract_eq_ok]
      constructor
      · rintro ⟨-, ⟨hvalid, -⟩, h⟩
        split at h
        · cases h
        · rename_i p' hpath
          simp only [bind_eq_ok, StateRecordPath.validateBinding, require_eq_ok, pure_eq_ok,
            Prod.mk.injEq] at h
          obtain ⟨-, hbinds, rfl, rfl⟩ := h
          obtain rfl : StateRecordPath.transactionIntent intentId = p' := Option.some.inj hpath
          exact ⟨⟨rfl, rfl, hvalid, hbinds⟩, rfl⟩
      · rintro ⟨⟨h, hfits⟩, rfl⟩
        obtain rfl := Option.some.inj h
        refine ⟨_, ⟨hfits.valid, rfl⟩, ?_⟩
        simp only [intentPath, bind_eq_ok, StateRecordPath.validateBinding, require_eq_ok,
          pure_eq_ok]
        exact ⟨(), hfits.bound, trivial⟩

/-- The removal authority of a transaction intent. -/
def exactRemoval (host : StateHost) (intentId : Uuid7) (intent : TransactionIntent) : ExactIntent :=
  ⟨.transactionIntent intentId, revision host (.transactionIntent intent)⟩

theorem requireExactIntent_eq_ok {intentId : Uuid7} {intent : TransactionIntent} {s : Store}
    {removal : ExactIntent} :
    requireExactIntent host path intentId intent s = .ok removal ↔
      measureIntentRecords host s = .ok [intentId] ∧
        (s.find? (.intent intentId) = some (.transactionIntent intent) ∧
          StateRecordPath.Fits host.encoding (.transactionIntent intentId)
            (.transactionIntent intent)) ∧
          removal = exactRemoval host intentId intent := by
  unfold requireExactIntent
  simp only [bind_eq_ok, require_eq_ok, Bool.and_eq_true, decide_eq_true_eq, pure_eq_ok]
  constructor
  · rintro ⟨records, hmeasured, -, rfl, ⟨p, record⟩, hread, -, ⟨hp, hrecord⟩, rfl⟩
    simp only at hp hrecord
    subst hp hrecord
    exact ⟨hmeasured, (readIntent_eq_ok.1 hread).1, rfl⟩
  · rintro ⟨hmeasured, hintent, rfl⟩
    exact ⟨_, hmeasured, (), rfl, _, readIntent_eq_ok.2 ⟨hintent, rfl⟩, (), ⟨rfl, rfl⟩, rfl⟩

theorem requireTerminalRecords_eq_ok {disagrees incomplete : String}
    {expected : List (StateRecordPath × Document)} {s : Store} {u : Unit} :
    requireTerminalRecords host path disagrees incomplete expected s = .ok u ↔
      ∀ record ∈ expected, readLocked host record.1 s = .ok record.2 := by
  unfold requireTerminalRecords
  rw [forM_eq_ok]
  refine forall₂_congr fun record _ => ?_
  split
  · rename_i current hread
    rw [hread, require_eq_ok, decide_eq_true_eq, Except.ok.injEq]
  · rename_i hread
    simp [hread, throw, throwThe, MonadExceptOf.throw]
  · rename_i error _ hread
    simp [hread, throw, throwThe, MonadExceptOf.throw]

theorem missingExact_eq_ok {message : String} {record : StateRecordPath} {d : Document} {s : Store}
    {missing : Bool} :
    missingExact host message record d s = .ok missing ↔
      (s.find? record.components = none ∧ missing = true) ∨
        (readLocked host record s = .ok d ∧ missing = false) := by
  unfold missingExact
  split
  · rename_i current hread
    have hfind := (readLocked_eq_ok.1 hread).1
    simp only [bind_eq_ok, require_eq_ok, decide_eq_true_eq, pure_eq_ok, hread, hfind,
      Except.ok.injEq]
    constructor
    · rintro ⟨-, rfl, rfl⟩
      exact Or.inr ⟨rfl, rfl⟩
    · rintro (⟨h, -⟩ | ⟨rfl, rfl⟩)
      · cases h
      · exact ⟨(), rfl, rfl⟩
  · rename_i hread
    have hfind := readLocked_eq_fileNotFound.1 hread
    simp only [hread, hfind, pure_eq_ok, true_and, reduceCtorEq, false_and, or_false]
    exact eq_comm
  · rename_i error hother hread
    have hfind : s.find? record.components ≠ none := fun h => by
      rw [readLocked_eq_fileNotFound.2 h] at hread
      exact hother (Except.error.inj hread).symm
    simp [hread, hfind, throw, throwThe, MonadExceptOf.throw]

/-- A missing record is one whose file is not there. -/
theorem missingExact_value {message : String} {record : StateRecordPath} {d : Document}
    {s : Store} {missing : Bool} (h : missingExact host message record d s = .ok missing) :
    missing = (s.find? record.components).isNone := by
  rcases missingExact_eq_ok.1 h with ⟨hnone, rfl⟩ | ⟨hread, rfl⟩
  · rw [hnone]
    rfl
  · rw [(readLocked_eq_ok.1 hread).1]
    rfl

theorem auditNeedsAppend_eq_ok {entry : AuditEntry} {state : AuditState} {missing : Bool} :
    auditNeedsAppend host path entry state = .ok missing ↔
      ((state.entryCount = entry.sequence ∧ entry.previousEntryDigest = state.terminalDigest) ∧
          missing = true) ∨
        ((state.entryCount = entry.sequence + 1 ∧
          state.terminalDigest = some (auditEntryDigest host.encoding entry)) ∧
            missing = false) := by
  unfold auditNeedsAppend
  split
  · rename_i h
    have hne : ¬ state.entryCount = entry.sequence + 1 := by omega
    simp only [h, pure_eq_ok, and_self, true_and]
    constructor
    · intro hmissing
      exact Or.inl hmissing.symm
    · rintro (hmissing | ⟨⟨hcount, -⟩, -⟩)
      · exact hmissing.symm
      · omega
  · rename_i hnot
    split
    · rename_i h
      rw [pure_eq_ok]
      constructor
      · intro hmissing
        exact Or.inr ⟨h, hmissing.symm⟩
      · rintro (⟨hother, -⟩ | ⟨-, hmissing⟩)
        · exact absurd hother hnot
        · exact hmissing.symm
    · rename_i hnot'
      simp [hnot, hnot', throw, throwThe, MonadExceptOf.throw]

theorem inspectNeedsAppend_eq_ok {entry : AuditEntry} {s : Store} {missing : Bool} :
    inspectNeedsAppend host path entry s = .ok missing ↔
      ∃ state, inspectStateAudit host s = .ok state ∧
        auditNeedsAppend host path entry state = .ok missing := by
  unfold inspectNeedsAppend
  rw [bind_eq_ok]

/-- The check answers whether the entry extends the chain. -/
theorem inspectNeedsAppend_value {entry : AuditEntry} {s : Store} {missing : Bool}
    (h : inspectNeedsAppend host path entry s = .ok missing) :
    missing = auditMissing host entry s := by
  obtain ⟨state, hinspect, hneeds⟩ := inspectNeedsAppend_eq_ok.1 h
  unfold auditMissing
  rw [hinspect]
  simp only
  rcases auditNeedsAppend_eq_ok.1 hneeds with ⟨⟨hcount, hprevious⟩, rfl⟩ | ⟨⟨hcount, -⟩, rfl⟩
  · simp [hcount, hprevious]
  · simp [hcount]

/-! ## Admission -/

/-- What a flagged write reserves. -/
def flaggedBytes (host : StateHost) (record : Bool × Document) : Nat :=
  if record.1 then writeAllocation host.allocation (host.encoding.canonical record.2).length else 0

/-- The bytes that remaining writes reserve. -/
def reservedBytes (host : StateHost) (records : List (Bool × Document)) (auditMissing : Bool) :
    Nat :=
  (records.map (flaggedBytes host)).sum +
    if auditMissing then writeAllocation host.allocation defaultAuditLimits.maximumSegmentBytes
    else 0

/-- The inodes that remaining writes reserve. -/
def reservedInodes (records : List (Bool × Document)) (auditMissing : Bool) : Nat :=
  (records.map fun record => record.1.toNat).sum + auditMissing.toNat

theorem toNat_eq_ite (b : Bool) : b.toNat = if b = true then 1 else 0 := by
  cases b <;> rfl

/-- Every flagged document is within the canonical size. -/
def FlaggedBounded (host : StateHost) (records : List (Bool × Document)) : Prop :=
  ∀ record ∈ records, record.1 = true →
    (host.encoding.canonical record.2).length ≤ maxCanonicalBytes

theorem flagged_length (records : List (Bool × Document)) :
    (flagged records).length = (records.map fun record => record.1.toNat).sum := by
  unfold flagged
  rw [List.length_map]
  induction records with
  | nil => rfl
  | cons record records ih =>
      rw [List.map_cons, List.sum_cons, ← ih]
      cases h : record.1 with
      | true =>
          rw [List.filter_cons_of_pos h, List.length_cons]
          exact Nat.add_comm _ _
      | false =>
          rw [List.filter_cons_of_neg (by simp [h])]
          exact (Nat.zero_add _).symm

theorem mapM_allocations_eq_ok {documents : List Document} {allocations : List Nat} :
    (documents.mapM fun document => do
      let raw ← liftContract (canonicalJsonBytes host.encoding document)
      pure (host.allocation.allocationUpperBound raw.length) : Except AgentError _) =
        .ok allocations ↔
      (∀ d ∈ documents, (host.encoding.canonical d).length ≤ maxCanonicalBytes) ∧
        allocations = documents.map fun d =>
          host.allocation.allocationUpperBound (host.encoding.canonical d).length := by
  induction documents generalizing allocations with
  | nil =>
      rw [List.mapM_nil, pure_eq_ok]
      simp [eq_comm]
  | cons d documents ih =>
      rw [List.mapM_cons]
      simp only [bind_eq_ok, liftContract_eq_ok, canonicalJsonBytes_eq_ok, pure_eq_ok, ih,
        List.forall_mem_cons, List.map_cons]
      constructor
      · rintro ⟨-, ⟨-, ⟨hsize, rfl⟩, rfl⟩, -, ⟨hsizes, rfl⟩, rfl⟩
        exact ⟨⟨hsize, hsizes⟩, rfl⟩
      · rintro ⟨⟨hsize, hsizes⟩, rfl⟩
        exact ⟨_, ⟨_, ⟨hsize, rfl⟩, rfl⟩, _, ⟨hsizes, rfl⟩, rfl⟩

variable (host) in
theorem flagged_allocations (records : List (Bool × Document)) :
    ((flagged records).map fun d =>
        host.allocation.allocationUpperBound (host.encoding.canonical d).length).sum +
      host.allocation.namespaceAllocationUpperBound (flagged records).length =
        (records.map (flaggedBytes host)).sum := by
  induction records with
  | nil => simp [flagged, Allocation.namespaceAllocationUpperBound]
  | cons record records ih =>
      rw [List.map_cons, List.sum_cons, ← ih]
      unfold flaggedBytes flagged
      cases h : record.1 with
      | true =>
          rw [List.filter_cons_of_pos h, List.map_cons, List.map_cons, List.sum_cons,
            List.length_cons, Allocation.namespaceAllocationUpperBound_add, if_pos rfl]
          unfold writeAllocation
          omega
      | false =>
          rw [List.filter_cons_of_neg (by simp [h])]
          simp

theorem remainingReservation_flagged_eq_ok {records : List (Bool × Document)} {audit : Bool}
    {reservation : CapacityReservation} :
    remainingReservation host (flagged records) audit = .ok reservation ↔
      FlaggedBounded host records ∧
        reservation = ⟨reservedBytes host records audit, reservedInodes records audit⟩ := by
  have hbounded : (∀ d ∈ flagged records,
      (host.encoding.canonical d).length ≤ maxCanonicalBytes) ↔ FlaggedBounded host records := by
    unfold flagged FlaggedBounded
    simp only [List.mem_map, List.mem_filter, forall_exists_index, and_imp]
    exact ⟨fun h record hmem hflag => h _ record hmem hflag rfl,
      fun h d record hmem hflag heq => heq ▸ h record hmem hflag⟩
  have hbytes : ((flagged records).map fun d =>
        host.allocation.allocationUpperBound (host.encoding.canonical d).length).sum +
      (if audit then host.allocation.allocationUpperBound defaultAuditLimits.maximumSegmentBytes
        else 0) +
      host.allocation.namespaceAllocationUpperBound ((flagged records).length + audit.toNat) =
        reservedBytes host records audit := by
    have hrecords := flagged_allocations host records
    rw [Allocation.namespaceAllocationUpperBound_add]
    unfold reservedBytes writeAllocation
    cases audit with
    | true =>
        simp only [if_true, Bool.toNat_true]
        omega
    | false =>
        have hzero : host.allocation.namespaceAllocationUpperBound 0 = 0 := by
          simp [Allocation.namespaceAllocationUpperBound]
        simp only [Bool.false_eq_true, if_false, Bool.toNat_false]
        omega
  unfold remainingReservation
  simp only [bind_eq_ok, mapM_allocations_eq_ok, pure_eq_ok, hbounded]
  constructor
  · rintro ⟨-, ⟨h, rfl⟩, rfl⟩
    refine ⟨h, ?_⟩
    rw [hbytes, flagged_length]
    rfl
  · rintro ⟨h, rfl⟩
    refine ⟨_, ⟨h, rfl⟩, ?_⟩
    rw [hbytes, flagged_length]
    rfl

theorem admitRemaining_flagged_eq_ok {limits : HostCapacityLimits}
    {records : List (Bool × Document)} {audit : Bool} {s : Store} {u : Unit} :
    admitRemaining host limits (flagged records) audit s = .ok u ↔
      reservedInodes records audit = 0 ∨ (FlaggedBounded host records ∧
        Admits limits ⟨reservedBytes host records audit, reservedInodes records audit⟩
          (host.capacity s)) := by
  unfold admitRemaining
  rw [flagged_length]
  show (if reservedInodes records audit = 0 then _ else _) = _ ↔ _
  by_cases hzero : reservedInodes records audit = 0
  · rw [if_pos hzero]
    exact iff_of_true rfl (Or.inl hzero)
  · rw [if_neg hzero]
    simp only [bind_eq_ok, remainingReservation_flagged_eq_ok, admitReleaseCapacity_eq_ok]
    constructor
    · rintro ⟨-, ⟨hbounded, rfl⟩, hadmits⟩
      exact Or.inr ⟨hbounded, hadmits⟩
    · rintro (h | ⟨hbounded, hadmits⟩)
      · exact absurd h hzero
      · exact ⟨_, ⟨hbounded, rfl⟩, hadmits⟩

end StaticHostAgent.Commit
