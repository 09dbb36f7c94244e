import StaticHostAgent.State.Operations

/-!
# The parts of the terminal commits

The functions that the commit paths repeat. Each path has its own copy in the source, which differs
in the noun of its messages (`CommitPath.noun`) and, for the job, in the members it leaves out of
the comparison; archive and restore use the copy of the route path.
-/

set_option autoImplicit false

namespace StaticHostAgent.Commit

open Library Contracts Host Audit State

section Shared

variable (host : StateHost) (path : CommitPath)

/-- Validate the documents of a plan. -/
def validateAll (documents : List Document) : Except AgentError Unit :=
  documents.forM fun document => do
    let _ ← liftContract (validateContract host.encoding document)
    pure ()

theorem validateAll_eq_ok {documents : List Document} {u : Unit} :
    validateAll host documents = .ok u ↔ ∀ d ∈ documents, ValidContract host.encoding d := by
  unfold validateAll
  simp only [forM_eq_ok, bind_eq_ok, liftContract_eq_ok, validateContract_eq_ok, pure_eq_ok,
    and_true]
  exact forall₂_congr fun d hd => ⟨fun ⟨_, h, _⟩ => h, fun h => ⟨_, h, rfl⟩⟩

/-- Read a job as a job. -/
def readJob (jobId : Uuid7) (s : Store) : Except AgentError AuthorizationJob := do
  match ← readLocked host (.authorizationJob jobId) s with
  | .authorizationJob job => pure job
  | _ => throw (.contract (schemaInvalid "contract kind does not match"))

/-- Read the deployment record that a path names. -/
def readDeployment (t d : Uuid7) (s : Store) : Except AgentError DeploymentRecord := do
  match ← readLocked host (.tenantDeployment t d) s with
  | .deploymentRecord record => pure record
  | _ => throw (.contract (schemaInvalid "contract kind does not match"))

/-- A job without its phase and without the members of its dispatch that `forget` clears. -/
def sameAuthority (forget : Dispatch → Dispatch) (job : AuthorizationJob) : AuthorizationJob :=
  { job with phase := .pending, dispatch := forget job.dispatch }

/-- What the create and the route path leave out of the comparison of jobs. -/
def withoutEvidence (d : Dispatch) : Dispatch :=
  { d with
    auditBoundary := none
    archiveDeploymentIds := none
    artifactReleaseTreeDigest := none
    sourceReleaseTreeDigest := none
    deploymentIds := none
    tenantIds := none
    tenantRecordHistories := none }

/-- The stored job is the expected one, claimed or completed. -/
def requireSameJob (forget : Dispatch → Dispatch) (expected : AuthorizationJob) (s : Store) :
    Except AgentError AuthorizationJob := do
  let current ← readJob host expected.jobId s
  require (decide (sameAuthority forget expected = sameAuthority forget current) &&
      decide (current.phase ∈ [JobPhase.claimed, .completed]))
    (.commit path ("authorization job changed before " ++ path.noun ++ " finalization"))
  pure current

/-- The path of an intent and the generation that may be removed. -/
structure ExactIntent where
  path : StateRecordPath
  token : StateRevision

/-- The planned intent is the only one. -/
def requireExactIntent (intentId : Uuid7) (intent : TransactionIntent) (s : Store) :
    Except AgentError ExactIntent := do
  let records ← measureIntentRecords host s
  require (decide (records = [intentId]))
    (.commit path (path.noun ++ " finalization requires its sole exact intent"))
  let (intentPath, record) ← readIntent host intentId s
  require (decide (intentPath = .transactionIntent intentId) &&
      decide (record = .transactionIntent intent))
    (.commit path (path.noun ++ " intent changed before terminal mutation"))
  pure ⟨intentPath, revision host record⟩

/-- Every record of a finished commit is as planned. -/
def requireTerminalRecords (disagrees incomplete : String)
    (expected : List (StateRecordPath × Document)) (s : Store) : Except AgentError Unit :=
  expected.forM fun record =>
    match readLocked host record.1 s with
    | .ok current => require (decide (current = record.2)) (.commit path disagrees)
    | .error .fileNotFound => throw (.commit path incomplete)
    | .error error => throw error

/-- Whether a record is missing; one that exists must be the planned one. -/
def missingExact (message : String) (record : StateRecordPath) (document : Document) (s : Store) :
    Except AgentError Bool :=
  match readLocked host record s with
  | .ok current => do
      require (decide (current = document)) (.stateConflict message)
      pure false
  | .error .fileNotFound => pure true
  | .error error => throw error

/-- Whether the chain still lacks the entry; it must extend the chain or end it. -/
def auditNeedsAppend (entry : AuditEntry) (state : AuditState) : Except AgentError Bool :=
  if state.entryCount = entry.sequence ∧ entry.previousEntryDigest = state.terminalDigest then
    pure true
  else if state.entryCount = entry.sequence + 1 ∧
      state.terminalDigest = some (auditEntryDigest host.encoding entry) then
    pure false
  else throw (.commit path (path.noun ++ " audit no longer extends the exact chain"))

/-- `auditNeedsAppend` of the chain as it stands. -/
def inspectNeedsAppend (entry : AuditEntry) (s : Store) : Except AgentError Bool := do
  let state ← inspectStateAudit host s
  auditNeedsAppend host path entry state

/-- A job in its terminal phase. -/
def completedJob (job : AuthorizationJob) : AuthorizationJob := { job with phase := .completed }

/-- The documents whose flag is set. -/
def flagged (records : List (Bool × Document)) : List Document :=
  (records.filter Prod.fst).map Prod.snd

/-- What the remaining writes may allocate: each of the documents, and a whole audit segment if the
entry is still missing. -/
def remainingReservation (writes : List Document) (auditMissing : Bool) :
    Except AgentError CapacityReservation := do
  let allocations ← writes.mapM fun document => do
    let raw ← liftContract (canonicalJsonBytes host.encoding document)
    pure (host.allocation.allocationUpperBound raw.length)
  let entries := writes.length + auditMissing.toNat
  let segment := if auditMissing then
    host.allocation.allocationUpperBound defaultAuditLimits.maximumSegmentBytes else 0
  pure ⟨allocations.sum + segment + host.allocation.namespaceAllocationUpperBound entries, entries⟩

/-- Admit the remaining writes against the free floors, unless nothing remains. -/
def admitRemaining (limits : HostCapacityLimits) (writes : List Document) (auditMissing : Bool)
    (s : Store) : Except AgentError Unit :=
  if writes.length + auditMissing.toNat = 0 then pure () else do
    let reservation ← remainingReservation host writes auditMissing
    admitReleaseCapacity limits reservation (host.capacity s)

/-- Prove that a missing entry can be appended. -/
def admitMissingAudit (entry : AuditEntry) (s : Store) : Except AgentError Unit := do
  let _ ← admitStateAuditAppend host entry s
  pure ()

/-- Reserve the inventory's share of a result that is still missing. -/
def admitResult (result : OperationResult) (s : Store) : Except AgentError Unit := do
  let raw ← liftContract (canonicalJsonBytes host.encoding (.operationResult result))
  admitInventory host ⟨0, 1, host.allocation.allocationUpperBound raw.length⟩ s

def ensureAudit (entry : AuditEntry) : Durable Store AgentError Unit := do
  let missing ← Durable.query (inspectNeedsAppend host path entry)
  Durable.when missing do
    let _ ← appendStateAudit host entry
    pure ()

/-- Publish the result, or find it published. -/
def ensureResult (job : AuthorizationJob) (result : OperationResult) (resultMissing : Bool) :
    Durable Store AgentError Unit :=
  if resultMissing then do
    let _ ← createImmutable host (.authorizationResult job.jobId) (.operationResult result)
    pure ()
  else Durable.query fun s => do
    let current ← readLocked host (.authorizationResult job.jobId) s
    require (decide (current = .operationResult result))
      (.stateConflict ("existing " ++ path.noun ++ " result disagrees"))

def ensureCompletedJob (job : AuthorizationJob) : Durable Store AgentError Unit :=
  if job.phase = .completed then pure () else do
    let _ ← compareAndSwap host (.authorizationJob job.jobId)
      (revision host (.authorizationJob job)) (.authorizationJob (completedJob job))
    pure ()

end Shared

end StaticHostAgent.Commit
