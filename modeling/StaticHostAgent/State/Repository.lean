import StaticHostAgent.State.Store

/-!
# Strict access to the authoritative records

Reading and writing records through their typed paths. Every write validates the record first, makes
one durable change and reads the record back. `StateHost` adds to the audit host what the state
filesystem offers in each state, with the one thing the admission relies on: a write spends no more
than was computed for it, and removing something spends nothing.
-/

set_option autoImplicit false

namespace StaticHostAgent.State

open Library Contracts Host Audit

/-- A change of the filesystem took at most so many bytes and inodes. -/
structure Spends (before after : FilesystemCapacity) (bytes inodes : Nat) : Prop where
  totalBytes : after.totalBytes = before.totalBytes
  totalInodes : after.totalInodes = before.totalInodes
  bytes : before.availableBytes ≤ after.availableBytes + bytes
  inodes : before.availableInodes ≤ after.availableInodes + inodes

/-- What one write of so many bytes may allocate, its directory entry included. -/
def writeAllocation (allocation : Allocation) (byteCount : Nat) : Nat :=
  allocation.allocationUpperBound byteCount + allocation.namespaceAllocationUpperBound 1

/-- The host of the state: the audit host, and what the filesystem offers in a state. -/
structure StateHost extends AuditHost where
  capacity : Store → FilesystemCapacity
  put_spends : ∀ p d s, Spends (capacity s) (capacity (s.put p d))
    (writeAllocation allocation (encoding.canonical d).length) 1
  remove_spends : ∀ p s, Spends (capacity s) (capacity (s.remove p)) 0 0
  segment_spends : ∀ plan s, Spends (capacity s) (capacity (s.setAudit (s.audit.write plan)))
    (writeAllocation allocation plan.payload.length) 1
  tenant_spends : ∀ t n s, Spends (capacity s) (capacity (s.makeTenant t n))
    (allocation.namespaceAllocationUpperBound 1) 1
  retire_spends : ∀ t d g s, (s.releases.find? ⟨t, d, none⟩).isSome = true →
    Spends (capacity s) (capacity (s.retireRelease t d g)) 0 0
  discard_spends : ∀ t d g s, Spends (capacity s) (capacity (s.discardRelease t d g)) 0 0

section Repository

variable (host : StateHost)

/-- A token over one exact canonical record generation. -/
structure StateRevision where
  contractKind : ContractKind
  byteCount : Nat
  sha256 : Sha256
  deriving DecidableEq

def ContractKind.value : ContractKind → String
  | .site => "Site"
  | .tenantObservedState => "TenantObservedState"
  | .deploymentRecord => "DeploymentRecord"
  | .archiveRecord => "ArchiveRecord"
  | .transactionIntent => "TransactionIntent"
  | .archiveConstructionIntent => "ArchiveConstructionIntent"
  | .archiveRetirementIntent => "ArchiveRetirementIntent"
  | .emergencyDeletionIntent => "EmergencyDeletionIntent"
  | .auditEntry => "AuditEntry"
  | .operationResult => "OperationResult"
  | .operationRequest => "OperationRequest"
  | .authorizationJob => "AuthorizationJob"

/-- The revision of a document. -/
def revision (document : Document) : StateRevision :=
  let canonical := host.encoding.canonical document
  let kindBytes := ascii (ContractKind.value document.kind)
  ⟨document.kind, canonical.length, host.encoding.sha256
    (ascii "lowerduckpond-state-revision-v1" ++ 0 ::
      (bigEndian4 kindBytes.length).drop 2 ++ kindBytes ++ bigEndian4 canonical.length ++
        canonical)⟩

/-- Read the record at a path. -/
def readLocked (path : StateRecordPath) (s : Store) : Except AgentError Document :=
  match s.find? path.components with
  | none => throw .fileNotFound
  | some document => do
      require (decide (document.kind = path.contractKind))
        (.contract (schemaInvalid "contract kind does not match"))
      let _ ← liftContract (validateContract host.encoding document)
      path.validateBinding document
      pure document

/-- The typed path of an intent, by its kind. -/
def intentPath (intentId : Uuid7) : Document → Option StateRecordPath
  | .transactionIntent _ => some (.transactionIntent intentId)
  | .emergencyDeletionIntent _ => some (.emergencyDeletionIntent intentId)
  | .archiveConstructionIntent _ => some (.archiveConstructionIntent intentId)
  | .archiveRetirementIntent _ => some (.archiveRetirementIntent intentId)
  | _ => none

/-- Read an intent of any kind. -/
def readIntent (intentId : Uuid7) (s : Store) : Except AgentError (StateRecordPath × Document) :=
  match s.find? (.intent intentId) with
  | none => throw .fileNotFound
  | some document => do
      let _ ← liftContract (validateContract host.encoding document)
      match intentPath intentId document with
      | none => throw (.stateRecord "intent store contains another contract kind")
      | some path => do
          path.validateBinding document
          pure (path, document)

/-- Validate a record for its path. -/
def encode (path : StateRecordPath) (document : Document) : Except AgentError Unit := do
  require (decide (document.kind = path.contractKind))
    (.contract (schemaInvalid "contract kind does not match"))
  let _ ← liftContract (validateContract host.encoding document)
  path.validateBinding document

/-- What a new result must carry beyond its contract. -/
def validateNewResultShape : Document → Except AgentError Unit
  | .operationResult r => do
      require (decide (r.operation ≠ .archive) || r.archiveRecord.isSome)
        (.stateRecord "new archive operation result requires archive authority")
      require (decide (r.status ≠ .succeeded) || decide (r.operation = .delete) ||
          r.manifest.isSome)
        (.stateRecord "new successful operation result requires its exact manifest")
  | _ => pure ()

def validateNewArchiveRetirementShape : Document → Except AgentError Unit
  | .archiveRetirementIntent i =>
      require i.current
        (.stateRecord "new archive-retirement intent requires current authority")
  | _ => pure ()

/-- Validate a newly created record under the current writer requirements. -/
def encodeNew (path : StateRecordPath) (document : Document) : Except AgentError Unit := do
  encode host path document
  validateNewResultShape document
  validateNewArchiveRetirementShape document

/-- Whether the directory of a file exists. -/
def hasParent (s : Store) : FilePath → Bool
  | .desired t | .observed t => (s.tenants.find? t).isSome
  | .deployment t _ => (s.tenants.find? t).any TenantNamespace.deployments
  | .archive t _ => (s.tenants.find? t).any TenantNamespace.archives
  | _ => true

/-- A file can be created at the path. -/
def requireAbsent (path : FilePath) (s : Store) : Except AgentError Unit := do
  require (hasParent s path) .fileNotFound
  require (s.find? path).isNone .fileExists

/-- Write a validated record to a file that does not exist. -/
def createImmutableBytes (path : StateRecordPath) (document : Document) :
    Durable Store AgentError Document := do
  Durable.query (requireAbsent path.components)
  Durable.effect (Store.put path.components document)
  Durable.query (readLocked host path)

def createImmutable (path : StateRecordPath) (document : Document) :
    Durable Store AgentError Document := do
  Durable.query fun _ => encodeNew host path document
  createImmutableBytes host path document

/-- A job without its phase. -/
def jobAuthority (job : AuthorizationJob) : AuthorizationJob := { job with phase := .pending }

def validateAuthorizationPhaseReplacement : Document → Document → Except AgentError Unit
  | .authorizationJob current, .authorizationJob candidate =>
      require (decide (jobAuthority current = jobAuthority candidate))
        (.stateRecord "ordinary authorization replacement changed executor-owned authority")
  | _, _ => pure ()

/-- A current retirement intent stays current. -/
def validateRetirementReplacement : Document → Document → Except AgentError Unit
  | .archiveRetirementIntent current, .archiveRetirementIntent candidate =>
      require (!current.current || candidate.current)
        (.stateRecord "new archive-retirement intent requires current authority")
  | _, _ => pure ()

/-- The record at the path has the expected revision and may become the candidate. -/
def requireReplaceable (path : StateRecordPath) (expected : StateRevision) (candidate : Document)
    (s : Store) : Except AgentError Unit := do
  require path.allowsReplacement
    (.stateRecord "immutable state-record path cannot be replaced")
  let current ← readLocked host path s
  require (decide (revision host current = expected))
    (.stateConflict "authoritative state changed before commit")
  validateRetirementReplacement current candidate
  validateAuthorizationPhaseReplacement current candidate

def compareAndSwap (path : StateRecordPath) (expected : StateRevision) (candidate : Document) :
    Durable Store AgentError Document := do
  Durable.query fun _ => encode host path candidate
  Durable.query (requireReplaceable host path expected candidate)
  Durable.effect (Store.put path.components candidate)
  Durable.query (readLocked host path)

/-! ### Inventories -/

def initialMaximumTenants : Nat := 25

def initialMaximumAuthorizationRecords : Nat := 10000

def initialMaximumAuthorizationAllocatedBytes : Nat := 64 * mebibyte

def initialMaximumIntentRecords : Nat := 2

/-- The bounded listing of one store, whose records are all within the canonical byte ceiling. -/
def measureRecords (l : Listing) (maximumEntries : Nat) (s : Store) :
    Except AgentError (List Uuid7) := do
  let ids := l.ids s
  require (decide (ids.length ≤ maximumEntries))
    (.stateAdmissionRejected "state directory exceeds its entry ceiling")
  require (ids.all fun i => (s.find? (l.path i)).all fun d =>
      decide ((host.encoding.canonical d).length ≤ maxCanonicalBytes))
    (.stateInventory "bounded state record exceeds its canonical byte ceiling")
  pure ids

/-- The identities of the active intents. -/
def measureIntentRecords (s : Store) : Except AgentError (List Uuid7) :=
  measureRecords host Listing.intents initialMaximumIntentRecords s

structure StateInventory where
  tenantIds : List Uuid7
  authorizationJobs : Nat
  authorizationResults : Nat
  authorizationCorrelations : Nat
  authorizationAllocatedBytes : Nat

def StateInventory.authorizationRecordCount (i : StateInventory) : Nat :=
  i.authorizationJobs + i.authorizationResults + i.authorizationCorrelations

/-- Worst-case growth of the durable state reserved before a mutation. -/
structure StateInventoryReservation where
  tenants : Nat
  authorizationRecords : Nat
  authorizationAllocatedBytes : Nat

/-- Reject a reservation before any tenant or authorization mutation. -/
def admitStateInventory (inventory : StateInventory) (reservation : StateInventoryReservation) :
    Except AgentError Unit := do
  require (decide (inventory.tenantIds.length + reservation.tenants ≤ initialMaximumTenants))
    (.stateAdmissionRejected "tenant reservation would cross the host ceiling")
  require (decide (inventory.authorizationRecordCount + reservation.authorizationRecords ≤
      initialMaximumAuthorizationRecords))
    (.stateAdmissionRejected "authorization reservation would cross the record ceiling")
  require (decide (inventory.authorizationAllocatedBytes +
      reservation.authorizationAllocatedBytes ≤ initialMaximumAuthorizationAllocatedBytes))
    (.stateAdmissionRejected "authorization reservation would cross the allocated-byte ceiling")

/-- What the authorization records occupy. -/
def authorizationAllocatedBytes (s : Store) : Nat :=
  s.files.total fun p d =>
    if p.isAuthorization then host.allocation.allocated (host.encoding.canonical d).length else 0

/-- The inventory of the fixed state directories, which must fit its own ceilings. -/
def measureInventory (s : Store) : Except AgentError StateInventory := do
  require (decide (s.tenants.size ≤ initialMaximumTenants))
    (.stateAdmissionRejected "state directory exceeds its entry ceiling")
  let correlations ← measureRecords host Listing.correlations
    initialMaximumAuthorizationRecords s
  let jobs ← measureRecords host Listing.jobs
    (initialMaximumAuthorizationRecords - correlations.length) s
  let results ← measureRecords host Listing.results
    (initialMaximumAuthorizationRecords - correlations.length - jobs.length) s
  let inventory : StateInventory := ⟨s.tenants.keys, jobs.length, results.length,
    correlations.length, authorizationAllocatedBytes host s⟩
  admitStateInventory inventory ⟨0, 0, 0⟩
  pure inventory

/-- Admit growth of the inventory. -/
def admitInventory (reservation : StateInventoryReservation) (s : Store) :
    Except AgentError Unit := do
  let inventory ← measureInventory host s
  admitStateInventory inventory reservation

/-! ### Histories -/

def maxRetainedDeploymentRecords : Nat := 3

/-- The bounded listing of a tenant's deployment records, each of them readable. -/
def boundedDeploymentIds (t : Uuid7) (maximumRecords : Nat) (s : Store) :
    Except AgentError (List Uuid7) := do
  require ((s.tenants.find? t).any TenantNamespace.deployments) .fileNotFound
  let ids := (Listing.deployments t).ids s
  require (decide (ids.length ≤ maximumRecords))
    (.stateRecord "tenant deployment history exceeds its retention bound")
  ids.forM fun d => do
    let _ ← readLocked host (.tenantDeployment t d) s
    pure ()
  pure ids

def tenantDeploymentIds (t : Uuid7) (s : Store) : Except AgentError (List Uuid7) :=
  boundedDeploymentIds host t maxRetainedDeploymentRecords s

/-- The retained history plus at most one named transition candidate. -/
def tenantDeploymentTransitionIds (t candidateId : Uuid7) (s : Store) :
    Except AgentError (List Uuid7) := do
  let ids ← boundedDeploymentIds host t (maxRetainedDeploymentRecords + 1) s
  require (decide (ids.length ≤ maxRetainedDeploymentRecords) ||
      decide (ids.getLast? = some candidateId))
    (.stateRecord "deployment transition exceeds its candidate authority")
  pure ids

def tenantArchiveIds (t : Uuid7) (s : Store) : Except AgentError (List Uuid7) := do
  require ((s.tenants.find? t).any TenantNamespace.archives) .fileNotFound
  let ids := (Listing.archives t).ids s
  require (decide (ids.length ≤ maxRetainedDeploymentRecords))
    (.stateRecord "tenant archive history exceeds its retention bound")
  ids.forM fun d => do
    let _ ← readLocked host (.tenantArchive t d) s
    pure ()
  pure ids

/-! ### Removals -/

/-- Clear only the exact intent generation a caller reconciled. -/
def requireReconciledIntent (path : StateRecordPath) (expected : StateRevision) (s : Store) :
    Except AgentError Unit := do
  require path.isIntent
    (.stateRecord "only an intent can cross the reconciliation removal boundary")
  let current ← readLocked host path s
  require (decide (revision host current = expected))
    (.stateConflict "intent changed after it was reconciled")
  let _ ← measureIntentRecords host s
  pure ()

def removeReconciledIntent (path : StateRecordPath) (expected : StateRevision) :
    Durable Store AgentError Unit := do
  Durable.query (requireReconciledIntent host path expected)
  Durable.effect (Store.remove path.components)

/-- The path of a deployment record that is to be removed, with its validation. -/
def deploymentRemovalAuthority (expected : DeploymentRecord) :
    Except AgentError StateRecordPath := do
  let path := StateRecordPath.tenantDeployment expected.tenantId expected.id
  encode host path (.deploymentRecord expected)
  pure path

/-- Bind one validated deployment snapshot to its stored generation. -/
def deploymentRemovalToken (expected : DeploymentRecord) (s : Store) :
    Except AgentError StateRevision := do
  let path ← deploymentRemovalAuthority host expected
  let current ← readLocked host path s
  require (decide (revision host current = revision host (.deploymentRecord expected)))
    (.stateConflict "deployment changed before removal authorization")
  pure (revision host current)

def requireExactRemoval (expected : DeploymentRecord) (token : StateRevision) (s : Store) :
    Except AgentError Unit := do
  let path ← deploymentRemovalAuthority host expected
  let current ← readLocked host path s
  require (decide (token = revision host (.deploymentRecord expected)) &&
      decide (revision host current = revision host (.deploymentRecord expected)))
    (.stateConflict "deployment changed before exact removal")

/-- Remove only one exact retained deployment record. -/
def removeExactDeployment (expected : DeploymentRecord) (token : StateRevision) :
    Durable Store AgentError Unit := do
  Durable.query (requireExactRemoval host expected token)
  Durable.effect (Store.remove (.deployment expected.tenantId expected.id))

/-! ### The audit chain of the state -/

def inspectStateAudit (s : Store) : Except AgentError AuditState :=
  inspectAudit host.toAuditHost defaultAuditLimits s.audit

/-- Prove that one exact append fits the chain and the filesystem. -/
def admitStateAuditAppend (entry : AuditEntry) (s : Store) : Except AgentError AuditState :=
  admitAuditAppend host.toAuditHost defaultAuditLimits (host.capacity s) entry false s.audit

/-- Append to the chain of the state. A write that raises stops its caller before or behind the one
change, where a crash of the caller may stop it as well. -/
def appendStateAudit (entry : AuditEntry) : Durable Store AgentError AuditAppend :=
  Durable.zoom Store.audit Store.setAudit fun s =>
    appendAudit host.toAuditHost defaultAuditLimits .written (host.capacity s) entry false

end Repository

end StaticHostAgent.State
