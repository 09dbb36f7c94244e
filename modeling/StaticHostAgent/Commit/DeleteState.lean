import StaticHostAgent.Commit.Shared
import StaticHostAgent.State.CreateNamespace
import StaticHostAgent.Audit.Projections

/-!
# The state of a deleted tenant

The records and directories of a tenant are removed only behind the committed tombstone of exactly
this deletion: first every remaining record, each of them still the one the deletion was authorized
for, then the two children of the tenant directory and the directory itself.
-/

set_option autoImplicit false

namespace StaticHostAgent.Commit

open Library Contracts Host Audit State

/-- The exceptions of a deletion: those of the agent, and the classes of its own modules. -/
inductive DeletionError where
  | agent (error : AgentError)
  | deleteCommit (message : String)
  | deleteState (message : String)
  | sourceState (message : String)
  | directoryNotEmpty
  deriving DecidableEq

/-- Raise the errors of the agent as errors of a deletion. -/
def inDeletion {α : Type} : Except AgentError α → Except DeletionError α :=
  mapError DeletionError.agent

theorem inDeletion_eq_ok {α : Type} {x : Except AgentError α} {a : α} :
    inDeletion x = .ok a ↔ x = .ok a := mapError_eq_ok

/-! ## Directories -/

def TenantNamespace.without (n : TenantNamespace) : TenantChild → TenantNamespace
  | .archives => { n with archives := false }
  | .deployments => { n with deployments := false }

/-- Remove a child of the tenant directory. -/
def dropTenantChild (t : Uuid7) (child : TenantChild) (s : Store) : Store :=
  match s.tenants.find? t with
  | some n => s.makeTenant t (TenantNamespace.without n child)
  | none => s

/-- Remove the tenant directory. -/
def dropTenant (t : Uuid7) (s : Store) : Store := { s with tenants := s.tenants.erase t }

/-- The records that a child of the tenant directory holds. -/
def childListing (t : Uuid7) : TenantChild → Listing
  | .archives => Listing.archives t
  | .deployments => Listing.deployments t

/-- Whether the child is there; one that is there must be empty. -/
def requireEmptyChild (t : Uuid7) (child : TenantChild) (s : Store) : Except DeletionError Bool :=
  if (s.tenants.find? t).any (·.has child) then do
    require (decide ((childListing t child).ids s = [])) .directoryNotEmpty
    pure true
  else pure false

/-- `os.rmdir` of a child, which may be gone. -/
def removeTenantChild (t : Uuid7) (child : TenantChild) : Durable Store DeletionError Unit := do
  let present ← Durable.query (requireEmptyChild t child)
  Durable.when present (Durable.effect (dropTenantChild t child))

/-- The tenant directory is there and holds nothing. -/
def requireEmptyTenant (t : Uuid7) (s : Store) : Except DeletionError Unit :=
  match s.tenants.find? t with
  | none => throw (.agent .fileNotFound)
  | some n =>
      require (!n.archives && !n.deployments && (s.find? (.desired t)).isNone &&
        (s.find? (.observed t)).isNone) .directoryNotEmpty

def removeTenantDirectory (t : Uuid7) : Durable Store DeletionError Unit := do
  Durable.query (requireEmptyTenant t)
  Durable.effect (dropTenant t)

section Records

variable (host : StateHost)

/-! ## Records -/

/-- A state of the tenant, which must be the expected one where it is still there. -/
def remainingState (path : StateRecordPath) (expected : Option Document) (s : Store) :
    Except DeletionError (List StateRecordPath) :=
  match s.find? path.components with
  | none => pure []
  | some _ => do
      let current ← inDeletion (readLocked host path s)
      require (decide (some current = expected))
        (.deleteState "tenant state changed after deletion was prepared")
      pure [path]

/-- The records of one history that are still there. All of them are of the history that the job
was dispatched for, and pass the check. -/
def remainingHistory (l : Listing) (path : Uuid7 → StateRecordPath) (present : Bool)
    (ids : Option (List Uuid7)) (check : Uuid7 → Document → Except DeletionError Unit) (s : Store) :
    Except DeletionError (List StateRecordPath) :=
  match ids with
  | none => throw (.deleteState "deletion record history is unavailable")
  | some ids =>
      if present then do
        require ((l.ids s).all fun d => decide (d ∈ ids))
          (.deleteState "deletion encountered state outside its bounded authority")
        (l.ids s).mapM fun d => do
          let record ← inDeletion (readLocked host (path d) s)
          check d record
          pure (path d)
      else pure []

/-- An archive record is the one that the job was authorized with. -/
def requireAuthorizedArchive (authority : SourceAuthority) (record : Document) :
    Except DeletionError Unit :=
  require (decide (some record = authority.archiveRecord.map Document.archiveRecord))
    (.deleteState "archive record changed after deletion authority")

/-- The selected deployment is the one that the job was authorized with. -/
def requireAuthorizedDeployment (job : AuthorizationJob) (authority : SourceAuthority) (d : Uuid7)
    (record : Document) : Except DeletionError Unit :=
  match record, authority.manifest.spec.desiredDeployment with
  | .deploymentRecord record, some selected =>
      require (decide (d ≠ selected.id) ||
          decide (some (deploymentRecordDigest host.encoding record) =
            job.expectedSource.deploymentDigest))
        (.deleteState "selected deployment changed after deletion authority")
  | _, _ => pure ()

/-- The records of the tenant that are still there, each as the deletion expects it. -/
def remainingRecords (job : AuthorizationJob) (intent : TransactionIntent) (t : Uuid7)
    (n : TenantNamespace) (s : Store) : Except DeletionError (List StateRecordPath) :=
  match intent.lifecycleRecovery, job.sourceAuthority with
  | some recovery, some authority => do
      let desired ← remainingState host (.tenantDesired t) (intent.sourceManifest.map .site) s
      let observed ← remainingState host (.tenantObserved t)
        (recovery.sourceObservedState.map .tenantObservedState) s
      let archives ← remainingHistory host (Listing.archives t) (.tenantArchive t) n.archives
        job.dispatch.archiveDeploymentIds (fun _ => requireAuthorizedArchive authority) s
      let deployments ← remainingHistory host (Listing.deployments t) (.tenantDeployment t)
        n.deployments job.dispatch.deploymentIds (requireAuthorizedDeployment host job authority) s
      pure (desired ++ observed ++ archives ++ deployments)
  | _, _ => throw (.agent (.keyError "lifecycleRecovery"))

/-- Refuse unexpected or altered records before a tombstone is committed. -/
def validateDeleteNamespace (job : AuthorizationJob) (intent : TransactionIntent) (s : Store) :
    Except DeletionError Unit :=
  match s.tenants.find? intent.tenantId with
  | none => throw (.agent .fileNotFound)
  | some n => do
      let _ ← remainingRecords host job intent intent.tenantId n s
      pure ()

/-! ## Removal -/

def noTombstone : DeletionError :=
  .deleteState "tenant removal has no exact committed ordinary tombstone"

/-- The intent is the one of the job's deletion. -/
def deletionIntentBinds (job : AuthorizationJob) (intent : TransactionIntent) : Bool :=
  decide (job.request.operation = .delete) && decide (intent.operation = .delete) &&
    decide (some intent.tenantId = job.request.tenantId) &&
    decide (intent.correlationId = job.request.correlationId) &&
    decide (intent.sourceManifestDigest = job.expectedSource.manifestDigest)

/-- The entry is the tombstone of the job's deletion. -/
def tombstoneBinds (job : AuthorizationJob) (entry : AuditEntry) : Bool :=
  decide (entry.operation = .delete) && decide (entry.resultStatus = .succeeded) &&
    decide (entry.operatorPrincipal = job.operatorPrincipal) &&
    decide (entry.tenantId = job.request.tenantId) &&
    decide (some entry.deletionEvidence = job.expectedSource.deletionEvidence)

/-- The deletion is committed: its intent is stored and its tombstone is in the chain. -/
def requireTombstone (job : AuthorizationJob) (intent : TransactionIntent) (entry : AuditEntry)
    (s : Store) : Except DeletionError Unit := do
  inDeletion (validateAll host [.transactionIntent intent, .auditEntry entry])
  require (deletionIntentBinds job intent) noTombstone
  let stored ← inDeletion (readLocked host (.transactionIntent intent.intentId) s)
  require (decide (stored = .transactionIntent intent)) noTombstone
  let snapshot ← inDeletion (inspectAuditCorrelationWalk host.toAuditHost defaultAuditLimits
    job.request.correlationId s.audit)
  require (decide (snapshot.entry = some entry) && tombstoneBinds job entry) noTombstone

/-- Remove what is left of the tenant. -/
def removeTenantState (job : AuthorizationJob) (intent : TransactionIntent) (n : TenantNamespace) :
    Durable Store DeletionError Unit := do
  let paths ← Durable.query (remainingRecords host job intent intent.tenantId n)
  paths.forM fun path => Durable.effect (Store.remove path.components)
  removeTenantChild intent.tenantId .archives
  removeTenantChild intent.tenantId .deployments
  removeTenantDirectory intent.tenantId

/-- Remove records only after the matching permanent deletion event has committed. -/
def removeDeletedState (job : AuthorizationJob) (intent : TransactionIntent) (entry : AuditEntry) :
    Durable Store DeletionError Unit := do
  Durable.query (requireTombstone host job intent entry)
  match ← Durable.query fun s => pure (s.tenants.find? intent.tenantId) with
  | none => pure ()
  | some n => removeTenantState host job intent n

end Records

end StaticHostAgent.Commit
