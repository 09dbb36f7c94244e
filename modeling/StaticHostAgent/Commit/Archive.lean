import StaticHostAgent.Commit.Route
import StaticHostAgent.State.Releases

/-!
# The archive commit

Plan one archive from the durable authority, and commit or replay it: write the archive record,
replace the desired and the observed state, prove the retained releases, append the audit entry,
publish the result, complete the job and clear the transaction intent. The archive record is the
first write, so that it tells whether the commit has started.
-/

set_option autoImplicit false

namespace StaticHostAgent.Commit

open Library Contracts Host Audit State

/-- The local publication documents of one verified remote construction. -/
structure ArchiveTransitionPlan where
  tenantId : Uuid7
  intentId : Uuid7
  constructionIntentId : Uuid7
  manifest : Site
  observedState : TenantObservedState
  archiveRecord : ArchiveRecord
  intent : TransactionIntent
  result : OperationResult
  auditEntry : AuditEntry
  deriving DecidableEq

section Archive

variable (host : StateHost)

/-! ## The plan -/

/-- The record that an uploaded construction authorizes. -/
def constructedRecord (construction : ArchiveConstructionIntent) (versionId : String)
    (candidateDigest : Digest) (deployment : DeploymentRecord) : ArchiveRecord :=
  ⟨construction.tenantId, deployment.id, construction.releaseTreeDigest, candidateDigest,
    construction.bundleDigest, construction.bundleSize, construction.bucket, construction.key,
    versionId, construction.createdAt, construction.correlationId⟩

/-- The construction is uploaded for exactly this job, source and deployment. -/
def requireArchiveConstruction (construction : ArchiveConstructionIntent) (archive : ArchiveRecord)
    (job : AuthorizationJob) (sourceDigest candidateDigest : Digest)
    (deployment : DeploymentRecord) : Except AgentError Unit :=
  require (decide (construction.phase = .uploaded) &&
      decide (construction.jobId = job.jobId) &&
      decide (construction.operatorPrincipal = job.operatorPrincipal) &&
      decide (some construction.tenantId = job.request.tenantId) &&
      decide (construction.correlationId = job.request.correlationId) &&
      decide (construction.sourceManifestDigest = sourceDigest) &&
      decide (construction.candidateManifestDigest = candidateDigest) &&
      decide (construction.deploymentRecordDigest =
        deploymentRecordDigest host.encoding deployment) &&
      decide (construction.releaseTreeDigest = deployment.releaseTreeDigest) &&
      decide (construction.key.uploadAttemptId = construction.uploadAttemptId) &&
      construction.versionId.any fun versionId => decide (versionId ≠ "null") &&
        decide (archive = constructedRecord construction versionId candidateDigest deployment))
    (.lifecyclePlan "archive publication lacks its exact uploaded construction")

/-- What an archive is planned from. -/
structure ArchiveAuthority where
  platformState : Digest
  sourceManifest : Site
  sourceObservedState : TenantObservedState
  sourceDeployment : DeploymentRecord
  construction : ArchiveConstructionIntent
  archiveRecord : ArchiveRecord
  sourceRuntimeGenerationId : Uuid7
  candidateRuntimeGenerationId : Uuid7
  sourceRouteSet : RouteSet

/-- The documents that the plan of an archive starts from. -/
def ArchiveAuthority.contracts (a : ArchiveAuthority) (job : AuthorizationJob) : List Document :=
  [.authorizationJob job, .site a.sourceManifest, .tenantObservedState a.sourceObservedState,
    .deploymentRecord a.sourceDeployment, .archiveConstructionIntent a.construction,
    .archiveRecord a.archiveRecord]

/-- The source is live and the one that the job was claimed for. -/
def requireArchiveSource (job : AuthorizationJob) (a : ArchiveAuthority) :
    Except AgentError DeploymentReference := do
  let source := a.sourceManifest
  require (decide (job.compatibilityVersion = .staticJobV2) && decide (job.phase = .claimed) &&
      decide (job.artifact = none) && decide (job.request.operation = .archive) &&
      decide (job.request.tenantId = some source.metadata.id) &&
      decide (source.spec.desiredState ∈ [LifecycleState.active, .suspended]) &&
      decide (job.sourceAuthority = some ⟨source, none⟩))
    (.lifecyclePlan "archive planning requires a current claimed live source")
  match source.spec.desiredDeployment with
  | none => throw (.keyError "id")
  | some desired => do
      let deployment := a.sourceDeployment
      require (decide (deployment.tenantId = source.metadata.id) &&
          decide (deployment.id = desired.id) &&
          decide (deployment.archiveSha256 = desired.archiveSha256) &&
          decide (job.expectedSource = ⟨false, some source.spec.desiredState,
            some (manifestDigest host.encoding source),
            some (deploymentRecordDigest host.encoding deployment), none, a.platformState, none⟩))
        (.lifecyclePlan "archive source exceeds its job's manifest or deployment authority")
      pure desired

/-- The source without its routes. -/
def archivedManifest (source : Site) : Site :=
  { source with spec := { source.spec with desiredState := .archived } }

def archivedObservedState (e : Encoding) (source : Site) (timestamp : Timestamp) :
    TenantObservedState :=
  ⟨source.metadata.id, manifestDigest e (archivedManifest source), .archived, none, none,
    timestamp⟩

def archiveIntent (e : Encoding) (job : AuthorizationJob) (a : ArchiveAuthority) (intentId : Uuid7)
    (timestamp : Timestamp) : TransactionIntent where
  current := true
  intentId := intentId
  tenantId := a.sourceManifest.metadata.id
  correlationId := job.request.correlationId
  operation := .archive
  archiveRecovery := some ⟨a.sourceManifest, a.sourceObservedState, a.sourceRuntimeGenerationId,
    a.sourceRouteSet, archivedManifest a.sourceManifest, a.archiveRecord,
    a.candidateRuntimeGenerationId⟩
  lifecycleRecovery := none
  sourceManifest := some a.sourceManifest
  sourceManifestDigest := some (manifestDigest e a.sourceManifest)
  candidateManifest := some (archivedManifest a.sourceManifest)
  candidateManifestDigest := some (manifestDigest e (archivedManifest a.sourceManifest))
  phase := .prepared
  restartFence := none
  createdAt := timestamp

def archiveResult (job : AuthorizationJob) (a : ArchiveAuthority) : OperationResult :=
  ⟨.authorizationJob job.jobId, job.request.correlationId, .archive, .succeeded,
    some a.sourceManifest.metadata.id, some a.sourceManifest.metadata.canonicalOrigin,
    some (archivedManifest a.sourceManifest), some (some a.archiveRecord), none, none, none⟩

/-- The audit entry of a success, behind a position of the chain. -/
def successfulAuditEntry (e : Encoding) (job : AuthorizationJob) (operation : Operation)
    (tenantId : Uuid7) (result : OperationResult) (sequence : Nat) (previous : Option Digest)
    (timestamp : Timestamp) : AuditEntry :=
  ⟨sequence, previous, timestamp, job.operatorPrincipal, operation, some tenantId,
    job.request.correlationId, resultDigest e result, .succeeded, none⟩

/-- Plan the archive of an active or suspended tenant. -/
def planArchiveTransition (job : AuthorizationJob) (a : ArchiveAuthority) (sequence : Nat)
    (previous : Option Digest) (timestamp : Timestamp) (intentId : Uuid7) :
    Except AgentError ArchiveTransitionPlan := do
  validateAll host (a.contracts job)
  let _ ← requireArchiveSource host job a
  let source := a.sourceManifest
  let tenantId := source.metadata.id
  requireArchiveConstruction host a.construction a.archiveRecord job
    (manifestDigest host.encoding source) (manifestDigest host.encoding (archivedManifest source))
    a.sourceDeployment
  require (decide [intentId, a.construction.intentId, tenantId].Nodup)
    (.lifecyclePlan "archive transaction identities collided")
  let observedState := archivedObservedState host.encoding source timestamp
  let intent := archiveIntent host.encoding job a intentId timestamp
  let result := archiveResult job a
  validateAll host [.tenantObservedState observedState, .transactionIntent intent,
    .operationResult result]
  let auditEntry := successfulAuditEntry host.encoding job .archive tenantId result sequence
    previous timestamp
  validateAll host [.auditEntry auditEntry]
  pure ⟨tenantId, intentId, a.construction.intentId, archivedManifest source, observedState,
    a.archiveRecord, intent, result, auditEntry⟩

/-! ## Admission -/

def readConstruction (intentId : Uuid7) (s : Store) :
    Except AgentError ArchiveConstructionIntent := do
  match ← readLocked host (.archiveConstructionIntent intentId) s with
  | .archiveConstructionIntent construction => pure construction
  | _ => throw (.contract (schemaInvalid "contract kind does not match"))

def readPlatformState (s : Store) : Except AgentError Digest :=
  match s.platformState with
  | none => throw .fileNotFound
  | some digest => pure digest

/-- The plan is what the durable authority plans again. -/
def validateArchivePlan (job : AuthorizationJob) (plan : ArchiveTransitionPlan) (s : Store) :
    Except AgentError ArchiveRecovery := do
  validateAll host [.transactionIntent plan.intent, .auditEntry plan.auditEntry]
  match plan.intent.archiveRecovery with
  | none => throw (.keyError "archiveRecovery")
  | some recovery => do
      require (decide (job.dispatch.sourceObservedState = some recovery.sourceObservedState) &&
          decide (job.dispatch.sourceRuntimeGenerationId =
            some recovery.sourceRuntimeGenerationId) &&
          decide (job.dispatch.sourceRouteSet = some recovery.sourceRouteSet))
        (.commit .archive "archive runtime source is not durably job-bound")
      let platformState ← readPlatformState s
      let deployment ← readDeployment host plan.tenantId plan.archiveRecord.deploymentId s
      let construction ← readConstruction host plan.constructionIntentId s
      let reconstructed ← planArchiveTransition host { job with phase := .claimed }
        ⟨platformState, recovery.sourceManifest, recovery.sourceObservedState, deployment,
          construction, plan.archiveRecord, recovery.sourceRuntimeGenerationId,
          recovery.candidateRuntimeGenerationId, recovery.sourceRouteSet⟩
        plan.auditEntry.sequence plan.auditEntry.previousEntryDigest plan.intent.createdAt
        plan.intentId
      require (decide (reconstructed = plan))
        (.commit .archive "archive publication documents disagree with durable authority")
      pure recovery

/-- The removal of the transaction intent; `none` once it is gone and the job is completed. -/
def archiveIntentRemoval (job : AuthorizationJob) (plan : ArchiveTransitionPlan) (s : Store) :
    Except AgentError (Option ExactIntent) := do
  let records ← measureIntentRecords host s
  if decide (records = [plan.constructionIntentId]) && decide (job.phase = .completed) then
    pure none
  else do
    require (decide (records.Perm [plan.intentId, plan.constructionIntentId]))
      (.commit .archive "archive commit requires exactly its construction and transaction")
    let (path, stored) ← readIntent host plan.intentId s
    require (decide (path = .transactionIntent plan.intentId) &&
        decide (stored = .transactionIntent plan.intent))
      (.commit .archive "archive transaction changed before terminal mutation")
    pure (some ⟨path, revision host stored⟩)

structure ArchiveProgress where
  desired : Document
  observed : Document
  archiveMissing : Bool
  resultMissing : Bool
  removal : Option ExactIntent
  deployments : List DeploymentRecord

/-- The terminal steps are applied in their order. -/
def archiveStepsOrdered (job : AuthorizationJob) (plan : ArchiveTransitionPlan)
    (p : ArchiveProgress) (auditMissing : Bool) : Bool :=
  let desiredMissing := decide (p.desired ≠ .site plan.manifest)
  let observedMissing := decide (p.observed ≠ .tenantObservedState plan.observedState)
  !((!desiredMissing && p.archiveMissing) || (!observedMissing && desiredMissing) ||
    (!auditMissing && observedMissing) || (!p.resultMissing && auditMissing) ||
    (decide (job.phase = .completed) && p.resultMissing) ||
    (p.removal.isNone && (p.archiveMissing || p.resultMissing || auditMissing ||
      desiredMissing || observedMissing)))

/-- The writes that remain. -/
def archiveWrites (job : AuthorizationJob) (plan : ArchiveTransitionPlan) (p : ArchiveProgress) :
    List (Bool × Document) :=
  [(p.archiveMissing, .archiveRecord plan.archiveRecord),
    (decide (p.desired ≠ .site plan.manifest), .site plan.manifest),
    (decide (p.observed ≠ .tenantObservedState plan.observedState),
      .tenantObservedState plan.observedState),
    (p.resultMissing, .operationResult plan.result),
    (decide (job.phase ≠ .completed), .authorizationJob (completedJob job))]

/-- Admit the writes that remain. -/
def admitArchiveRecords (limits : HostCapacityLimits) (job : AuthorizationJob)
    (plan : ArchiveTransitionPlan) (p : ArchiveProgress) (auditMissing : Bool) (s : Store) :
    Except AgentError Unit := do
  checkIf auditMissing (admitMissingAudit host plan.auditEntry s)
  checkIf p.resultMissing (admitResult host plan.result s)
  admitRemaining host limits (flagged (archiveWrites job plan p)) auditMissing s

/-- The state is on the way of the archive, and what remains fits. -/
def prepareArchiveCommit (limits : HostCapacityLimits) (expected : AuthorizationJob)
    (plan : ArchiveTransitionPlan) (s : Store) :
    Except AgentError (AuthorizationJob × ArchiveProgress) := do
  let job ← routeSameJob host expected s
  let recovery ← validateArchivePlan host job plan s
  let removal ← archiveIntentRemoval host job plan s
  let desired ← readLocked host (.tenantDesired plan.tenantId) s
  let observed ← readLocked host (.tenantObserved plan.tenantId) s
  require (decide (desired ∈ [Document.site recovery.sourceManifest, .site plan.manifest]))
    (.stateConflict "archive desired state escaped its rollback and commit authority")
  require (decide (observed ∈ [Document.tenantObservedState recovery.sourceObservedState,
      .tenantObservedState plan.observedState]))
    (.stateConflict "archive observed state escaped its rollback and commit authority")
  let archiveMissing ← missingExact host
    "archive terminal record disagrees with its exact plan"
    (.tenantArchive plan.tenantId plan.archiveRecord.deploymentId)
    (.archiveRecord plan.archiveRecord) s
  let resultMissing ← missingExact host
    "archive terminal record disagrees with its exact plan" (.authorizationResult job.jobId)
    (.operationResult plan.result) s
  let auditMissing ← inspectNeedsAppend host .route plan.auditEntry s
  require (archiveStepsOrdered job plan
      ⟨desired, observed, archiveMissing, resultMissing, removal, []⟩ auditMissing)
    (.commit .archive "archive terminal steps disagree with their durable order")
  let deploymentIds ← tenantDeploymentIds host plan.tenantId s
  require (decide (job.dispatch.deploymentIds = some deploymentIds))
    (.commit .archive "archive release history exceeds its dispatch authority")
  let archiveIds ← tenantArchiveIds host plan.tenantId s
  require (decide (archiveIds = if archiveMissing then [] else [plan.archiveRecord.deploymentId]))
    (.commit .archive "archive record history exceeds its construction authority")
  let deployments ← deploymentIds.mapM fun d => readDeployment host plan.tenantId d s
  let progress : ArchiveProgress :=
    ⟨desired, observed, archiveMissing, resultMissing, removal, deployments⟩
  admitArchiveRecords host limits job plan progress auditMissing s
  pure (job, progress)

def admitArchiveTransition (limits : HostCapacityLimits) (job : AuthorizationJob)
    (plan : ArchiveTransitionPlan) (s : Store) : Except AgentError Unit := do
  let _ ← prepareArchiveCommit host limits job plan s
  pure ()

/-! ## Finalization -/

/-- The retained releases are exactly those of the deployment records. -/
def requireArchivedReleases (tenantId : Uuid7) (deployments : List DeploymentRecord) (s : Store) :
    Except AgentError Unit := do
  deployments.forM fun deployment => do
    let measured ← measureRelease tenantId deployment.id s
    require (decide (measured = deployment.releaseTreeDigest))
      (.commit .archive "archive retained release disagrees with its deployment")
  requirePublishedInventory s
  require (decide (releaseIds tenantId s = deployments.map DeploymentRecord.id) &&
      !deployments.isEmpty)
    (.commit .archive "archive local releases exceed retained deployment authority")

def writeArchiveRecord (plan : ArchiveTransitionPlan) : Durable Store AgentError Unit := do
  let _ ← createImmutable host (.tenantArchive plan.tenantId plan.archiveRecord.deploymentId)
    (.archiveRecord plan.archiveRecord)
  pure ()

/-- Remove the transaction intent, unless it is gone. -/
def removeArchiveIntent (plan : ArchiveTransitionPlan) :
    Option ExactIntent → Durable Store AgentError Unit
  | none => pure ()
  | some removal =>
      removeReconciledIntent host (.transactionIntent plan.intentId) removal.token

/-- Commit archived state, keeping the releases. -/
def finalizeArchive (limits : HostCapacityLimits) (expected : AuthorizationJob)
    (plan : ArchiveTransitionPlan) : Durable Store AgentError CommitOutcome := do
  let (job, progress) ← Durable.query (prepareArchiveCommit host limits expected plan)
  Durable.when progress.archiveMissing (writeArchiveRecord host plan)
  Durable.when (decide (progress.desired ≠ .site plan.manifest))
    (replaceState host (.tenantDesired plan.tenantId) progress.desired (.site plan.manifest))
  Durable.when (decide (progress.observed ≠ .tenantObservedState plan.observedState))
    (replaceState host (.tenantObserved plan.tenantId) progress.observed
      (.tenantObservedState plan.observedState))
  Durable.query (requireArchivedReleases plan.tenantId progress.deployments)
  ensureAudit host .route plan.auditEntry
  ensureResult host .route job plan.result progress.resultMissing
  ensureCompletedJob host job
  removeArchiveIntent host plan progress.removal
  pure ⟨plan.result, progress.resultMissing⟩

end Archive

end StaticHostAgent.Commit
