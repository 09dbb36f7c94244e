import StaticHostAgent.Commit.Archive
import StaticHostAgent.Commit.Deployment

/-!
# The restore commit

Plan one restore from the archived source and its retirement journal, and commit or replay it: write
the record of the new deployment, replace the desired and the observed state, append the audit
entry, unbind the archive record, remove the deployments that leave the history, publish the result,
complete the job and clear the transaction intent. The retirement journal stays behind, because it
still owes the removal of the remote object.
-/

set_option autoImplicit false

namespace StaticHostAgent.Commit

open Library Contracts Host Audit State

section Restore

variable (host : StateHost)

/-! ## The plan -/

/-- What a restore is planned from, and the identities that it chooses. -/
structure RestoreAuthority where
  platformState : Digest
  sourceManifest : Site
  sourceObservedState : TenantObservedState
  sourceDeployment : DeploymentRecord
  retirement : ArchiveRetirementIntent
  sourceRuntimeGenerationId : Uuid7
  candidateRuntimeGenerationId : Uuid7
  deploymentId : Uuid7
  intentId : Uuid7

/-- The documents that the plan of a restore starts from. -/
def RestoreAuthority.contracts (a : RestoreAuthority) (job : AuthorizationJob) : List Document :=
  [.authorizationJob job, .site a.sourceManifest, .tenantObservedState a.sourceObservedState,
    .deploymentRecord a.sourceDeployment, .archiveRetirementIntent a.retirement]

/-- The job was admitted for exactly this archived source. -/
@[mk_iff]
structure RestoreJobBound (e : Encoding) (job : AuthorizationJob) (a : RestoreAuthority)
    (archive : ArchiveRecord) (history : List Uuid7) : Prop where
  version : job.compatibilityVersion = .staticJobV2
  phase : job.phase = .claimed
  operation : job.request.operation = .restore
  tenant : job.request.tenantId = some a.sourceManifest.metadata.id
  artifact : job.artifact = none
  source : job.sourceAuthority = some ⟨a.sourceManifest, some archive⟩
  expected : job.expectedSource = ⟨false, some .archived, some (manifestDigest e a.sourceManifest),
    some (deploymentRecordDigest e a.sourceDeployment), some (archiveRecordDigest e archive),
    a.platformState, none⟩
  nonempty : history ≠ []
  sorted : history = sortedSet history
  newest : history.getLast? = some a.sourceDeployment.id
  archives : job.dispatch.archiveDeploymentIds = some [a.sourceDeployment.id]
  releaseTree : job.dispatch.sourceReleaseTreeDigest = some a.sourceDeployment.releaseTreeDigest

/-- The source is archived with its deployment and its archive record. -/
@[mk_iff]
structure RestoreSourceBound (e : Encoding) (a : RestoreAuthority) (archive : ArchiveRecord) :
    Prop where
  archived : a.sourceManifest.spec.desiredState = .archived
  selected : a.sourceManifest.spec.desiredDeployment =
    some ⟨a.sourceDeployment.id, a.sourceDeployment.archiveSha256⟩
  deploymentTenant : a.sourceDeployment.tenantId = a.sourceManifest.metadata.id
  archiveDigest : archive.manifestDigest = manifestDigest e a.sourceManifest
  archiveTenant : archive.tenantId = a.sourceManifest.metadata.id
  archiveDeployment : archive.deploymentId = a.sourceDeployment.id
  archiveRelease : archive.releaseTreeDigest = a.sourceDeployment.releaseTreeDigest
  observedTenant : a.sourceObservedState.tenantId = a.sourceManifest.metadata.id
  observedDigest : a.sourceObservedState.desiredManifestDigest = manifestDigest e a.sourceManifest
  observedState : a.sourceObservedState.observedState = .archived
  inactive : a.sourceObservedState.activeDeploymentId = none
  stopped : a.sourceObservedState.runtimeGenerationId = none

/-- The retirement journal is the prepared one of this restore. -/
@[mk_iff]
structure RetirementBound (e : Encoding) (job : AuthorizationJob) (source : Site)
    (archive : ArchiveRecord) (retirement : ArchiveRetirementIntent) : Prop where
  version : retirement.current = true
  provenance : retirement.provenance = .authorizationJob job.jobId
  principal : retirement.operatorPrincipal = job.operatorPrincipal
  transition : retirement.transition = .restore
  phase : retirement.phase = .prepared
  tenant : retirement.tenantId = source.metadata.id
  correlation : retirement.correlationId = job.request.correlationId
  sourceDigest : retirement.sourceManifestDigest = manifestDigest e source
  archiveDigest : retirement.archiveRecordDigest = archiveRecordDigest e archive

instance (e : Encoding) (job : AuthorizationJob) (a : RestoreAuthority) (archive : ArchiveRecord)
    (history : List Uuid7) : Decidable (RestoreJobBound e job a archive history) :=
  decidable_of_iff _ (restoreJobBound_iff e job a archive history).symm

instance (e : Encoding) (a : RestoreAuthority) (archive : ArchiveRecord) :
    Decidable (RestoreSourceBound e a archive) :=
  decidable_of_iff _ (restoreSourceBound_iff e a archive).symm

instance (e : Encoding) (job : AuthorizationJob) (source : Site) (archive : ArchiveRecord)
    (retirement : ArchiveRetirementIntent) :
    Decidable (RetirementBound e job source archive retirement) :=
  decidable_of_iff _ (retirementBound_iff e job source archive retirement).symm

/-- The source, the job and the retirement journal are of one restore. -/
def requireRestoreSource (job : AuthorizationJob) (a : RestoreAuthority) :
    Except AgentError ArchiveRecord :=
  match a.retirement.archiveRecord with
  | none => throw (.contract (schemaInvalid "archive record must be an object"))
  | some archive => do
      let history := job.dispatch.deploymentIds.getD []
      require (decide (RestoreJobBound host.encoding job a archive history) &&
          decide (RestoreSourceBound host.encoding a archive) &&
          decide (RetirementBound host.encoding job a.sourceManifest archive a.retirement))
        (.lifecyclePlan "restore source exceeds its exact retirement authority")
      pure archive

/-- The deployment that a restore makes of an archived bundle. -/
def restoredDeployment (job : AuthorizationJob) (a : RestoreAuthority) (archive : ArchiveRecord)
    (timestamp : Timestamp) : DeploymentRecord where
  id := a.deploymentId
  tenantId := a.sourceManifest.metadata.id
  archiveSha256 := archive.bundleDigest.value
  releaseTreeDigest := archive.releaseTreeDigest
  createdAt := timestamp
  correlationId := job.request.correlationId
  importProvenance := none

def restoredObservedState (e : Encoding) (a : RestoreAuthority) (candidate : Site)
    (timestamp : Timestamp) : TenantObservedState :=
  ⟨a.sourceManifest.metadata.id, manifestDigest e candidate, .active, some a.deploymentId,
    some a.candidateRuntimeGenerationId, timestamp⟩

def restoreIntent (e : Encoding) (job : AuthorizationJob) (a : RestoreAuthority) (candidate : Site)
    (observed : TenantObservedState) (timestamp : Timestamp) : TransactionIntent where
  current := true
  intentId := a.intentId
  tenantId := a.sourceManifest.metadata.id
  correlationId := job.request.correlationId
  operation := .restore
  archiveRecovery := none
  lifecycleRecovery := some ⟨some a.sourceObservedState, a.sourceRuntimeGenerationId, .absent,
    some observed, a.candidateRuntimeGenerationId, .both⟩
  sourceManifest := some a.sourceManifest
  sourceManifestDigest := some (manifestDigest e a.sourceManifest)
  candidateManifest := some candidate
  candidateManifestDigest := some (manifestDigest e candidate)
  phase := .prepared
  restartFence := none
  createdAt := timestamp

def restoreResult (job : AuthorizationJob) (a : RestoreAuthority) (candidate : Site) :
    OperationResult :=
  ⟨.authorizationJob job.jobId, job.request.correlationId, .restore, .succeeded,
    some a.sourceManifest.metadata.id, some a.sourceManifest.metadata.canonicalOrigin,
    some candidate, none, none, none, none⟩

/-- Preserve the tenant's identity and policy while selecting a new verified deployment. -/
def planRestoreTransition (job : AuthorizationJob) (a : RestoreAuthority) (sequence : Nat)
    (previous : Option Digest) (timestamp : Timestamp) :
    Except AgentError DeploymentTransitionPlan := do
  validateAll host (a.contracts job)
  let archive ← requireRestoreSource host job a
  let tenantId := a.sourceManifest.metadata.id
  require (decide (a.sourceDeployment.id < a.deploymentId) &&
      decide (a.sourceRuntimeGenerationId ≠ a.candidateRuntimeGenerationId) &&
      decide [tenantId, a.deploymentId, a.intentId, a.retirement.intentId].Nodup)
    (.lifecyclePlan "restore requires distinct new deployment and transaction identities")
  let deployment := restoredDeployment job a archive timestamp
  let candidate := deploymentCandidate a.sourceManifest .active deployment
  let observed := restoredObservedState host.encoding a candidate timestamp
  let intent := restoreIntent host.encoding job a candidate observed timestamp
  let result := restoreResult job a candidate
  validateAll host [.deploymentRecord deployment, .site candidate, .tenantObservedState observed,
    .transactionIntent intent, .operationResult result]
  let auditEntry := successfulAuditEntry host.encoding job .restore tenantId result sequence
    previous timestamp
  validateAll host [.auditEntry auditEntry]
  pure { tenantId := tenantId, intentId := a.intentId, manifest := candidate,
         observedState := observed, intent := intent, result := result, auditEntry := auditEntry,
         deployment := deployment, createsDeployment := true }

/-! ## Admission -/

def readRetirement (intentId : Uuid7) (s : Store) : Except AgentError ArchiveRetirementIntent := do
  match ← readLocked host (.archiveRetirementIntent intentId) s with
  | .archiveRetirementIntent retirement => pure retirement
  | _ => throw (.contract (schemaInvalid "contract kind does not match"))

/-- The recovery that a planned intent carries, with the source that it starts from. -/
structure RestoreRecovery where
  sourceManifest : Site
  sourceObservedState : TenantObservedState
  recovery : LifecycleRecovery
  archive : ArchiveRecord

def restoreRecovery (plan : DeploymentTransitionPlan) (retirement : ArchiveRetirementIntent) :
    Except AgentError RestoreRecovery :=
  match plan.intent.lifecycleRecovery, plan.intent.sourceManifest, retirement.archiveRecord with
  | some recovery, some source, some archive =>
      match recovery.sourceObservedState with
      | some observed => pure ⟨source, observed, recovery, archive⟩
      | none => throw (.keyError "sourceObservedState")
  | _, _, _ => throw (.keyError "lifecycleRecovery")

/-- The plan is what the durable authority plans again. -/
def validateRestorePlan (job : AuthorizationJob) (plan : DeploymentTransitionPlan)
    (retirement : ArchiveRetirementIntent) (s : Store) : Except AgentError RestoreRecovery := do
  validateAll host [.transactionIntent plan.intent]
  let current ← readRetirement host retirement.intentId s
  require (decide (revision host (.archiveRetirementIntent current) =
      revision host (.archiveRetirementIntent retirement)))
    (.commit .restore "restore retirement journal changed")
  let bound ← restoreRecovery plan retirement
  require (decide (job.dispatch.sourceObservedState = some bound.sourceObservedState) &&
      decide (job.dispatch.sourceRuntimeGenerationId =
        some bound.recovery.sourceRuntimeGenerationId) &&
      decide (job.dispatch.sourceRouteSet = some bound.recovery.sourceRouteSet))
    (.commit .restore "restore source runtime is not durably bound")
  let platformState ← readPlatformState s
  let deployment ← readDeployment host plan.tenantId bound.archive.deploymentId s
  let expected ← planRestoreTransition host { job with phase := .claimed }
    { platformState := platformState, sourceManifest := bound.sourceManifest
      sourceObservedState := bound.sourceObservedState, sourceDeployment := deployment
      retirement := retirement
      sourceRuntimeGenerationId := bound.recovery.sourceRuntimeGenerationId
      candidateRuntimeGenerationId := bound.recovery.candidateRuntimeGenerationId
      deploymentId := plan.deployment.id, intentId := plan.intentId }
    plan.auditEntry.sequence plan.auditEntry.previousEntryDigest plan.intent.createdAt
  require (decide (expected = plan))
    (.commit .restore "restore plan exceeds its independently reconstructed authority")
  pure bound

structure RestoreProgress where
  desired : Document
  observed : Document
  deploymentMissing : Bool
  resultMissing : Bool
  removal : StateRevision
  retired : List DeploymentRecord

/-- The transaction and the retirement are the only intents. -/
def restoreIntentRemoval (plan : DeploymentTransitionPlan) (retirement : ArchiveRetirementIntent)
    (s : Store) : Except AgentError StateRevision := do
  let records ← measureIntentRecords host s
  let journals := [plan.intentId, retirement.intentId]
  require (records.all (fun i => decide (i ∈ journals)) &&
      journals.all fun i => decide (i ∈ records))
    (.commit .restore "restore requires its exact transaction and retirement")
  let intent ← readLocked host (.transactionIntent plan.intentId) s
  require (decide (intent = .transactionIntent plan.intent))
    (.commit .restore "restore intent changed before commitment")
  pure (revision host intent)

/-- The source history with the restored deployment, and what is retained of it. -/
def restoredHistory (history : List Uuid7) (candidate : Uuid7) : List Uuid7 :=
  history ++ [candidate]

def retainedRestored (history : List Uuid7) (candidate : Uuid7) : List Uuid7 :=
  (restoredHistory history candidate).drop
    ((restoredHistory history candidate).length - maximumRetainedDeployments)

/-- The current history is on the way from the source's to the retained one. -/
def restoreHistoryRetained (actual history : List Uuid7) (candidate : Uuid7)
    (deploymentMissing : Bool) : Bool :=
  (deploymentMissing && decide (actual = history)) ||
    (!deploymentMissing &&
      (retainedRestored history candidate).all (fun d => decide (d ∈ actual)) &&
      actual.all fun d => decide (d ∈ restoredHistory history candidate))

/-- Nothing has left the history. -/
def restoreHistoryComplete (actual history : List Uuid7) (candidate : Uuid7)
    (deploymentMissing : Bool) : Bool :=
  let whole := if deploymentMissing then history else restoredHistory history candidate
  actual.all (fun d => decide (d ∈ whole)) && whole.all fun d => decide (d ∈ actual)

/-- The steps are applied in their order. -/
def restoreStepsOrdered (job : AuthorizationJob) (plan : DeploymentTransitionPlan)
    (p : RestoreProgress) (archiveMissing auditMissing : Bool) : Bool :=
  let restored := decide (p.desired = .site plan.manifest)
  let served := decide (p.observed = .tenantObservedState plan.observedState)
  !((restored && p.deploymentMissing) || (served && !restored) || (!auditMissing && !served) ||
    (archiveMissing && auditMissing) ||
    (!p.resultMissing && (auditMissing || !archiveMissing)) ||
    (decide (job.phase = .completed) && p.resultMissing))

/-- The writes that remain. -/
def restoreWrites (job : AuthorizationJob) (plan : DeploymentTransitionPlan) (p : RestoreProgress) :
    List (Bool × Document) :=
  [(decide (p.desired ≠ .site plan.manifest), .site plan.manifest),
    (decide (p.observed ≠ .tenantObservedState plan.observedState),
      .tenantObservedState plan.observedState),
    (decide (job.phase ≠ .completed), .authorizationJob (completedJob job)),
    (p.deploymentMissing, .deploymentRecord plan.deployment),
    (p.resultMissing, .operationResult plan.result)]

/-- Admit the writes that remain. -/
def admitRestoreRecords (limits : HostCapacityLimits) (job : AuthorizationJob)
    (plan : DeploymentTransitionPlan) (p : RestoreProgress) (auditMissing : Bool) (s : Store) :
    Except AgentError Unit := do
  checkIf auditMissing (admitMissingAudit host plan.auditEntry s)
  checkIf p.resultMissing (admitResult host plan.result s)
  admitRemaining host limits (flagged (restoreWrites job plan p)) auditMissing s

def restoreRecordDisagrees : String := "archive terminal record disagrees with its exact plan"

/-- The state is on the way of the restore, and what remains fits. -/
def validateRestoreTransition (limits : HostCapacityLimits) (expected : AuthorizationJob)
    (plan : DeploymentTransitionPlan) (retirement : ArchiveRetirementIntent) (s : Store) :
    Except AgentError (AuthorizationJob × RestoreProgress) := do
  let job ← routeSameJob host expected s
  let bound ← validateRestorePlan host job plan retirement s
  let removal ← restoreIntentRemoval host plan retirement s
  let desired ← readLocked host (.tenantDesired plan.tenantId) s
  let observed ← readLocked host (.tenantObserved plan.tenantId) s
  require (decide (desired ∈ [Document.site bound.sourceManifest, .site plan.manifest]) &&
      decide (observed ∈ [Document.tenantObservedState bound.sourceObservedState,
        .tenantObservedState plan.observedState]))
    (.commit .restore "restore local state escaped its exact transaction")
  let deploymentMissing ← missingExact host restoreRecordDisagrees
    (.tenantDeployment plan.tenantId plan.deployment.id) (.deploymentRecord plan.deployment) s
  let archiveMissing ← missingExact host restoreRecordDisagrees
    (.tenantArchive plan.tenantId bound.archive.deploymentId) (.archiveRecord bound.archive) s
  let archiveIds ← tenantArchiveIds host plan.tenantId s
  require (decide (archiveIds = if archiveMissing then [] else [bound.archive.deploymentId]))
    (.commit .restore "restore archive history exceeds its retirement authority")
  let resultMissing ← missingExact host restoreRecordDisagrees (.authorizationResult job.jobId)
    (.operationResult plan.result) s
  let auditMissing ← inspectNeedsAppend host .route plan.auditEntry s
  let progress : RestoreProgress :=
    ⟨desired, observed, deploymentMissing, resultMissing, removal, []⟩
  require (restoreStepsOrdered job plan progress archiveMissing auditMissing)
    (.commit .restore "restore durable steps disagree with their required order")
  let history := job.dispatch.deploymentIds.getD []
  let actual ← tenantDeploymentTransitionIds host plan.tenantId plan.deployment.id s
  require (restoreHistoryRetained actual history plan.deployment.id deploymentMissing)
    (.commit .restore "restore deployment history escaped its retention window")
  require (restoreHistoryComplete actual history plan.deployment.id deploymentMissing ||
      !auditMissing)
    (.commit .restore "restore history cleanup preceded commitment")
  let retired ← (actual.filter fun d =>
      decide (d ∉ retainedRestored history plan.deployment.id)).mapM fun d =>
    readDeployment host plan.tenantId d s
  let progress := { progress with retired := retired }
  admitRestoreRecords host limits job plan progress auditMissing s
  pure (job, progress)

/-! ## Finalization -/

/-- The two journals of a restore: one transaction, which is this restore's, and its retirement. -/
def requireRestoreJournals (retirement : ArchiveRetirementIntent) (s : Store) :
    Except AgentError TransactionIntent := do
  let ids ← measureIntentRecords host s
  let records ← ids.mapM fun i => readIntent host i s
  let local_ := records.filterMap fun record =>
    match record.2 with
    | .transactionIntent intent => some intent
    | _ => none
  match local_ with
  | [intent] => do
      require (decide (records.length = 2))
        (.stateRecord "restore unbinding requires its two exact journals")
      require (decide (intent.tenantId = retirement.tenantId) &&
          decide (intent.correlationId = retirement.correlationId) &&
          decide (intent.sourceManifestDigest = some retirement.sourceManifestDigest) &&
          decide (intent.operation = .restore))
        (.stateRecord "restore journals disagree before archive unbinding")
      pure intent
  | _ => throw (.stateRecord "restore unbinding requires its two exact journals")

/-- The archive record that may be unbound, or `none` where it is gone. -/
def requireRestoredArchive (retirement : ArchiveRetirementIntent) (s : Store) :
    Except AgentError (Option ArchiveRecord) := do
  validateAll host [.archiveRetirementIntent retirement]
  let stored ← readRetirement host retirement.intentId s
  require (decide (revision host (.archiveRetirementIntent stored) =
      revision host (.archiveRetirementIntent retirement)) &&
      decide (retirement.transition = .restore))
    (.stateConflict "restore retirement authority changed")
  let intent ← requireRestoreJournals host retirement s
  let disagrees := AgentError.stateRecord "archive unbinding precedes complete restored state"
  match intent.lifecycleRecovery, retirement.archiveRecord with
  | some recovery, some archive => do
      let desired ← readLocked host (.tenantDesired retirement.tenantId) s
      require (decide (some desired = intent.candidateManifest.map Document.site)) disagrees
      let observed ← readLocked host (.tenantObserved retirement.tenantId) s
      require (decide (some observed =
        recovery.candidateObservedState.map Document.tenantObservedState)) disagrees
      let missing ← missingExact host "archive record changed before retirement"
        (.tenantArchive retirement.tenantId archive.deploymentId) (.archiveRecord archive) s
      -- the directory of the missing record is synchronized, so it must be there
      checkIf missing (require ((s.tenants.find? retirement.tenantId).any TenantNamespace.archives)
        .fileNotFound)
      pure (if missing then none else some archive)
  | _, _ => throw (.keyError "lifecycleRecovery")

/-- Unbind only the exact archive protected by a committed restore. -/
def removeRestoredArchive (retirement : ArchiveRetirementIntent) :
    Durable Store AgentError Unit := do
  match ← Durable.query (requireRestoredArchive host retirement) with
  | none => pure ()
  | some archive =>
      Durable.effect (Store.remove (.archive retirement.tenantId archive.deploymentId))

/-- Remove the release of a deployment that left the history, and then its record. -/
def removeRestoredDeployment (t : Uuid7) (old : DeploymentRecord) :
    Durable Store AgentError Unit := do
  let token ← Durable.query (deploymentRemovalToken host old)
  removeRelease t old.id old.releaseTreeDigest
  removeExactDeployment host old token

/-- The release measures as the restored deployment says. -/
def requireRestoredRelease (plan : DeploymentTransitionPlan) (s : Store) :
    Except AgentError Unit := do
  let measured ← measureRelease plan.tenantId plan.deployment.id s
  require (decide (measured = plan.deployment.releaseTreeDigest))
    (.commit .restore "restored release disagrees with its archived bytes")

/-- Commit or replay a restore. -/
def finalizeRestore (limits : HostCapacityLimits) (expected : AuthorizationJob)
    (plan : DeploymentTransitionPlan) (retirement : ArchiveRetirementIntent) :
    Durable Store AgentError CommitOutcome := do
  let (job, progress) ← Durable.query (validateRestoreTransition host limits expected plan
    retirement)
  Durable.query (requireRestoredRelease plan)
  Durable.when progress.deploymentMissing do
    let _ ← createImmutable host (.tenantDeployment plan.tenantId plan.deployment.id)
      (.deploymentRecord plan.deployment)
    pure ()
  Durable.when (decide (progress.desired ≠ .site plan.manifest))
    (replaceState host (.tenantDesired plan.tenantId) progress.desired (.site plan.manifest))
  Durable.when (decide (progress.observed ≠ .tenantObservedState plan.observedState))
    (replaceState host (.tenantObserved plan.tenantId) progress.observed
      (.tenantObservedState plan.observedState))
  ensureAudit host .route plan.auditEntry
  removeRestoredArchive host retirement
  progress.retired.forM (removeRestoredDeployment host plan.tenantId)
  ensureResult host .route job plan.result progress.resultMissing
  ensureCompletedJob host job
  removeReconciledIntent host (.transactionIntent plan.intentId) progress.removal
  pure ⟨plan.result, progress.resultMissing⟩

end Restore

end StaticHostAgent.Commit
