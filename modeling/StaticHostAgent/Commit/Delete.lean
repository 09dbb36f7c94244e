import StaticHostAgent.Commit.DeleteState
import StaticHostAgent.Commit.Archive
import StaticHostAgent.Commit.Route
import StaticHostAgent.Library.Handlers

/-!
# The delete commit

Plan one ordinary deletion from current archive or never-deployed evidence, and commit or replay it:
append the permanent tombstone, remove the releases, the records and the directories of the tenant,
publish the result, complete the job and clear the transaction intent. The retirement journal of an
archived tenant stays behind, because it still owes the removal of the remote object.
-/

set_option autoImplicit false

namespace StaticHostAgent.Commit

open Library Contracts Host Audit State

/-- The local documents of one deletion. -/
structure DeleteTransitionPlan where
  tenantId : Uuid7
  intentId : Uuid7
  intent : TransactionIntent
  result : OperationResult
  auditEntry : AuditEntry
  deriving DecidableEq

section Delete

variable (host : StateHost)

/-! ## The plan -/

/-- What a deletion is planned from. -/
structure DeleteAuthority where
  platformState : Digest
  sourceManifest : Site
  sourceObservedState : TenantObservedState
  retirement : Option ArchiveRetirementIntent
  sourceRuntimeGenerationId : Uuid7
  candidateRuntimeGenerationId : Uuid7

/-- The documents that the plan of a deletion starts from. -/
def DeleteAuthority.contracts (a : DeleteAuthority) (job : AuthorizationJob) : List Document :=
  [.authorizationJob job, .site a.sourceManifest, .tenantObservedState a.sourceObservedState]

/-- The job was admitted for the deletion of exactly this source. -/
def deleteJobBinds (e : Encoding) (job : AuthorizationJob) (a : DeleteAuthority)
    (authority : SourceAuthority) (evidence : DeletionEvidence) : Bool :=
  let source := a.sourceManifest
  decide (job.phase = .claimed) && decide (job.compatibilityVersion = .staticJobV2) &&
    decide (job.request.operation = .delete) &&
    decide (job.request.tenantId = some source.metadata.id) && decide (job.artifact = none) &&
    decide (source.spec.desiredState ∈ [LifecycleState.undeployed, .archived]) &&
    decide (authority.manifest = source) && !job.expectedSource.expectsTenantAbsent &&
    decide (job.expectedSource.lifecycle = some source.spec.desiredState) &&
    decide (job.expectedSource.manifestDigest = some (manifestDigest e source)) &&
    decide (job.expectedSource.platformStateDigest = a.platformState) &&
    decide (evidence.releasedSlugs = [source.metadata.slug])

/-- The tenant serves nothing. -/
def deleteSourceStopped (e : Encoding) (a : DeleteAuthority) : Bool :=
  let source := a.sourceManifest
  decide (a.sourceObservedState.tenantId = source.metadata.id) &&
    decide (a.sourceObservedState.desiredManifestDigest = manifestDigest e source) &&
    decide (a.sourceObservedState.observedState = source.spec.desiredState) &&
    decide (a.sourceObservedState.activeDeploymentId = none) &&
    decide (a.sourceObservedState.runtimeGenerationId = none)

/-- A tenant that was never deployed leaves nothing to retire. -/
def neverDeployedBinds (job : AuthorizationJob) (authority : SourceAuthority)
    (retirement : Option ArchiveRetirementIntent) : Bool :=
  decide (retirement = none) && decide (authority.archiveRecord = none) &&
    decide (job.expectedSource.deploymentDigest = none) &&
    decide (job.expectedSource.archiveRecordDigest = none) &&
    decide (job.dispatch.deploymentIds = some []) &&
    decide (job.dispatch.archiveDeploymentIds = some [])

/-- The retirement journal is the prepared one of this deletion. -/
def deleteRetirementBinds (e : Encoding) (job : AuthorizationJob) (source : Site)
    (selected : DeploymentReference) (archive : ArchiveRecord)
    (retirement : ArchiveRetirementIntent) : Bool :=
  let digest := manifestDigest e source
  retirement.current && decide (retirement.provenance = .authorizationJob job.jobId) &&
    decide (retirement.transition = .delete) && decide (retirement.phase = .prepared) &&
    decide (retirement.operatorPrincipal = job.operatorPrincipal) &&
    decide (retirement.tenantId = source.metadata.id) &&
    decide (retirement.correlationId = job.request.correlationId) &&
    decide (retirement.sourceManifestDigest = digest) &&
    decide (retirement.archiveRecord = some archive) &&
    decide (some retirement.archiveRecordDigest = job.expectedSource.archiveRecordDigest) &&
    decide (some (archiveRecordDigest e archive) = job.expectedSource.archiveRecordDigest) &&
    decide (archive.manifestDigest = digest) && decide (archive.tenantId = source.metadata.id) &&
    decide (archive.deploymentId = selected.id) &&
    decide (job.dispatch.archiveDeploymentIds = some [selected.id]) &&
    job.dispatch.deploymentIds.any fun ids => decide (selected.id ∈ ids)

/-- The evidence is that of a tenant that was never deployed, or of an archived one. -/
def requireDeleteEvidence (job : AuthorizationJob) (a : DeleteAuthority)
    (authority : SourceAuthority) : Except AgentError Unit :=
  if a.sourceManifest.spec.desiredState = .undeployed then
    require (neverDeployedBinds job authority a.retirement)
      (.lifecyclePlan "never-deployed deletion carries deployment history")
  else
    match a.retirement with
    | none => throw (.lifecyclePlan "archived deletion omitted its retirement journal")
    | some retirement => do
        validateAll host [.archiveRetirementIntent retirement]
        match authority.archiveRecord, a.sourceManifest.spec.desiredDeployment with
        | some archive, some selected =>
            require (deleteRetirementBinds host.encoding job a.sourceManifest selected archive
                retirement)
              (.lifecyclePlan "delete retirement journal exceeds current archive authority")
        | _, _ => throw (.keyError "archiveRecord")

/-- The source may be deleted by the job; returns the evidence of its tombstone. -/
def requireDeleteSource (job : AuthorizationJob) (a : DeleteAuthority) :
    Except AgentError DeletionEvidence :=
  let exceeds := AgentError.lifecyclePlan "delete source exceeds its ordinary authorization"
  match job.sourceAuthority, job.expectedSource.deletionEvidence with
  | some authority, some (some evidence) => do
      require (deleteJobBinds host.encoding job a authority evidence &&
        deleteSourceStopped host.encoding a) exceeds
      requireDeleteEvidence host job a authority
      pure evidence
  | _, _ => throw exceeds

def deleteIntent (e : Encoding) (job : AuthorizationJob) (a : DeleteAuthority) (intentId : Uuid7)
    (timestamp : Timestamp) : TransactionIntent where
  current := true
  intentId := intentId
  tenantId := a.sourceManifest.metadata.id
  correlationId := job.request.correlationId
  operation := .delete
  archiveRecovery := none
  lifecycleRecovery := some ⟨some a.sourceObservedState, a.sourceRuntimeGenerationId, .absent,
    none, a.candidateRuntimeGenerationId, .absent⟩
  sourceManifest := some a.sourceManifest
  sourceManifestDigest := some (manifestDigest e a.sourceManifest)
  candidateManifest := none
  candidateManifestDigest := none
  phase := .prepared
  restartFence := none
  createdAt := timestamp

def deleteResult (job : AuthorizationJob) (a : DeleteAuthority) : OperationResult :=
  ⟨.authorizationJob job.jobId, job.request.correlationId, .delete, .succeeded,
    some a.sourceManifest.metadata.id, some a.sourceManifest.metadata.canonicalOrigin,
    none, none, none, none, none⟩

/-- The audit entry of a deletion, which stays when everything else of the tenant is gone. -/
def tombstone (e : Encoding) (job : AuthorizationJob) (tenantId : Uuid7) (result : OperationResult)
    (evidence : DeletionEvidence) (sequence : Nat) (previous : Option Digest)
    (timestamp : Timestamp) : AuditEntry :=
  { successfulAuditEntry e job .delete tenantId result sequence previous timestamp with
    deletionEvidence := some evidence }

/-- Plan the deletion of an archived or never deployed tenant. -/
def planDeleteTransition (job : AuthorizationJob) (a : DeleteAuthority) (sequence : Nat)
    (previous : Option Digest) (timestamp : Timestamp) (intentId : Uuid7) :
    Except AgentError DeleteTransitionPlan := do
  validateAll host (a.contracts job)
  let evidence ← requireDeleteSource host job a
  let tenantId := a.sourceManifest.metadata.id
  require (decide (a.sourceRuntimeGenerationId ≠ a.candidateRuntimeGenerationId) &&
      decide (intentId ≠ tenantId) &&
      a.retirement.all fun retirement => decide (intentId ≠ retirement.intentId))
    (.lifecyclePlan "delete requires distinct transaction and runtime identities")
  let intent := deleteIntent host.encoding job a intentId timestamp
  let result := deleteResult job a
  let auditEntry := tombstone host.encoding job tenantId result evidence sequence previous timestamp
  validateAll host [.transactionIntent intent, .operationResult result, .auditEntry auditEntry]
  pure ⟨tenantId, intentId, intent, result, auditEntry⟩

/-! ## The source -/

/-- Whether any source of the deployment history knows the tenant: its records, its releases or the
audit chain. -/
def tenantHasDeploymentHistory (t : Uuid7) (s : Store) : Except AgentError Bool := do
  let inventory ← measureInventory host s
  let recorded ← if t ∈ inventory.tenantIds then do
      let deployments ← tenantDeploymentIds host t s
      if deployments ≠ [] then pure true
      else do
        let archives ← tenantArchiveIds host t s
        pure (decide (archives ≠ []))
    else pure false
  if recorded then pure true
  else if s.releases.keys.any fun n => decide (n.tenantId = t) then pure true
  else do
    let history ← tenantAuditHistory host.toAuditHost defaultAuditLimits t s.audit
    pure history.2

/-- Whether the chain holds exactly one successful creation of the tenant and no deletion. -/
def tenantHasCreationHistory (t : Uuid7) (s : Store) : Except AgentError Bool := do
  let (archive, segments) ← readSegments host.toAuditHost defaultAuditLimits s.audit
  let _ ← validateChain host.toAuditHost defaultAuditLimits archive segments
  let succeeded := (chainEntries host.toAuditHost segments).filter fun entry =>
    decide (entry.tenantId = some t) && decide (entry.resultStatus = .succeeded)
  pure (decide ((succeeded.filter fun entry => decide (entry.operation = .create)).length = 1) &&
    succeeded.all fun entry => decide (entry.operation ≠ .delete))

/-- The digest of the selected deployment and, of an archived tenant, its archive record. -/
def sourceRecords (t : Uuid7) (source : Site) (s : Store) :
    Except AgentError (Option Digest × Option ArchiveRecord) :=
  if source.spec.desiredState = .undeployed then pure (none, none)
  else
    match source.spec.desiredDeployment with
    | none => throw (.keyError "desiredDeployment")
    | some reference => do
        let deployment ← readDeployment host t reference.id s
        let digest := deploymentRecordDigest host.encoding deployment
        if source.spec.desiredState = .archived then
          match ← readLocked host (.tenantArchive t reference.id) s with
          | .archiveRecord archive => pure (some digest, some archive)
          | _ => throw (.contract (schemaInvalid "contract kind does not match"))
        else pure (some digest, none)

/-- What a deletion releases. -/
def deletionEvidence (t : Uuid7) (source : Site) (archive : Option ArchiveRecord) (s : Store) :
    Except DeletionError DeletionEvidence :=
  match source.spec.desiredState, archive with
  | .undeployed, _ => do
      let deployed ← inDeletion (tenantHasDeploymentHistory host t s)
      require (!deployed) (.sourceState "undeployed tenant retains deployment history")
      pure ⟨.neverDeployed, [source.metadata.slug], none, none, none, none, none⟩
  | .archived, some archive =>
      pure ⟨.archived, [source.metadata.slug], some (archiveRecordDigest host.encoding archive),
        some archive.bucket, some archive.key, some archive.versionId, none⟩
  | _, _ => throw (.sourceState "tenant lifecycle is not eligible for ordinary deletion")

def readManifest (t : Uuid7) (s : Store) : Except AgentError Site := do
  match ← readLocked host (.tenantDesired t) s with
  | .site source => pure source
  | _ => throw (.contract (schemaInvalid "contract kind does not match"))

/-- The source that a deletion of the tenant would be admitted for now. -/
def buildDeleteSource (t : Uuid7) (s : Store) : Except DeletionError ExpectedSource := do
  let platformState ← inDeletion (readPlatformState s)
  let source ← inDeletion (readManifest host t s)
  let (deploymentDigest, archive) ← inDeletion (sourceRecords host t source s)
  let evidence ← deletionEvidence host t source archive s
  pure ⟨false, some source.spec.desiredState, some (manifestDigest host.encoding source),
    deploymentDigest, archive.map (archiveRecordDigest host.encoding), platformState,
    some (some evidence)⟩

/-! ## Admission -/

/-- The journals of the deletion are the only intents. -/
def deleteIntentRemoval (job : AuthorizationJob) (plan : DeleteTransitionPlan)
    (recovery : LifecycleRecovery) (retirement : Option ArchiveRetirementIntent) (s : Store) :
    Except DeletionError StateRevision := do
  let journals := plan.intentId :: (retirement.map ArchiveRetirementIntent.intentId).toList
  match retirement with
  | none => pure ()
  | some retirement => do
      let current ← inDeletion (readLocked host (.archiveRetirementIntent retirement.intentId) s)
      require (decide (revision host current =
          revision host (.archiveRetirementIntent retirement)))
        (.deleteCommit "deletion retirement authority changed")
  let records ← inDeletion (measureIntentRecords host s)
  require (records.all (fun i => decide (i ∈ journals)) &&
      journals.all fun i => decide (i ∈ records))
    (.deleteCommit "deletion requires its exact exclusive journals")
  let intent ← inDeletion (readLocked host (.transactionIntent plan.intentId) s)
  require (decide (intent = .transactionIntent plan.intent) &&
      decide (job.dispatch.sourceObservedState = recovery.sourceObservedState) &&
      decide (job.dispatch.sourceRuntimeGenerationId = some recovery.sourceRuntimeGenerationId) &&
      decide (job.dispatch.sourceRouteSet = some recovery.sourceRouteSet))
    (.deleteCommit "deletion transaction or source runtime changed")
  pure (revision host intent)

/-- The plan is what the durable authority plans again. -/
def validateDeletePlan (job : AuthorizationJob) (plan : DeleteTransitionPlan)
    (recovery : LifecycleRecovery) (retirement : Option ArchiveRetirementIntent) (s : Store) :
    Except DeletionError Unit := do
  let platformState ← inDeletion (readPlatformState s)
  match plan.intent.sourceManifest, recovery.sourceObservedState with
  | some source, some observed => do
      let expected ← inDeletion (planDeleteTransition host { job with phase := .claimed }
        { platformState := platformState, sourceManifest := source
          sourceObservedState := observed, retirement := retirement
          sourceRuntimeGenerationId := recovery.sourceRuntimeGenerationId
          candidateRuntimeGenerationId := recovery.candidateRuntimeGenerationId }
        plan.auditEntry.sequence plan.auditEntry.previousEntryDigest plan.intent.createdAt
        plan.intentId)
      require (decide (expected = plan))
        (.deleteCommit "deletion plan differs from independently reconstructed authority")
  | _, _ => throw (.agent (.contract (schemaInvalid "contract kind does not match")))

/-- Before its tombstone the tenant is the one that the job was admitted for. -/
def requireUndeletedSource (job : AuthorizationJob) (plan : DeleteTransitionPlan)
    (recovery : LifecycleRecovery) (retirement : Option ArchiveRetirementIntent) (s : Store) :
    Except DeletionError Unit := do
  let changed := DeletionError.deleteCommit "deletion source changed before its tombstone"
  let source ← buildDeleteSource host plan.tenantId s
  require (decide (source = job.expectedSource)) changed
  let observed ← inDeletion (readLocked host (.tenantObserved plan.tenantId) s)
  require (decide (some observed = recovery.sourceObservedState.map .tenantObservedState)) changed
  checkIf retirement.isNone do
    let created ← inDeletion (tenantHasCreationHistory host plan.tenantId s)
    require created (.deleteCommit "never-deployed deletion has no complete creation history")
  let history := DeletionError.deleteCommit "deletion source history changed"
  let deployments ← inDeletion (tenantDeploymentIds host plan.tenantId s)
  require (decide (some deployments = job.dispatch.deploymentIds)) history
  let archives ← inDeletion (tenantArchiveIds host plan.tenantId s)
  require (decide (some archives = job.dispatch.archiveDeploymentIds)) history

/-- A published result is behind the tombstone and the removal of the tenant. -/
def requireDeleteOrder (job : AuthorizationJob) (t : Uuid7) (auditMissing resultMissing : Bool)
    (s : Store) : Except DeletionError Unit := do
  let violates := DeletionError.deleteCommit "deletion terminal state violates its durable order"
  checkIf (!resultMissing) do
    require (!auditMissing) violates
    let inventory ← inDeletion (measureInventory host s)
    require (decide (t ∉ inventory.tenantIds)) violates
  require (!(decide (job.phase = .completed) && resultMissing)) violates

/-- The writes that remain. -/
def deleteWrites (job : AuthorizationJob) (plan : DeleteTransitionPlan) (resultMissing : Bool) :
    List (Bool × Document) :=
  [(resultMissing, .operationResult plan.result),
    (decide (job.phase ≠ .completed), .authorizationJob (completedJob job))]

/-- Admit the writes that remain. -/
def admitDeleteRecords (limits : HostCapacityLimits) (job : AuthorizationJob)
    (plan : DeleteTransitionPlan) (auditMissing resultMissing : Bool) (s : Store) :
    Except AgentError Unit := do
  checkIf auditMissing (admitMissingAudit host plan.auditEntry s)
  checkIf resultMissing (admitResult host plan.result s)
  admitRemaining host limits (flagged (deleteWrites job plan resultMissing)) auditMissing s

structure DeleteProgress where
  job : AuthorizationJob
  removal : StateRevision
  auditMissing : Bool
  resultMissing : Bool

/-- The state is on the way of the deletion, and what remains fits. -/
def validateDeleteTransition (limits : HostCapacityLimits) (expected : AuthorizationJob)
    (plan : DeleteTransitionPlan) (retirement : Option ArchiveRetirementIntent) (s : Store) :
    Except DeletionError DeleteProgress := do
  let job ← inDeletion (routeSameJob host expected s)
  match plan.intent.lifecycleRecovery with
  | none => throw (.agent (.keyError "lifecycleRecovery"))
  | some recovery => do
      let removal ← deleteIntentRemoval host job plan recovery retirement s
      validateDeletePlan host job plan recovery retirement s
      let auditMissing ← inDeletion (inspectNeedsAppend host .route plan.auditEntry s)
      let resultMissing ← inDeletion (missingExact host
        "archive terminal record disagrees with its exact plan" (.authorizationResult job.jobId)
        (.operationResult plan.result) s)
      checkIf auditMissing (requireUndeletedSource host job plan recovery retirement s)
      requireDeleteOrder host job plan.tenantId auditMissing resultMissing s
      inDeletion (admitDeleteRecords host limits job plan auditMissing resultMissing s)
      pure ⟨job, removal, auditMissing, resultMissing⟩

/-! ## Releases -/

/-- The records of the history that are still there; before the tombstone that is all of them. -/
def remainingDeployments (t : Uuid7) (history : List Uuid7) (auditMissing : Bool) (s : Store) :
    Except DeletionError (List DeploymentRecord) := do
  let found ← history.mapM fun d =>
    match readDeployment host t d s with
    | .ok record => pure (some record)
    | .error .fileNotFound => do
        require (!auditMissing)
          (.deleteCommit "deletion source deployment disappeared before commitment")
        pure none
    | .error error => throw (.agent error)
  pure (found.filterMap id)

/-- The releases of the tenant are those of its records, with the content that these say. -/
def requireDeletableReleases (t : Uuid7) (history : List Uuid7) (records : List DeploymentRecord)
    (auditMissing : Bool) (s : Store) : Except DeletionError Unit := do
  inDeletion (requirePublishedInventory s)
  let actual := releaseIds t s
  require (actual.all (fun d => decide (d ∈ records.map DeploymentRecord.id)) &&
      (!auditMissing || decide (actual = history)))
    (.deleteCommit "deletion release inventory exceeds its exact remaining history")
  records.forM fun record => checkIf (decide (record.id ∈ actual)) do
    let measured ← inDeletion (measureRelease t record.id s)
    require (decide (measured = record.releaseTreeDigest))
      (.deleteCommit "deletion release content changed before removal")

/-- No release of the tenant is left. -/
def requireReleasesGone (t : Uuid7) (s : Store) : Except DeletionError Unit := do
  inDeletion (requirePublishedInventory s)
  require (decide (releaseIds t s = []))
    (.deleteCommit "deletion retained tenant release bytes")

/-- The records whose releases a deletion removes. -/
def deletedDeployments (plan : DeleteTransitionPlan) (p : DeleteProgress) (s : Store) :
    Except DeletionError (List DeploymentRecord) := do
  let history := p.job.dispatch.deploymentIds.getD []
  let records ← remainingDeployments host plan.tenantId history p.auditMissing s
  requireDeletableReleases plan.tenantId history records p.auditMissing s
  checkIf p.auditMissing (validateDeleteNamespace host p.job plan.intent s)
  pure records

/-! ## Finalization -/

/-- Publish the result, complete the job and clear the intent. -/
def closeDelete (plan : DeleteTransitionPlan) (p : DeleteProgress) :
    Durable Store AgentError CommitOutcome := do
  ensureResult host .route p.job plan.result p.resultMissing
  ensureCompletedJob host p.job
  removeReconciledIntent host (.transactionIntent plan.intentId) p.removal
  pure ⟨plan.result, p.resultMissing⟩

/-- Commit or replay a deletion. -/
def finalizeDelete (limits : HostCapacityLimits) (expected : AuthorizationJob)
    (plan : DeleteTransitionPlan) (retirement : Option ArchiveRetirementIntent) :
    Durable Store DeletionError CommitOutcome := do
  let p ← Durable.query (validateDeleteTransition host limits expected plan retirement)
  let records ← Durable.query (deletedDeployments host plan p)
  Durable.raising .agent (ensureAudit host .route plan.auditEntry)
  Durable.raising .agent (records.forM fun record =>
    removeRelease plan.tenantId record.id record.releaseTreeDigest)
  Durable.query (requireReleasesGone plan.tenantId)
  removeDeletedState host p.job plan.intent plan.auditEntry
  Durable.raising .agent (closeDelete host plan p)

end Delete

end StaticHostAgent.Commit
