import StaticHostAgent.Contracts.Encoding

/-!
# Contract validation

`validateContract` is the schema check of a document's kind, then its semantic check, then the size
bound of its canonical bytes. The schema checks keep every constraint between members; the patterns
of free texts (principals, buckets, object versions, times) are left out.
-/

set_option autoImplicit false

namespace StaticHostAgent.Contracts

open Library

/-! ## Schemas -/

def slugCharacter (c : Char) : Bool :=
  ('a' ≤ c && c ≤ 'z') || ('0' ≤ c && c ≤ '9') || c == '-'

/-- One canonical DNS label. -/
def slugPattern (slug : String) : Bool :=
  let cs := slug.toList
  decide (1 ≤ cs.length) && decide (cs.length ≤ 63) && cs.all slugCharacter &&
    cs.head? != some '-' && cs.getLast? != some '-'

/-- The label of a canonical origin: `t-` and 32 hexadecimal digits. -/
def canonicalOriginSlug (slug : String) : Bool :=
  let cs := slug.toList
  cs.take 2 == ['t', '-'] && decide (cs.length = 34) &&
    (cs.drop 2).all fun c => ('0' ≤ c && c ≤ '9') || ('a' ≤ c && c ≤ 'f')

def Digest.hasFormat (d : Digest) (format : DigestFormat) : Bool := decide (d.format = format)

def Quotas.schema (q : Quotas) : Bool :=
  decide (1 ≤ q.storageMiB) && decide (q.storageMiB ≤ 100) && decide (1 ≤ q.entries) &&
    decide (q.entries ≤ 5000)

def maximumBundleBytes : Nat := 125829120

def Artifact.schema (a : Artifact) : Bool :=
  decide (1 ≤ a.size) && decide (a.size ≤ maximumBundleBytes)

/-- A selected deployment is present exactly when the tenant is not undeployed. -/
def Site.schema (m : Site) : Bool :=
  decide (m.metadata.canonicalOrigin.label < 2 ^ 128) && slugPattern m.metadata.slug &&
    m.spec.quotas.schema && decide (m.spec.desiredState ≠ .absent) &&
    (m.spec.desiredDeployment.isNone == decide (m.spec.desiredState = .undeployed))

def TenantObservedState.schema (o : TenantObservedState) : Bool :=
  o.desiredManifestDigest.hasFormat .manifest &&
    match o.observedState with
    | .active => o.activeDeploymentId.isSome && o.runtimeGenerationId.isSome
    | .suspended => o.activeDeploymentId.isSome && o.runtimeGenerationId.isNone
    | .undeployed | .archived => o.activeDeploymentId.isNone && o.runtimeGenerationId.isNone
    | .absent => false

def ImportProvenance.schema (p : ImportProvenance) : Bool :=
  p.manifest.schema && p.manifestDigest.hasFormat .manifest

def DeploymentRecord.schema (d : DeploymentRecord) : Bool :=
  d.releaseTreeDigest.hasFormat .releaseTree && d.importProvenance.all ImportProvenance.schema

def ArchiveRecord.schema (a : ArchiveRecord) : Bool :=
  a.releaseTreeDigest.hasFormat .releaseTree && a.manifestDigest.hasFormat .manifest &&
    a.bundleDigest.hasFormat .archive && decide (1 ≤ a.bundleSize) &&
    decide (a.bundleSize ≤ maximumBundleBytes)

def ArchiveRecovery.schema (r : ArchiveRecovery) : Bool :=
  r.sourceManifest.schema &&
    decide (r.sourceManifest.spec.desiredState ∈
      [LifecycleState.active, .suspended, .archived]) &&
    r.sourceObservedState.schema &&
    decide (r.sourceObservedState.observedState ∈
      [LifecycleState.active, .suspended, .archived]) &&
    r.candidateManifest.schema && decide (r.candidateManifest.spec.desiredState = .archived) &&
    r.candidateArchiveRecord.schema

def LifecycleRecovery.schema (r : LifecycleRecovery) : Bool :=
  r.sourceObservedState.all TenantObservedState.schema &&
    r.candidateObservedState.all TenantObservedState.schema

def RestartFence.schema (f : RestartFence) : Bool :=
  decide (f.candidateAttemptCount ≤ 3) && decide (f.recoveryAttemptCount ≤ 3)

/-- Which members a transaction intent has follows from its version and its operation. -/
def TransactionIntent.schema (i : TransactionIntent) : Bool :=
  i.sourceManifest.all Site.schema && i.candidateManifest.all Site.schema &&
    i.sourceManifestDigest.all (Digest.hasFormat · .manifest) &&
    i.candidateManifestDigest.all (Digest.hasFormat · .manifest) &&
    i.archiveRecovery.all ArchiveRecovery.schema &&
    i.lifecycleRecovery.all LifecycleRecovery.schema &&
    i.restartFence.all RestartFence.schema &&
    (i.sourceManifest.isSome == (i.current && decide (i.operation ≠ .create))) &&
    (i.candidateManifest.isSome == (i.current && decide (i.operation ≠ .delete))) &&
    (i.sourceManifestDigest.isSome == decide (i.operation ≠ .create)) &&
    (i.candidateManifestDigest.isSome == decide (i.operation ≠ .delete)) &&
    (i.archiveRecovery.isSome == decide (i.operation = .archive)) &&
    (i.lifecycleRecovery.isSome == decide (i.operation ∉ [Operation.archive, .export]))

def ArchiveRetirementIntent.schema (i : ArchiveRetirementIntent) : Bool :=
  i.sourceManifestDigest.hasFormat .manifest && i.archiveRecordDigest.hasFormat .archiveRecord &&
    i.bundleDigest.hasFormat .archive && decide (1 ≤ i.bundleSize) &&
    decide (i.bundleSize ≤ maximumBundleBytes) && i.archiveRecord.all ArchiveRecord.schema &&
    (i.archiveRecord.isSome == i.current) &&
    match i.provenance with
    | .emergencyAdministrator _ _ => decide (i.transition = .delete)
    | .authorizationJob _ => true

def ArchiveConstructionIntent.schema (i : ArchiveConstructionIntent) : Bool :=
  i.sourceManifestDigest.hasFormat .manifest && i.candidateManifestDigest.hasFormat .manifest &&
    i.deploymentRecordDigest.hasFormat .deploymentRecord &&
    i.releaseTreeDigest.hasFormat .releaseTree && i.bundleDigest.hasFormat .archive &&
    decide (1 ≤ i.bundleSize) && decide (i.bundleSize ≤ maximumBundleBytes) &&
    (i.versionId.isNone == decide (i.phase = .prepared))

def DeletionEvidence.schema (d : DeletionEvidence) : Bool :=
  decide (1 ≤ d.releasedSlugs.length) && decide (d.releasedSlugs.length ≤ 16) &&
    decide d.releasedSlugs.Nodup && d.releasedSlugs.all slugPattern &&
    d.archiveRecordDigest.all (Digest.hasFormat · .archiveRecord) &&
    (let archived := decide (d.mode = .archived) || decide (d.mode = .emergencyArchived)
     let emergency := decide (d.mode = .emergency) || decide (d.mode = .emergencyArchived)
     d.archiveRecordDigest.isSome == archived && d.bucket.isSome == archived &&
       d.key.isSome == archived && d.versionId.isSome == archived &&
       d.emergencyReason.isSome == emergency)

def AuditEntry.schema (a : AuditEntry) : Bool :=
  a.previousEntryDigest.all (Digest.hasFormat · .auditEntry) &&
    (a.previousEntryDigest.isNone == decide (a.sequence = 0)) &&
    a.resultDigest.hasFormat .result &&
    (a.tenantId.isSome || (decide (a.operation = .create) && decide (a.resultStatus = .failed))) &&
    (a.deletionEvidence.isSome ==
      (decide (a.operation = .delete) && decide (a.resultStatus = .succeeded))) &&
    a.deletionEvidence.all DeletionEvidence.schema

/-- The desired states a successful result may carry. -/
def resultStates : Operation → List LifecycleState
  | .create => [.undeployed]
  | .suspend => [.suspended]
  | .resume | .import | .restore => [.active]
  | .archive => [.archived]
  | .deploy | .rollback => [.active, .suspended]
  | .rename => [.undeployed, .active, .suspended]
  | .export => [.active, .suspended, .archived]
  | .delete | .reconcile => [.undeployed, .active, .suspended, .archived]

def OperationResult.schema (r : OperationResult) : Bool :=
  (decide (r.operation = .create) || r.tenantId.isSome) &&
    r.manifest.all Site.schema &&
    r.archiveRecord.all (fun a => a.all ArchiveRecord.schema) &&
    (r.archiveRecord.isNone || decide (r.operation = .archive)) &&
    (r.exportBundle.isSome ==
      (decide (r.operation = .export) && decide (r.status = .succeeded))) &&
    (match r.provenance with
      | .emergencyAdministrator _ _ => decide (r.operation = .delete)
      | .authorizationJob _ => true) &&
    (r.failureAudit.all fun f =>
      decide (r.status = .failed) && (f.predecessorDigest.isNone == decide (f.sequence = 0)) &&
        match r.provenance with
        | .authorizationJob _ => true
        | .emergencyAdministrator _ _ => false) &&
    (decide (r.errorCode ≠ some .restoreInputUnavailable) ||
      (decide (r.operation ∈ [Operation.deploy, .import]) && r.failureAudit.isSome)) &&
    match r.status with
    | .succeeded =>
        r.errorCode.isNone &&
          (decide (r.operation ≠ .create) ||
            (r.tenantId.isSome && r.canonicalOrigin.isSome && r.manifest.isSome)) &&
          (decide (r.operation ≠ .archive) ||
            (r.manifest.isSome && r.archiveRecord.any Option.isSome)) &&
          (decide (r.operation ≠ .delete) || r.manifest.isNone) &&
          r.manifest.all fun m => decide (m.spec.desiredState ∈ resultStates r.operation)
    | .failed => r.errorCode.isSome && r.manifest.isNone && r.canonicalOrigin.isNone

/-- Which members a request has follows from its operation. -/
def OperationRequest.schema (r : OperationRequest) : Bool :=
  (r.slug.all slugPattern) && r.quotas.all Quotas.schema && r.artifact.all Artifact.schema &&
    (r.tenantId.isSome == decide (r.operation ≠ .create)) &&
    (r.slug.isSome == decide (r.operation ∈ [Operation.create, .rename])) &&
    (r.quotas.isSome == decide (r.operation = .create)) &&
    (r.deploymentId.isSome == decide (r.operation = .rollback)) &&
    (r.artifact.isSome == decide (r.operation ∈ [Operation.deploy, .import])) &&
    (decide (r.operation ≠ .deploy) || r.artifact.all fun a => decide (a.size ≤ 104857600))

def ExpectedSource.schema (s : ExpectedSource) : Bool :=
  s.lifecycle.all (fun l => decide (l ≠ .absent)) &&
    s.manifestDigest.all (Digest.hasFormat · .manifest) &&
    s.deploymentDigest.all (Digest.hasFormat · .deploymentRecord) &&
    s.archiveRecordDigest.all (Digest.hasFormat · .archiveRecord) &&
    s.platformStateDigest.hasFormat .platformState &&
    s.deletionEvidence.all (fun d => d.all DeletionEvidence.schema)

/-- A list of distinct identities of bounded length. -/
def identityList (bound : Nat) (ids : List Uuid7) : Bool :=
  decide (ids.length ≤ bound) && decide ids.Nodup

def Dispatch.schema (d : Dispatch) : Bool :=
  d.archiveDeploymentIds.all (identityList 3) &&
    d.artifactReleaseTreeDigest.all (Digest.hasFormat · .releaseTree) &&
    d.sourceReleaseTreeDigest.all (Digest.hasFormat · .releaseTree) &&
    d.sourceObservedState.all TenantObservedState.schema &&
    d.deploymentIds.all (identityList 3) && d.tenantIds.all (identityList 25) &&
    d.tenantRecordHistories.all (fun hs => decide (hs.length ≤ 25) && hs.all fun h =>
      identityList 3 h.archiveDeploymentIds && identityList 3 h.deploymentIds) &&
    d.importManifest.all Site.schema &&
    d.auditBoundary.all fun b =>
      b.terminalDigest.isNone == decide (b.entryCount = 0) &&
        b.terminalDigest.all (Digest.hasFormat · .auditEntry)

def AuthorizationJob.schema (j : AuthorizationJob) : Bool :=
  j.request.schema && j.requestDigest.hasFormat .request && j.artifact.all Artifact.schema &&
    j.expectedSource.schema &&
    j.sourceAuthority.all (fun a => a.manifest.schema && a.archiveRecord.all ArchiveRecord.schema) &&
    (decide (j.compatibilityVersion = .staticJobV1) || j.executionValidated.isSome) &&
    j.dispatch.schema

/-! ## Semantic checks -/

section Semantics

variable (e : Encoding)

/-- A caller-selectable slug and its committed reservations. -/
def validateSlug (slug : String) : Except ContractError Unit := do
  require (slugPattern slug) ⟨.invalidSlug, "slug is not one canonical DNS label"⟩
  require (slug ∉ ["hosting", "secure", "www"] && !canonicalOriginSlug slug)
    ⟨.reservedSlug, "slug is reserved by the platform"⟩

def validateCanonicalOrigin (tenantId : Uuid7) (value : CanonicalOrigin) :
    Except ContractError Unit :=
  require (decide (value = canonicalOrigin tenantId))
    ⟨.invalidCanonicalOrigin, "canonical origin does not match the tenant identity"⟩

def validateSite (m : Site) : Except ContractError Unit := do
  validateSlug m.metadata.slug
  validateCanonicalOrigin m.metadata.id m.metadata.canonicalOrigin

def validateRequest (r : OperationRequest) : Except ContractError Unit := do
  if r.operation = .create || r.operation = .rename then
    match r.slug with
    | some slug => validateSlug slug
    | none => pure ()
  else pure ()

def validateImportManifest (m : Site) : Except ContractError Unit := do
  validateSite m
  require (decide (m.spec.desiredState ∈ [LifecycleState.active, .suspended, .archived]))
    (schemaInvalid "import source has no deployed content")

def validateDeploymentRecord (d : DeploymentRecord) : Except ContractError Unit :=
  match d.importProvenance with
  | none => pure ()
  | some p => do
      validateImportManifest p.manifest
      require (decide (p.manifestDigest = manifestDigest e p.manifest))
        (schemaInvalid "import provenance digest disagrees")

def validateArchiveConstructionIntent (i : ArchiveConstructionIntent) :
    Except ContractError Unit := do
  require (decide (i.key = ⟨i.uploadAttemptId⟩))
    (schemaInvalid "archive key does not match its upload attempt identity")
  require (decide (i.sourceManifestDigest ≠ i.candidateManifestDigest))
    (schemaInvalid "archive construction did not change the manifest generation")

def validateArchiveRetirementIntent (i : ArchiveRetirementIntent) : Except ContractError Unit :=
  match i.archiveRecord with
  | none => pure ()
  | some archive => do
      require (decide (i.archiveRecordDigest = archiveRecordDigest e archive))
        (schemaInvalid "archive retirement record digest binding is invalid")
      require (decide (i.tenantId = archive.tenantId) &&
          decide (i.sourceManifestDigest = archive.manifestDigest) &&
          decide (i.bundleDigest = archive.bundleDigest) &&
          decide (i.bundleSize = archive.bundleSize) && decide (i.bucket = archive.bucket) &&
          decide (i.key = archive.key) && decide (i.versionId = archive.versionId))
        (schemaInvalid "archive retirement object authority disagrees with its record")

def validateAuditEntry (a : AuditEntry) : Except ContractError Unit :=
  match a.deletionEvidence with
  | none => pure ()
  | some d => d.releasedSlugs.forM validateSlug

/-- The manifest and the archive record of a result belong to the result's tenant. -/
def validateResult (r : OperationResult) : Except ContractError Unit := do
  match r.canonicalOrigin, r.tenantId with
  | none, _ => pure ()
  | some origin, some tenantId => validateCanonicalOrigin tenantId origin
  | some _, none => throw ⟨.invalidIdentifier, "identifier is not a canonical UUIDv7"⟩
  match r.manifest with
  | none => pure ()
  | some m => do
      validateSite m
      require (decide (r.tenantId = some m.metadata.id))
        (schemaInvalid "result tenant identity does not match")
      require (decide (r.canonicalOrigin = some m.metadata.canonicalOrigin))
        (schemaInvalid "result tenant origin does not match")
  if r.operation ≠ .archive then pure () else
    match r.archiveRecord.join with
    | none =>
        require (decide (r.status ≠ .succeeded))
          (schemaInvalid "successful archive result lacks durable archive authority")
    | some archive => do
        require (decide (some archive.tenantId = r.tenantId) &&
            (decide (r.status ≠ .failed) || decide (archive.correlationId = r.correlationId)))
          (schemaInvalid "archive record disagrees with its result")
        if r.status ≠ .succeeded then pure () else
          match r.manifest with
          | none =>
              throw (schemaInvalid "successful archive result lacks durable archive authority")
          | some m =>
              require (decide (archive.manifestDigest = manifestDigest e m) &&
                  decide (m.spec.desiredDeployment.map DeploymentReference.id =
                    some archive.deploymentId))
                (schemaInvalid "successful archive record disagrees with its result")

/-! ### Transaction intents -/

def restartFenceMatches (fence : Option RestartFence) (target : RestartTarget)
    (candidateAttempts recoveryAttempts : List Nat) (invocationRequired : Bool) : Bool :=
  match fence with
  | none => false
  | some f =>
      decide (f.selectedTarget = target) && decide (f.candidateAttemptCount ∈ candidateAttempts) &&
        decide (f.recoveryAttemptCount ∈ recoveryAttempts) &&
        (f.systemdInvocationId.isSome == invocationRequired)

def restartFenceValid (phase : TransactionPhase) (fence : Option RestartFence) : Bool :=
  match phase with
  | .prepared | .runtimeSelected => fence.isNone
  | .restartRequired => restartFenceMatches fence .candidate [0] [0] false
  | .candidateStarting => restartFenceMatches fence .candidate [1, 2, 3] [0] true
  | .rollbackRestartRequired => restartFenceMatches fence .previous [1, 2, 3] [0] false
  | .recoveryStarting => restartFenceMatches fence .previous [1, 2, 3] [1, 2, 3] true
  | .stateCommitted =>
      fence.isNone || restartFenceMatches fence .candidate [1, 2, 3] [0] true ||
        restartFenceMatches fence .previous [1, 2, 3] [1, 2, 3] true

def validateRestartFence (i : TransactionIntent) : Except ContractError Unit :=
  require (restartFenceValid i.phase i.restartFence)
    (schemaInvalid "restart attempt fence does not match the durable transaction phase")

/-- The source manifest of a current intent, bound to its tenant and its digest. -/
def validatedTransactionSource (i : TransactionIntent) : Except ContractError (Option Site) :=
  if i.operation = .create then pure none else
    match i.sourceManifest with
    | none => pure none
    | some m => do
        validateSite m
        require (decide (m.metadata.id = i.tenantId))
          (schemaInvalid "transaction source tenant identity drifted")
        require (decide (some (manifestDigest e m) = i.sourceManifestDigest))
          (schemaInvalid "transaction source manifest binding is invalid")
        pure (some m)

/-- The candidate manifest of a current intent, bound to its tenant and its digest. -/
def validatedTransactionCandidate (i : TransactionIntent) : Except ContractError (Option Site) :=
  if i.operation = .delete then pure none else
    match i.candidateManifest with
    | none => pure none
    | some m => do
        validateSite m
        require (decide (m.metadata.id = i.tenantId))
          (schemaInvalid "transaction candidate tenant identity drifted")
        require (decide (some (manifestDigest e m) = i.candidateManifestDigest))
          (schemaInvalid "transaction candidate manifest binding is invalid")
        pure (some m)

/-- The candidate with every member outside the operation's own taken from the source. -/
def expectedTransform (operation : Operation) (source candidate : Site) : Site :=
  match operation with
  | .rename => { source with metadata := { source.metadata with slug := candidate.metadata.slug } }
  | .suspend | .resume =>
      { source with spec := { source.spec with desiredState := candidate.spec.desiredState } }
  | .deploy | .rollback | .import | .restore =>
      { source with spec :=
          { source.spec with
            desiredState := candidate.spec.desiredState
            desiredDeployment := candidate.spec.desiredDeployment } }
  | _ => source

def validateTransactionManifestTransform (operation : Operation)
    (source candidate : Option Site) : Except ContractError Unit :=
  if operation ∈ [Operation.create, .delete, .archive] then pure () else
    match source, candidate with
    | some source, some candidate =>
        require (decide (candidate = expectedTransform operation source candidate))
          (schemaInvalid "transaction candidate changed fields outside its operation")
    | _, _ => pure ()

def routesFor (state : LifecycleState) : RouteSet :=
  if state = .active then .both else .absent

def validateObservedRecoveryBinding (i : TransactionIntent) (observed : TenantObservedState)
    (digest : Option Digest) (routeSet : RouteSet) (runtimeGeneration : Option Uuid7) :
    Except ContractError Unit := do
  require (decide (observed.tenantId = i.tenantId) &&
      decide (some observed.desiredManifestDigest = digest))
    (schemaInvalid "observed recovery binding is invalid")
  require (decide (routeSet = routesFor observed.observedState))
    (schemaInvalid "observed route binding is invalid")
  require (runtimeGeneration.isNone || decide (observed.observedState ≠ .active) ||
      decide (observed.runtimeGenerationId = runtimeGeneration))
    (schemaInvalid "observed runtime binding is invalid")

def validateObservedManifestBinding (manifest : Site) (observed : TenantObservedState) :
    Except ContractError Unit :=
  let deploymentId := if observed.observedState ∈ [LifecycleState.active, .suspended]
    then manifest.spec.desiredDeployment.map DeploymentReference.id else none
  require (decide (manifest.spec.desiredState = observed.observedState) &&
      decide (observed.activeDeploymentId = deploymentId))
    (schemaInvalid "observed recovery state disagrees with its manifest")

def validateManifestTransitionBinding (i : TransactionIntent)
    (sourceState candidateState : LifecycleState) : Except ContractError Unit :=
  let sameDigest := decide (i.sourceManifestDigest = i.candidateManifestDigest)
  if sourceState ≠ candidateState then
    require (!sameDigest)
      (schemaInvalid "lifecycle transition did not change the manifest generation")
  else do
    require (decide (i.operation ∉ [Operation.suspend, .resume]) || sameDigest)
      (schemaInvalid "no-op route transition changed the manifest generation")
    require (decide (i.operation ≠ .rename) || !sameDigest)
      (schemaInvalid "rename transition did not change the manifest generation")

/-- The lifecycle state the source of a recovery stands in. -/
def validateLifecycleSourceRecovery (i : TransactionIntent) (recovery : LifecycleRecovery) :
    Except ContractError LifecycleState :=
  match recovery.sourceObservedState with
  | none => do
      require (decide (recovery.sourceRouteSet = .absent))
        (schemaInvalid "absent source retained tenant routes")
      pure .absent
  | some observed =>
      match decide (i.operation = .reconcile) && i.current, i.sourceManifest with
      | true, some manifest => do
          require (decide (observed.tenantId = i.tenantId))
            (schemaInvalid "reconcile source recovery tenant is invalid")
          pure manifest.spec.desiredState
      | _, manifest => do
          validateObservedRecoveryBinding i observed i.sourceManifestDigest
            recovery.sourceRouteSet none
          match i.current, manifest with
          | true, some manifest => validateObservedManifestBinding manifest observed
          | _, _ => pure ()
          pure observed.observedState

/-- The lifecycle state the candidate of a recovery stands in. -/
def validateLifecycleCandidateRecovery (i : TransactionIntent) (recovery : LifecycleRecovery) :
    Except ContractError LifecycleState :=
  match recovery.candidateObservedState with
  | none => do
      require (decide (recovery.candidateRouteSet = .absent))
        (schemaInvalid "absent candidate retained tenant routes")
      pure .absent
  | some observed => do
      validateObservedRecoveryBinding i observed i.candidateManifestDigest
        recovery.candidateRouteSet (some recovery.candidateRuntimeGenerationId)
      match i.current, i.candidateManifest with
      | true, some manifest => validateObservedManifestBinding manifest observed
      | _, _ => pure ()
      pure observed.observedState

/-- Operations that must select a distinct deployment, by intent version. -/
def deploymentOperations (current : Bool) : List Operation :=
  if current then [.deploy, .rollback, .restore] else [.deploy, .rollback]

def validateLifecycleRecovery (i : TransactionIntent) (recovery : LifecycleRecovery) :
    Except ContractError Unit := do
  let source := recovery.sourceObservedState
  let candidate := recovery.candidateObservedState
  require (decide (i.operation = .create) == source.isNone)
    (schemaInvalid "source recovery state is invalid")
  require (decide (i.operation = .delete) == candidate.isNone)
    (schemaInvalid "candidate recovery state is invalid")
  let sourceState ← validateLifecycleSourceRecovery i recovery
  let candidateState ← validateLifecycleCandidateRecovery i recovery
  require (decide (lifecycleMatrix i.operation sourceState = some candidateState))
    (schemaInvalid "recovery states violate lifecycle matrix")
  validateManifestTransitionBinding i sourceState candidateState
  let sourceActive := source.bind TenantObservedState.activeDeploymentId
  let candidateActive := candidate.bind TenantObservedState.activeDeploymentId
  require (decide (i.operation ∉ deploymentOperations i.current) ||
      (source.isSome && candidate.isSome && decide (sourceActive ≠ candidateActive) &&
        decide (i.sourceManifestDigest ≠ i.candidateManifestDigest)))
    (schemaInvalid "deployment-selecting transition did not select a distinct generation")
  require (decide (i.operation ∉ [Operation.suspend, .resume, .rename]) ||
      (source.isSome && candidate.isSome && decide (sourceActive = candidateActive)))
    (schemaInvalid "route-only transition changed the remembered deployment")
  require (decide (recovery.candidateRuntimeGenerationId ≠ recovery.sourceRuntimeGenerationId))
    (schemaInvalid "runtime generations are not distinct")

def validateNonarchiveTransactionIntent (i : TransactionIntent) : Except ContractError Unit := do
  if i.operation = .export then
    require (decide (i.sourceManifestDigest = i.candidateManifestDigest))
      (schemaInvalid "export intent manifest generation drifted")
  else
    require (decide (i.operation ≠ .reconcile) ||
        decide (i.sourceManifestDigest = i.candidateManifestDigest))
      (schemaInvalid "reconcile intent manifest generation drifted")
    match i.lifecycleRecovery with
    | some recovery => validateLifecycleRecovery i recovery
    | none => pure ()

def validateArchiveTransactionIntent (i : TransactionIntent)
    (sourceManifest candidateManifest : Option Site) (recovery : ArchiveRecovery) :
    Except ContractError Unit := do
  let source := recovery.sourceManifest
  let candidate := recovery.candidateManifest
  let observed := recovery.sourceObservedState
  let archive := recovery.candidateArchiveRecord
  validateSite source
  validateSite candidate
  require (decide (source.metadata.id = i.tenantId) &&
      decide (candidate.metadata = source.metadata))
    (schemaInvalid "archive intent tenant identity drifted")
  require (decide (some (manifestDigest e source) = i.sourceManifestDigest))
    (schemaInvalid "archive source manifest binding is invalid")
  require (!i.current || decide (some source = sourceManifest))
    (schemaInvalid "archive source manifest copies drifted")
  require (!i.current || decide (candidateManifest = some candidate))
    (schemaInvalid "archive candidate manifest copies drifted")
  require (decide (i.candidateManifestDigest = some (manifestDigest e candidate)))
    (schemaInvalid "archive candidate manifest binding is invalid")
  let sourceState := source.spec.desiredState
  let revalidation := decide (sourceState = .archived)
  require (decide (sourceState ∈ [LifecycleState.active, .suspended, .archived]) &&
      decide (candidate.spec = { source.spec with desiredState := .archived }))
    (schemaInvalid "archive candidate state is invalid")
  let sourceDeployment := source.spec.desiredDeployment.map DeploymentReference.id
  require (decide (observed.tenantId = i.tenantId) &&
      decide (some observed.desiredManifestDigest = i.sourceManifestDigest) &&
      decide (observed.observedState = sourceState) &&
      decide (observed.activeDeploymentId = if revalidation then none else sourceDeployment))
    (schemaInvalid "archive observed-state binding is invalid")
  require (decide (recovery.sourceRouteSet = routesFor sourceState))
    (schemaInvalid "archive source route binding is invalid")
  require (decide (archive.tenantId = i.tenantId) &&
      decide (some archive.deploymentId = sourceDeployment) &&
      decide (some archive.manifestDigest = i.candidateManifestDigest) &&
      (revalidation || decide (archive.correlationId = i.correlationId)))
    (schemaInvalid "archive record binding is invalid")
  require (decide (recovery.candidateRuntimeGenerationId = recovery.sourceRuntimeGenerationId) ==
      revalidation)
    (schemaInvalid "archive runtime generations exceed lifecycle authority")

def validateTransactionIntent (i : TransactionIntent) : Except ContractError Unit := do
  validateRestartFence i
  let source ← if i.current then validatedTransactionSource e i else pure none
  let candidate ← if i.current then validatedTransactionCandidate e i else pure none
  if i.current then validateTransactionManifestTransform i.operation source candidate
  else pure ()
  if i.operation ≠ .archive then validateNonarchiveTransactionIntent i
  else
    match i.archiveRecovery with
    | some recovery => validateArchiveTransactionIntent e i source candidate recovery
    | none => pure ()

/-! ### Authorization jobs -/

def validateLegacyJobDeletionAuthority (deletion : DeletionEvidence)
    (lifecycle : Option LifecycleState) (archiveDigest : Option Digest) :
    Except ContractError Unit := do
  require (decide (lifecycle ≠ some .undeployed) || decide (deletion.mode = .neverDeployed))
    (schemaInvalid "undeployed delete source evidence is invalid")
  require (decide (lifecycle ≠ some .archived) || (decide (deletion.mode = .archived) &&
      decide (deletion.archiveRecordDigest = archiveDigest)))
    (schemaInvalid "archived delete source evidence is invalid")

def currentJobDeletionAuthority (sourceAuthority : Option SourceAuthority)
    (lifecycle : Option LifecycleState) (archiveDigest : Option Digest) :
    Except ContractError DeletionEvidence :=
  match sourceAuthority with
  | none => throw (schemaInvalid "delete source authority is absent")
  | some authority =>
      let slugs := [authority.manifest.metadata.slug]
      if lifecycle = some .archived then
        match authority.archiveRecord with
        | none => throw (schemaInvalid "archived delete source authority is absent")
        | some archive => pure
            ⟨.archived, slugs, archiveDigest, some archive.bucket, some archive.key,
              some archive.versionId, none⟩
      else pure ⟨.neverDeployed, slugs, none, none, none, none, none⟩

def validateJobDeletionAuthority (j : AuthorizationJob) (lifecycle : Option LifecycleState)
    (archiveDigest : Option Digest) : Except ContractError Unit :=
  if j.request.operation ≠ .delete then
    require j.expectedSource.deletionEvidence.isNone
      (schemaInvalid "non-delete job carries deletion evidence")
  else
    match j.expectedSource.deletionEvidence with
    | none =>
        require (decide (j.compatibilityVersion = .staticJobV1))
          (schemaInvalid "delete job has no durable deletion authority")
    | some deletion =>
        if lifecycle ∈ [some LifecycleState.active, some .suspended] then
          require deletion.isNone
            (schemaInvalid "ineligible delete source carries deletion evidence")
        else
          match deletion with
          | none => throw (schemaInvalid "delete source evidence is absent")
          | some deletion =>
              if j.compatibilityVersion = .staticJobV1 then
                validateLegacyJobDeletionAuthority deletion lifecycle archiveDigest
              else do
                let expected ←
                  currentJobDeletionAuthority j.sourceAuthority lifecycle archiveDigest
                require (decide (deletion = expected))
                  (schemaInvalid "delete source evidence disagrees with its durable authority")

/-- A current job carries the manifest its source digest was taken from. -/
def validateJobSourceAuthority (j : AuthorizationJob) : Except ContractError Unit :=
  if j.compatibilityVersion = .staticJobV1 then
    require j.sourceAuthority.isNone
      (schemaInvalid "legacy job carries current source authority")
  else if j.request.operation = .create then
    require j.sourceAuthority.isNone
      (schemaInvalid "create job carries tenant source authority")
  else
    match j.sourceAuthority with
    | none => throw (schemaInvalid "tenant job source authority is absent")
    | some authority => do
        let manifest := authority.manifest
        require (decide (some manifest.metadata.id = j.request.tenantId) &&
            decide (some manifest.spec.desiredState = j.expectedSource.lifecycle) &&
            decide (some (manifestDigest e manifest) = j.expectedSource.manifestDigest))
          (schemaInvalid "tenant job source authority disagrees")
        if j.expectedSource.lifecycle ≠ some .archived then
          require authority.archiveRecord.isNone
            (schemaInvalid "non-archived job carries archive source authority")
        else
          match authority.archiveRecord with
          | none => throw (schemaInvalid "archived job source authority is absent")
          | some archive =>
              require (decide (some (archiveRecordDigest e archive) =
                    j.expectedSource.archiveRecordDigest) &&
                  decide (some archive.tenantId = j.request.tenantId) &&
                  decide (some archive.deploymentId =
                    manifest.spec.desiredDeployment.map DeploymentReference.id) &&
                  decide (archive.manifestDigest = manifestDigest e manifest))
                (schemaInvalid "archived job source authority disagrees")

def validateJob (j : AuthorizationJob) : Except ContractError Unit := do
  validateRequest j.request
  require (j.exportDelivery.all fun delivery =>
      decide (j.request.operation = .export) && decide (j.compatibilityVersion = .staticJobV2) &&
        (decide (delivery = .unacknowledged) ||
          (decide (j.phase = .completed) && decide (j.executionValidated = some true))))
    (schemaInvalid "export delivery has no validated job")
  match j.dispatch.importManifest with
  | none => pure ()
  | some imported => do
      require (decide (j.request.operation = .import))
        (schemaInvalid "non-import job retains import provenance")
      validateImportManifest imported
  require (decide (j.requestDigest = requestDigest e j.request))
    (schemaInvalid "job request digest binding does not match")
  require (decide (j.artifact = j.request.artifact))
    (schemaInvalid "job artifact binding does not match")
  let expected := j.expectedSource
  validateJobSourceAuthority e j
  if j.request.operation = .create then
    require (decide (expected =
        ⟨true, none, none, none, none, expected.platformStateDigest, none⟩))
      (schemaInvalid "create job source binding is invalid")
  else do
    require (!expected.expectsTenantAbsent && expected.manifestDigest.isSome)
      (schemaInvalid "tenant job source binding is invalid")
    require (decide (expected.lifecycle ∈ [some LifecycleState.undeployed, some .active,
        some .suspended, some .archived]))
      (schemaInvalid "tenant source lifecycle is absent")
    require (decide (expected.lifecycle ≠ some .undeployed) ||
        (expected.deploymentDigest.isNone && expected.archiveRecordDigest.isNone))
      (schemaInvalid "undeployed source binding is invalid")
    require (decide (expected.lifecycle ∉ [some LifecycleState.active, some .suspended]) ||
        (expected.deploymentDigest.isSome && expected.archiveRecordDigest.isNone))
      (schemaInvalid "deployed source binding is invalid")
    require (decide (expected.lifecycle ≠ some .archived) ||
        (expected.deploymentDigest.isSome && expected.archiveRecordDigest.isSome))
      (schemaInvalid "archived source binding is invalid")
    validateJobDeletionAuthority j expected.lifecycle expected.archiveRecordDigest

/-! ## Contracts -/

/-- The schema check of a document's kind. -/
def Document.schema : Document → Bool
  | .site v => v.schema
  | .tenantObservedState v => v.schema
  | .deploymentRecord v => v.schema
  | .archiveRecord v => v.schema
  | .transactionIntent v => v.schema
  | .archiveConstructionIntent v => v.schema
  | .archiveRetirementIntent v => v.schema
  | .emergencyDeletionIntent _ => true
  | .auditEntry v => v.schema
  | .operationResult v => v.schema
  | .operationRequest v => v.schema
  | .authorizationJob v => v.schema

/-- The semantic check of a document's kind. -/
def semanticValidation : Document → Except ContractError Unit
  | .site v => validateSite v
  | .tenantObservedState _ => pure ()
  | .deploymentRecord v => validateDeploymentRecord e v
  | .archiveRecord _ => pure ()
  | .transactionIntent v => validateTransactionIntent e v
  | .archiveConstructionIntent v => validateArchiveConstructionIntent v
  | .archiveRetirementIntent v => validateArchiveRetirementIntent e v
  | .emergencyDeletionIntent v =>
      require (decide (v.intentId = v.correlationId))
        (schemaInvalid "emergency deletion authority disagrees")
  | .auditEntry v => validateAuditEntry v
  | .operationResult v => validateResult e v
  | .operationRequest v => validateRequest v
  | .authorizationJob v => validateJob e v

/-- Validate shape, bindings and canonical size, and return the canonical bytes. -/
def validateContract (d : Document) : Except ContractError Bytes := do
  require d.schema (schemaInvalid "contract does not match its schema")
  semanticValidation e d
  canonicalJsonBytes e d

/-- The document passes contract validation. -/
def ValidContract (d : Document) : Prop :=
  d.schema = true ∧ semanticValidation e d = .ok () ∧ (e.canonical d).length ≤ maxCanonicalBytes

end Semantics

variable {e : Encoding}

theorem validateContract_eq_ok {d : Document} {raw : Bytes} :
    validateContract e d = .ok raw ↔ ValidContract e d ∧ raw = e.canonical d := by
  unfold validateContract ValidContract
  simp only [bind_eq_ok, require_eq_ok, canonicalJsonBytes_eq_ok]
  constructor
  · rintro ⟨-, hschema, ⟨⟩, hsemantic, hsize, hraw⟩
    exact ⟨⟨hschema, hsemantic, hsize⟩, hraw⟩
  · rintro ⟨⟨hschema, hsemantic, hsize⟩, hraw⟩
    exact ⟨(), hschema, (), hsemantic, hsize, hraw⟩

instance (d : Document) : Decidable (ValidContract e d) :=
  decidable_of_iff (validateContract e d = .ok (e.canonical d))
    ⟨fun h => (validateContract_eq_ok.1 h).1, fun h => validateContract_eq_ok.2 ⟨h, rfl⟩⟩

end StaticHostAgent.Contracts
