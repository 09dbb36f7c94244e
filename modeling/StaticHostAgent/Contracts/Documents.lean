import StaticHostAgent.Contracts.Identity

/-!
# The contract documents

Every persisted contract kind as a structure. `apiVersion` and `kind` are constants of the kind and
are left out; a member that a schema makes optional or nullable is an `Option`, and `none` stands
for both where the code reads it with `get`. `OperationResult.archiveRecord` keeps the two apart,
because one check asks only for its presence.
-/

set_option autoImplicit false

namespace StaticHostAgent.Contracts

structure Quotas where
  storageMiB : Nat
  entries : Nat
  deriving DecidableEq

structure DeploymentReference where
  id : Uuid7
  archiveSha256 : Sha256
  deriving DecidableEq

structure SiteMetadata where
  id : Uuid7
  slug : String
  canonicalOrigin : CanonicalOrigin
  deriving DecidableEq

structure SiteSpec where
  desiredState : LifecycleState
  quotas : Quotas
  desiredDeployment : Option DeploymentReference
  deriving DecidableEq

/-- A site manifest: one desired generation of a tenant. -/
structure Site where
  metadata : SiteMetadata
  spec : SiteSpec
  deriving DecidableEq

structure TenantObservedState where
  tenantId : Uuid7
  desiredManifestDigest : Digest
  observedState : LifecycleState
  activeDeploymentId : Option Uuid7
  runtimeGenerationId : Option Uuid7
  reconciledAt : Timestamp
  deriving DecidableEq

structure ImportProvenance where
  manifest : Site
  manifestDigest : Digest
  deriving DecidableEq

structure DeploymentRecord where
  id : Uuid7
  tenantId : Uuid7
  archiveSha256 : Sha256
  releaseTreeDigest : Digest
  createdAt : Timestamp
  correlationId : Uuid7
  importProvenance : Option ImportProvenance
  deriving DecidableEq

/-- The object key `archives/<identity>.zip` of an archived bundle, kept by its identity. -/
structure ArchiveKey where
  uploadAttemptId : Uuid7
  deriving DecidableEq

structure ArchiveRecord where
  tenantId : Uuid7
  deploymentId : Uuid7
  releaseTreeDigest : Digest
  manifestDigest : Digest
  bundleDigest : Digest
  bundleSize : Nat
  bucket : String
  key : ArchiveKey
  versionId : String
  createdAt : Timestamp
  correlationId : Uuid7
  deriving DecidableEq

/-- Whether a tenant has both of its routes or none. -/
inductive RouteSet where
  | both | absent
  deriving DecidableEq

/-- The recovery authority of an archive transaction. -/
structure ArchiveRecovery where
  sourceManifest : Site
  sourceObservedState : TenantObservedState
  sourceRuntimeGenerationId : Uuid7
  sourceRouteSet : RouteSet
  candidateManifest : Site
  candidateArchiveRecord : ArchiveRecord
  candidateRuntimeGenerationId : Uuid7
  deriving DecidableEq

/-- The recovery authority of the other lifecycle transactions. -/
structure LifecycleRecovery where
  sourceObservedState : Option TenantObservedState
  sourceRuntimeGenerationId : Uuid7
  sourceRouteSet : RouteSet
  candidateObservedState : Option TenantObservedState
  candidateRuntimeGenerationId : Uuid7
  candidateRouteSet : RouteSet
  deriving DecidableEq

inductive RestartTarget where
  | candidate | previous
  deriving DecidableEq

structure RestartFence where
  selectedTarget : RestartTarget
  candidateAttemptCount : Nat
  recoveryAttemptCount : Nat
  systemdInvocationId : Option String
  deriving DecidableEq

/-- A durable lifecycle transaction; `current` says that it has the version `static-intent-v2`. -/
structure TransactionIntent where
  current : Bool
  intentId : Uuid7
  tenantId : Uuid7
  correlationId : Uuid7
  operation : Operation
  archiveRecovery : Option ArchiveRecovery
  lifecycleRecovery : Option LifecycleRecovery
  sourceManifest : Option Site
  sourceManifestDigest : Option Digest
  candidateManifest : Option Site
  candidateManifestDigest : Option Digest
  phase : TransactionPhase
  restartFence : Option RestartFence
  createdAt : Timestamp
  deriving DecidableEq

inductive Provenance where
  | authorizationJob (jobId : Uuid7)
  | emergencyAdministrator (operatorPrincipal reason : String)
  deriving DecidableEq

inductive ArchiveTransition where
  | restore | delete
  deriving DecidableEq

inductive RetirementPhase where
  | prepared | stateCommitted | purged
  deriving DecidableEq

/-- The retirement of one remote archive object; `current` says `static-retirement-v2`. -/
structure ArchiveRetirementIntent where
  current : Bool
  intentId : Uuid7
  provenance : Provenance
  operatorPrincipal : String
  tenantId : Uuid7
  correlationId : Uuid7
  transition : ArchiveTransition
  sourceManifestDigest : Digest
  archiveRecordDigest : Digest
  archiveRecord : Option ArchiveRecord
  bundleDigest : Digest
  bundleSize : Nat
  bucket : String
  key : ArchiveKey
  versionId : String
  phase : RetirementPhase
  createdAt : Timestamp
  deriving DecidableEq

inductive ConstructionPhase where
  | prepared | uploaded
  deriving DecidableEq

/-- The construction of one remote archive object. -/
structure ArchiveConstructionIntent where
  intentId : Uuid7
  uploadAttemptId : Uuid7
  jobId : Uuid7
  operatorPrincipal : String
  tenantId : Uuid7
  correlationId : Uuid7
  sourceManifestDigest : Digest
  candidateManifestDigest : Digest
  deploymentRecordDigest : Digest
  releaseTreeDigest : Digest
  bundleDigest : Digest
  bundleSize : Nat
  bucket : String
  key : ArchiveKey
  versionId : Option String
  phase : ConstructionPhase
  createdAt : Timestamp
  deriving DecidableEq

inductive DeletionMode where
  | neverDeployed | archived | emergency | emergencyArchived
  deriving DecidableEq

structure DeletionEvidence where
  mode : DeletionMode
  releasedSlugs : List String
  archiveRecordDigest : Option Digest
  bucket : Option String
  key : Option ArchiveKey
  versionId : Option String
  emergencyReason : Option String
  deriving DecidableEq

inductive ResultStatus where
  | succeeded | failed
  deriving DecidableEq

structure AuditEntry where
  sequence : Nat
  previousEntryDigest : Option Digest
  timestamp : Timestamp
  operatorPrincipal : String
  operation : Operation
  tenantId : Option Uuid7
  correlationId : Uuid7
  resultDigest : Digest
  resultStatus : ResultStatus
  deletionEvidence : Option DeletionEvidence
  deriving DecidableEq

inductive ResultErrorCode where
  | archiveUnavailable | busy | capacityExceeded | conflict | denied | invalidArtifact
  | invalidRequest | notFound | notImplemented | publicationDisabled | restoreInputUnavailable
  | stateDrift | unavailable
  deriving DecidableEq

structure ExportBundle where
  digest : Digest
  size : Nat
  deriving DecidableEq

/-- The audit position a failed execution published with its result. -/
structure FailureAudit where
  predecessorDigest : Option Digest
  sequence : Nat
  deriving DecidableEq

structure OperationResult where
  provenance : Provenance
  correlationId : Uuid7
  operation : Operation
  status : ResultStatus
  tenantId : Option Uuid7
  canonicalOrigin : Option CanonicalOrigin
  manifest : Option Site
  archiveRecord : Option (Option ArchiveRecord)
  exportBundle : Option ExportBundle
  errorCode : Option ResultErrorCode
  failureAudit : Option FailureAudit
  deriving DecidableEq

structure Artifact where
  size : Nat
  sha256 : Sha256
  deriving DecidableEq

structure OperationRequest where
  operation : Operation
  correlationId : Uuid7
  tenantId : Option Uuid7
  slug : Option String
  quotas : Option Quotas
  deploymentId : Option Uuid7
  artifact : Option Artifact
  deriving DecidableEq

inductive JobVersion where
  | staticJobV1 | staticJobV2
  deriving DecidableEq

inductive JobPhase where
  | pending | claimed | completed | failed
  deriving DecidableEq

inductive ExportDelivery where
  | unacknowledged | acknowledged | expired
  deriving DecidableEq

instance lawful_delivery : LawfulBEq (Option ExportDelivery) := inferInstance

structure ExpectedSource where
  expectsTenantAbsent : Bool
  lifecycle : Option LifecycleState
  manifestDigest : Option Digest
  deploymentDigest : Option Digest
  archiveRecordDigest : Option Digest
  platformStateDigest : Digest
  deletionEvidence : Option (Option DeletionEvidence)
  deriving DecidableEq

structure SourceAuthority where
  manifest : Site
  archiveRecord : Option ArchiveRecord
  deriving DecidableEq

structure AuditBoundary where
  entryCount : Nat
  terminalDigest : Option Digest
  deriving DecidableEq

structure TenantRecordHistory where
  tenantId : Uuid7
  archiveDeploymentIds : List Uuid7
  deploymentIds : List Uuid7
  deriving DecidableEq

/-- The authority an executor bound to a job when it dispatched it. -/
structure Dispatch where
  archiveDeploymentIds : Option (List Uuid7)
  artifactReleaseTreeDigest : Option Digest
  sourceReleaseTreeDigest : Option Digest
  sourceObservedState : Option TenantObservedState
  sourceRouteSet : Option RouteSet
  sourceRuntimeGenerationId : Option Uuid7
  deploymentIds : Option (List Uuid7)
  tenantIds : Option (List Uuid7)
  tenantRecordHistories : Option (List TenantRecordHistory)
  importManifest : Option Site
  auditBoundary : Option AuditBoundary
  deriving DecidableEq

/-- Nothing dispatched yet. -/
def Dispatch.none : Dispatch :=
  ⟨.none, .none, .none, .none, .none, .none, .none, .none, .none, .none, .none⟩

/-- One admitted authorization. The `dispatch…` members of the contract are grouped in
`dispatch`. -/
structure AuthorizationJob where
  compatibilityVersion : JobVersion
  jobId : Uuid7
  operatorPrincipal : String
  request : OperationRequest
  requestDigest : Digest
  artifact : Option Artifact
  expectedSource : ExpectedSource
  sourceAuthority : Option SourceAuthority
  acceptedAt : Timestamp
  phase : JobPhase
  executionValidated : Option Bool
  exportDelivery : Option ExportDelivery
  dispatch : Dispatch
  deriving DecidableEq

/-- An administrator's emergency deletion; of its content only the identities are kept. -/
structure EmergencyDeletionIntent where
  intentId : Uuid7
  tenantId : Uuid7
  correlationId : Uuid7
  deriving DecidableEq

/-- The contract kinds that have a canonical encoding. -/
inductive Document where
  | site (value : Site)
  | tenantObservedState (value : TenantObservedState)
  | deploymentRecord (value : DeploymentRecord)
  | archiveRecord (value : ArchiveRecord)
  | transactionIntent (value : TransactionIntent)
  | archiveConstructionIntent (value : ArchiveConstructionIntent)
  | archiveRetirementIntent (value : ArchiveRetirementIntent)
  | emergencyDeletionIntent (value : EmergencyDeletionIntent)
  | auditEntry (value : AuditEntry)
  | operationResult (value : OperationResult)
  | operationRequest (value : OperationRequest)
  | authorizationJob (value : AuthorizationJob)
  deriving DecidableEq

/-- The names of the contract kinds. -/
inductive ContractKind where
  | site | tenantObservedState | deploymentRecord | archiveRecord | transactionIntent
  | archiveConstructionIntent | archiveRetirementIntent | emergencyDeletionIntent | auditEntry
  | operationResult | operationRequest | authorizationJob
  deriving DecidableEq

def Document.kind : Document → ContractKind
  | .site _ => .site
  | .tenantObservedState _ => .tenantObservedState
  | .deploymentRecord _ => .deploymentRecord
  | .archiveRecord _ => .archiveRecord
  | .transactionIntent _ => .transactionIntent
  | .archiveConstructionIntent _ => .archiveConstructionIntent
  | .archiveRetirementIntent _ => .archiveRetirementIntent
  | .emergencyDeletionIntent _ => .emergencyDeletionIntent
  | .auditEntry _ => .auditEntry
  | .operationResult _ => .operationResult
  | .operationRequest _ => .operationRequest
  | .authorizationJob _ => .authorizationJob

end StaticHostAgent.Contracts
