import StaticHostAgent.Commit.Shared
import Mathlib.Tactic.MkIffOfInductiveProp

/-!
# Agreement of terminal documents

The comparisons that the document validators of the create, the route and the deployment path share,
grouped by the documents they are about. The comparisons of the identities are chained in the source:
`a != b != c` rejects only if all neighbours differ (`chainedNe`).
-/

set_option autoImplicit false

namespace StaticHostAgent.Commit

open Library Contracts Host Audit State

/-- The members that every transition plan has. -/
structure TransitionPlan where
  tenantId : Uuid7
  intentId : Uuid7
  manifest : Site
  observedState : TenantObservedState
  intent : TransactionIntent
  result : OperationResult
  auditEntry : AuditEntry
  deriving DecidableEq

section Agreements

variable (e : Encoding)

/-- The intent is the current one of its operation and carries both manifests. -/
@[mk_iff]
structure IntentAgreement (operation : Operation) (source : Site) (plan : TransitionPlan) :
    Prop where
  version : plan.intent.current = true
  operation : plan.intent.operation = operation
  phase : plan.intent.phase = .prepared
  noArchiveRecovery : plan.intent.archiveRecovery = none
  sourceBound : plan.intent.sourceManifest = some source
  candidateBound : plan.intent.candidateManifest = some plan.manifest
  sourceDigest : plan.intent.sourceManifestDigest = some (manifestDigest e source)
  candidateDigest : plan.intent.candidateManifestDigest = some (manifestDigest e plan.manifest)

/-- The job was admitted for the source. -/
@[mk_iff]
structure JobAgreement (job : AuthorizationJob) (source : Site) : Prop where
  phase : job.phase ∈ [JobPhase.claimed, .completed]
  version : job.compatibilityVersion = .staticJobV2
  expectsTenant : job.expectedSource.expectsTenantAbsent = false
  lifecycle : job.expectedSource.lifecycle = some source.spec.desiredState
  manifest : job.expectedSource.manifestDigest = some (manifestDigest e source)

/-- The recovery goes from the dispatched source to the planned observed state. -/
@[mk_iff]
structure RecoveryAgreement (job : AuthorizationJob) (recovery : LifecycleRecovery)
    (sourceObserved : TenantObservedState) (target : LifecycleState) (plan : TransitionPlan) :
    Prop where
  source : recovery.sourceObservedState = some sourceObserved
  candidate : recovery.candidateObservedState = some plan.observedState
  dispatchObserved : job.dispatch.sourceObservedState = some sourceObserved
  dispatchRuntime : job.dispatch.sourceRuntimeGenerationId = some recovery.sourceRuntimeGenerationId
  dispatchRoutes : job.dispatch.sourceRouteSet = some recovery.sourceRouteSet
  candidateRoutes : recovery.candidateRouteSet = routesFor target
  runtimes : recovery.sourceRuntimeGenerationId ≠ recovery.candidateRuntimeGenerationId
  observedDigest : plan.observedState.desiredManifestDigest = manifestDigest e plan.manifest
  observed : plan.observedState.observedState = target
  observedRuntime : plan.observedState.runtimeGenerationId =
    if routesFor target = .both then some recovery.candidateRuntimeGenerationId else none

/-- The source that was observed is the source manifest. -/
@[mk_iff]
structure SourceAgreement (recovery : LifecycleRecovery) (source : Site)
    (sourceObserved : TenantObservedState) : Prop where
  routes : recovery.sourceRouteSet = routesFor source.spec.desiredState
  digest : sourceObserved.desiredManifestDigest = manifestDigest e source
  state : sourceObserved.observedState = source.spec.desiredState

/-- The result and the audit entry tell the transition. -/
@[mk_iff]
structure TerminalAgreement (job : AuthorizationJob) (operation : Operation)
    (plan : TransitionPlan) : Prop where
  provenance : plan.result.provenance = .authorizationJob job.jobId
  intentId : plan.intentId = plan.intent.intentId
  resultManifest : plan.result.manifest = some plan.manifest
  resultOperation : plan.result.operation = operation
  resultStatus : plan.result.status = .succeeded
  auditPrincipal : plan.auditEntry.operatorPrincipal = job.operatorPrincipal
  auditOperation : plan.auditEntry.operation = operation
  auditStatus : plan.auditEntry.resultStatus = .succeeded
  auditCreated : plan.auditEntry.timestamp = plan.intent.createdAt
  auditReconciled : plan.auditEntry.timestamp = plan.observedState.reconciledAt
  auditDigest : plan.auditEntry.resultDigest = resultDigest e plan.result

variable {e}

instance (operation : Operation) (source : Site) (plan : TransitionPlan) :
    Decidable (IntentAgreement e operation source plan) :=
  decidable_of_iff _ (intentAgreement_iff e operation source plan).symm

instance (job : AuthorizationJob) (source : Site) : Decidable (JobAgreement e job source) :=
  decidable_of_iff _ (jobAgreement_iff e job source).symm

instance (job : AuthorizationJob) (recovery : LifecycleRecovery)
    (sourceObserved : TenantObservedState) (target : LifecycleState) (plan : TransitionPlan) :
    Decidable (RecoveryAgreement e job recovery sourceObserved target plan) :=
  decidable_of_iff _ (recoveryAgreement_iff e job recovery sourceObserved target plan).symm

instance (recovery : LifecycleRecovery) (source : Site) (sourceObserved : TenantObservedState) :
    Decidable (SourceAgreement e recovery source sourceObserved) :=
  decidable_of_iff _ (sourceAgreement_iff e recovery source sourceObserved).symm

instance (job : AuthorizationJob) (operation : Operation) (plan : TransitionPlan) :
    Decidable (TerminalAgreement e job operation plan) :=
  decidable_of_iff _ (terminalAgreement_iff e job operation plan).symm

end Agreements

/-- The correlations of a transition, in the order in which the source compares neighbours. -/
def correlationIds (job : AuthorizationJob) (plan : TransitionPlan) : List Uuid7 :=
  [plan.result.correlationId, job.request.correlationId, plan.intent.correlationId,
    plan.auditEntry.correlationId]

/-- The tenant identities of a transition, in the order in which the source compares neighbours.
`sources` are those of the source manifest and of the source observed state. -/
def tenantIdentities (plan : TransitionPlan) (sources : List Uuid7) : List (Option Uuid7) :=
  some plan.tenantId :: sources.map some ++ [some plan.observedState.tenantId,
    some plan.intent.tenantId, plan.result.tenantId, plan.auditEntry.tenantId]

/-- The two chained comparisons: neither list has all its neighbours different. -/
def identitiesCompared (job : AuthorizationJob) (plan : TransitionPlan) (sources : List Uuid7) :
    Bool :=
  !chainedNe (tenantIdentities plan sources) && !chainedNe (correlationIds job plan)

end StaticHostAgent.Commit
