import StaticHostAgent.Commit.Agreement

/-!
# The documents of a deployment commit

The plan of an import, a deploy or a rollback, and the relationships its documents and its job must
have (`DeploymentAgreement`) before any of them is committed.
-/

set_option autoImplicit false

namespace StaticHostAgent.Commit

open Library Contracts Host Audit State

structure DeploymentTransitionPlan extends TransitionPlan where
  deployment : DeploymentRecord
  createsDeployment : Bool
  deriving DecidableEq

/-- The plan with what its intent and its job bind. -/
structure DeploymentDocuments extends DeploymentTransitionPlan where
  sourceManifest : Site
  sourceObservedState : TenantObservedState
  recovery : LifecycleRecovery
  history : List Uuid7
  sourceDeploymentDigest : Option Digest
  sourceReleaseTreeDigest : Option Digest

def maximumRetainedDeployments : Nat := 3

/-- The selected deployment of a manifest. -/
def selectedDeploymentId (manifest : Site) : Option Uuid7 :=
  manifest.spec.desiredDeployment.map DeploymentReference.id

/-- The source with the target state and the target deployment. -/
def deploymentCandidate (source : Site) (target : LifecycleState) (d : DeploymentRecord) : Site :=
  { source with
    spec := { source.spec with
      desiredState := target, desiredDeployment := some ⟨d.id, d.archiveSha256⟩ } }

section Relationships

variable (e : Encoding)

/-- An import records the manifest it imported, other operations record none. -/
def provenanceMatches (job : AuthorizationJob) (documents : DeploymentDocuments) : Bool :=
  if job.request.operation = .import then
    job.dispatch.importManifest.any fun imported =>
      decide (documents.deployment.importProvenance = some ⟨imported, manifestDigest e imported⟩)
  else documents.deployment.importProvenance.isNone

/-- The deployment is new, and it is the artifact of the job. -/
@[mk_iff]
structure DeployBinding (job : AuthorizationJob) (documents : DeploymentDocuments) : Prop where
  operation : job.request.operation ∈ [Operation.deploy, .import]
  creates : documents.createsDeployment = true
  provenance : provenanceMatches e job documents = true
  requested : job.request.artifact.isSome = true
  artifact : job.artifact = job.request.artifact
  archive : some documents.deployment.archiveSha256 = job.request.artifact.map Artifact.sha256
  releaseTree : some documents.deployment.releaseTreeDigest =
    job.dispatch.artifactReleaseTreeDigest
  correlation : documents.deployment.correlationId = job.request.correlationId
  fresh : documents.deployment.id ∉ documents.history
  newest : (documents.history.getLast?.all fun last => decide (last < documents.deployment.id)) =
    true

/-- The deployment is retained and another one than the selected. -/
@[mk_iff]
structure RollbackBinding (job : AuthorizationJob) (documents : DeploymentDocuments) : Prop where
  operation : job.request.operation = .rollback
  creates : documents.createsDeployment = false
  requested : job.request.artifact = none
  artifact : job.artifact = none
  releaseTree : job.dispatch.artifactReleaseTreeDigest = none
  deployment : job.request.deploymentId = some documents.deployment.id
  retained : documents.deployment.id ∈ documents.history
  other : some documents.deployment.id ≠ selectedDeploymentId documents.sourceManifest

/-- The history of the job and the deployment selected in the source. -/
@[mk_iff]
structure HistoryAgreement (job : AuthorizationJob) (documents : DeploymentDocuments) :
    Prop where
  sorted : documents.history.Pairwise (· < ·)
  bounded : documents.history.length ≤ maximumRetainedDeployments
  noArchives : job.dispatch.archiveDeploymentIds = some []
  noExpectedArchive : job.expectedSource.archiveRecordDigest = none
  sourceDeployment : documents.sourceDeploymentDigest = job.expectedSource.deploymentDigest
  sourceReleaseTree : documents.sourceReleaseTreeDigest = job.dispatch.sourceReleaseTreeDigest
  undeployed : documents.sourceManifest.spec.desiredState = .undeployed →
    documents.history = [] ∧ selectedDeploymentId documents.sourceManifest = none ∧
      job.expectedSource.deploymentDigest = none
  deployed : documents.sourceManifest.spec.desiredState ≠ .undeployed →
    documents.history ≠ [] ∧
      ((selectedDeploymentId documents.sourceManifest).any fun selected =>
        decide (selected ∈ documents.history)) = true ∧
      job.expectedSource.deploymentDigest ≠ none

/-- What the documents of a deployment commit must agree on, apart from the identities. -/
@[mk_iff]
structure DeploymentAgreement (job : AuthorizationJob) (documents : DeploymentDocuments)
    (target : LifecycleState) : Prop where
  jobBound : JobAgreement e job documents.sourceManifest
  intentBound : IntentAgreement e job.request.operation documents.sourceManifest
    documents.toTransitionPlan
  candidate : documents.manifest =
    deploymentCandidate documents.sourceManifest target documents.deployment
  history : HistoryAgreement job documents
  recoveryBound : RecoveryAgreement e job documents.recovery documents.sourceObservedState target
    documents.toTransitionPlan
  source : SourceAgreement e documents.recovery documents.sourceManifest
    documents.sourceObservedState
  sourceActive : documents.sourceObservedState.activeDeploymentId =
    selectedDeploymentId documents.sourceManifest
  active : documents.observedState.activeDeploymentId = some documents.deployment.id
  binding : DeployBinding e job documents ∨ RollbackBinding job documents
  deploymentTenant : documents.deployment.tenantId = documents.tenantId
  requestTenant : job.request.tenantId = some documents.tenantId
  terminal : TerminalAgreement e job job.request.operation documents.toTransitionPlan
  resultOrigin : documents.result.canonicalOrigin =
    some documents.sourceManifest.metadata.canonicalOrigin

variable {e}

instance (job : AuthorizationJob) (documents : DeploymentDocuments) :
    Decidable (DeployBinding e job documents) :=
  decidable_of_iff _ (deployBinding_iff e job documents).symm

instance (job : AuthorizationJob) (documents : DeploymentDocuments) :
    Decidable (RollbackBinding job documents) :=
  decidable_of_iff _ (rollbackBinding_iff job documents).symm

instance (job : AuthorizationJob) (documents : DeploymentDocuments) :
    Decidable (HistoryAgreement job documents) :=
  decidable_of_iff _ (historyAgreement_iff job documents).symm

instance (job : AuthorizationJob) (documents : DeploymentDocuments) (target : LifecycleState) :
    Decidable (DeploymentAgreement e job documents target) :=
  decidable_of_iff _ (deploymentAgreement_iff e job documents target).symm

end Relationships

section Validation

variable (host : StateHost)

def deploymentOperation (operation : Operation) : Except AgentError Operation := do
  require (decide (operation ∈ [Operation.deploy, .import, .rollback]))
    (.commit .deployment "deployment finalization received another operation")
  pure operation

def validateDeploymentRelationships (job : AuthorizationJob) (documents : DeploymentDocuments) :
    Except AgentError Unit := do
  let operation ← deploymentOperation job.request.operation
  match lifecycleMatrix operation documents.sourceManifest.spec.desiredState with
  | none =>
      throw (.commit .deployment "deployment operation is invalid for its source lifecycle")
  | some target =>
      require (decide (DeploymentAgreement host.encoding job documents target) &&
          identitiesCompared job documents.toTransitionPlan
            [documents.sourceManifest.metadata.id, documents.sourceObservedState.tenantId])
        (.commit .deployment "deployment terminal documents disagree")

/-- The documents of a plan that must be valid contracts. -/
def DeploymentDocuments.contracts (documents : DeploymentDocuments) : List Document :=
  [.site documents.sourceManifest, .site documents.manifest,
    .tenantObservedState documents.sourceObservedState,
    .tenantObservedState documents.observedState, .deploymentRecord documents.deployment,
    .transactionIntent documents.intent, .operationResult documents.result,
    .auditEntry documents.auditEntry]

/-- The plan with its recovery authority, every document of it valid and in agreement. -/
def freezeDeployment (job : AuthorizationJob) (plan : DeploymentTransitionPlan) :
    Except AgentError DeploymentDocuments := do
  let malformed := AgentError.commit .deployment "deployment recovery authority is malformed"
  match plan.intent.sourceManifest, plan.intent.lifecycleRecovery, job.dispatch.deploymentIds with
  | some sourceManifest, some recovery, some history =>
      match recovery.sourceObservedState with
      | none => throw malformed
      | some sourceObserved => do
          let documents : DeploymentDocuments :=
            { plan with
              sourceManifest := sourceManifest
              sourceObservedState := sourceObserved
              recovery := recovery
              history := history
              sourceDeploymentDigest := job.expectedSource.deploymentDigest
              sourceReleaseTreeDigest := job.dispatch.sourceReleaseTreeDigest }
          validateAll host documents.contracts
          validateDeploymentRelationships host job documents
          pure documents
  | _, _, _ => throw malformed

/-- What the validator of deployments has checked, apart from the identities. -/
structure DeploymentChecked (job : AuthorizationJob) (plan : DeploymentTransitionPlan)
    (documents : DeploymentDocuments) (target : LifecycleState) : Prop where
  planned : documents.toDeploymentTransitionPlan = plan
  source : plan.intent.sourceManifest = some documents.sourceManifest
  recovery : plan.intent.lifecycleRecovery = some documents.recovery
  sourceObserved : documents.recovery.sourceObservedState = some documents.sourceObservedState
  history : job.dispatch.deploymentIds = some documents.history
  sourceDeployment : documents.sourceDeploymentDigest = job.expectedSource.deploymentDigest
  sourceReleaseTree : documents.sourceReleaseTreeDigest = job.dispatch.sourceReleaseTreeDigest
  valid : ∀ d ∈ documents.contracts, ValidContract host.encoding d
  operation : job.request.operation ∈ [Operation.deploy, .import, .rollback]
  lifecycle : lifecycleMatrix job.request.operation documents.sourceManifest.spec.desiredState =
    some target
  agreement : DeploymentAgreement host.encoding job documents target

theorem validateDeploymentRelationships_eq_ok {job : AuthorizationJob}
    {documents : DeploymentDocuments} {u : Unit} :
    validateDeploymentRelationships host job documents = .ok u ↔
      job.request.operation ∈ [Operation.deploy, .import, .rollback] ∧ ∃ target,
        lifecycleMatrix job.request.operation documents.sourceManifest.spec.desiredState =
            some target ∧
          DeploymentAgreement host.encoding job documents target ∧
            identitiesCompared job documents.toTransitionPlan
              [documents.sourceManifest.metadata.id, documents.sourceObservedState.tenantId] =
                true := by
  unfold validateDeploymentRelationships deploymentOperation
  simp only [bind_eq_ok, require_eq_ok, decide_eq_true_eq, pure_eq_ok]
  constructor
  · rintro ⟨operation, ⟨-, hoperation, rfl⟩, h⟩
    split at h
    · cases h
    · rename_i target htarget
      rw [require_eq_ok, Bool.and_eq_true, decide_eq_true_eq] at h
      exact ⟨hoperation, target, htarget, h⟩
  · rintro ⟨hoperation, target, htarget, h⟩
    refine ⟨_, ⟨(), hoperation, rfl⟩, ?_⟩
    rw [htarget]
    simp only
    rw [require_eq_ok, Bool.and_eq_true, decide_eq_true_eq]
    exact h

theorem freezeDeployment_eq_ok {job : AuthorizationJob} {plan : DeploymentTransitionPlan}
    {documents : DeploymentDocuments} :
    freezeDeployment host job plan = .ok documents ↔
      (∃ target, DeploymentChecked host job plan documents target) ∧
        identitiesCompared job plan.toTransitionPlan
          [documents.sourceManifest.metadata.id, documents.sourceObservedState.tenantId] =
            true := by
  unfold freezeDeployment
  constructor
  · intro h
    split at h
    · rename_i sourceManifest recovery history hsource hrecovery hhistory
      split at h
      · cases h
      · rename_i sourceObserved hobserved
        simp only [bind_eq_ok, validateAll_eq_ok, validateDeploymentRelationships_eq_ok,
          pure_eq_ok] at h
        obtain ⟨-, hvalid, -, ⟨hoperation, target, htarget, hagreement, hcompared⟩, rfl⟩ := h
        exact ⟨⟨target, rfl, hsource, hrecovery, hobserved, hhistory, rfl, rfl, hvalid, hoperation,
          htarget, hagreement⟩, hcompared⟩
    · cases h
  · rintro ⟨⟨target, h⟩, hcompared⟩
    obtain ⟨documentsPlan, sourceManifest, sourceObserved, recovery, history, _, _⟩ := documents
    obtain ⟨rfl, hsource, hrecovery, hobserved, hhistory, rfl, rfl, hvalid, hoperation, htarget,
      hagreement⟩ := h
    simp only at hsource hrecovery hobserved hhistory
    simp only [hsource, hrecovery, hhistory, hobserved, bind_eq_ok, validateAll_eq_ok,
      validateDeploymentRelationships_eq_ok, pure_eq_ok]
    exact ⟨(), hvalid, (), ⟨hoperation, target, htarget, hagreement, hcompared⟩, trivial⟩

end Validation

end StaticHostAgent.Commit
