import StaticHostAgent.Commit.Agreement

/-!
# The documents of a create and of a route commit

The plans of the transitions that change no release, and the relationships their documents must
have.
-/

set_option autoImplicit false

namespace StaticHostAgent.Commit

open Library Contracts Host Audit State

/-! ## Route -/

/-- The plan with its recovery authority. -/
structure RouteDocuments extends TransitionPlan where
  sourceManifest : Site
  sourceObservedState : TenantObservedState
  recovery : LifecycleRecovery

/-- The source with the new slug of a rename, otherwise with the target state. -/
def routeCandidate (operation : Operation) (slug : Option String) (target : LifecycleState)
    (source : Site) : Site :=
  if operation = .rename then
    { source with metadata := { source.metadata with slug := slug.getD source.metadata.slug } }
  else { source with spec := { source.spec with desiredState := target } }

section Route

variable (e : Encoding)

/-- What the documents of a route commit must agree on, apart from the identities. A reconcile may
start from an observed state that is not the source's. -/
@[mk_iff]
structure RouteAgreement (job : AuthorizationJob) (documents : RouteDocuments)
    (target : LifecycleState) : Prop where
  jobBound : JobAgreement e job documents.sourceManifest
  intentBound : IntentAgreement e job.request.operation documents.sourceManifest
    documents.toTransitionPlan
  renamed : job.request.operation = .rename → job.request.slug.isSome = true
  candidate : documents.manifest =
    routeCandidate job.request.operation job.request.slug target documents.sourceManifest
  recoveryBound : RecoveryAgreement e job documents.recovery documents.sourceObservedState target
    documents.toTransitionPlan
  source : job.request.operation ≠ .reconcile →
    SourceAgreement e documents.recovery documents.sourceManifest documents.sourceObservedState
  requestTenant : job.request.tenantId = some documents.tenantId
  terminal : TerminalAgreement e job job.request.operation documents.toTransitionPlan
  resultOrigin : documents.result.canonicalOrigin =
    some documents.sourceManifest.metadata.canonicalOrigin

variable {e}

instance (job : AuthorizationJob) (documents : RouteDocuments) (target : LifecycleState) :
    Decidable (RouteAgreement e job documents target) :=
  decidable_of_iff _ (routeAgreement_iff e job documents target).symm

end Route

section RouteValidation

variable (host : StateHost)

def routeOperation (operation : Operation) : Except AgentError Operation := do
  require (decide (operation ∈ [Operation.suspend, .resume, .rename, .reconcile]))
    (.commit .route "route finalization received another operation")
  pure operation

def validateRouteRelationships (job : AuthorizationJob) (documents : RouteDocuments) :
    Except AgentError Unit := do
  let operation ← routeOperation job.request.operation
  match lifecycleMatrix operation documents.sourceManifest.spec.desiredState with
  | none => throw (.commit .route "route operation is not valid for its source lifecycle")
  | some target =>
      require (decide (RouteAgreement host.encoding job documents target) &&
          identitiesCompared job documents.toTransitionPlan
            [documents.sourceManifest.metadata.id, documents.sourceObservedState.tenantId])
        (.commit .route "route terminal documents disagree")

/-- The documents of a plan that must be valid contracts. -/
def RouteDocuments.contracts (documents : RouteDocuments) : List Document :=
  [.site documents.sourceManifest, .site documents.manifest,
    .tenantObservedState documents.sourceObservedState,
    .tenantObservedState documents.observedState, .transactionIntent documents.intent,
    .operationResult documents.result, .auditEntry documents.auditEntry]

/-- The plan with its recovery authority, every document of it valid and in agreement. -/
def freezeRoute (job : AuthorizationJob) (plan : TransitionPlan) :
    Except AgentError RouteDocuments := do
  match plan.intent.sourceManifest, plan.intent.lifecycleRecovery with
  | some sourceManifest, some recovery =>
      match recovery.sourceObservedState with
      | none =>
          throw (.commit .route "route source observed-state authority is malformed")
      | some sourceObserved => do
          let documents : RouteDocuments :=
            { plan with
              sourceManifest := sourceManifest
              sourceObservedState := sourceObserved
              recovery := recovery }
          validateAll host documents.contracts
          validateRouteRelationships host job documents
          pure documents
  | _, _ => throw (.commit .route "route recovery authority is malformed")

/-- What the validator of routes has checked, apart from the identities. -/
structure RouteChecked (job : AuthorizationJob) (plan : TransitionPlan)
    (documents : RouteDocuments) (target : LifecycleState) : Prop where
  planned : documents.toTransitionPlan = plan
  source : plan.intent.sourceManifest = some documents.sourceManifest
  recovery : plan.intent.lifecycleRecovery = some documents.recovery
  sourceObserved : documents.recovery.sourceObservedState = some documents.sourceObservedState
  valid : ∀ d ∈ documents.contracts, ValidContract host.encoding d
  operation : job.request.operation ∈ [Operation.suspend, .resume, .rename, .reconcile]
  lifecycle : lifecycleMatrix job.request.operation documents.sourceManifest.spec.desiredState =
    some target
  agreement : RouteAgreement host.encoding job documents target

theorem validateRouteRelationships_eq_ok {job : AuthorizationJob} {documents : RouteDocuments}
    {u : Unit} :
    validateRouteRelationships host job documents = .ok u ↔
      job.request.operation ∈ [Operation.suspend, .resume, .rename, .reconcile] ∧ ∃ target,
        lifecycleMatrix job.request.operation documents.sourceManifest.spec.desiredState =
            some target ∧
          RouteAgreement host.encoding job documents target ∧
            identitiesCompared job documents.toTransitionPlan
              [documents.sourceManifest.metadata.id, documents.sourceObservedState.tenantId] =
                true := by
  unfold validateRouteRelationships routeOperation
  simp only [bind_eq_ok, require_eq_ok, decide_eq_true_eq, pure_eq_ok]
  constructor
  · rintro ⟨operation, ⟨-, hoperation, rfl⟩, h⟩
    split at h
    · cases h
    · rename_i target htarget
      rw [require_eq_ok, Bool.and_eq_true, decide_eq_true_eq] at h
      exact ⟨hoperation, target, htarget, h⟩
  · rintro ⟨hoperation, target, htarget, h⟩
    refine ⟨_, ⟨(), hoperation, rfl⟩, ?_⟩
    rw [htarget]
    simp only
    rw [require_eq_ok, Bool.and_eq_true, decide_eq_true_eq]
    exact h

theorem freezeRoute_eq_ok {job : AuthorizationJob} {plan : TransitionPlan}
    {documents : RouteDocuments} :
    freezeRoute host job plan = .ok documents ↔
      (∃ target, RouteChecked host job plan documents target) ∧
        identitiesCompared job plan
          [documents.sourceManifest.metadata.id, documents.sourceObservedState.tenantId] =
            true := by
  unfold freezeRoute
  constructor
  · intro h
    split at h
    · rename_i sourceManifest recovery hsource hrecovery
      split at h
      · cases h
      · rename_i sourceObserved hobserved
        simp only [bind_eq_ok, validateAll_eq_ok, validateRouteRelationships_eq_ok,
          pure_eq_ok] at h
        obtain ⟨-, hvalid, -, ⟨hoperation, target, htarget, hagreement, hcompared⟩, rfl⟩ := h
        exact ⟨⟨target, rfl, hsource, hrecovery, hobserved, hvalid, hoperation, htarget,
          hagreement⟩, hcompared⟩
    · cases h
  · rintro ⟨⟨target, h⟩, hcompared⟩
    obtain ⟨documentsPlan, sourceManifest, sourceObserved, recovery⟩ := documents
    obtain ⟨rfl, hsource, hrecovery, hobserved, hvalid, hoperation, htarget, hagreement⟩ := h
    simp only at hsource hrecovery hobserved
    simp only [hsource, hrecovery, hobserved, bind_eq_ok, validateAll_eq_ok,
      validateRouteRelationships_eq_ok, pure_eq_ok]
    exact ⟨(), hvalid, (), ⟨hoperation, target, htarget, hagreement, hcompared⟩, trivial⟩

end RouteValidation

/-! ## Create -/

section Create

variable (e : Encoding)

/-- What the documents of a create commit must agree on, apart from the identities. -/
@[mk_iff]
structure CreateAgreement (job : AuthorizationJob) (recovery : LifecycleRecovery)
    (plan : TransitionPlan) : Prop where
  phase : job.phase ∈ [JobPhase.claimed, .completed]
  operation : job.request.operation = .create
  slug : some plan.manifest.metadata.slug = job.request.slug
  desiredState : plan.manifest.spec.desiredState = .undeployed
  quotas : some plan.manifest.spec.quotas = job.request.quotas
  undeployed : plan.manifest.spec.desiredDeployment = none
  observedDigest : plan.observedState.desiredManifestDigest = manifestDigest e plan.manifest
  observed : plan.observedState.observedState = .undeployed
  noActive : plan.observedState.activeDeploymentId = none
  noRuntime : plan.observedState.runtimeGenerationId = none
  intentOperation : plan.intent.operation = .create
  intentPhase : plan.intent.phase = .prepared
  noSource : plan.intent.sourceManifest = none
  noSourceDigest : plan.intent.sourceManifestDigest = none
  candidateDigest : plan.intent.candidateManifestDigest = some (manifestDigest e plan.manifest)
  sourceObserved : recovery.sourceObservedState = none
  sourceRoutes : recovery.sourceRouteSet = .absent
  candidateObserved : recovery.candidateObservedState = some plan.observedState
  candidateRoutes : recovery.candidateRouteSet = .absent
  runtimes : recovery.sourceRuntimeGenerationId ≠ recovery.candidateRuntimeGenerationId
  terminal : TerminalAgreement e job .create plan

variable {e}

instance (job : AuthorizationJob) (recovery : LifecycleRecovery) (plan : TransitionPlan) :
    Decidable (CreateAgreement e job recovery plan) :=
  decidable_of_iff _ (createAgreement_iff e job recovery plan).symm

end Create

/-- The documents of a create plan that must be valid contracts. -/
def TransitionPlan.contracts (plan : TransitionPlan) : List Document :=
  [.site plan.manifest, .tenantObservedState plan.observedState, .transactionIntent plan.intent,
    .operationResult plan.result, .auditEntry plan.auditEntry]

/-- Every document of the plan is valid and in agreement. -/
def freezeCreate (host : StateHost) (job : AuthorizationJob) (plan : TransitionPlan) :
    Except AgentError TransitionPlan := do
  validateAll host plan.contracts
  match plan.intent.lifecycleRecovery with
  | none => throw (.commit .create "create terminal binding is malformed")
  | some recovery => do
      require (decide (CreateAgreement host.encoding job recovery plan) &&
          identitiesCompared job plan [plan.manifest.metadata.id])
        (.commit .create "create terminal documents disagree")
      pure plan

/-- What the validator of creates has checked, apart from the identities. -/
structure CreateChecked (host : StateHost) (job : AuthorizationJob) (plan : TransitionPlan)
    (recovery : LifecycleRecovery) : Prop where
  recorded : plan.intent.lifecycleRecovery = some recovery
  valid : ∀ d ∈ plan.contracts, ValidContract host.encoding d
  agreement : CreateAgreement host.encoding job recovery plan

theorem freezeCreate_eq_ok {host : StateHost} {job : AuthorizationJob}
    {plan documents : TransitionPlan} :
    freezeCreate host job plan = .ok documents ↔
      ((∃ recovery, CreateChecked host job plan recovery) ∧
        identitiesCompared job plan [plan.manifest.metadata.id] = true) ∧ documents = plan := by
  unfold freezeCreate
  simp only [bind_eq_ok, validateAll_eq_ok]
  constructor
  · rintro ⟨-, hvalid, h⟩
    split at h
    · cases h
    · rename_i recovery hrecovery
      simp only [bind_eq_ok, require_eq_ok, Bool.and_eq_true, decide_eq_true_eq, pure_eq_ok] at h
      obtain ⟨-, ⟨hagreement, hcompared⟩, rfl⟩ := h
      exact ⟨⟨⟨recovery, hrecovery, hvalid, hagreement⟩, hcompared⟩, rfl⟩
  · rintro ⟨⟨⟨recovery, hrecovery, hvalid, hagreement⟩, hcompared⟩, rfl⟩
    refine ⟨(), hvalid, ?_⟩
    rw [hrecovery]
    simp only [bind_eq_ok, require_eq_ok, Bool.and_eq_true, decide_eq_true_eq, pure_eq_ok]
    exact ⟨(), ⟨hagreement, hcompared⟩, trivial⟩

end StaticHostAgent.Commit
