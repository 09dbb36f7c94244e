import StaticHostAgent.Contracts.Bindings
import StaticHostAgent.State.MeteredHost
import StaticHostAgent.Commit.DeploymentDocuments
import StaticHostAgent.Commit.RouteDocuments

/-!
# Identity agreement of terminal documents

Of the plans that every other check accepts and whose documents name two tenants or two
correlations, `disagreement_verdicts` says exactly which ones the validators reject. The contract of
the intent binds the manifests and the observed states, so that the chained comparison of the tenants
never rejects anything, and the plan's and the audit entry's tenant stay free.
-/

set_option autoImplicit false

namespace StaticHostAgent.Commit

open Library Contracts Host Audit State

/-- A plan of one of the paths that validate identities. -/
inductive TerminalPlan where
  | create (plan : TransitionPlan)
  | route (plan : TransitionPlan)
  | deployment (plan : DeploymentTransitionPlan)

namespace TerminalPlan

/-- The members every plan has. -/
def transition : TerminalPlan → TransitionPlan
  | create plan => plan
  | route plan => plan
  | deployment plan => plan.toTransitionPlan

/-- The source manifest of a plan that has one. -/
def sourceManifest : TerminalPlan → Option Site
  | create _ => none
  | route plan => plan.intent.sourceManifest
  | deployment plan => plan.intent.sourceManifest

variable (host : StateHost) (job : AuthorizationJob)

/-- The validator of the path accepts the plan for the job. -/
def Accepted : TerminalPlan → Prop
  | create plan => ∃ documents, freezeCreate host job plan = .ok documents
  | route plan => ∃ documents, freezeRoute host job plan = .ok documents
  | deployment plan => ∃ documents, freezeDeployment host job plan = .ok documents

/-- Every check of the validator passes that is not one of the two chained comparisons. -/
def Checked : TerminalPlan → Prop
  | create plan => ∃ recovery, CreateChecked host job plan recovery
  | route plan => ∃ documents target, RouteChecked host job plan documents target
  | deployment plan => ∃ documents target, DeploymentChecked host job plan documents target

/-- One tenant and one correlation throughout the documents. -/
structure IdentitiesAgree (p : TerminalPlan) : Prop where
  manifest : p.transition.manifest.metadata.id = p.transition.tenantId
  source : ∀ m, p.sourceManifest = some m → m.metadata.id = p.transition.tenantId
  intent : p.transition.intent.tenantId = p.transition.tenantId
  result : p.transition.result.tenantId = some p.transition.tenantId
  audit : p.transition.auditEntry.tenantId = some p.transition.tenantId
  requestCorrelation : p.transition.intent.correlationId = job.request.correlationId
  resultCorrelation : p.transition.result.correlationId = job.request.correlationId
  auditCorrelation : p.transition.auditEntry.correlationId = job.request.correlationId

/-- The identities that no other check binds. -/
structure FreeIdentitiesAgree (p : TerminalPlan) : Prop where
  plan : p.transition.tenantId = p.transition.intent.tenantId
  manifest : p.transition.manifest.metadata.id = p.transition.intent.tenantId
  audit : p.transition.auditEntry.tenantId = some p.transition.intent.tenantId
  correlations : ∀ c ∈ correlationIds job p.transition, c = job.request.correlationId

variable {host job}

/-- The identities that the contracts of the intent and of the result bind. -/
structure Bound (p : TerminalPlan) : Prop where
  source : ∀ m, p.sourceManifest = some m → m.metadata.id = p.transition.intent.tenantId
  result : p.transition.result.tenantId = some p.transition.manifest.metadata.id

theorem Bound.agree_iff {p : TerminalPlan} (h : p.Bound) :
    p.IdentitiesAgree job ↔ p.FreeIdentitiesAgree job := by
  constructor
  · intro hagree
    refine ⟨hagree.intent.symm, hagree.manifest.trans hagree.intent.symm,
      hagree.audit.trans (congrArg some hagree.intent.symm), fun c hc => ?_⟩
    simp only [correlationIds, List.mem_cons, List.not_mem_nil, or_false] at hc
    rcases hc with rfl | rfl | rfl | rfl
    · exact hagree.resultCorrelation
    · rfl
    · exact hagree.requestCorrelation
    · exact hagree.auditCorrelation
  · intro hfree
    have hcorrelation : ∀ c ∈ correlationIds job p.transition, c = job.request.correlationId :=
      hfree.correlations
    simp only [correlationIds, List.mem_cons, List.not_mem_nil, or_false] at hcorrelation
    refine ⟨hfree.manifest.trans hfree.plan.symm, fun m hm => (h.source m hm).trans hfree.plan.symm,
      hfree.plan.symm, ?_, hfree.audit.trans (congrArg some hfree.plan.symm),
      hcorrelation _ (Or.inr (Or.inr (Or.inl rfl))), hcorrelation _ (Or.inl rfl),
      hcorrelation _ (Or.inr (Or.inr (Or.inr rfl)))⟩
    rw [h.result, hfree.manifest, hfree.plan]

/-- A source with the intent's tenant makes the comparison of the tenants pass. -/
theorem chained_sources_pass {plan : TransitionPlan} {t : Uuid7} :
    chainedNe (tenantIdentities plan [t, t]) = false :=
  chainedNe_eq_false_of_neighbours (some t) [some plan.tenantId] _

theorem create_bound {plan : TransitionPlan} {recovery : LifecycleRecovery}
    (h : CreateChecked host job plan recovery) : (create plan).Bound ∧
      chainedNe (tenantIdentities plan [plan.manifest.metadata.id]) = false := by
  have hintent := h.valid (.transactionIntent plan.intent) (by simp [TransitionPlan.contracts])
  have hresult := h.valid (.operationResult plan.result) (by simp [TransitionPlan.contracts])
  have hoperation := h.agreement.intentOperation
  have hrecovery := intent_recovery hintent (by rw [hoperation]; decide)
    (by rw [hoperation]; decide) h.recorded
  have hobserved := (recovery_tenants hrecovery).2 _ h.agreement.candidateObserved
  refine ⟨⟨fun m hm => (nomatch hm), result_tenant hresult h.agreement.terminal.resultManifest⟩, ?_⟩
  unfold tenantIdentities
  rw [hobserved]
  exact chainedNe_eq_false_of_neighbours (some plan.intent.tenantId)
    [some plan.tenantId, some plan.manifest.metadata.id] _

theorem route_bound {plan : TransitionPlan} {documents : RouteDocuments} {target : LifecycleState}
    (h : RouteChecked host job plan documents target) : (route plan).Bound ∧
      chainedNe (tenantIdentities plan [documents.sourceManifest.metadata.id,
        documents.sourceObservedState.tenantId]) = false := by
  obtain rfl := h.planned
  have hoperation : documents.intent.operation ∉ [Operation.create, .archive, .export] := by
    rw [h.agreement.intentBound.operation]
    exact (by decide : ∀ o ∈ [Operation.suspend, .resume, .rename, .reconcile],
      o ∉ [Operation.create, .archive, .export]) _ h.operation
  obtain ⟨hsource, hobserved⟩ := intent_sources_tenant
    (h.valid (.transactionIntent documents.intent) (by simp [RouteDocuments.contracts]))
    h.agreement.intentBound.version hoperation h.source h.recovery h.sourceObserved
  refine ⟨⟨fun m hm => ?_, result_tenant
    (h.valid (.operationResult documents.result) (by simp [RouteDocuments.contracts]))
    h.agreement.terminal.resultManifest⟩, ?_⟩
  · rw [Option.some.inj (hm.symm.trans h.source)]
    exact hsource
  · rw [hsource, hobserved]
    exact chained_sources_pass

theorem deployment_bound {plan : DeploymentTransitionPlan} {documents : DeploymentDocuments}
    {target : LifecycleState} (h : DeploymentChecked host job plan documents target) :
    (deployment plan).Bound ∧
      chainedNe (tenantIdentities plan.toTransitionPlan [documents.sourceManifest.metadata.id,
        documents.sourceObservedState.tenantId]) = false := by
  obtain rfl := h.planned
  have hoperation : documents.intent.operation ∉ [Operation.create, .archive, .export] := by
    rw [h.agreement.intentBound.operation]
    exact (by decide : ∀ o ∈ [Operation.deploy, .import, .rollback],
      o ∉ [Operation.create, .archive, .export]) _ h.operation
  obtain ⟨hsource, hobserved⟩ := intent_sources_tenant
    (h.valid (.transactionIntent documents.intent) (by simp [DeploymentDocuments.contracts]))
    h.agreement.intentBound.version hoperation h.source h.recovery h.sourceObserved
  refine ⟨⟨fun m hm => ?_, result_tenant
    (h.valid (.operationResult documents.result) (by simp [DeploymentDocuments.contracts]))
    h.agreement.terminal.resultManifest⟩, ?_⟩
  · rw [Option.some.inj (hm.symm.trans h.source)]
    exact hsource
  · rw [hsource, hobserved]
    exact chained_sources_pass

theorem Checked.bound {p : TerminalPlan} (h : p.Checked host job) : p.Bound := by
  cases p with
  | create plan => exact (create_bound h.choose_spec).1
  | route plan =>
      obtain ⟨documents, target, hchecked⟩ := h
      exact (route_bound hchecked).1
  | deployment plan =>
      obtain ⟨documents, target, hchecked⟩ := h
      exact (deployment_bound hchecked).1

/-- With the other checks passed, the correlations alone decide. -/
theorem accepted_iff (p : TerminalPlan) : p.Accepted host job ↔
    p.Checked host job ∧ chainedNe (correlationIds job p.transition) = false := by
  cases p with
  | create plan =>
      simp only [Accepted, Checked, freezeCreate_eq_ok, identitiesCompared, Bool.and_eq_true,
        Bool.not_eq_true', exists_eq_right]
      constructor
      · rintro ⟨hchecked, -, hcorrelations⟩
        exact ⟨hchecked, hcorrelations⟩
      · rintro ⟨⟨recovery, h⟩, hcorrelations⟩
        exact ⟨⟨recovery, h⟩, (create_bound h).2, hcorrelations⟩
  | route plan =>
      simp only [Accepted, Checked, freezeRoute_eq_ok, identitiesCompared, Bool.and_eq_true,
        Bool.not_eq_true']
      constructor
      · rintro ⟨documents, ⟨target, h⟩, -, hcorrelations⟩
        exact ⟨⟨documents, target, h⟩, hcorrelations⟩
      · rintro ⟨⟨documents, target, h⟩, hcorrelations⟩
        exact ⟨documents, ⟨target, h⟩, (route_bound h).2, hcorrelations⟩
  | deployment plan =>
      simp only [Accepted, Checked, freezeDeployment_eq_ok, identitiesCompared, Bool.and_eq_true,
        Bool.not_eq_true']
      constructor
      · rintro ⟨documents, ⟨target, h⟩, -, hcorrelations⟩
        exact ⟨⟨documents, target, h⟩, hcorrelations⟩
      · rintro ⟨⟨documents, target, h⟩, hcorrelations⟩
        exact ⟨documents, ⟨target, h⟩, (deployment_bound h).2, hcorrelations⟩

/-- The result and the request, the request and the intent, and the intent and the audit entry name
different correlations. -/
structure NeighboursDiffer (job : AuthorizationJob) (p : TerminalPlan) : Prop where
  result : p.transition.result.correlationId ≠ job.request.correlationId
  intent : job.request.correlationId ≠ p.transition.intent.correlationId
  audit : p.transition.intent.correlationId ≠ p.transition.auditEntry.correlationId

theorem chainedNe_correlationIds {p : TerminalPlan} :
    chainedNe (correlationIds job p.transition) = true ↔ p.NeighboursDiffer job := by
  simp only [correlationIds, chainedNe, Bool.and_true, Bool.and_eq_true, decide_eq_true_eq]
  constructor
  · rintro ⟨hresult, hintent, haudit⟩
    exact ⟨hresult, hintent, haudit⟩
  · rintro ⟨hresult, hintent, haudit⟩
    exact ⟨hresult, hintent, haudit⟩

/-- With the other checks passed, a plan is rejected for its correlations only. -/
theorem Checked.rejected_iff {p : TerminalPlan} (h : p.Checked host job) :
    ¬ p.Accepted host job ↔ p.NeighboursDiffer job := by
  rw [accepted_iff, ← chainedNe_correlationIds, ← Bool.not_eq_false]
  constructor
  · intro hrejected hchain
    exact hrejected ⟨h, hchain⟩
  · rintro hchain ⟨-, hpasses⟩
    exact hchain hpasses

/-- Which plans whose identities disagree the validator of the path rejects. -/
structure DisagreementVerdicts (host : StateHost) (job : AuthorizationJob) (p : TerminalPlan) :
    Prop where
  /-- Of those that pass every other check, exactly the ones whose neighbouring correlations all
  differ. -/
  rejected : p.Checked host job → ¬ p.IdentitiesAgree job →
    (¬ p.Accepted host job ↔ p.NeighboursDiffer job)
  /-- None for its tenants: with one correlation throughout, the plan is accepted. -/
  tenants : p.Checked host job → (∀ c ∈ correlationIds job p.transition,
    c = job.request.correlationId) → p.Accepted host job
  /-- The identities that the other checks leave free. -/
  free : p.Checked host job → (p.IdentitiesAgree job ↔ p.FreeIdentitiesAgree job)
  /-- And every one that fails another check. -/
  other : ¬ p.Checked host job → ¬ p.Accepted host job

theorem disagreement_verdicts (host : StateHost) (job : AuthorizationJob) (p : TerminalPlan) :
    DisagreementVerdicts host job p where
  rejected := fun hchecked _ => hchecked.rejected_iff
  tenants := by
    intro hchecked hcorrelations
    by_contra hrejected
    refine (hchecked.rejected_iff.1 hrejected).result ?_
    exact hcorrelations _ (by simp [correlationIds])
  free := fun hchecked => hchecked.bound.agree_iff
  other := fun hunchecked haccepted => hunchecked (accepted_iff p |>.1 haccepted).1

end TerminalPlan

/-! ## A suspension that names two tenants -/

section Suspension

def suspendedSite : Site := sampleSite .suspended (some (sampleId 5))

def activeSite : Site := sampleSite .active (some (sampleId 5))

def suspendRequest : OperationRequest :=
  ⟨.suspend, sampleCorrelation, some sampleTenant, none, none, none, none⟩

def activeObserved : TenantObservedState :=
  sampleObserved (placeDigest .manifest 0) .active (some (sampleId 5)) (some (sampleId 6))

def suspendedObserved : TenantObservedState :=
  sampleObserved (placeDigest .manifest 1) .suspended (some (sampleId 5)) none

def suspendIntent : TransactionIntent :=
  ⟨true, sampleIntentId, sampleTenant, sampleCorrelation, .suspend, none,
    some ⟨some activeObserved, sampleId 6, .both, some suspendedObserved, sampleId 7, .absent⟩,
    some activeSite, some (placeDigest .manifest 0), some suspendedSite,
    some (placeDigest .manifest 1), .prepared, none, sampleTime⟩

/-- The entry that the suspension should have, with the tenant and the correlation of another. -/
def foreignEntry : AuditEntry :=
  { sampleEntry .suspend (placeDigest .result 3) with
    tenantId := some (sampleId 8), correlationId := sampleId 9 }

def suspendPlan : TransitionPlan :=
  ⟨sampleTenant, sampleIntentId, suspendedSite, suspendedObserved, suspendIntent,
    sampleResult .suspend suspendedSite, foreignEntry⟩

def suspendJob : AuthorizationJob :=
  ⟨.staticJobV2, sampleJobId, "operator", suspendRequest, placeDigest .request 2, none,
    ⟨false, some .active, some (placeDigest .manifest 0), some ⟨.deploymentRecord, 0⟩, none,
      ⟨.platformState, 0⟩, none⟩,
    some ⟨activeSite, none⟩, sampleTime, .claimed, some true, none,
    { Dispatch.none with
      sourceObservedState := some activeObserved
      sourceRouteSet := some .both
      sourceRuntimeGenerationId := some (sampleId 6) }⟩

noncomputable def suspendHost : StateHost :=
  meteredHost (tableAuditHost [.site activeSite, .site suspendedSite,
    .operationRequest suspendRequest, .operationResult (sampleResult .suspend suspendedSite),
    .tenantObservedState activeObserved, .tenantObservedState suspendedObserved,
    .transactionIntent suspendIntent, .auditEntry foreignEntry, .authorizationJob suspendJob]) 0 0

/-- The audit entry may name another tenant and another correlation than all other documents. -/
theorem identities_may_differ :
    ¬ ∀ (host : StateHost) (job : AuthorizationJob) (p : TerminalPlan),
      ValidContract host.encoding (.authorizationJob job) → p.Accepted host job →
        p.IdentitiesAgree job := by
  intro h
  have haccepted : (freezeRoute suspendHost suspendJob suspendPlan).isOk = true := by
    rfl
  have hagree := h suspendHost suspendJob (.route suspendPlan) (by decide) (by
    unfold TerminalPlan.Accepted
    cases hfreeze : freezeRoute suspendHost suspendJob suspendPlan with
    | ok documents => exact ⟨documents, hfreeze⟩
    | error error =>
        rw [hfreeze] at haccepted
        cases haccepted)
  exact absurd hagree.audit (by decide)

end Suspension

end StaticHostAgent.Commit
