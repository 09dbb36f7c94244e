import StaticHostAgent.Activation.Runs
import StaticHostAgent.Commit.Identities

/-!
# Activations end on one of two generations

The runs of both activations, put together; a run of the route activation that goes back to the
source behind the first write of its commit; and a run of the archive activation that goes through.
-/

set_option autoImplicit false

namespace StaticHostAgent.Activation

open Library Contracts Host State Commit

/-- All runs of all activations keep to their two generations. An archive activation never goes back
once its commit has started, a route activation does not unless one of its runs is disturbed. -/
structure ActivationSafe (host : ActivationHost) : Prop where
  route : ∀ (prepared : PreparedRouteTransition) (source : CaddyGenerationManifest)
    (start : ActivationState), RouteStart host prepared source start →
      TwoGenerations (activateRouteTransition host prepared) source prepared.candidateManifest
        (RouteUndisturbed host prepared) start
  archive : ∀ (prepared : PreparedArchiveTransition) (source : CaddyGenerationManifest)
    (start : ActivationState), ArchiveStart host prepared source start →
      TwoGenerations (activateArchiveTransition host prepared) source prepared.candidateManifest
        (fun _ => True) start

theorem activations_end_on_one_generation (host : ActivationHost) : ActivationSafe host :=
  ⟨fun _ _ _ hstart => hstart.twoGenerations, fun _ _ _ hstart => hstart.twoGenerations⟩

/-! ## A suspension that goes back -/

section Suspension

/-- A generation that differs from the others in its configuration. -/
def suspensionGeneration (n : Fin (2 ^ 48)) (configuration : Sha256) : CaddyGenerationManifest :=
  ⟨sampleId n, 0, ⟨0, 0⟩, ⟨0, 0⟩, ⟨0, configuration⟩, ⟨0, 0⟩⟩

def suspensionEntry : AuditEntry := sampleEntry .suspend (placeDigest .result 3)

noncomputable def suspensionHost : ActivationHost where
  toStateHost := meteredHost (tableAuditHost [.site activeSite, .site suspendedSite,
    .operationRequest suspendRequest, .operationResult (sampleResult .suspend suspendedSite),
    .tenantObservedState activeObserved, .tenantObservedState suspendedObserved,
    .transactionIntent suspendIntent, .auditEntry suspensionEntry, .authorizationJob suspendJob,
    .authorizationJob (completedJob suspendJob)]) (2 ^ 40) 0
  generations i :=
    if i = sampleId 6 then some (suspensionGeneration 6 6)
    else if i = sampleId 7 then some (suspensionGeneration 7 7) else none

def suspensionPrepared : PreparedRouteTransition :=
  ⟨suspendJob, { suspendPlan with auditEntry := suspensionEntry }, suspensionGeneration 7 7,
    defaultHostCapacityLimits⟩

/-- The claimed job, its intent and the state of the active tenant. -/
def suspensionStore : Store where
  files := (((Directory.empty.insert (.desired sampleTenant) (.site activeSite)).insert
    (.observed sampleTenant) (.tenantObservedState activeObserved)).insert
    (.job sampleJobId) (.authorizationJob suspendJob)).insert
    (.intent sampleIntentId) (.transactionIntent suspendIntent)
  tenants := Directory.empty
  platformState := none
  releases := Directory.empty
  audit := ⟨none, Directory.empty⟩

def suspensionStart : ActivationState := ⟨suspensionStore, sampleId 6, 6, 0, fun _ => .succeeds⟩

/-- The first run crashed behind the write of the desired state. -/
noncomputable def suspensionCrashed : ActivationState :=
  (activateRouteTransition suspensionHost suspensionPrepared
    suspensionStart).trace[2]?.getD suspensionStart

/-- In the second run the server does not answer when the candidate is verified. -/
def suspensionAnswers : Nat → Answer := fun n => if n = 4 then .refuses .osError else .succeeds

theorem suspension_starts : RouteStart suspensionHost suspensionPrepared
    (suspensionGeneration 6 6) suspensionStart where
  recovery := ⟨_, rfl, rfl⟩
  stored := by rfl
  intents := ⟨[sampleIntentId], by rfl, by decide⟩
  writes := rfl
  selected := ⟨rfl, rfl⟩

example : (activateRouteTransition suspensionHost suspensionPrepared suspensionStart).result =
    .ok ⟨suspendPlan.result, true⟩ := by decide +kernel

/-- A route activation may go back to its source behind the first write of its commit. -/
theorem routes_may_go_back :
    ¬ ∀ (host : ActivationHost) (prepared : PreparedRouteTransition)
      (source : CaddyGenerationManifest) (start : ActivationState),
      RouteStart host prepared source start →
        TwoGenerations (activateRouteTransition host prepared) source prepared.candidateManifest
          (fun _ => True) start := by
  intro h
  have htwo := h suspensionHost suspensionPrepared _ _ suspension_starts
  have hwrites : suspensionCrashed.writes = 1 := by rfl
  have hback : ((activateRouteTransition suspensionHost suspensionPrepared
      { suspensionCrashed with answers := suspensionAnswers }).state).active = sampleId 6 := by
    rfl
  have hlength : 2 < (activateRouteTransition suspensionHost suspensionPrepared
      suspensionStart).trace.length := by decide
  have hfirst : Resumed (activateRouteTransition suspensionHost suspensionPrepared)
      (fun _ => True) suspensionStart suspensionCrashed := by
    refine ⟨suspensionStart.answers, trivial, Or.inr (Or.inl ?_)⟩
    unfold suspensionCrashed
    rw [List.getElem?_eq_getElem hlength]
    exact List.getElem_mem hlength
  have hforward := htwo.forward suspensionCrashed _ (.single hfirst)
    (by rw [hwrites]; decide)
    (.single ⟨suspensionAnswers, trivial, Or.inr (Or.inr rfl)⟩)
  rw [hback] at hforward
  exact absurd hforward (by decide)

end Suspension

/-! ## An archive that goes through -/

namespace ArchiveRun

def candidate : Site := archivedManifest activeSite

def archive : ArchiveRecord := sampleArchive (placeDigest .manifest 1) sampleCorrelation

def construction : ArchiveConstructionIntent :=
  ⟨sampleId 12, sampleId 11, sampleJobId, "operator", sampleTenant, sampleCorrelation,
    placeDigest .manifest 0, placeDigest .manifest 1, placeDigest .deploymentRecord 4,
    archive.releaseTreeDigest, archive.bundleDigest, archive.bundleSize, archive.bucket,
    archive.key, some archive.versionId, .uploaded, sampleTime⟩

def request : OperationRequest := sampleRequest .archive none

def plan : ArchiveTransitionPlan where
  tenantId := sampleTenant
  intentId := sampleIntentId
  constructionIntentId := construction.intentId
  manifest := candidate
  observedState := sampleObserved (placeDigest .manifest 1) .archived none none
  archiveRecord := archive
  intent := { sampleIntent .archive none (some (activeSite, 0)) (some (candidate, 1)) with
    archiveRecovery :=
      some ⟨activeSite, activeObserved, sampleId 6, .both, candidate, archive, sampleId 7⟩ }
  result := { sampleResult .archive candidate with archiveRecord := some (some archive) }
  auditEntry := sampleEntry .archive (placeDigest .result 3)

def job : AuthorizationJob :=
  sampleJob request 2
    ⟨false, some .active, some (placeDigest .manifest 0), some (placeDigest .deploymentRecord 4),
      none, ⟨.platformState, 0⟩, none⟩
    (some ⟨activeSite, none⟩) (sampleDispatch activeObserved .both [sampleId 5] [])

noncomputable def host : ActivationHost where
  toStateHost := meteredHost (tableAuditHost [.site activeSite, .site candidate,
    .operationRequest request, .operationResult plan.result,
    .deploymentRecord (sampleDeployment 5 (sampleId 9)), .archiveRecord archive,
    .archiveConstructionIntent construction, .tenantObservedState activeObserved,
    .tenantObservedState plan.observedState, .transactionIntent plan.intent,
    .auditEntry plan.auditEntry, .authorizationJob job, .authorizationJob (completedJob job)])
    (2 ^ 50) 0
  generations := suspensionHost.generations

def prepared : PreparedArchiveTransition :=
  ⟨job, plan, suspensionGeneration 7 7, defaultHostCapacityLimits⟩

/-- The active tenant with its release, the claimed job and its two intents. -/
def store : Store :=
  sampleStore [(.desired sampleTenant, .site activeSite),
    (.observed sampleTenant, .tenantObservedState activeObserved),
    (.deployment sampleTenant (sampleId 5), .deploymentRecord (sampleDeployment 5 (sampleId 9))),
    (.job sampleJobId, .authorizationJob job),
    (.intent sampleIntentId, .transactionIntent plan.intent),
    (.intent (sampleId 12), .archiveConstructionIntent construction)] [sampleId 5]

def start : ActivationState := ⟨store, sampleId 6, 6, 0, fun _ => .succeeds⟩

theorem starts : ArchiveStart host prepared (suspensionGeneration 6 6) start where
  recovery := ⟨_, rfl, rfl⟩
  stored := by rfl
  unbound := by
    unfold RecordBound
    decide +kernel
  writes := rfl
  selected := ⟨rfl, rfl⟩

example : (activateArchiveTransition host prepared start).result = .ok ⟨plan.result, true⟩ := by
  decide +kernel

end ArchiveRun

end StaticHostAgent.Activation
