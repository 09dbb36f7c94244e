import StaticHostAgent.Commit.RouteDocuments
import StaticHostAgent.Commit.Terminal

/-!
# The route commit

Commit or replay one suspend, resume, rename or reconcile: replace the desired and the observed
state, append the audit entry, publish the result, complete the job and clear the intent.
-/

set_option autoImplicit false

namespace StaticHostAgent.Commit

open Library Contracts Host Audit State

/-- One exact result, and whether this run published it. -/
structure CommitOutcome where
  result : OperationResult
  created : Bool
  deriving DecidableEq

/-- Replace the desired or the observed state that was read. -/
def replaceState (host : StateHost) (record : StateRecordPath) (current candidate : Document) :
    Durable Store AgentError Unit := do
  let _ ← compareAndSwap host record (revision host current) candidate
  pure ()

section Route

variable (host : StateHost)

def routeSameJob : AuthorizationJob → Store → Except AgentError AuthorizationJob :=
  requireSameJob host .route withoutEvidence

def routeExactIntent (documents : RouteDocuments) : Store → Except AgentError ExactIntent :=
  requireExactIntent host .route documents.intentId documents.intent

/-- The result of a finished transition, or `none` while its intent is there. -/
def terminalRouteWithoutIntent (job : AuthorizationJob) (documents : RouteDocuments) (s : Store) :
    Except AgentError (Option OperationResult) :=
  terminalWithoutIntent host .route
    ⟨"nonterminal route transition lost its durable intent",
      "terminal route state disagrees with its plan", "terminal route state is incomplete",
      "terminal route audit entry is absent"⟩ job documents.toTransitionPlan s

structure RouteProgress where
  desired : Document
  observed : Document
  writeDesired : Bool
  writeObserved : Bool
  resultMissing : Bool

/-- The writes that remain. The observed state counts as missing also if it is the source's and the
planned one at once. -/
def routeWrites (job : AuthorizationJob) (documents : RouteDocuments) (p : RouteProgress) :
    List (Bool × Document) :=
  [(p.writeDesired, .site documents.manifest),
    (p.writeObserved, .tenantObservedState documents.observedState),
    (p.resultMissing, .operationResult documents.result),
    (decide (job.phase = .claimed), .authorizationJob (completedJob job))]

/-- The state is on the way of the transition, and what remains fits. -/
def admitRouteTransition (limits : HostCapacityLimits) (job : AuthorizationJob)
    (documents : RouteDocuments) (s : Store) : Except AgentError RouteProgress := do
  let desired ← readLocked host (.tenantDesired documents.tenantId) s
  let observed ← readLocked host (.tenantObserved documents.tenantId) s
  require (decide (desired ∈ [Document.site documents.sourceManifest, .site documents.manifest]))
    (.stateConflict "route desired state is outside recovery authority")
  require (decide (observed ∈ [Document.tenantObservedState documents.sourceObservedState,
      .tenantObservedState documents.observedState]))
    (.stateConflict "route observed state is outside recovery authority")
  let writeDesired := decide (desired = .site documents.sourceManifest) &&
    decide (desired ≠ .site documents.manifest)
  let writeObserved := decide (observed = .tenantObservedState documents.sourceObservedState)
  require (!(decide (observed = .tenantObservedState documents.observedState) &&
      decide (desired ≠ .site documents.manifest)))
    (.commit .route "route observed state advanced before desired state")
  let resultMissing ← missingExact host "existing route result disagrees"
    (.authorizationResult job.jobId) (.operationResult documents.result) s
  let auditMissing ← inspectNeedsAppend host .route documents.auditEntry s
  checkIf auditMissing (admitMissingAudit host documents.auditEntry s)
  let progress : RouteProgress := ⟨desired, observed, writeDesired, writeObserved, resultMissing⟩
  checkIf resultMissing (admitResult host documents.result s)
  admitRemaining host limits (flagged (routeWrites job documents progress)) auditMissing s
  pure progress

/-- The writes of a route transition whose intent is there. -/
def commitRoute (limits : HostCapacityLimits) (job : AuthorizationJob)
    (documents : RouteDocuments) : Durable Store AgentError CommitOutcome := do
  let intentRemoval ← Durable.query (routeExactIntent host documents)
  let progress ← Durable.query (admitRouteTransition host limits job documents)
  Durable.when progress.writeDesired
    (replaceState host (.tenantDesired documents.tenantId) progress.desired
      (.site documents.manifest))
  Durable.when progress.writeObserved
    (replaceState host (.tenantObserved documents.tenantId) progress.observed
      (.tenantObservedState documents.observedState))
  ensureAudit host .route documents.auditEntry
  ensureResult host .route job documents.result progress.resultMissing
  ensureCompletedJob host job
  removeReconciledIntent host intentRemoval.path intentRemoval.token
  pure ⟨documents.result, progress.resultMissing⟩

/-- Commit or replay a route transition. -/
def finalizeRoute (limits : HostCapacityLimits) (job : AuthorizationJob) (plan : TransitionPlan) :
    Durable Store AgentError CommitOutcome := do
  let documents ← Durable.query fun _ => freezeRoute host job plan
  let currentJob ← Durable.query (routeSameJob host job)
  match ← Durable.query (terminalRouteWithoutIntent host currentJob documents) with
  | some terminal => pure ⟨terminal, false⟩
  | none => commitRoute host limits currentJob documents

end Route

end StaticHostAgent.Commit
