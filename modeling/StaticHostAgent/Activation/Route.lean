import StaticHostAgent.Activation.Runtime
import StaticHostAgent.Commit.Archive

/-!
# Activation of a route and of an archive transition

Select the candidate generation, reload the server, and commit. A failure before the commit restores
the source generation. The archive activation never goes back once its record is written; the
route activation has no such guard.
-/

set_option autoImplicit false

namespace StaticHostAgent.Activation

open Library Contracts Host State Commit

/-! ## The runtime -/

section Runtime

variable (source candidate : CaddyGenerationManifest)

def outsideAuthority : ActivationError :=
  .routeActivation "active Caddy generation is outside route recovery authority"

/-- Go back to the source and raise the error, or fail closed. -/
def restoreSource {α : Type} (error : ActivationError) : Activate α := do
  Durable.rescue (do
      selectActive source.generationId
      restoreCaddyGeneration source)
    fun _ => Durable.fail (.routeActivation "route runtime restoration failed closed")
  Durable.fail error

/-- The candidate is not selected yet: repair the source, select the candidate and reload. -/
def activateFromSource : Activate Unit :=
  Durable.rescue (do
      rescueException (verifyRunningCaddy source) fun _ => restoreCaddyGeneration source
      selectActive candidate.generationId
      reloadCaddyGeneration source candidate)
    (restoreSource source)

/-- The candidate is selected already: select it again unless that is known durable, verify it, and
reload it where the verification fails. -/
def reactivateCandidate (candidateSelectionIsDurable : Bool) : Activate Unit := do
  Durable.when (!candidateSelectionIsDurable)
    (Durable.rescue (selectActive candidate.generationId) (restoreSource source))
  Durable.rescue (verifyRunningCaddy candidate) fun error =>
    if error.isException then
      Durable.rescue (reloadCaddyGeneration source candidate) (restoreSource source)
    else restoreSource source error

def ensureCandidateRunning (candidateSelectionIsDurable : Bool) : Activate Unit := do
  let activeId ← readActive
  if activeId = source.generationId then activateFromSource source candidate
  else if activeId = candidate.generationId then
    reactivateCandidate source candidate candidateSelectionIsDurable
  else Durable.fail outsideAuthority

/-- Raise a capacity error with the source selected and running. -/
def rejectCapacityBeforeActivation {α : Type} (error : ActivationError) : Activate α := do
  let activeId ← readActive
  if activeId = source.generationId then do
    Durable.rescue (verifyRunningCaddy source) fun failure =>
      restoreSource source (if failure.isException then error else failure)
    Durable.fail error
  else if activeId = candidate.generationId then restoreSource source error
  else Durable.fail outsideAuthority

/-- Go on to the candidate, without a way back to the source. -/
def ensureForwardCandidate : Activate Unit := do
  let activeId ← readActive
  Durable.query fun _ => require
    (decide (activeId ∈ [source.generationId, candidate.generationId]))
    (.archiveActivation "selected runtime escaped archive recovery authority")
  selectActive candidate.generationId
  rescueException (verifyRunningCaddy candidate) fun _ => do
    reloadCaddyGeneration source candidate
    verifyRunningCaddy candidate

end Runtime

/-! ## Routes -/

/-- Prove terminal route capacity before runtime mutation. -/
def admitRoute (host : StateHost) (limits : HostCapacityLimits) (job : AuthorizationJob)
    (plan : TransitionPlan) (s : Store) : Except AgentError Unit := do
  let documents ← freezeRoute host job plan
  let currentJob ← routeSameJob host job s
  let _ ← routeExactIntent host documents s
  let _ ← admitRouteTransition host limits currentJob documents s
  pure ()

section Route

variable (host : ActivationHost)

structure PreparedRouteTransition where
  job : AuthorizationJob
  plan : TransitionPlan
  candidateManifest : CaddyGenerationManifest
  capacityLimits : HostCapacityLimits

/-- The stored job is the prepared one, claimed or completed. -/
def requireExactJob (prepared : AuthorizationJob) (s : Store) :
    Except ActivationError AuthorizationJob := do
  let current ← mapError .agent (readJob host.toStateHost prepared.jobId s)
  require (decide (sameAuthority withoutEvidence prepared = sameAuthority withoutEvidence current)
      && decide (current.phase ∈ [JobPhase.claimed, .completed]))
    (.routeActivation "prepared route job changed before activation")
  pure current

/-- The prepared intent is the only one. -/
def requireSoleIntent (intentId : Uuid7) (intent : TransactionIntent) (s : Store) :
    Except ActivationError Unit := do
  let records ← mapError .agent (measureIntentRecords host.toStateHost s)
  require (decide (records = [intentId]))
    (.routeActivation "route activation requires its sole exact intent")
  let (path, current) ← mapError .agent (readIntent host.toStateHost intentId s)
  require (decide (path = .transactionIntent intentId) &&
      decide (current = .transactionIntent intent))
    (.routeActivation "route intent changed before runtime activation")

/-- Run the candidate of verified generations, and commit. -/
def activateGenerations (prepared : PreparedRouteTransition) (currentJob : AuthorizationJob)
    (source candidate : CaddyGenerationManifest) : Activate CommitOutcome := do
  removeAbandonedReferenceTemporaries
  rescueCapacity
    (readStore (admitRoute host.toStateHost prepared.capacityLimits currentJob prepared.plan))
    (rejectCapacityBeforeActivation source candidate)
  ensureCandidateRunning source candidate (decide (currentJob.phase = .completed))
  rescueCapacity
    (onStore (finalizeRoute host.toStateHost prepared.capacityLimits currentJob prepared.plan))
    (restoreSource source)

/-- Activate the candidate of the prepared intent. -/
def activatePrepared (prepared : PreparedRouteTransition) (currentJob : AuthorizationJob) :
    Activate CommitOutcome := do
  Durable.query fun w => requireSoleIntent host prepared.plan.intentId prepared.plan.intent w.store
  match prepared.plan.intent.lifecycleRecovery with
  | none => Durable.fail (.routeActivation "route recovery authority is malformed")
  | some recovery => do
      Durable.query fun _ => require
        (decide (prepared.candidateManifest.generationId = recovery.candidateRuntimeGenerationId))
        (.routeActivation "prepared route candidate identity disagrees")
      let source ← openVerifiedGeneration host recovery.sourceRuntimeGenerationId
      let candidate ← openVerifiedGeneration host recovery.candidateRuntimeGenerationId
      Durable.query fun _ => require (decide (candidate = prepared.candidateManifest))
        (.routeActivation "prepared route candidate manifest changed")
      activateGenerations host prepared currentJob source candidate

/-- Activate or replay a route candidate and report result ownership. -/
def activateRouteTransition (prepared : PreparedRouteTransition) : Activate CommitOutcome := do
  let _ ← readStore fun _ => freezeRoute host.toStateHost prepared.job prepared.plan
  requireEnabled
  let currentJob ← Durable.query fun w => requireExactJob host prepared.job w.store
  let records ← readStore (measureIntentRecords host.toStateHost)
  if records = [] then
    onStore (finalizeRoute host.toStateHost prepared.capacityLimits currentJob prepared.plan)
  else activatePrepared host prepared currentJob

end Route

/-! ## Archives -/

section Archive

variable (host : ActivationHost)

structure PreparedArchiveTransition where
  job : AuthorizationJob
  plan : ArchiveTransitionPlan
  candidateManifest : CaddyGenerationManifest
  capacityLimits : HostCapacityLimits

/-- The archive record tells that the commit has started. -/
def commitStarted (plan : ArchiveTransitionPlan) (s : Store) : Except AgentError Bool :=
  match readLocked host.toStateHost
      (.tenantArchive plan.tenantId plan.archiveRecord.deploymentId) s with
  | .ok _ => pure true
  | .error .fileNotFound => pure false
  | .error error => throw error

/-- Bring the candidate up, forward only once the commit has started. -/
def runArchiveCandidate (source candidate : CaddyGenerationManifest) (started : Bool) :
    Activate Unit :=
  if started then ensureForwardCandidate source candidate
  else ensureCandidateRunning source candidate false

/-- A capacity error of the admission, before or behind the start of the commit. -/
def rejectArchiveCapacity (source candidate : CaddyGenerationManifest) (started : Bool)
    (error : ActivationError) : Activate Unit :=
  if started then do
    ensureForwardCandidate source candidate
    Durable.fail error
  else rejectCapacityBeforeActivation source candidate error

/-- A capacity error of the commit. -/
def abandonArchive (plan : ArchiveTransitionPlan) (source : CaddyGenerationManifest)
    (error : ActivationError) : Activate CommitOutcome := do
  let started ← readStore (commitStarted host plan)
  if started then Durable.fail error else restoreSource source error

/-- Run the candidate of verified generations, and commit. -/
def activateArchiveGenerations (prepared : PreparedArchiveTransition) (job : AuthorizationJob)
    (source candidate : CaddyGenerationManifest) : Activate CommitOutcome := do
  let started ← readStore (commitStarted host prepared.plan)
  rescueCapacity
    (readStore (admitArchiveTransition host.toStateHost prepared.capacityLimits job prepared.plan))
    (rejectArchiveCapacity source candidate started)
  removeAbandonedReferenceTemporaries
  runArchiveCandidate source candidate started
  rescueCapacity
    (onStore (finalizeArchive host.toStateHost prepared.capacityLimits job prepared.plan))
    (abandonArchive host prepared.plan source)

/-- Select verified archived routes and complete local state. -/
def activateArchiveTransition (prepared : PreparedArchiveTransition) : Activate CommitOutcome :=
  match prepared.plan.intent.archiveRecovery with
  | none => Durable.fail
      (.archiveActivation "archive activation omitted runtime recovery evidence")
  | some recovery => do
      Durable.query fun _ => require
        (decide (prepared.candidateManifest.generationId = recovery.candidateRuntimeGenerationId))
        (.archiveActivation "archive candidate generation identity changed")
      requireEnabled
      let job ← readStore (routeSameJob host.toStateHost prepared.job)
      let source ← openVerifiedGeneration host recovery.sourceRuntimeGenerationId
      let candidate ← openVerifiedGeneration host recovery.candidateRuntimeGenerationId
      Durable.query fun _ => require (decide (candidate = prepared.candidateManifest))
        (.archiveActivation "archive candidate files changed after preparation")
      activateArchiveGenerations host prepared job source candidate

end Archive

end StaticHostAgent.Activation
