import StaticHostAgent.Commit.DeploymentDocuments
import StaticHostAgent.Commit.Route
import Mathlib.Data.List.Sort

/-!
# The deployment commit

Commit or replay one import, deploy or rollback: write the record of a new deployment, the desired
and the observed state, remove the releases and the records that leave the history, append the audit
entry, publish the result, complete the job and clear the intent.
-/

set_option autoImplicit false

namespace StaticHostAgent.Commit

open Library Contracts Host Audit State

/-! ## Histories -/

/-- The elements of a list without repetition, in order. -/
def sortedSet (ids : List Uuid7) : List Uuid7 := ids.dedup.insertionSort (· ≤ ·)

/-- The source history with a new deployment. -/
def transitionHistory (documents : DeploymentDocuments) : List Uuid7 :=
  sortedSet (if documents.createsDeployment then documents.history ++ [documents.deployment.id]
    else documents.history)

/-- The deployments retained in the end: the selected one and at most two before it. -/
def terminalHistory (documents : DeploymentDocuments) : Except AgentError (List Uuid7) :=
  let history := transitionHistory documents
  match history.idxOf? documents.deployment.id with
  | none =>
      throw (.commit .deployment "selected deployment is absent from transition history")
  | some target =>
      pure ((history.take (target + 1)).drop (target - (maximumRetainedDeployments - 1)))

/-- The history is the source's, or on the way from there to the terminal one. -/
def historyIsReplayable (current original transition terminal : List Uuid7)
    (createsDeployment : Bool) : Bool :=
  decide (current = original) ||
    ((!createsDeployment || transition.getLast?.all fun target => decide (target ∈ current)) &&
      terminal.all (fun d => decide (d ∈ current)) &&
      current.all fun d => decide (d ∈ transition))

section Deployment

variable (host : StateHost)

/-! ## Authority -/

def deploymentSameJob : AuthorizationJob → Store → Except AgentError AuthorizationJob :=
  requireSameJob host .deployment id

def deploymentExactIntent (documents : DeploymentDocuments) : Store → Except AgentError ExactIntent :=
  requireExactIntent host .deployment documents.intentId documents.intent

def requireExactDeployment (expected : DeploymentRecord) (s : Store) : Except AgentError Unit := do
  let current ← readDeployment host expected.tenantId expected.id s
  require (decide (current = expected))
    (.stateConflict "deployment record disagrees with transition authority")

/-- The deployment selected in the source is as dispatched, or gone with its commit. -/
def requireSourceDeployment (documents : DeploymentDocuments) (currentHistory : List Uuid7)
    (transitionCommitted : Bool) (s : Store) : Except AgentError Unit :=
  match documents.sourceManifest.spec.desiredDeployment with
  | none => pure ()
  | some selected => do
      require (decide (documents.intent.sourceManifestDigest =
          some (manifestDigest host.encoding documents.sourceManifest)))
        (.commit .deployment "source manifest digest drifted")
      if selected.id ∈ currentHistory then do
        let source ← readDeployment host documents.tenantId selected.id s
        require (decide (source.archiveSha256 = selected.archiveSha256) &&
            decide (some source.releaseTreeDigest = documents.sourceReleaseTreeDigest) &&
            decide (some (deploymentRecordDigest host.encoding source) =
              documents.sourceDeploymentDigest))
          (.stateConflict "selected source deployment changed after dispatch")
      else do
        let terminal ← terminalHistory documents
        require (decide (selected.id ∉ terminal) && transitionCommitted)
          (.stateConflict "selected source deployment is absent")

def requireSelectedRelease (documents : DeploymentDocuments) (s : Store) :
    Except AgentError Unit := do
  let measured ← measureRelease documents.tenantId documents.deployment.id s
  require (decide (measured = documents.deployment.releaseTreeDigest))
    (.stateConflict "selected release disagrees with deployment authority")

/-! ## Admission -/

/-- The result of a finished transition, or `none` while its intent is there. -/
def terminalTransitionWithoutIntent (job : AuthorizationJob) (documents : DeploymentDocuments)
    (s : Store) : Except AgentError (Option OperationResult) := do
  let records ← measureIntentRecords host s
  if records ≠ [] then pure none else do
    require (decide (job.phase = .completed))
      (.commit .deployment "nonterminal deployment transition lost its durable intent")
    requireTerminalRecords host .deployment "terminal deployment state disagrees with its plan"
      "terminal deployment state is incomplete"
      [(.tenantDesired documents.tenantId, .site documents.manifest),
        (.tenantObserved documents.tenantId, .tenantObservedState documents.observedState),
        (.tenantDeployment documents.tenantId documents.deployment.id,
          .deploymentRecord documents.deployment),
        (.authorizationResult job.jobId, .operationResult documents.result)] s
    let history ← tenantDeploymentIds host documents.tenantId s
    let terminal ← terminalHistory documents
    require (decide (history = terminal))
      (.commit .deployment "terminal deployment retention disagrees with its plan")
    requireSelectedRelease documents s
    let auditMissing ← inspectNeedsAppend host .deployment documents.auditEntry s
    require (!auditMissing) (.commit .deployment "terminal deployment audit entry is absent")
    pure (some documents.result)

structure DeploymentProgress where
  desired : Document
  observed : Document
  retired : List DeploymentRecord
  writeDeployment : Bool
  writeDesired : Bool
  writeObserved : Bool
  resultMissing : Bool

/-- The writes that remain. -/
def deploymentWrites (job : AuthorizationJob) (documents : DeploymentDocuments)
    (p : DeploymentProgress) : List (Bool × Document) :=
  [(p.writeDeployment, .deploymentRecord documents.deployment),
    (p.writeDesired, .site documents.manifest),
    (p.writeObserved, .tenantObservedState documents.observedState),
    (p.resultMissing, .operationResult documents.result),
    (decide (job.phase = .claimed), .authorizationJob (completedJob job))]

/-- The state is on the way of the transition, and what remains fits. -/
def admitDeploymentTransition (limits : HostCapacityLimits) (job : AuthorizationJob)
    (documents : DeploymentDocuments) (s : Store) : Except AgentError DeploymentProgress := do
  let desired ← readLocked host (.tenantDesired documents.tenantId) s
  let observed ← readLocked host (.tenantObserved documents.tenantId) s
  require (decide (desired ∈ [Document.site documents.sourceManifest, .site documents.manifest]))
    (.stateConflict "deployment desired state is outside recovery authority")
  require (decide (observed ∈ [Document.tenantObservedState documents.sourceObservedState,
      .tenantObservedState documents.observedState]))
    (.stateConflict "deployment observed state is outside recovery authority")
  let writeDesired := decide (desired = .site documents.sourceManifest) &&
    decide (desired ≠ .site documents.manifest)
  let writeObserved := decide (observed = .tenantObservedState documents.sourceObservedState)
  require (!(decide (observed = .tenantObservedState documents.observedState) &&
      decide (desired ≠ .site documents.manifest)))
    (.commit .deployment "deployment observed state advanced before desired state")
  let currentHistory ← tenantDeploymentTransitionIds host documents.tenantId
    documents.deployment.id s
  let terminal ← terminalHistory documents
  require (historyIsReplayable currentHistory documents.history (transitionHistory documents)
      terminal documents.createsDeployment)
    (.stateConflict "deployment history is outside recovery authority")
  let writeDeployment :=
    documents.createsDeployment && decide (documents.deployment.id ∉ currentHistory)
  checkIf (!writeDeployment) (requireExactDeployment host documents.deployment s)
  let retired ← (currentHistory.filter fun d => decide (d ∉ terminal)).mapM fun d =>
    readDeployment host documents.tenantId d s
  requireSourceDeployment host documents currentHistory (!writeDesired && !writeObserved) s
  let resultMissing ← missingExact host "existing deployment result disagrees"
    (.authorizationResult job.jobId) (.operationResult documents.result) s
  let auditMissing ← inspectNeedsAppend host .deployment documents.auditEntry s
  checkIf auditMissing (admitMissingAudit host documents.auditEntry s)
  let progress : DeploymentProgress :=
    ⟨desired, observed, retired, writeDeployment, writeDesired, writeObserved, resultMissing⟩
  checkIf resultMissing (admitResult host documents.result s)
  admitRemaining host limits (flagged (deploymentWrites job documents progress)) auditMissing s
  pure progress

/-! ## Finalization -/

/-- Remove the release of a retired deployment, and keep what authorizes removing its record. -/
def removeRetiredRelease (t : Uuid7) (record : DeploymentRecord) :
    Durable Store AgentError (DeploymentRecord × StateRevision) := do
  let token ← Durable.query (deploymentRemovalToken host record)
  removeRelease t record.id record.releaseTreeDigest
  pure (record, token)

def writeDeploymentRecord (documents : DeploymentDocuments) : Durable Store AgentError Unit := do
  let _ ← createImmutable host (.tenantDeployment documents.tenantId documents.deployment.id)
    (.deploymentRecord documents.deployment)
  pure ()

/-- Commit or replay a deployment transition. -/
def finalizeDeployment (limits : HostCapacityLimits) (job : AuthorizationJob)
    (plan : DeploymentTransitionPlan) : Durable Store AgentError CommitOutcome := do
  let documents ← Durable.query fun _ => freezeDeployment host job plan
  let currentJob ← Durable.query (deploymentSameJob host job)
  match ← Durable.query (terminalTransitionWithoutIntent host currentJob documents) with
  | some terminal => pure ⟨terminal, false⟩
  | none => do
      let intentRemoval ← Durable.query (deploymentExactIntent host documents)
      let progress ← Durable.query (admitDeploymentTransition host limits currentJob documents)
      Durable.query (requireSelectedRelease documents)
      Durable.when progress.writeDeployment (writeDeploymentRecord host documents)
      Durable.when progress.writeDesired
        (replaceState host (.tenantDesired documents.tenantId) progress.desired
          (.site documents.manifest))
      Durable.when progress.writeObserved
        (replaceState host (.tenantObserved documents.tenantId) progress.observed
          (.tenantObservedState documents.observedState))
      let removalAuthorities ← progress.retired.mapM
        (removeRetiredRelease host documents.tenantId)
      removalAuthorities.forM fun authority =>
        removeExactDeployment host authority.1 authority.2
      ensureAudit host .deployment documents.auditEntry
      ensureResult host .deployment currentJob documents.result progress.resultMissing
      ensureCompletedJob host currentJob
      removeReconciledIntent host intentRemoval.path intentRemoval.token
      pure ⟨documents.result, progress.resultMissing⟩

end Deployment

end StaticHostAgent.Commit
