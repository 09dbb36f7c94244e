import StaticHostAgent.State.Operations

/-!
# The mutators of authorization jobs

The repository replaces a stored job through five calls. Each validates the candidate as a record of
its path, checks the pair of the stored job and the candidate in its own way, and replaces the file
in one step. `durableBinding` and `retryBinding` are what the correlation store and a retry compare.
-/

set_option autoImplicit false

namespace StaticHostAgent.Jobs

open Library Contracts Host State

/-! ## Bindings -/

/-- The members of a job that no execution changes. Canonical bytes determine their document, so
the bindings are compared themselves and not their bytes. -/
structure DurableBinding where
  compatibilityVersion : JobVersion
  jobId : Uuid7
  operatorPrincipal : String
  request : OperationRequest
  requestDigest : Digest
  artifact : Option Artifact
  expectedSource : ExpectedSource
  sourceAuthority : Option SourceAuthority
  acceptedAt : Timestamp
  deriving DecidableEq

/-- `_durable_binding`: a job without its phase, its marks and what was dispatched. -/
def durableBinding (job : AuthorizationJob) : DurableBinding :=
  ⟨job.compatibilityVersion, job.jobId, job.operatorPrincipal, job.request, job.requestDigest,
    job.artifact, job.expectedSource, job.sourceAuthority, job.acceptedAt⟩

/-- The members that a retried submission must repeat. -/
structure RetryBinding where
  compatibilityVersion : JobVersion
  operatorPrincipal : String
  request : OperationRequest
  requestDigest : Digest
  artifact : Option Artifact
  expectedSource : ExpectedSource
  sourceAuthority : Option SourceAuthority
  deriving DecidableEq

/-- `_retry_binding`: a durable binding without the identity and the time of acceptance. -/
def retryBinding (job : AuthorizationJob) : RetryBinding :=
  ⟨job.compatibilityVersion, job.operatorPrincipal, job.request, job.requestDigest, job.artifact,
    job.expectedSource, job.sourceAuthority⟩

/-! ## Checks of a replacement -/

/-- `document["executionValidated"]`. -/
def executionMark (job : AuthorizationJob) : Except AgentError Bool :=
  match job.executionValidated with
  | none => .error (.keyError "executionValidated")
  | some mark => .ok mark

/-- A dispatch field may be bound but not replaced. -/
def bindsOnly {α : Type} [DecidableEq α] (previous replacement : Option α) : Bool :=
  previous.isNone || decide (previous = replacement)

/-- No bound dispatch field is replaced. -/
def dispatchBound (before after : Dispatch) : Bool :=
  bindsOnly before.auditBoundary after.auditBoundary &&
    bindsOnly before.archiveDeploymentIds after.archiveDeploymentIds &&
    bindsOnly before.artifactReleaseTreeDigest after.artifactReleaseTreeDigest &&
    bindsOnly before.importManifest after.importManifest &&
    bindsOnly before.sourceObservedState after.sourceObservedState &&
    bindsOnly before.sourceReleaseTreeDigest after.sourceReleaseTreeDigest &&
    bindsOnly before.sourceRouteSet after.sourceRouteSet &&
    bindsOnly before.sourceRuntimeGenerationId after.sourceRuntimeGenerationId &&
    bindsOnly before.deploymentIds after.deploymentIds &&
    bindsOnly before.tenantIds after.tenantIds &&
    bindsOnly before.tenantRecordHistories after.tenantRecordHistories

def withoutDispatch (job : AuthorizationJob) : AuthorizationJob :=
  { job with dispatch := Dispatch.none }

def validateDispatchAuthorityReplacement (current candidate : AuthorizationJob) :
    Except AgentError Unit := do
  require (decide (candidate.phase = current.phase))
    (.stateRecord "dispatch authority requires an unchanged dispatched job phase")
  let validated ← executionMark current
  require (!validated) (.stateRecord "dispatch authority cannot follow execution validation")
  let validates ← executionMark candidate
  require (!validates) (.stateRecord "dispatch authority cannot follow execution validation")
  require (dispatchBound current.dispatch candidate.dispatch)
    (.stateRecord "bound dispatch authority cannot be replaced")
  require (decide (withoutDispatch current = withoutDispatch candidate))
    (.stateRecord "dispatch binding changed non-dispatch authority")

/-- A job without the route source that a rebind may advance. -/
def withoutRouteSource (job : AuthorizationJob) : AuthorizationJob :=
  { job with
    dispatch := { job.dispatch with
      sourceRuntimeGenerationId := none
      sourceRouteSet := none
      sourceObservedState := none } }

/-- The route set stays, and a recorded observed state too. -/
def targetUnchanged (before after : Dispatch) : Bool :=
  decide (after.sourceRouteSet = before.sourceRouteSet) &&
    (before.sourceObservedState.isNone ||
      decide (after.sourceObservedState = before.sourceObservedState))

def validateRouteSourceAuthorityReplacement (allowReconcileSourceAdvance : Bool)
    (current candidate : AuthorizationJob) : Except AgentError Unit := do
  require (decide (current.phase = .claimed) && decide (candidate.phase = .claimed))
    (.stateRecord "route source rebind requires an unvalidated claimed job")
  let validated ← executionMark current
  require (!validated) (.stateRecord "route source rebind requires an unvalidated claimed job")
  let validates ← executionMark candidate
  require (!validates) (.stateRecord "route source rebind requires an unvalidated claimed job")
  let before := current.dispatch
  let after := candidate.dispatch
  require (decide (withoutRouteSource current = withoutRouteSource candidate) &&
      before.sourceRouteSet.isSome && after.sourceRouteSet.isSome &&
      after.sourceObservedState.isSome && before.sourceRuntimeGenerationId.isSome &&
      after.sourceRuntimeGenerationId.isSome &&
      decide (before.sourceRuntimeGenerationId ≠ after.sourceRuntimeGenerationId) &&
      (targetUnchanged before after ||
        (allowReconcileSourceAdvance && decide (candidate.request.operation = .reconcile))))
    (.stateRecord "route source rebind changed authority outside its proof")

/-- A job without its phase and its mark. -/
def withoutExecution (job : AuthorizationJob) : AuthorizationJob :=
  { job with phase := .pending, executionValidated := none }

def terminalPhase (phase : JobPhase) : Bool := decide (phase = .completed) || decide (phase = .failed)

def validateExecutionValidationReplacement (current candidate : AuthorizationJob) :
    Except AgentError Unit := do
  let validated ← executionMark current
  require (!validated) (.stateRecord "execution validation marker transition is invalid")
  let validates ← executionMark candidate
  require (validates && terminalPhase current.phase && decide (candidate.phase = current.phase))
    (.stateRecord "execution validation marker transition is invalid")
  require (decide (withoutExecution current = withoutExecution candidate))
    (.stateRecord "execution validation changed authorization authority")

/-! ## The calls -/

section Calls

variable (host : StateHost)

/-- A check of two jobs, as a check of two records. -/
def onJobs (check : AuthorizationJob → AuthorizationJob → Except AgentError Unit) :
    Document → Document → Except AgentError Unit
  | .authorizationJob current, .authorizationJob candidate => check current candidate
  | _, _ => .ok ()

/-- Admit permanent growth and the complete temporary replacement. -/
def admitAtomicAuthorizationReplacement (path : StateRecordPath) (candidate : Document)
    (limits : HostCapacityLimits) (s : Store) : Except AgentError Unit := do
  let candidateAllocation :=
    host.allocation.allocationUpperBound (host.encoding.canonical candidate).length
  match s.find? path.components with
  | none => .error .fileNotFound
  | some current => do
      let currentAllocation := host.allocation.allocated (host.encoding.canonical current).length
      admitInventory host ⟨0, 0, candidateAllocation - currentAllocation⟩ s
      admitReleaseCapacity limits
        ⟨candidateAllocation + host.allocation.namespaceAllocationUpperBound 1, 1⟩
        (host.capacity s)

/-- The record at the path has the expected revision and may become the candidate. -/
def requireAuthority (path : StateRecordPath) (expected : StateRevision) (candidate : Document)
    (check : AuthorizationJob → AuthorizationJob → Except AgentError Unit)
    (limits : HostCapacityLimits) (s : Store) : Except AgentError Unit := do
  let current ← readLocked host path s
  require (decide (revision host current = expected))
    (.stateConflict "authoritative state changed before commit")
  onJobs check current candidate
  admitAtomicAuthorizationReplacement host path candidate limits s

/-- Replace a job record under a check of its own. -/
def replaceAuthority (path : StateRecordPath) (expected : StateRevision) (candidate : Document)
    (check : AuthorizationJob → AuthorizationJob → Except AgentError Unit)
    (limits : HostCapacityLimits) : Durable Store AgentError Document := do
  Durable.query fun _ => encode host path candidate
  Durable.query (requireAuthority host path expected candidate check limits)
  Durable.effect (Store.put path.components candidate)
  Durable.query (readLocked host path)

/-- The path is that of a job. -/
def requireJobPath (path : StateRecordPath) (foreign : String) : Except AgentError Unit :=
  require (match path with
    | .authorizationJob _ => true
    | _ => false) (.stateRecord foreign)

/-- Commit executor-owned dispatch fields. -/
def bindDispatchAuthority (path : StateRecordPath) (expected : StateRevision)
    (document : Document) (limits : HostCapacityLimits) : Durable Store AgentError Document := do
  Durable.query fun _ =>
    requireJobPath path "dispatch authority belongs only to an authorization job"
  replaceAuthority host path expected document validateDispatchAuthorityReplacement limits

/-- Advance the route source of a job before an intent exists. -/
def rebindRouteSourceAuthority (path : StateRecordPath) (expected : StateRevision)
    (document : Document) (allowReconcileSourceAdvance : Bool) (limits : HostCapacityLimits) :
    Durable Store AgentError Document := do
  Durable.query fun _ =>
    requireJobPath path "route source authority belongs only to an authorization job"
  let intents ← Durable.query (measureIntentRecords host)
  Durable.query fun _ => require intents.isEmpty
    (.stateRecord "route source authority cannot advance after intent creation")
  replaceAuthority host path expected document
    (validateRouteSourceAuthorityReplacement allowReconcileSourceAdvance) limits

/-- Commit the executor-only terminal validation marker. -/
def commitExecutionValidation (path : StateRecordPath) (expected : StateRevision)
    (document : Document) (limits : HostCapacityLimits) : Durable Store AgentError Document := do
  Durable.query fun _ =>
    requireJobPath path "execution validation belongs only to an authorization job"
  replaceAuthority host path expected document validateExecutionValidationReplacement limits

/-- What may retire an export; any other reason is refused. -/
inductive RetirementReason where
  | acknowledged | expired
  deriving DecidableEq

def RetirementReason.delivery : RetirementReason → ExportDelivery
  | .acknowledged => .acknowledged
  | .expired => .expired

/-- A validated export whose bundle is still offered. -/
def exportAvailable (job : AuthorizationJob) : Bool :=
  decide (job.request.operation = .export) && decide (job.phase = .completed) &&
    decide (job.executionValidated = some true) &&
    decide (job.exportDelivery ∈ [none, some .unacknowledged])

/-- The job of a record, if its export is available. -/
def availableExport : Document → Except AgentError AuthorizationJob
  | .authorizationJob job => do
      require (exportAvailable job)
        (.stateRecord "export retirement requires a validated available export")
      pure job
  | _ => .error (.contract (schemaInvalid "contract kind does not match"))

def requireBundle : Document → Except AgentError Unit
  | .operationResult result =>
      require (decide (result.status = .succeeded) && result.exportBundle.isSome)
        (.stateRecord "export retirement has no successful bundle result")
  | _ => .error (.contract (schemaInvalid "contract kind does not match"))

/-- The job as it is after its export's retirement. -/
def retirementCandidate (jobId : Uuid7) (reason : RetirementReason) (s : Store) :
    Except AgentError AuthorizationJob := do
  let current ← readLocked host (.authorizationJob jobId) s
  let job ← availableExport current
  let result ← readLocked host (.authorizationResult jobId) s
  requireBundle result
  pure { job with exportDelivery := some reason.delivery }

/-- Retire only a validated export. -/
def commitExportRetirement (jobId : Uuid7) (reason : RetirementReason) :
    Durable Store AgentError Document := do
  let path := StateRecordPath.authorizationJob jobId
  let job ← Durable.query (retirementCandidate host jobId reason)
  Durable.query fun _ => encode host path (.authorizationJob job)
  Durable.query (admitAtomicAuthorizationReplacement host path (.authorizationJob job)
    defaultHostCapacityLimits)
  Durable.effect (Store.put path.components (.authorizationJob job))
  Durable.query (readLocked host path)

end Calls

/-- The mutators, with their arguments. -/
inductive JobMutation where
  | compareAndSwap (path : StateRecordPath) (expected : StateRevision) (document : Document)
  | bindDispatchAuthority (path : StateRecordPath) (expected : StateRevision) (document : Document)
      (limits : HostCapacityLimits)
  | rebindRouteSourceAuthority (path : StateRecordPath) (expected : StateRevision)
      (document : Document) (allowReconcileSourceAdvance : Bool) (limits : HostCapacityLimits)
  | commitExportRetirement (jobId : Uuid7) (reason : RetirementReason)
  | commitExecutionValidation (path : StateRecordPath) (expected : StateRevision)
      (document : Document) (limits : HostCapacityLimits)

/-- The record that a call replaces. -/
def JobMutation.target : JobMutation → StateRecordPath
  | .compareAndSwap path _ _ => path
  | .bindDispatchAuthority path _ _ _ => path
  | .rebindRouteSourceAuthority path _ _ _ _ => path
  | .commitExportRetirement jobId _ => .authorizationJob jobId
  | .commitExecutionValidation path _ _ _ => path

/-- Make a call. -/
def JobMutation.perform (host : StateHost) : JobMutation → Durable Store AgentError Document
  | .compareAndSwap path expected document => State.compareAndSwap host path expected document
  | .bindDispatchAuthority path expected document limits =>
      Jobs.bindDispatchAuthority host path expected document limits
  | .rebindRouteSourceAuthority path expected document advance limits =>
      Jobs.rebindRouteSourceAuthority host path expected document advance limits
  | .commitExportRetirement jobId reason => Jobs.commitExportRetirement host jobId reason
  | .commitExecutionValidation path expected document limits =>
      Jobs.commitExecutionValidation host path expected document limits

end StaticHostAgent.Jobs
