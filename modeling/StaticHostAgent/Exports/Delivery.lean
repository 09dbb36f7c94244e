import StaticHostAgent.Contracts.OperatorCodec
import StaticHostAgent.Library.Directory
import StaticHostAgent.Library.Handlers

/-!
# Delivery of exports

The spool holds at most one completed bundle. A download and a receipt find it available, retire it
when its time is over or its receipt is there, and a reconciliation finishes a retirement that was
interrupted. Which calls fail, what the clock says and what a restore decided is arbitrary.
-/

set_option autoImplicit false

namespace StaticHostAgent.Exports

open Library Contracts Contracts.OperatorProtocol

inductive ExportError where
  | delivery (message : String)
  | spool (message : String)
  | occupied (message : String)
  | lifecycle (message : String)
  | rejected (code : ResultErrorCode)
  | stateRecord (message : String)
  | stateBusy (message : String)
  | restore
  | protocol (error : ProtocolError)
  | contract (error : ContractError)
  | capacity
  | fileNotFound
  | malformed
  | publicationDisabled
  | os
  deriving DecidableEq

/-- Bundles under the identities of their jobs, and the workspace with the bundle that is built in
it. -/
structure Spool where
  work : Option (Option Bytes)
  completed : Directory Uuid7 Bytes
  deriving DecidableEq

/-- Where a receipt comes from: a number for each operator's client. -/
abbrev ClientId : Type := Nat

/-- Why an export was retired. -/
inductive RetirementReason where
  | acknowledged (receipt : ExportAcknowledgement) (origin : ClientId)
  | expired
  deriving DecidableEq

def RetirementReason.delivery : RetirementReason → ExportDelivery
  | .acknowledged _ _ => .acknowledged
  | .expired => .expired

/-- An outstanding intent. Of the kinds that are no transactions exports read the correlation. -/
inductive IntentRecord where
  | transaction (intent : TransactionIntent)
  | other (correlationId : Uuid7)
  deriving DecidableEq

/-- The records of a tenant that an export is made from. -/
structure TenantSource where
  desired : Site
  deployments : Directory Uuid7 DeploymentRecord
  archives : Directory Uuid7 ArchiveRecord
  deriving DecidableEq

/-- The durable records that exports touch. `failing` says of the coming calls which ones fail;
`retirements` and `published` record the marks and the bundles as they are made. -/
structure ExportWorld where
  jobs : Directory Uuid7 AuthorizationJob
  results : Directory Uuid7 OperationResult
  intents : Directory Uuid7 IntentRecord
  audit : List AuditEntry
  tenants : Directory Uuid7 TenantSource
  /-- The digest of the platform's namespace document. -/
  platform : Digest
  spool : Spool
  failing : List Bool
  retirements : List (Uuid7 × RetirementReason)
  published : List (Uuid7 × Bytes)
  deriving DecidableEq

/-- The parts of the host outside the exports. -/
structure ExportHost where
  encoding : Encoding
  /-- `datetime.fromisoformat`, in microseconds. -/
  instant : Timestamp → Nat
  /-- Whether a restore retired the export; a decision about another export is an error. -/
  restoreRetired : AuthorizationJob → OperationResult → Except ExportError Bool

abbrev Export (α : Type) : Type := Durable ExportWorld ExportError α

namespace ExportWorld

def setJob (job : AuthorizationJob) (w : ExportWorld) : ExportWorld :=
  { w with jobs := w.jobs.insert job.jobId job }

def setSpool (f : Spool → Spool) (w : ExportWorld) : ExportWorld := { w with spool := f w.spool }

def mark (jobId : Uuid7) (reason : RetirementReason) (w : ExportWorld) : ExportWorld :=
  { w with retirements := (jobId, reason) :: w.retirements }

end ExportWorld

/-- A call that may fail with the error. -/
def attempt (error : ExportError) : Export Unit := do
  let fails ← Durable.query fun w => .ok (w.failing.headD false)
  Durable.effect fun w => { w with failing := w.failing.tail }
  Durable.query fun _ => require (!fails) error

def findJob (w : ExportWorld) (jobId : Uuid7) : Except ExportError AuthorizationJob :=
  match w.jobs.find? jobId with
  | none => .error .fileNotFound
  | some job => do
      require (decide (job.jobId = jobId))
        (.stateRecord "authorization-job identity does not match its path")
      pure job

def findResult (w : ExportWorld) (jobId : Uuid7) : Except ExportError OperationResult :=
  match w.results.find? jobId with
  | none => .error .fileNotFound
  | some result => do
      require (decide (result.provenance = .authorizationJob jobId))
        (.stateRecord "authorization-result identity does not match its path")
      pure result

/-- The job whose path has the identity's text. -/
def jobOfText (w : ExportWorld) (text : String) : Except ExportError Uuid7 :=
  match w.jobs.keys.find? fun jobId => decide (jobId.text = text) with
  | none => .error .fileNotFound
  | some jobId => .ok jobId

/-! ## The spool -/

/-- `completed_job_id` -/
def completedJobId : Export (Option Uuid7) := do
  attempt .os
  Durable.query fun w => do
    require (decide (w.spool.completed.size ≤ 1))
      (.spool "export spool contains more than one completed result")
    pure w.spool.completed.keys.head?

/-- `discard_workspace` -/
def discardWorkspace : Export Unit := do
  attempt .os
  Durable.effect (ExportWorld.setSpool fun spool => { spool with work := none })
  attempt .os

/-- `remove_completed` -/
def removeCompleted (jobId : Uuid7) : Export Unit := do
  let current ← completedJobId
  Durable.query fun _ => require (decide (current = none) || decide (current = some jobId))
    (.spool "export cleanup does not own the occupied slot")
  Durable.when current.isSome do
    attempt .os
    Durable.effect (ExportWorld.setSpool fun spool =>
      { spool with completed := spool.completed.erase jobId })
  attempt .os

/-! ## Retirement -/

/-- The job is a completed export that its executor validated. -/
def deliverable (jobId : Uuid7) (job : AuthorizationJob) (result : OperationResult) : Bool :=
  decide (job.request.operation = .export) && decide (job.phase = .completed) &&
    decide (job.executionValidated = some true) && decide (result.operation = .export) &&
    decide (result.status = .succeeded) &&
    decide (result.correlationId = job.request.correlationId) &&
    decide (result.tenantId = job.request.tenantId) &&
    decide (result.provenance = .authorizationJob jobId) && result.exportBundle.isSome

/-- `_read` -/
def readDelivery (jobId : Uuid7) : Export (AuthorizationJob × OperationResult) :=
  Durable.query fun w => do
    let job ← findJob w jobId
    let result ← findResult w jobId
    require (deliverable jobId job result)
      (.delivery "download has no validated export authority")
    pure (job, result)

/-- `commit_export_retirement` -/
def commitExportRetirement (jobId : Uuid7) (reason : RetirementReason) : Export Unit := do
  let job ← Durable.query fun w => findJob w jobId
  Durable.query fun _ => require (decide (job.request.operation = .export) &&
      decide (job.phase = .completed) && decide (job.executionValidated = some true) &&
      decide (job.exportDelivery ∈ [none, some .unacknowledged]))
    (.stateRecord "export retirement requires a validated available export")
  let result ← Durable.query fun w => findResult w jobId
  Durable.query fun _ => require (decide (result.status = .succeeded) && result.exportBundle.isSome)
    (.stateRecord "export retirement has no successful bundle result")
  attempt .capacity
  Durable.effect fun w =>
    (w.setJob { job with exportDelivery := some reason.delivery }).mark jobId reason

/-- `_retire` -/
def retire (jobId : Uuid7) (reason : RetirementReason) : Export Unit := do
  commitExportRetirement jobId reason
  attempt .os
  removeCompleted jobId

def exportRetention : Nat := 24 * 60 * 60 * 1000000

section Host

variable (h : ExportHost)

/-- `restored_export_retired` -/
def restoredExportRetired (job : AuthorizationJob) (result : OperationResult) : Export Bool :=
  Durable.query fun w => do
    if ← h.restoreRetired job result then do
      require (w.spool.completed.find? job.jobId).isNone
        (.stateRecord "restore-retired export unexpectedly regained delivery bytes")
      pure true
    else pure false

/-- The rest of `_available` for an export that is not retired. -/
def availableUntil (job : AuthorizationJob) (occupied : Option Uuid7) (now : Nat) : Export Bool := do
  let result ← Durable.query fun w => findResult w job.jobId
  if ← restoredExportRetired h job result then pure false
  else do
    Durable.query fun _ => require (decide (occupied = some job.jobId))
      (.delivery "unretired export has no exact completed slot")
    if h.instant job.acceptedAt + exportRetention ≤ now then do
      retire job.jobId .expired
      pure false
    else pure true

/-- `_available`; `now` is the reading of the root clock. -/
def available (job : AuthorizationJob) (now : Nat) : Export Bool := do
  let occupied ← completedJobId
  if job.exportDelivery ∈ [some .acknowledged, some .expired] then do
    Durable.when (decide (occupied = some job.jobId)) (removeCompleted job.jobId)
    pure false
  else availableUntil h job occupied now

/-- `acknowledge` -/
def acknowledge (receipt : ExportAcknowledgement) (operatorPrincipal : String)
    (origin : ClientId) (now : Nat) : Export OperationResult := do
  Durable.query fun _ => (mapError ExportError.protocol receipt.encode).map fun _ => ()
  let jobId ← Durable.query fun w => jobOfText w receipt.jobId
  let (job, result) ← readDelivery jobId
  Durable.query fun _ => require (decide (job.operatorPrincipal = operatorPrincipal) &&
      result.exportBundle.any fun bundle =>
        decide (sha256Text bundle.digest.value = receipt.sha256) &&
          decide ((bundle.size : Int) = receipt.size))
    (.delivery "download acknowledgement does not match its operator")
  let isAvailable ← available h job now
  Durable.when isAvailable (retire jobId (.acknowledged receipt origin))
  pure result

/-- The first transaction of `download`. -/
def beginDownload (jobId : Uuid7) (expected : OperationResult) (now : Nat) : Export Bool := do
  let (job, result) ← readDelivery jobId
  Durable.query fun _ => require (decide (result = expected))
    (.delivery "download result changed before delivery")
  available h job now

/-- The second transaction of `download`, after its reader is closed. -/
def endDownload (jobId : Uuid7) (now : Nat) : Export Unit := do
  let (job, _) ← readDelivery jobId
  let _ ← available h job now
  pure ()

/-- `reconcile_locked` -/
def reconcileLocked (now : Nat) : Export Unit := do
  discardWorkspace
  let found ← completedJobId
  match found with
  | none => pure ()
  | some jobId => do
      let job ← Durable.query fun w => findJob w jobId
      Durable.when (decide (job.executionValidated = some true)) do
        let (job, _) ← readDelivery jobId
        let _ ← available h job now
        pure ()

end Host

/-! ## Receipts on the wire -/

/-- `receive`, for a session that ends with a receipt: one header of that kind, its document, and
the end of the input. -/
def receiveAcknowledgement (raw : Bytes) : Option ExportAcknowledgement :=
  match decodeHeader (raw.take headerSize) [.request, .acknowledgement] with
  | .error _ => none
  | .ok header =>
      if header.kind = .acknowledgement ∧
          ((raw.drop headerSize).length : Int) = header.documentLength then
        (ExportAcknowledgement.decode (raw.drop headerSize)).toOption
      else none

end StaticHostAgent.Exports
