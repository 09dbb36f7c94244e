import StaticHostAgent.Contracts.Texts
import StaticHostAgent.Jobs.Mutators
import Mathlib.Data.String.Basic

/-!
# The intake slot

One directory holds at most one uploaded artifact. An admission streams the bytes into a temporary
file, publishes them under the name of their correlation and keeps them if the authorization job
becomes durable; an executor claims them; a reconciliation removes what no unfinished job names. All
three hold the intake lock, so that at most one of them is under way; whatever happens to jobs,
results and intents elsewhere may happen between any two of their steps.
-/

set_option autoImplicit false

namespace StaticHostAgent.Intake

open Library Contracts Jobs

inductive IntakeError where
  | intake (message : String)
  | occupied (message : String)
  | unavailable (message : String)
  | fileNotFound
  | correlation (message : String)
  | conflict (message : String)
  | stateBusy (message : String)
  | issuance (message : String)
  | execution (message : String)
  deriving DecidableEq

/-! ## The slot -/

/-- An object of the intake directory. It is safe if it is a regular file of the owner with the
private mode and one link. -/
structure Entry where
  safe : Bool
  bytes : Bytes
  deriving DecidableEq

abbrev Slot : Type := Directory String Entry

def artifactName (correlationId : Uuid7) : String := correlationId.text ++ ".artifact"

/-- `_TEMPORARY` -/
def isTemporary (name : String) : Bool :=
  fullmatch (".ldp-intake-".toList.map (fun expected c => c == expected) ++
    List.replicate 32 hexClass) name

/-- `_ADMITTED` -/
def isAdmitted (name : String) : Bool :=
  name.endsWith ".artifact" && isUuid7 (name.dropEnd 9).toString

def maxDeployArtifactBytes : Nat := 100 * 1024 * 1024

def maxImportArtifactBytes : Nat := 120 * 1024 * 1024

def validateDeclared (operation : Operation) (artifact : Artifact) : Except IntakeError Unit := do
  let maximum ← match operation with
    | .deploy => pure maxDeployArtifactBytes
    | .import => pure maxImportArtifactBytes
    | _ => throw (.intake "operation does not accept an uploaded artifact")
  require (decide (0 < artifact.size) && decide (artifact.size ≤ maximum))
    (.intake "declared artifact binding is invalid")

/-- `_scan_slot` -/
def scanSlot (slot : Slot) : Except IntakeError (List String) := do
  require (decide (slot.size ≤ 1)) (.intake "intake contains more than its single slot")
  pure slot.keys

/-- `_validate_entry` -/
def validateEntry (slot : Slot) (name : String) : Except IntakeError Entry :=
  match slot.find? name with
  | none => throw .fileNotFound
  | some entry => do
      require entry.safe (.intake "intake object has unsafe metadata")
      pure entry

section Hash

variable (sha256 : Bytes → Sha256)

/-- The bytes are those that the artifact declares. -/
def Exact (declared : Artifact) (bytes : Bytes) : Prop :=
  declared.size = bytes.length ∧ declared.sha256 = sha256 bytes

instance (declared : Artifact) (bytes : Bytes) : Decidable (Exact sha256 declared bytes) := by
  unfold Exact
  infer_instance

/-- `_verify_existing` -/
def verifyExisting (declared : Artifact) (entry : Entry) : Except IntakeError Unit := do
  require (entry.safe && decide (entry.bytes.length = declared.size))
    (.intake "admitted retry artifact has unsafe metadata")
  require (decide (sha256 entry.bytes = declared.sha256))
    (.intake "admitted retry artifact does not match its binding")

/-- What an admission finds in the slot. -/
inductive BeforeAdmission where
  | vacant
  | abandoned (name : String)
  | existing
  deriving DecidableEq

/-- `_reconcile_before_admission`; an abandoned temporary is then removed. -/
def reconcileBeforeAdmission (filename : String) (declared : Artifact) (allowExisting : Bool)
    (slot : Slot) : Except IntakeError BeforeAdmission := do
  let names ← scanSlot slot
  match names with
  | [] => pure .vacant
  | name :: _ => do
      let entry ← validateEntry slot name
      if isTemporary name then pure (.abandoned name)
      else if isAdmitted name then
        if allowExisting && decide (name = filename) then do
          verifyExisting sha256 declared entry
          pure .existing
        else throw (.occupied "intake slot contains an admitted artifact")
      else throw (.intake "intake contains an unrecognized object")

/-- The checks of `claim`. -/
def requireClaimable (filename : String) (declared : Artifact) (slot : Slot) :
    Except IntakeError Unit := do
  let names ← scanSlot slot
  require (decide (names = [filename]))
    (.unavailable "authorized artifact is absent from the intake slot")
  let entry ← validateEntry slot filename
  verifyExisting sha256 declared entry

end Hash

/-! ## Durable authority -/

inductive IntentKind where
  | transaction | construction | retirement | emergencyDeletion
  deriving DecidableEq

/-- What intake and issuance read of an outstanding intent. -/
structure LifecycleIntent where
  kind : IntentKind
  correlationId : Uuid7
  emergencyProvenance : Bool
  deriving DecidableEq

/-- An intent of an emergency has no authorization job. -/
def LifecycleIntent.emergency (intent : LifecycleIntent) : Bool :=
  decide (intent.kind = .emergencyDeletion) ||
    (decide (intent.kind = .retirement) && intent.emergencyProvenance)

/-- The slot and the durable records that decide about it. -/
structure IntakeWorld where
  slot : Slot
  correlations : Directory Uuid7 AuthorizationJob
  jobs : Directory Uuid7 AuthorizationJob
  results : Directory Uuid7 OperationResult
  intents : Directory Uuid7 LifecycleIntent
  deriving DecidableEq

def correlationOf (job : AuthorizationJob) : Uuid7 := job.request.correlationId

namespace IntakeWorld

def resultExists (w : IntakeWorld) (jobId : Uuid7) : Bool := (w.results.find? jobId).isSome

/-- The correlations with the jobs that lack their correlation copy. -/
def merged (w : IntakeWorld) : List AuthorizationJob :=
  w.correlations.entries.map Prod.snd ++ (w.jobs.entries.map Prod.snd).filter fun job =>
    (w.correlations.find? (correlationOf job)).isNone

/-- Some authorization lacks one of its two copies. -/
def unpaired (w : IntakeWorld) : Bool :=
  (w.correlations.entries.any fun entry => (w.jobs.find? entry.2.jobId).isNone) ||
    w.jobs.entries.any fun entry => (w.correlations.find? (correlationOf entry.2)).isNone

/-- The checks of `_reconcile_pairs`. Missing copies are published before the caller goes on, unless
an outstanding intent defers them. -/
def reconcilePairs (w : IntakeWorld) : Except IntakeError (List AuthorizationJob) := do
  require ((w.correlations.entries.all fun entry => decide (correlationOf entry.2 = entry.1)) &&
      w.jobs.entries.all fun entry => decide (entry.2.jobId = entry.1))
    (.correlation "state record does not belong to its path")
  require (decide ((w.jobs.entries.map fun entry => correlationOf entry.2).Nodup))
    (.correlation "multiple jobs claim one correlation identity")
  require (decide ((w.correlations.entries.map fun entry => entry.2.jobId).Nodup))
    (.correlation "multiple correlations claim one job identity")
  require (w.correlations.entries.all fun entry => w.jobs.entries.all fun job =>
      decide (correlationOf job.2 ≠ entry.1) || decide (job.2.jobId = entry.2.jobId))
    (.correlation "correlation and job indexes disagree")
  require (w.correlations.entries.all fun entry => (w.jobs.find? entry.2.jobId).all fun job =>
      decide (durableBinding job = durableBinding entry.2))
    (.correlation "correlation and job bindings disagree")
  require (!w.unpaired || decide (w.intents.entries ≠ []))
    (.correlation "a missing copy is published first")
  pure w.merged

/-- The job is to be replayed for one of its intents. -/
def needsReplay (w : IntakeWorld) (job : AuthorizationJob) : Bool :=
  w.intents.entries.any fun entry =>
    !entry.2.emergency && decide (entry.2.correlationId = correlationOf job)

/-- Nothing is left to do for the job. -/
def terminal (w : IntakeWorld) (job : AuthorizationJob) : Bool :=
  (w.resultExists job.jobId || terminalPhase job.phase) && !w.needsReplay job &&
    !(decide (job.compatibilityVersion = .staticJobV2) &&
      decide (job.executionValidated = some false))

/-- The authorization is unfinished: its job is still to be published, executed, replayed or
validated. -/
def unfinished (w : IntakeWorld) (document : AuthorizationJob) : Bool :=
  match w.jobs.find? document.jobId with
  | none => true
  | some job => !w.terminal job

end IntakeWorld

/-- The snapshot that a reconciliation decides by. -/
structure IntakeAuthority where
  authorized : List (String × Artifact)
  terminal : List String
  deriving DecidableEq

/-- The artifact that an authorization binds, under its name. -/
def artifactBinding (document : AuthorizationJob) : Option (String × Artifact) :=
  document.artifact.map fun artifact => (artifactName (correlationOf document), artifact)

/-- `load_authority` of a startup reconciliation. -/
def loadAuthority (w : IntakeWorld) : Except IntakeError IntakeAuthority := do
  let merged ← w.reconcilePairs
  let jobs := merged.filterMap fun document => w.jobs.find? document.jobId
  let deferred := merged.filter fun document => (w.jobs.find? document.jobId).isNone
  require (w.intents.entries.all fun entry => entry.2.emergency || jobs.any fun job =>
      decide (entry.2.correlationId = correlationOf job))
    (.execution "active lifecycle intent has no authorization job")
  require (jobs.all fun job => w.resultExists job.jobId || !terminalPhase job.phase)
    (.execution "terminal authorization job has no immutable result")
  pure ⟨deferred.filterMap artifactBinding ++
      (jobs.filter fun job => !w.terminal job).filterMap artifactBinding,
    (jobs.filter w.terminal).map fun job => artifactName (correlationOf job)⟩

/-- What a reconciliation decides about the slot. -/
inductive Reconciled where
  | vacant
  | removed (name : String)
  | retained (name : String)
  deriving DecidableEq

/-- The decision of `reconcile`. -/
def reconcileSlot (sha256 : Bytes → Sha256) (authority : IntakeAuthority) (slot : Slot) :
    Except IntakeError Reconciled := do
  let names ← scanSlot slot
  match names with
  | [] => pure .vacant
  | name :: _ => do
      let entry ← validateEntry slot name
      if isTemporary name then pure (.removed name)
      else do
        require (isAdmitted name) (.intake "intake contains an unrecognized object")
        match authority.authorized.lookup name with
        | none => pure (.removed name)
        | some declared =>
            if name ∈ authority.terminal then pure (.removed name)
            else do
              verifyExisting sha256 declared entry
              pure (.retained name)

/-! ## Issuance -/

/-- What the caller of a request binds. -/
structure CallerBinding where
  operatorPrincipal : String
  request : OperationRequest
  requestDigest : Digest
  artifact : Option Artifact
  deriving DecidableEq

/-- `_caller_retry_binding` -/
def callerBinding (document : AuthorizationJob) : CallerBinding :=
  ⟨document.operatorPrincipal, document.request, document.requestDigest, document.artifact⟩

/-- `_read_retry_job` -/
def readRetryJob (w : IntakeWorld) (jobId : Uuid7) : Except IntakeError AuthorizationJob :=
  match w.jobs.find? jobId with
  | none => throw (.stateBusy "export.lock is busy")
  | some job => pure job

/-- `find_retry` -/
def findRetry (w : IntakeWorld) (binding : CallerBinding) :
    Except IntakeError (Option AuthorizationJob) := do
  let merged ← w.reconcilePairs
  match merged.find? fun document =>
      decide (correlationOf document = binding.request.correlationId) with
  | none => pure none
  | some established => do
      require (decide (callerBinding established = binding))
        (.conflict "correlation ID is already bound to another authorized request")
      let job ← readRetryJob w established.jobId
      pure (some job)

/-- `retry_requires_artifact` -/
def retryRequiresArtifact (w : IntakeWorld) (job : AuthorizationJob) : Except IntakeError Bool :=
  if !w.resultExists job.jobId then do
    require (!terminalPhase job.phase)
      (.issuance "terminal authorization job has no immutable result")
    pure true
  else
    pure (w.intents.entries.any fun entry => decide (entry.2.kind = .transaction) &&
      decide (entry.2.correlationId = correlationOf job))

/-- What a new request resolves to. -/
inductive CorrelationResolution where
  | established (job : AuthorizationJob)
  | admitted
  deriving DecidableEq

/-- `resolve`, up to the limits of rate and capacity and the audit history. -/
def resolve (w : IntakeWorld) (candidate : AuthorizationJob) :
    Except IntakeError CorrelationResolution := do
  require (decide (candidate.phase = .pending))
    (.correlation "new correlation admission requires a pending job")
  let merged ← w.reconcilePairs
  match merged.find? fun document =>
      decide (correlationOf document = correlationOf candidate) with
  | some established => do
      require (decide (retryBinding established = retryBinding candidate))
        (.conflict "correlation ID is already bound to another authorized request")
      let job ← readRetryJob w established.jobId
      pure (.established job)
  | none => do
      require (decide (w.intents.entries = [])) (.stateBusy "export.lock is busy")
      require (!w.resultExists (correlationOf candidate) && !w.resultExists candidate.jobId)
        (.conflict "new authorization collides with permanent result identity")
      require (merged.all fun document => decide (document.jobId ≠ candidate.jobId))
        (.conflict "new correlation selected an established job identity")
      pure .admitted

/-! ## Steps -/

/-- An upload that is to be admitted. -/
structure Admission where
  binding : CallerBinding
  declared : Artifact
  bound : binding.artifact = some declared
  valid : validateDeclared binding.request.operation declared = .ok ()

namespace Admission

def correlationId (a : Admission) : Uuid7 := a.binding.request.correlationId

def filename (a : Admission) : String := artifactName a.correlationId

end Admission

/-- Who holds the intake lock, and how far the holder has come. -/
inductive Holder where
  | idle
  | admitting (a : Admission)
  /-- The slot was found or made vacant. -/
  | creating (a : Admission)
  | streaming (a : Admission) (temporary : String)
  /-- The lease is held; a fresh artifact was published by this admission itself. -/
  | leased (a : Admission) (fresh : Bool)
  /-- The correlation copy of the new job is durable. -/
  | issuing (a : Admission) (fresh : Bool) (candidate : AuthorizationJob)
  /-- The file is to be removed on the way out. -/
  | leaving (name : String)
  | claimed (job : AuthorizationJob) (declared : Artifact)
  | reconciling (authority : IntakeAuthority)
  /-- The reconciliation has decided to remove the file. -/
  | sweeping (name : String)
  /-- The reconciliation has returned. -/
  | reconciled

structure IntakeState where
  world : IntakeWorld
  holder : Holder

/-- What the steps are called. -/
inductive Action where
  | request | findVacant | removeAbandoned | findExisting | create | write | publish | retain | discard
  | resolveEstablished | publishCorrelation | publishJob
  /-- The admission is left by an exception. -/
  | fail
  | remove | claim | consume | loadAuthority | decide | sweep
  /-- The holder crashes, or leaves by an exception that has nothing to clean up, or returns. -/
  | stop
  /-- A result, a job, a missing copy or an intent of the correlation changes elsewhere. -/
  | touch (correlationId : Uuid7)
  /-- A job without an artifact is issued elsewhere. -/
  | issueOther
  deriving DecidableEq

/-- A change of the durable records elsewhere. -/
inductive Elsewhere : Action → IntakeWorld → IntakeWorld → Prop where
  | result {w : IntakeWorld} {job : AuthorizationJob} (r : OperationResult)
      (hjob : w.jobs.find? job.jobId = some job) (hresult : w.results.find? job.jobId = none) :
      Elsewhere (.touch (correlationOf job)) w { w with results := w.results.insert job.jobId r }
  | replaceJob {w : IntakeWorld} {job job' : AuthorizationJob}
      (hjob : w.jobs.find? job.jobId = some job) (hsame : durableBinding job' = durableBinding job) :
      Elsewhere (.touch (correlationOf job)) w { w with jobs := w.jobs.insert job.jobId job' }
  | repairJob {w : IntakeWorld} {document : AuthorizationJob}
      (hcorrelation : w.correlations.find? (correlationOf document) = some document)
      (hjob : w.jobs.find? document.jobId = none) :
      Elsewhere (.touch (correlationOf document)) w
        { w with jobs := w.jobs.insert document.jobId document }
  | repairCorrelation {w : IntakeWorld} {job : AuthorizationJob}
      (hjob : w.jobs.find? job.jobId = some job)
      (hcorrelation : w.correlations.find? (correlationOf job) = none) :
      Elsewhere (.touch (correlationOf job)) w
        { w with correlations := w.correlations.insert (correlationOf job) job }
  | addIntent {w : IntakeWorld} (id : Uuid7) (intent : LifecycleIntent)
      (hid : w.intents.find? id = none) :
      Elsewhere (.touch intent.correlationId) w { w with intents := w.intents.insert id intent }
  | removeIntent {w : IntakeWorld} {id : Uuid7} {intent : LifecycleIntent}
      (hid : w.intents.find? id = some intent) :
      Elsewhere (.touch intent.correlationId) w { w with intents := w.intents.erase id }
  | issue {w : IntakeWorld} {candidate : AuthorizationJob} (hartifact : candidate.artifact = none)
      (hresolve : resolve w candidate = .ok .admitted) :
      Elsewhere .issueOther w
        { w with correlations := w.correlations.insert (correlationOf candidate) candidate }

/-- One step of the holder of the intake lock, or elsewhere. -/
inductive Step (sha256 : Bytes → Sha256) : Action → IntakeState → IntakeState → Prop where
  | request {w : IntakeWorld} (a : Admission) :
      Step sha256 .request ⟨w, .idle⟩ ⟨w, .admitting a⟩
  | findVacant {w : IntakeWorld} {a : Admission}
      (h : reconcileBeforeAdmission sha256 a.filename a.declared true w.slot = .ok .vacant) :
      Step sha256 .findVacant ⟨w, .admitting a⟩ ⟨w, .creating a⟩
  | removeAbandoned {w : IntakeWorld} {a : Admission} {name : String}
      (h : reconcileBeforeAdmission sha256 a.filename a.declared true w.slot =
        .ok (.abandoned name)) :
      Step sha256 .removeAbandoned ⟨w, .admitting a⟩
        ⟨{ w with slot := w.slot.erase name }, .creating a⟩
  | findExisting {w : IntakeWorld} {a : Admission}
      (h : reconcileBeforeAdmission sha256 a.filename a.declared true w.slot = .ok .existing) :
      Step sha256 .findExisting ⟨w, .admitting a⟩ ⟨w, .leased a false⟩
  | create {w : IntakeWorld} {a : Admission} {temporary : String}
      (hname : isTemporary temporary = true) (hnew : w.slot.find? temporary = none) :
      Step sha256 .create ⟨w, .creating a⟩
        ⟨{ w with slot := w.slot.insert temporary ⟨true, []⟩ }, .streaming a temporary⟩
  | write {w : IntakeWorld} {a : Admission} {temporary : String} {entry : Entry} (chunk : Bytes)
      (hentry : w.slot.find? temporary = some entry)
      (hsize : entry.bytes.length + chunk.length ≤ a.declared.size) :
      Step sha256 .write ⟨w, .streaming a temporary⟩
        ⟨{ w with slot := w.slot.insert temporary ⟨true, entry.bytes ++ chunk⟩ },
          .streaming a temporary⟩
  | publish {w : IntakeWorld} {a : Admission} {temporary : String} {entry : Entry}
      (hentry : w.slot.find? temporary = some entry) (hsafe : entry.safe = true)
      (hexact : Exact sha256 a.declared entry.bytes) (hnew : w.slot.find? a.filename = none) :
      Step sha256 .publish ⟨w, .streaming a temporary⟩
        ⟨{ w with slot := (w.slot.erase temporary).insert a.filename entry }, .leased a true⟩
  | retain {w : IntakeWorld} {a : Admission} {fresh : Bool} {job : AuthorizationJob}
      (hretry : findRetry w a.binding = .ok (some job))
      (hneeded : retryRequiresArtifact w job = .ok true) :
      Step sha256 .retain ⟨w, .leased a fresh⟩ ⟨w, .idle⟩
  | discard {w : IntakeWorld} {a : Admission} {fresh : Bool} {job : AuthorizationJob}
      (hretry : findRetry w a.binding = .ok (some job))
      (hneeded : retryRequiresArtifact w job = .ok false) :
      Step sha256 .discard ⟨w, .leased a fresh⟩ ⟨w, .leaving a.filename⟩
  | resolveEstablished {w : IntakeWorld} {a : Admission} {fresh : Bool}
      {candidate job : AuthorizationJob} (hbinding : callerBinding candidate = a.binding)
      (hresolve : resolve w candidate = .ok (.established job)) :
      Step sha256 .resolveEstablished ⟨w, .leased a fresh⟩ ⟨w, .idle⟩
  | publishCorrelation {w : IntakeWorld} {a : Admission} {fresh : Bool}
      {candidate : AuthorizationJob} (hbinding : callerBinding candidate = a.binding)
      (hresolve : resolve w candidate = .ok .admitted) :
      Step sha256 .publishCorrelation ⟨w, .leased a fresh⟩
        ⟨{ w with correlations := w.correlations.insert (correlationOf candidate) candidate },
          .issuing a fresh candidate⟩
  | publishJob {w : IntakeWorld} {a : Admission} {fresh : Bool} {candidate : AuthorizationJob}
      (hnew : w.jobs.find? candidate.jobId = none) :
      Step sha256 .publishJob ⟨w, .issuing a fresh candidate⟩
        ⟨{ w with jobs := w.jobs.insert candidate.jobId candidate }, .idle⟩
  | failStreaming {w : IntakeWorld} {a : Admission} {temporary : String} :
      Step sha256 .fail ⟨w, .streaming a temporary⟩ ⟨w, .leaving temporary⟩
  | failLeased {w : IntakeWorld} {a : Admission} :
      Step sha256 .fail ⟨w, .leased a true⟩ ⟨w, .leaving a.filename⟩
  | failIssuing {w : IntakeWorld} {a : Admission} {candidate : AuthorizationJob} :
      Step sha256 .fail ⟨w, .issuing a true candidate⟩ ⟨w, .leaving a.filename⟩
  | failIssued {w : IntakeWorld} {a : Admission} {candidate : AuthorizationJob}
      (hnew : w.jobs.find? candidate.jobId = none) :
      Step sha256 .fail ⟨w, .issuing a true candidate⟩
        ⟨{ w with jobs := w.jobs.insert candidate.jobId candidate }, .leaving a.filename⟩
  | remove {w : IntakeWorld} {name : String} :
      Step sha256 .remove ⟨w, .leaving name⟩ ⟨{ w with slot := w.slot.erase name }, .idle⟩
  | claim {w : IntakeWorld} {job : AuthorizationJob} {declared : Artifact}
      (hjob : w.jobs.find? job.jobId = some job) (hdeclared : job.artifact = some declared)
      (h : requireClaimable sha256 (artifactName (correlationOf job)) declared w.slot = .ok ()) :
      Step sha256 .claim ⟨w, .idle⟩ ⟨w, .claimed job declared⟩
  | consume {w : IntakeWorld} {job : AuthorizationJob} {declared : Artifact}
      (hresult : w.resultExists job.jobId = true) :
      Step sha256 .consume ⟨w, .claimed job declared⟩
        ⟨w, .leaving (artifactName (correlationOf job))⟩
  | loadAuthority {w : IntakeWorld} {authority : IntakeAuthority}
      (h : loadAuthority w = .ok authority) :
      Step sha256 .loadAuthority ⟨w, .idle⟩ ⟨w, .reconciling authority⟩
  | decideVacant {w : IntakeWorld} {authority : IntakeAuthority}
      (h : reconcileSlot sha256 authority w.slot = .ok .vacant) :
      Step sha256 .decide ⟨w, .reconciling authority⟩ ⟨w, .reconciled⟩
  | decideRemoved {w : IntakeWorld} {authority : IntakeAuthority} {name : String}
      (h : reconcileSlot sha256 authority w.slot = .ok (.removed name)) :
      Step sha256 .decide ⟨w, .reconciling authority⟩ ⟨w, .sweeping name⟩
  | decideRetained {w : IntakeWorld} {authority : IntakeAuthority} {name : String}
      (h : reconcileSlot sha256 authority w.slot = .ok (.retained name)) :
      Step sha256 .decide ⟨w, .reconciling authority⟩ ⟨w, .reconciled⟩
  | sweep {w : IntakeWorld} {name : String} :
      Step sha256 .sweep ⟨w, .sweeping name⟩ ⟨{ w with slot := w.slot.erase name }, .reconciled⟩
  | stop {w : IntakeWorld} {holder : Holder} : Step sha256 .stop ⟨w, holder⟩ ⟨w, .idle⟩
  | elsewhere {action : Action} {w w' : IntakeWorld} {holder : Holder}
      (h : Elsewhere action w w') : Step sha256 action ⟨w, holder⟩ ⟨w', holder⟩

end StaticHostAgent.Intake
