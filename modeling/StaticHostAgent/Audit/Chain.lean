import StaticHostAgent.Audit.Archive
import StaticHostAgent.Library.Directory

/-!
# Reading the audit chain

`readSegments` collects the archived prefix and the local segment files into one contiguous list of
segments, `validateChainRecords` is the one validation pass that every later read and append makes
over it. Besides the chain position the pass answers a query: the entry of one correlation, and
whether a tenant has a history.
-/

set_option autoImplicit false

namespace StaticHostAgent.Audit

open Library Contracts Host

/-- Local segment size and the ordinary and administrator ceilings. -/
structure AuditLimits where
  maximumSegmentBytes : Nat
  maximumOrdinaryBytes : Nat
  maximumAdministratorReserveBytes : Nat
  segment_admits_entry : maxCanonicalBytes ≤ maximumSegmentBytes
  segment_bounded : maximumSegmentBytes ≤ 8 * mebibyte
  ordinary_bounded : maximumOrdinaryBytes ≤ 128 * mebibyte
  reserve_bounded : maximumAdministratorReserveBytes ≤ 8 * mebibyte

def defaultAuditLimits : AuditLimits :=
  ⟨8 * mebibyte, 128 * mebibyte, 8 * mebibyte, by decide, le_rfl, le_rfl, le_rfl⟩

def AuditLimits.maximumAdministratorBytes (l : AuditLimits) : Nat :=
  l.maximumOrdinaryBytes + l.maximumAdministratorReserveBytes

/-- Every accepted segment accounts for at least one block of 512 bytes. -/
def AuditLimits.maximumSegments (l : AuditLimits) : Nat := l.maximumAdministratorBytes / 512

/-- The audit directory: the archive beside the local segment files, which are kept by the number in
their name. -/
structure AuditStore where
  archive : Option ArchiveDirectory
  segments : Directory Nat Bytes
  deriving DecidableEq

/-- What the audit functions take from the host. -/
structure AuditHost where
  encoding : Encoding
  allocation : Allocation
  headDigest : ArchiveHead → Sha256
  now : Int

/-! ## Segments -/

structure Segment where
  number : Nat
  data : Bytes
  allocatedBytes : Nat
  archived : Bool
  deriving DecidableEq

/-- Progress of the scan over the local segment files. -/
structure LocalScan where
  previousNumber : Option Nat
  logicalBytes : Nat
  allocatedBytes : Nat
  segments : List Segment

section Reading

variable (host : AuditHost) (limits : AuditLimits)

/-- One local segment file: it overlaps the archived prefix or extends the chain by one. -/
def scanLocalSegment (archive : ArchivePrefix host.encoding) (scan : LocalScan)
    (file : Nat × Bytes) : Except AgentError LocalScan := do
  let number := file.1
  let data := file.2
  require (decide (number ≤ scan.segments.length) &&
      scan.previousNumber.all fun previous => decide (number = previous + 1))
    (.audit "audit local suffix has a gap or an unindexed predecessor")
  require (decide (data.length ≤ limits.maximumSegmentBytes) &&
      decide (0 < host.allocation.allocated data.length))
    (.audit "audit segment has an unsafe inode shape")
  let logicalBytes := scan.logicalBytes + data.length
  let allocatedBytes := scan.allocatedBytes + host.allocation.allocated data.length
  require (decide (max logicalBytes allocatedBytes ≤ limits.maximumAdministratorBytes))
    (.auditCapacity "audit inventory exceeds its absolute byte ceiling")
  let segment : Segment := ⟨number, data, host.allocation.allocated data.length, false⟩
  if number < archive.segments.length then do
    require (decide (scan.segments[number]?.map Segment.data = some data))
      (.audit "audit local overlap disagrees with its archived segment")
    pure ⟨some number, logicalBytes, allocatedBytes, scan.segments.set number segment⟩
  else pure ⟨some number, logicalBytes, allocatedBytes, scan.segments ++ [segment]⟩

/-- A pending rotation names a closed local segment that has a successor. -/
def requirePendingLocalSegment (archive : ArchivePrefix host.encoding) (segments : List Segment) :
    Except AgentError Unit :=
  match archive.rotationIntent with
  | none => pure ()
  | some descriptor =>
      if descriptor.segmentNumber < archive.segments.length then pure ()
      else
        match segments[descriptor.segmentNumber]? with
        | none => throw
            (.audit "pending audit rotation lacks its closed local segment and successor")
        | some segment => do
            require (decide (descriptor.segmentNumber + 1 < segments.length) && !segment.archived)
              (.audit "pending audit rotation lacks its closed local segment and successor")
            mapError
              (fun _ => .audit "pending audit rotation disagrees with its local authority")
              (verifySegment host.encoding descriptor segment.data)

/-- The archived prefix as segments without local allocation. -/
def archivedSegments (archive : ArchivePrefix host.encoding) : List Segment :=
  archive.segments.mapIdx fun number segment => ⟨number, segment.data, 0, true⟩

/-- The complete chain of segments with the archived prefix it was read against. -/
def readSegments (a : AuditStore) :
    Except AgentError (ArchivePrefix host.encoding × List Segment) := do
  let archive ← mapError (fun _ => .audit "audit archive prefix is invalid or incomplete")
    (readArchivePrefix host.encoding a.archive)
  require (decide (a.segments.size ≤ limits.maximumSegments))
    (.auditCapacity "audit directory exceeds its segment ceiling")
  let scan ← a.segments.entries.foldlM (scanLocalSegment host limits archive)
    ⟨none, archive.allocatedBytes, archive.allocatedBytes, archivedSegments host archive⟩
  require (archive.segments.isEmpty || decide (scan.segments.length ≠ archive.segments.length))
    (.audit "audit archive prefix lacks its unarchived current tail")
  requirePendingLocalSegment host archive scan.segments
  pure (archive, scan.segments)

end Reading

/-! ## The validation pass -/

/-- The verified chain position and its allocation. -/
structure AuditState where
  entryCount : Nat
  segmentCount : Nat
  allocatedBytes : Nat
  terminalDigest : Option Digest
  deriving DecidableEq

/-- What a read asks of the pass besides the position. -/
structure ChainQuery where
  correlationId : Option Uuid7
  historyTenantId : Option Uuid7
  deploymentHistoryCandidates : List Uuid7

def ChainQuery.none : ChainQuery := ⟨.none, .none, []⟩

def ChainQuery.correlation (correlationId : Uuid7) : ChainQuery := ⟨some correlationId, .none, []⟩

/-- Progress of the pass. -/
structure ChainScan where
  sequence : Nat
  terminal : Option Digest
  allocated : Nat
  previousSegmentBytes : Option Nat
  archivedCorrelations : List Uuid7
  matchingEntry : Option AuditEntry
  hasLaterTenantStateTransition : Bool
  hasTenantHistory : Bool
  hasDeploymentHistory : Bool
  deploymentHistoryMatches : List Uuid7

def tenantStateTransitions : List Operation :=
  [.create, .deploy, .rollback, .suspend, .resume, .rename, .import, .archive, .restore, .delete,
    .reconcile]

def deploymentEvidenceOperations : List Operation :=
  [.deploy, .rollback, .suspend, .resume, .export, .import, .archive, .restore]

/-- A successful transition of one tenant. -/
def isTenantStateTransition (x : AuditEntry) (tenantId : Option Uuid7) : Bool :=
  decide (x.tenantId = tenantId) && decide (x.resultStatus = .succeeded) &&
    decide (x.operation ∈ tenantStateTransitions)

def isLaterTenantStateTransition (matching : Option AuditEntry) (candidate : AuditEntry) : Bool :=
  matching.any fun entry =>
    decide (candidate.sequence ≠ entry.sequence) && entry.tenantId.isSome &&
      isTenantStateTransition candidate entry.tenantId

/-- The entry proves that its tenant had a deployment. -/
def deploymentEvidence (x : AuditEntry) : Bool :=
  decide (x.resultStatus = .succeeded) &&
    (decide (x.operation ∈ deploymentEvidenceOperations) ||
      (decide (x.operation = .delete) &&
        x.deletionEvidence.any fun d => decide (d.mode ≠ .neverDeployed)))

/-- The pass after one entry; inside an archived segment the terminal digest stands still. -/
def ChainScan.advance (encoding : Encoding) (query : ChainQuery) (headed archived : Bool)
    (scan : ChainScan) (x : AuditEntry) : ChainScan :=
  let matching := if query.correlationId = some x.correlationId then some x else scan.matchingEntry
  { scan with
    sequence := scan.sequence + 1
    terminal := if archived then scan.terminal else some (auditEntryDigest encoding x)
    archivedCorrelations :=
      if headed then x.correlationId :: scan.archivedCorrelations else scan.archivedCorrelations
    matchingEntry := matching
    hasLaterTenantStateTransition :=
      scan.hasLaterTenantStateTransition || isLaterTenantStateTransition matching x
    hasTenantHistory :=
      scan.hasTenantHistory || isTenantStateTransition x query.historyTenantId
    hasDeploymentHistory := scan.hasDeploymentHistory ||
      (decide (x.tenantId = query.historyTenantId) && deploymentEvidence x)
    deploymentHistoryMatches :=
      match x.tenantId with
      | some tenantId =>
          if deploymentEvidence x ∧ tenantId ∈ query.deploymentHistoryCandidates then
            tenantId :: scan.deploymentHistoryMatches
          else scan.deploymentHistoryMatches
      | .none => scan.deploymentHistoryMatches }

section Validation

variable (host : AuditHost) (limits : AuditLimits)

/-- A line of a local segment is the exact canonical next entry; a line of an archived segment was
proved with its descriptor. -/
def proveLine (archived : Bool) (scan : ChainScan) (line : Bytes) (x : AuditEntry) :
    Except AgentError Unit :=
  if archived then pure ()
  else do
    let (canonical, _) ← mapError (fun _ => .audit "audit segment contains an invalid entry")
      (canonicalAuditEntry host.encoding x)
    require (decide (canonical = line))
      (.audit "audit entry is not its exact canonical representation")
    require (decide (x.sequence = scan.sequence)) (.audit "audit entry sequence is not contiguous")
    require (decide (x.previousEntryDigest = scan.terminal))
      (.audit "audit entry predecessor breaks the chain")

/-- One line of the chain. -/
def scanLine (query : ChainQuery) (headed archived : Bool) (scan : ChainScan) (line : Bytes) :
    Except AgentError ChainScan := do
  require (decide (line.length ≤ maxCanonicalBytes))
    (.audit "audit entry exceeds its canonical byte ceiling")
  let x ← mapError (fun _ => .audit "audit segment contains an invalid entry")
    (decodeAuditEntry host.encoding line)
  proveLine host archived scan line x
  require (!headed || decide (x.correlationId ∉ scan.archivedCorrelations))
    (.audit "audit correlation appears multiple times across archived/local history")
  require (decide (query.correlationId ≠ some x.correlationId) || scan.matchingEntry.isNone)
    (.audit "audit correlation appears multiple times")
  pure (scan.advance host.encoding query headed archived x)

/-- The descriptor that already vouches for a segment: an archived one, or the pending rotation. -/
def vouchedDescriptor (archive : ArchivePrefix host.encoding) (number : Nat) :
    Option RotationDescriptor :=
  match archive.segments[number]? with
  | some segment => some segment.descriptor
  | none => archive.rotationIntent.filter fun pending => decide (pending.segmentNumber = number)

/-- The pass with another allocation. -/
def ChainScan.allocate (scan : ChainScan) (allocated : Nat) : ChainScan :=
  { scan with allocated := allocated }

/-- The pass behind one segment. A vouched segment ends in the digest of its descriptor. -/
def ChainScan.close (scanned : ChainScan) (vouched : Option RotationDescriptor)
    (segmentBytes : Nat) : ChainScan :=
  { scanned with
    terminal := vouched.elim scanned.terminal fun d => some d.terminalEntryDigest
    previousSegmentBytes := some segmentBytes }

/-- One segment of the chain. -/
def scanSegment (query : ChainQuery) (archive : ArchivePrefix host.encoding) (scan : ChainScan)
    (segment : Segment) : Except AgentError ChainScan := do
  let data := segment.data
  require (decide (data.getLast? = some 10))
    (.audit "audit segment is not nonempty canonical JSON lines")
  let lines := splitLines data
  require (scan.previousSegmentBytes.all fun previous =>
      decide (limits.maximumSegmentBytes < previous + (lines.head?.getD []).length))
    (.audit "audit segment rotation is not canonically packed")
  let vouched := vouchedDescriptor host archive segment.number
  require (vouched.all fun descriptor =>
      decide (descriptor.firstSequence = scan.sequence) &&
        decide (descriptor.predecessorEntryDigest = scan.terminal))
    (.audit "archived audit segment breaks the complete chain")
  let scanned ← lines.foldlM (scanLine host query archive.head.isSome vouched.isSome)
    (scan.allocate (scan.allocated + segment.allocatedBytes))
  pure (scanned.close vouched data.length)

/-- The pass over all segments. -/
def scanChain (query : ChainQuery) (archive : ArchivePrefix host.encoding)
    (segments : List Segment) : Except AgentError ChainScan :=
  segments.foldlM (scanSegment host limits query archive)
    ⟨0, none, archive.allocatedBytes, none, [], none, false, false, false, []⟩

def ChainScan.state (scan : ChainScan) (segments : List Segment) : AuditState :=
  ⟨scan.sequence, segments.length, scan.allocated, scan.terminal⟩

/-- One bounded validation pass. -/
def validateChainRecords (query : ChainQuery) (archive : ArchivePrefix host.encoding)
    (segments : List Segment) : Except AgentError ChainScan := do
  let scan ← scanChain host limits query archive segments
  require (decide (scan.allocated ≤ limits.maximumAdministratorBytes))
    (.auditCapacity "audit allocation exceeds its absolute ceiling")
  pure scan

/-- The position of the complete chain. -/
def validateChain (archive : ArchivePrefix host.encoding) (segments : List Segment) :
    Except AgentError AuditState := do
  let scan ← validateChainRecords host limits .none archive segments
  pure (scan.state segments)

/-- Validate every segment and return the exact terminal chain state. -/
def inspectAudit (a : AuditStore) : Except AgentError AuditState := do
  let (archive, segments) ← readSegments host limits a
  validateChain host limits archive segments

/-- The entries of a validated chain, parsed again. -/
def chainEntries (segments : List Segment) : List AuditEntry :=
  (segments.flatMap fun s => splitLines s.data).filterMap fun line =>
    match host.encoding.decode line with
    | some (.auditEntry x) => some x
    | _ => none

/-- The transition of the same tenant before the matching entry. -/
def previousTenantStateTransition (segments : List Segment) (matching : Option AuditEntry) :
    Option AuditEntry :=
  match matching with
  | none => none
  | some entry =>
      if entry.tenantId.isNone then none
      else
        ((chainEntries host segments).takeWhile
          fun x => decide (x.sequence ≠ entry.sequence)).reverse.find?
            fun x => isTenantStateTransition x entry.tenantId

/-- One bounded correlation lookup paired with its exact chain state. -/
structure AuditCorrelationSnapshot where
  state : AuditState
  entry : Option AuditEntry
  previousTenantStateTransition : Option AuditEntry
  hasLaterTenantStateTransition : Bool
  deriving DecidableEq

/-- Validate the complete chain and return at most one exact correlation. -/
def inspectAuditCorrelation (correlationId : Uuid7) (a : AuditStore) :
    Except AgentError AuditCorrelationSnapshot := do
  let (archive, segments) ← readSegments host limits a
  let scan ← validateChainRecords host limits (.correlation correlationId) archive segments
  pure ⟨scan.state segments, scan.matchingEntry,
    previousTenantStateTransition host segments scan.matchingEntry,
    scan.hasLaterTenantStateTransition⟩

/-- Whether the chain records the tenant, and whether it records a deployment of it. -/
def tenantAuditHistory (tenantId : Uuid7) (a : AuditStore) : Except AgentError (Bool × Bool) := do
  let (archive, segments) ← readSegments host limits a
  let scan ← validateChainRecords host limits ⟨none, some tenantId, []⟩ archive segments
  pure (scan.hasTenantHistory, scan.hasDeploymentHistory)

/-- The candidates whose deployment the chain records. -/
def deploymentAuditHistoryTenantIds (tenantIds : List Uuid7) (a : AuditStore) :
    Except AgentError (List Uuid7) := do
  let (archive, segments) ← readSegments host limits a
  let scan ← validateChainRecords host limits ⟨none, none, tenantIds⟩ archive segments
  pure scan.deploymentHistoryMatches

end Validation

end StaticHostAgent.Audit
