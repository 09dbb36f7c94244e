import StaticHostAgent.Host.Capacity

/-!
# The archived prefix of the audit chain

Segments that were rotated out of local storage are kept as an index of descriptors and witnesses
under an index head. `readArchivePrefix` accepts an index only if every descriptor extends the
prefix before it and is verified against the bytes of its segment; `ArchivePrefix` carries that as
a field, so later reads rely on it.
-/

set_option autoImplicit false

namespace StaticHostAgent.Audit

open Library Contracts Host

def maxArchivedSegments : Nat := 4096

def maxWitnessedEntries : Nat := 65536

def maxArchiveSegmentBytes : Nat := 8 * mebibyte

def maxArchiveMetadataBytes : Nat := 32 * mebibyte

def maxArchiveMetadataInodes : Nat := 8192

def maxIndexBytes : Nat := 32 * 1024

def maxDescriptorBytes : Nat := 16 * 1024

def maxJournalBytes : Nat := 2 * mebibyte

def maxStatusBytes : Nat := 16 * 1024

/-- The installation an archive belongs to. -/
structure Lineage where
  lineageId : Uuid7
  repositoryBinding : Sha256
  deriving DecidableEq

/-- The sealed description of one closed segment. -/
structure RotationDescriptor where
  lineage : Lineage
  segmentNumber : Nat
  firstSequence : Nat
  lastSequence : Nat
  entryCount : Nat
  segmentBytes : Nat
  segmentSha256 : Sha256
  predecessorEntryDigest : Option Digest
  terminalEntryDigest : Digest
  deriving DecidableEq

structure ArchivedSegment where
  descriptor : RotationDescriptor
  data : Bytes
  deriving DecidableEq

structure ArchiveHead where
  lineage : Lineage
  indexCount : Nat
  entryCount : Nat
  terminalEntryDigest : Option Digest
  deriving DecidableEq

/-- The last proof that the archived prefix is protected. -/
structure ProtectionStatus where
  verified : Bool
  lineage : Lineage
  headDigest : Sha256
  verifiedAt : Int
  deriving DecidableEq

/-- The archive directory as it lies on disk. -/
structure ArchiveDirectory where
  lineage : Lineage
  head : ArchiveHead
  segments : List ArchivedSegment
  allocatedBytes : Nat
  inodes : Nat
  rotationIntent : Option RotationDescriptor
  protectionStatus : Option ProtectionStatus
  deriving DecidableEq

/-- An empty boundary has no digest, any other has one of an audit entry. -/
def positionDigest (digest : Option Digest) (position : Nat) : Bool :=
  if position = 0 then digest.isNone else digest.any (Digest.hasFormat · .auditEntry)

def validateRotation (d : RotationDescriptor) : Except AgentError Unit := do
  require (decide (d.segmentNumber < maxArchivedSegments) &&
      decide (d.firstSequence < maxWitnessedEntries) &&
      decide (d.lastSequence < maxWitnessedEntries) &&
      decide (d.entryCount ≤ maxWitnessedEntries) &&
      decide (d.segmentBytes ≤ maxArchiveSegmentBytes))
    (.backupIdentity "audit archive count exceeds its bound")
  require ((decide (d.segmentNumber = 0) == decide (d.firstSequence = 0)) &&
      decide (d.entryCount ≠ 0) && decide (d.lastSequence + 1 = d.firstSequence + d.entryCount) &&
      decide (d.segmentBytes ≠ 0))
    (.backupIdentity "audit archive segment boundary is invalid")
  require (positionDigest d.predecessorEntryDigest d.firstSequence &&
      d.terminalEntryDigest.hasFormat .auditEntry)
    (.backupIdentity "audit archive digest is invalid")

section Reading

variable (e : Encoding)

/-- The audit entry a line denotes. -/
def decodeAuditEntry (line : Bytes) : Except ContractError AuditEntry :=
  match e.decode line with
  | some (.auditEntry x) => pure x
  | _ => throw (schemaInvalid "contract does not match its schema")

/-- The canonical bytes of a valid entry and their digest. -/
def canonicalAuditEntry (x : AuditEntry) : Except ContractError (Bytes × Digest) := do
  let canonical ← validateContract e (.auditEntry x)
  pure (canonical, digestBytes e .auditEntry canonical)

/-- Progress of the complete entry and chain proof over one closed segment. -/
structure SegmentChain where
  count : Nat
  first : Nat
  predecessor : Option Digest
  terminal : Option Digest
  seen : List Uuid7

def SegmentChain.start : SegmentChain := ⟨0, 0, none, none, []⟩

/-- One more entry; its canonical bytes are returned. -/
def SegmentChain.add (chain : SegmentChain) (x : AuditEntry) :
    Except AgentError (SegmentChain × Bytes) := do
  let (canonical, digest) ← liftContract (canonicalAuditEntry e x)
  require (decide (x.sequence < maxWitnessedEntries))
    (.backupIdentity "audit archive count exceeds its bound")
  let first := if chain.count = 0 then x.sequence else chain.first
  let predecessor := if chain.count = 0 then x.previousEntryDigest else chain.predecessor
  let terminal := if chain.count = 0 then predecessor else chain.terminal
  require (decide (x.sequence = first + chain.count) && decide (x.previousEntryDigest = terminal))
    (.backupIdentity "audit archive segment breaks its hash chain")
  require (decide (x.correlationId ∉ chain.seen))
    (.backupIdentity "audit archive repeats a correlation")
  require (decide (chain.count + 1 ≤ maxWitnessedEntries))
    (.backupIdentity "audit archive witness exceeds its entry boundary")
  pure (⟨chain.count + 1, first, predecessor, some digest, x.correlationId :: chain.seen⟩,
    canonical)

/-- One line of a closed segment. -/
def inspectLine (chain : SegmentChain) (line : Bytes) : Except AgentError SegmentChain := do
  let x ← liftContract (decodeAuditEntry e line)
  let (chain, canonical) ← chain.add e x
  require (decide (canonical = line)) (.backupIdentity "audit archive entry is not canonical")
  pure chain

/-- Validate the exact bytes of a closed segment. -/
def inspectSegment (raw : Bytes) : Except AgentError SegmentChain := do
  require (decide (raw ≠ []) && decide (raw.length ≤ maxArchiveSegmentBytes) &&
      decide (raw.getLast? = some 10))
    (.backupIdentity "audit archive segment exceeds its byte boundary")
  (splitNewlines raw).foldlM (inspectLine e) SegmentChain.start

/-- A descriptor describes exactly these bytes. -/
def verifySegment (d : RotationDescriptor) (raw : Bytes) : Except AgentError Unit := do
  validateRotation d
  let evidence ← inspectSegment e raw
  require (decide (raw.length = d.segmentBytes) && decide (e.sha256 raw = d.segmentSha256) &&
      decide (evidence.first = d.firstSequence) && decide (evidence.count = d.entryCount) &&
      decide (evidence.predecessor = d.predecessorEntryDigest) &&
      decide (evidence.terminal = some d.terminalEntryDigest))
    (.backupIdentity "restored audit segment disagrees with its descriptor")

/-- The head that a list of indexes determines. -/
def headForIndexes (lineage : Lineage) (segments : List ArchivedSegment) : ArchiveHead :=
  match segments.getLast? with
  | none => ⟨lineage, 0, 0, none⟩
  | some last => ⟨lineage, segments.length, last.descriptor.lastSequence + 1,
      some last.descriptor.terminalEntryDigest⟩

def requireExtension (d : RotationDescriptor) (expected : ArchiveHead) :
    Except AgentError Unit := do
  require (decide (d.lineage = expected.lineage))
    (.backupIdentity "audit archive belongs to another lineage or repository")
  require (decide (d.segmentNumber = expected.indexCount) &&
      decide (d.firstSequence = expected.entryCount) &&
      decide (d.predecessorEntryDigest = expected.terminalEntryDigest))
    (.backupIdentity "audit archive index is not a contiguous prefix")

/-- Every index extends the indexes before it and is verified against its witness. -/
def requireIndexes (lineage : Lineage) (accepted : List ArchivedSegment) :
    List ArchivedSegment → Except AgentError Unit
  | [] => pure ()
  | segment :: rest => do
      requireExtension segment.descriptor (headForIndexes lineage accepted)
      verifySegment e segment.descriptor segment.data
      requireIndexes lineage (accepted ++ [segment]) rest

/-- A pending rotation names the next position or the last committed one. -/
def requirePending (directory : ArchiveDirectory) (d : RotationDescriptor) :
    Except AgentError Unit := do
  validateRotation d
  let number := d.segmentNumber
  require (decide (number = directory.segments.length) ||
      decide (number + 1 = directory.segments.length))
    (.backupIdentity "audit rotation intent has an unrelated prefix position")
  requireExtension d (headForIndexes directory.lineage (directory.segments.take number))
  require (decide (directory.segments.length ≤ number) ||
      decide (directory.segments[number]?.map ArchivedSegment.descriptor = some d))
    (.backupIdentity "audit rotation intent conflicts with the committed index")

end Reading

/-- What the archive directory proves: its index was read completely and is contiguous. -/
structure ArchivePrefix (e : Encoding) where
  head : Option ArchiveHead
  segments : List ArchivedSegment
  allocatedBytes : Nat
  inodes : Nat
  rotationIntent : Option RotationDescriptor
  protectionStatus : Option ProtectionStatus
  contiguous : ∃ lineage, requireIndexes e lineage [] segments = .ok ()

/-- Without an archive directory the prefix is empty. -/
def ArchivePrefix.none (e : Encoding) : ArchivePrefix e :=
  ⟨.none, [], 0, 0, .none, .none, ⟨⟨⟨0, 0, 0⟩, 0⟩, rfl⟩⟩

/-- Read and bind the bounded local archive prefix. -/
def readArchivePrefix (e : Encoding) : Option ArchiveDirectory → Except AgentError (ArchivePrefix e)
  | none => pure (ArchivePrefix.none e)
  | some directory => do
      require (decide (directory.allocatedBytes ≤ maxArchiveMetadataBytes))
        (.backupIdentity "audit archive metadata exceeds its byte bound")
      require (decide (directory.inodes ≤ maxArchiveMetadataInodes))
        (.backupIdentity "audit archive metadata exceeds its inode bound")
      match h : requireIndexes e directory.lineage [] directory.segments with
      | .error error => throw error
      | .ok () => do
          require (decide (headForIndexes directory.lineage directory.segments = directory.head))
            (.backupIdentity "audit archive head disagrees with its immutable index chain")
          match directory.rotationIntent with
          | none => pure ()
          | some descriptor => requirePending directory descriptor
          pure ⟨directory.head, directory.segments, directory.allocatedBytes, directory.inodes,
            directory.rotationIntent, directory.protectionStatus, ⟨directory.lineage, h⟩⟩

/-- A prefix that was read from an archive directory has a head. -/
theorem readArchivePrefix_headed {e : Encoding} {directory : Option ArchiveDirectory}
    {archive : ArchivePrefix e} (hdirectory : directory.isSome = true)
    (h : readArchivePrefix e directory = .ok archive) : archive.head.isSome = true := by
  cases directory with
  | none => cases hdirectory
  | some directory =>
      unfold readArchivePrefix at h
      simp only [bind_eq_ok, require_eq_ok] at h
      obtain ⟨-, -, -, -, h⟩ := h
      split at h
      · cases h
      · simp only [bind_eq_ok, require_eq_ok] at h
        obtain ⟨-, -, h⟩ := h
        split at h
        · simp only [pure_eq_ok] at h
          obtain ⟨-, -, rfl⟩ := h
          rfl
        · simp only [bind_eq_ok, pure_eq_ok] at h
          obtain ⟨-, -, rfl⟩ := h
          rfl

end StaticHostAgent.Audit
