import StaticHostAgent.Audit.Chain
import StaticHostAgent.Library.DurableProgram

/-!
# Appending to the audit chain

`planAuditAppend` decides on its own whether and where an entry fits; `appendAudit` makes the plan
durable and then reads the chain again. The durable write may raise before or after its rename.
-/

set_option autoImplicit false

namespace StaticHostAgent.Audit

open Library Contracts Host

def maxProtectionAgeSeconds : Int := 24 * 60 * 60

def rotationInodes : Nat := 7

section Admission

variable (host : AuditHost) (limits : AuditLimits)

/-- Ordinary work needs a fresh proof that the current index head is protected. -/
def requireOrdinaryProtection (archive : ArchivePrefix host.encoding) : Except AgentError Unit :=
  match archive.head with
  | none => pure ()
  | some head =>
      match archive.protectionStatus with
      | none => throw
          (.auditProtection "ordinary audit work requires protection for the current index head")
      | some status => do
          require (status.verified && decide (status.lineage = head.lineage) &&
              decide (status.headDigest = host.headDigest head))
            (.auditProtection "ordinary audit work requires protection for the current index head")
          require (decide (0 ≤ host.now - status.verifiedAt) &&
              decide (host.now - status.verifiedAt ≤ maxProtectionAgeSeconds))
            (.auditProtection "ordinary audit work requires a fresh protected snapshot proof")

/-- One maximum witness, index, intents, head and status. -/
def rotationReservation : CapacityReservation :=
  ⟨([maxArchiveSegmentBytes, maxIndexBytes, maxJournalBytes, maxJournalBytes, maxJournalBytes,
      maxDescriptorBytes, maxStatusBytes].map host.allocation.allocationUpperBound).sum +
      host.allocation.namespaceAllocationUpperBound rotationInodes, rotationInodes⟩

/-- What the filesystem must offer beyond an append once the chain has an archive head. -/
def archiveAppendReservation (appendAllocation : Nat) : CapacityReservation :=
  ⟨(rotationReservation host).allocatedBytes + appendAllocation,
    (rotationReservation host).uniqueInodes + 1⟩

/-- The additional ordinary headroom of an append, after proving all free floors. -/
def admitArchiveAppend (capacity : FilesystemCapacity) (archive : ArchivePrefix host.encoding)
    (appendAllocation entryCount : Nat) : Except AgentError Nat :=
  match archive.head with
  | none => pure 0
  | some head => do
      requireOrdinaryProtection host archive
      let reservation := rotationReservation host
      require (decide (archive.allocatedBytes + reservation.allocatedBytes ≤
            maxArchiveMetadataBytes) &&
          decide (archive.inodes + reservation.uniqueInodes ≤ maxArchiveMetadataInodes) &&
          decide (head.indexCount ≠ maxArchivedSegments) &&
          decide (entryCount < maxWitnessedEntries))
        (.auditArchiveCapacity "ordinary work cannot reserve bounded audit archive metadata")
      mapError
        (fun _ => .auditArchiveCapacity
          "ordinary audit work cannot preserve filesystem free floors")
        (admitReleaseCapacity defaultHostCapacityLimits
          (archiveAppendReservation host appendAllocation) capacity)
      pure reservation.allocatedBytes

/-- How an error of the archive admission leaves the planner. -/
def planError : AgentError → AgentError
  | .auditArchiveCapacity message => .auditCapacity message
  | .auditProtection message => .audit message
  | error => error

def admitCapacity (projectedBytes : Nat) (administrator : Bool) : Except AgentError Unit :=
  require (decide (projectedBytes ≤
      if administrator then limits.maximumAdministratorBytes else limits.maximumOrdinaryBytes))
    (.auditCapacity "audit append would consume protected capacity")

/-- Where an append goes: the segment number and its complete new bytes. -/
structure AuditAppendPlan where
  state : AuditState
  target : Nat
  payload : Bytes
  replace : Bool
  deriving DecidableEq

/-- The last segment takes the entry if it has room, otherwise a new segment does. -/
def appendTarget (segments : List Segment) (canonical : Bytes) :
    Except AgentError (Nat × Bytes × Bool) :=
  match segments.getLast? with
  | some last =>
      if last.data.length + canonical.length ≤ limits.maximumSegmentBytes then
        pure (last.number, last.data ++ canonical, true)
      else do
        require (decide (segments.length < limits.maximumSegments))
          (.auditCapacity "audit segment count is exhausted")
        pure (segments.length, canonical, false)
  | none => do
      require (decide (segments.length < limits.maximumSegments))
        (.auditCapacity "audit segment count is exhausted")
      pure (segments.length, canonical, false)

/-- What one append may allocate. -/
def appendAllocation (payload : Bytes) : Nat :=
  host.allocation.allocationUpperBound payload.length +
    host.allocation.namespaceAllocationUpperBound 1

/-- The additional headroom of ordinary work; the administrator needs none. -/
def appendHeadroom (capacity : FilesystemCapacity) (archive : ArchivePrefix host.encoding)
    (payload : Bytes) (entryCount : Nat) (administrator : Bool) : Except AgentError Nat :=
  if administrator then pure 0
  else mapError planError
    (admitArchiveAppend host capacity archive (appendAllocation host payload) entryCount)

/-- Prove that one exact append fits the verified chain. -/
def planAuditAppend (capacity : FilesystemCapacity) (archive : ArchivePrefix host.encoding)
    (segments : List Segment) (candidate : AuditEntry) (canonical : Bytes)
    (administrator : Bool) : Except AgentError AuditAppendPlan := do
  let state ← validateChain host limits archive segments
  require (decide (candidate.sequence = state.entryCount))
    (.audit "audit sequence does not extend the verified chain")
  require (decide (candidate.previousEntryDigest = state.terminalDigest))
    (.audit "audit predecessor does not match the verified chain")
  let (target, payload, replace) ← appendTarget limits segments canonical
  let headroom ← appendHeadroom host capacity archive payload state.entryCount administrator
  admitCapacity limits (state.allocatedBytes + appendAllocation host payload + headroom)
    administrator
  pure ⟨state, target, payload, replace⟩

/-- Read the chain and plan one exact append. -/
def planAppend (capacity : FilesystemCapacity) (entry : AuditEntry) (administrator : Bool)
    (a : AuditStore) : Except AgentError AuditAppendPlan := do
  let canonical ← liftContract (validateContract host.encoding (.auditEntry entry))
  let (archive, segments) ← readSegments host limits a
  planAuditAppend host limits capacity archive segments entry canonical administrator

/-- Prove one exact append fits the verified chain without changing it. -/
def admitAuditAppend (capacity : FilesystemCapacity) (entry : AuditEntry) (administrator : Bool)
    (a : AuditStore) : Except AgentError AuditState := do
  let plan ← planAppend host limits capacity entry administrator a
  pure plan.state

structure AuditAppend where
  entryDigest : Digest
  state : AuditState
  deriving DecidableEq

/-- The chain after an append, as the append itself checks it. -/
def verifyAppend (entry : AuditEntry) (administrator : Bool) (a : AuditStore) :
    Except AgentError AuditAppend := do
  let state ← inspectAudit host limits a
  admitCapacity limits state.allocatedBytes administrator
  let digest := auditEntryDigest host.encoding entry
  require (decide (state.terminalDigest = some digest))
    (.audit "audit append did not produce the expected terminal digest")
  pure ⟨digest, state⟩

/-- The store with the planned segment written. -/
def AuditStore.write (plan : AuditAppendPlan) (a : AuditStore) : AuditStore :=
  { a with segments := a.segments.insert plan.target plan.payload }

/-- How the durable write of a segment ends: it goes through, it raises with the old segment still in
place, or it raises behind the rename, as the sync of the directory, the failure hook and the reading
of the segments may. -/
inductive WriteOutcome where
  | written
  | refused (error : AgentError)
  | placed (error : AgentError)
  deriving DecidableEq

namespace WriteOutcome

def beforeRename : WriteOutcome → Except AgentError Unit
  | refused error => .error error
  | _ => .ok ()

def afterRename : WriteOutcome → Except AgentError Unit
  | placed error => .error error
  | _ => .ok ()

/-- The old segment stays. -/
def isRefused : WriteOutcome → Bool
  | refused _ => true
  | _ => false

end WriteOutcome

/-- Append one entry through a segment generation: plan, write, read the chain again. -/
def appendAudit (outcome : WriteOutcome) (capacity : FilesystemCapacity) (entry : AuditEntry)
    (administrator : Bool) : Durable AuditStore AgentError AuditAppend := do
  let plan ← Durable.query (planAppend host limits capacity entry administrator)
  Durable.query fun _ => outcome.beforeRename
  Durable.effect (AuditStore.write plan)
  Durable.query fun _ => outcome.afterRename
  Durable.query (verifyAppend host limits entry administrator)

end Admission

end StaticHostAgent.Audit
