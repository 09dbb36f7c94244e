import StaticHostAgent.Library.Handlers
import StaticHostAgent.Maintenance.Retention

/-!
# Verification of the protected inventory

Every call outside the local archive, and every reading of local records that other commands may
change, takes its answer from a stream. A verification lists the repository, restores the genesis
and every protected snapshot, and binds them to the local archive. `events` records what was
listed, made durable and run, newest first.
-/

set_option autoImplicit false

namespace StaticHostAgent.Maintenance

open Library Contracts Host

structure VerifiedAuditSnapshot where
  snapshotId : String
  descriptor : RotationRecord
  descriptorBytes : Bytes
  segment : Bytes
  witness : Bytes

/-- What a command outside answers; failing, it may have taken effect. -/
inductive Outcome where
  | succeeds
  | refuses (error : AgentError)
  | appliesAndRaises (error : AgentError)

/-- The answers to one call, whichever it is. -/
structure Answer where
  discovered : Except AgentError (RepositoryIdentity × List RepositorySnapshot)
  restored : Except AgentError LineageRecord
  observed : Except AgentError LocalArchive
  audited : RepositorySnapshot → Except AgentError VerifiedAuditSnapshot
  dryRun : Except AgentError Bytes
  maintenanceId : Uuid7
  outcome : Outcome

inductive Event where
  | listed (snapshots : List RepositorySnapshot)
  | recorded (intent : MaintenanceIntent)
  | forgets (ids : List String)
  | prunes
  | removed
  deriving DecidableEq

structure MaintenanceState where
  intent : Option MaintenanceIntent
  events : List Event
  answers : Nat → Answer

namespace MaintenanceState

/-- The state behind one more call. -/
def next (w : MaintenanceState) : MaintenanceState :=
  { w with answers := fun n => w.answers (n + 1) }

def note (event : Event) (w : MaintenanceState) : MaintenanceState :=
  { w with events := event :: w.events }

/-- The intent is replaced, or created. -/
def record (intent : MaintenanceIntent) (w : MaintenanceState) : MaintenanceState :=
  { w with intent := some intent, events := .recorded intent :: w.events }

def remove (w : MaintenanceState) : MaintenanceState :=
  { w with intent := none, events := .removed :: w.events }

end MaintenanceState

abbrev Maintain (α : Type) : Type := Durable MaintenanceState AgentError α

def ask : Maintain Answer := fun w => ⟨[], w.next, .ok (w.answers 0)⟩

/-- A command outside that is only run for its outcome. -/
def command : Maintain Unit := do
  let answer ← ask
  match answer.outcome with
  | .succeeds => pure ()
  | .refuses error | .appliesAndRaises error => Durable.fail error

/-- A durable change, before or behind which the run may fail. -/
def change (f : MaintenanceState → MaintenanceState) : Maintain Unit := do
  let answer ← ask
  match answer.outcome with
  | .succeeds => Durable.effect f
  | .refuses error => Durable.fail error
  | .appliesAndRaises error => do
      Durable.effect f
      Durable.fail error

def discoverRepository : Maintain (RepositoryIdentity × List RepositorySnapshot) := do
  let answer ← ask
  let found ← Durable.query fun _ => answer.discovered
  Durable.query fun _ => requireSnapshots found.2
  Durable.effect (MaintenanceState.note (.listed found.2))
  pure found

section Program

variable (host : MaintenanceHost)

def repositoryGenesis (identity : RepositoryIdentity) (snapshots : List RepositorySnapshot) :
    Maintain (Option LineageRecord) := do
  let answer ← ask
  Durable.query fun _ => genesisOf identity snapshots answer.restored

/-- One reading of the local archive, with the durable intent. -/
def observeArchive (lineage : LineageRecord) : Maintain LocalArchive := do
  let answer ← ask
  Durable.query fun w => do
    let found ← answer.observed
    let archive := { found with maintenanceIntent := w.intent }
    require (decide (archive.lineage = lineage))
      (.backupIdentity "protected audit local lineage changed")
    let head ← headDigest host archive
    require (archive.maintenanceIntent.all fun intent =>
        decide (intent.lineage = archive.lineage.toLineage))
      (.backupIdentity "audit archive belongs to another lineage or repository")
    require (archive.maintenanceIntent.all fun intent => decide (intent.expectedHeadDigest = head))
      (.backupIdentity "audit maintenance intent expected another index head")
    pure archive

def requireSameAuthority (captured current : LocalArchive) : Except AgentError Unit :=
  require (decide (captured = current))
    (.backupIdentity "protected audit authority changed during remote verification")

/-! ## The protected snapshots -/

/-- What the restored snapshots prove so far, oldest first. -/
structure Protection where
  copies : List (RotationRecord × List String)
  rows : List (String × Sha256)
  protectedBytes : Nat
  orphan : Option VerifiedAuditSnapshot

/-- One more copy of a segment; a segment has one descriptor. -/
def addCopy (descriptor : RotationRecord) (snapshotId : String) :
    List (RotationRecord × List String) → Except AgentError (List (RotationRecord × List String))
  | [] => pure [(descriptor, [snapshotId])]
  | (known, ids) :: rest =>
      if known.segmentNumber = descriptor.segmentNumber then do
        require (decide (known = descriptor))
          (.backupIdentity "protected inventory has competing rotation attempts")
        pure ((known, ids ++ [snapshotId]) :: rest)
      else do
        let copies ← addCopy descriptor snapshotId rest
        pure ((known, ids) :: copies)

/-- A restored snapshot agrees with the index, or with the pending rotation. -/
def requireIndexed (archive : LocalArchive) (verified : VerifiedAuditSnapshot) :
    Except AgentError Unit :=
  match archive.segments[verified.descriptor.segmentNumber]? with
  | some archived => require (decide (archived.descriptor = verified.descriptor) &&
        decide (archived.witness = verified.witness))
      (.backupIdentity "protected snapshot disagrees with its index or witness")
  | none => do
      require (decide (verified.descriptor.segmentNumber = archive.segments.length))
        (.backupIdentity "protected inventory has an unindexed prefix gap")
      require (archive.rotationIntent.all fun intent =>
          decide (intent.descriptor = verified.descriptor))
        (.backupIdentity "unindexed snapshot disagrees with durable rotation authority")

/-- One more protected snapshot. The smallest identity of an unindexed segment is its orphan. -/
def protect (archive : LocalArchive) (referenced : List (String × Sha256)) (acc : Protection)
    (snapshot : RepositorySnapshot) (verified : VerifiedAuditSnapshot) :
    Except AgentError Protection := do
  let digest := descriptorDigest host verified.descriptorBytes
  require ((referenced.lookup snapshot.snapshotId).all fun known => decide (known = digest))
    (.backupIdentity "protected snapshot conflicts with its local descriptor")
  require (decide (verified.descriptor.segmentNumber < Audit.maxArchivedSegments))
    (.backupIdentity "audit archive count exceeds its bound")
  let copies ← addCopy verified.descriptor snapshot.snapshotId acc.copies
  requireIndexed archive verified
  let isOrphan := decide (verified.descriptor.segmentNumber = archive.segments.length)
  pure ⟨copies, acc.rows ++ [(snapshot.snapshotId, digest)],
    acc.protectedBytes + verified.descriptorBytes.length + verified.segment.length,
    if acc.orphan.isNone && isOrphan then some verified else acc.orphan⟩

structure ProtectedProof where
  snapshotIds : List String
  inventoryDigest : Sha256
  protectedBytes : Nat
  copies : List (RotationRecord × List String)
  orphan : Option VerifiedAuditSnapshot

/-- Audit snapshots and whatever the local archive refers to, sorted. -/
def candidatesOf (referenced : List (String × Sha256)) (snapshots : List RepositorySnapshot) :
    List RepositorySnapshot :=
  (snapshots.filter fun s => isAuditSnapshot s ||
    decide (s.snapshotId ∈ referenced.map Prod.fst)).insertionSort
      (fun s t => s.snapshotId ≤ t.snapshotId)

def protectCandidates (archive : LocalArchive) (referenced : List (String × Sha256)) :
    List RepositorySnapshot → Protection → Maintain Protection
  | [], acc => pure acc
  | snapshot :: rest, acc => do
      let answer ← ask
      let acc ← Durable.query fun _ => do
        let verified ← answer.audited snapshot
        protect host archive referenced acc snapshot verified
      protectCandidates archive referenced rest acc

def firstGenesis (snapshots : List RepositorySnapshot) : Except AgentError RepositorySnapshot :=
  match snapshots.find? fun s => decide (lineageTag ∈ s.tags) with
  | none => throw (.backupIdentity "protected inventory lacks its permanent lineage evidence")
  | some snapshot => pure snapshot

/-- A fresh, complete proof of the protected snapshots of a listing. -/
def verifyProtectedInventory (identity : RepositoryIdentity) (snapshots : List RepositorySnapshot)
    (archive : LocalArchive) : Maintain ProtectedProof := do
  let lineage := archive.lineage
  Durable.query fun _ => requireRepositoryHistory host snapshots identity lineage
  let again ← repositoryGenesis identity snapshots
  Durable.query fun _ => require (decide (again = some lineage))
    (.backupIdentity "protected inventory lacks its permanent lineage evidence")
  let genesis ← Durable.query fun _ => firstGenesis snapshots
  let referenced ← Durable.query fun _ => referencedSnapshots host archive
  Durable.query fun _ => require
    (referenced.all fun entry => decide (entry.1 ∈ snapshotIdsOf snapshots))
    (.backupIdentity "protected inventory is missing locally referenced snapshots")
  let candidates := candidatesOf referenced snapshots
  let acc ← protectCandidates host archive referenced candidates
    ⟨[], [], lineage.document.length, none⟩
  let document := host.inventoryDocument lineage genesis.snapshotId acc.rows
  Durable.query fun _ => require (decide (document.length ≤ maxSnapshotBytes))
    (.contract ⟨.canonicalTooLarge, "canonical JSON exceeds its limit"⟩)
  pure ⟨sortedTexts (genesis.snapshotId :: snapshotIdsOf candidates),
    host.framedDigest "lowerduckpond-audit-protected-inventory-v1" document,
    acc.protectedBytes,
    acc.copies.insertionSort (fun c d => c.1.segmentNumber ≤ d.1.segmentNumber), acc.orphan⟩

end Program

end StaticHostAgent.Maintenance
