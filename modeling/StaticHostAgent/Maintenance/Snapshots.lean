import StaticHostAgent.Audit.Archive
import StaticHostAgent.Contracts.Texts
import StaticHostAgent.Library.JsonSchema

/-!
# Snapshots of the backup repository

What a listing of the repository tells about a snapshot, and which snapshots may never be forgotten:
the genesis of the lineage, the copies of archived audit segments, and whatever the local archive
refers to. Snapshot identities are full SHA-256 texts, which are ordered as texts.
-/

set_option autoImplicit false

namespace StaticHostAgent.Maintenance

open Library Contracts Host Audit

def lineageTag : String := "lowerduckpond-audit-lineage"

def archiveTag : String := "lowerduckpond-audit-archive"

def snapshotSource : String := "/var/cache/lowerduckpond-backup/audit/snapshot"

def maxSnapshots : Nat := 8192

def maxSnapshotBytes : Nat := 16 * mebibyte

def maxSnapshotPathBytes : Nat := 4096

def maxProtectedSnapshots : Nat := 8192

/-- `tuple(sorted(value))` -/
def sortedTexts (texts : List String) : List String := texts.insertionSort (· ≤ ·)

/-- `value == tuple(sorted(set(value)))` -/
def sortedUnique (texts : List String) : Bool := decide (texts.Pairwise (· < ·))

structure RepositorySnapshot where
  snapshotId : String
  hostname : String
  tags : List String
  paths : List String
  deriving DecidableEq

structure RepositoryIdentity where
  configId : String
  nodeName : String
  locator : String
  deriving DecidableEq

/-- A removed archive tag must not hide a snapshot from complete discovery. -/
def isAuditSnapshot (s : RepositorySnapshot) : Bool :=
  decide (archiveTag ∈ s.tags) || s.tags.any (fun tag => tag.startsWith "rotation-") ||
    decide (snapshotSource ∈ s.paths)

/-- An ordinary scheduled backup of the node. -/
def isScheduled (nodeName : String) (s : RepositorySnapshot) : Bool :=
  decide (s.hostname = nodeName) && decide ("scheduled" ∈ s.tags)

def snapshotIdsOf (snapshots : List RepositorySnapshot) : List String :=
  snapshots.map RepositorySnapshot.snapshotId

def validSnapshot (s : RepositorySnapshot) : Bool :=
  isSha256 s.snapshotId && decide (s.tags.length ≤ 64) &&
    s.tags.all (fun tag => decide (tag.length ≤ 256)) && decide s.tags.Nodup &&
    decide (s.paths.length ≤ 64) &&
    s.paths.all (fun path => decide (path ≠ "") && decide (path.length ≤ maxSnapshotPathBytes) &&
      decide ('\x00' ∉ path.toList)) && decide s.paths.Nodup

/-- The checks of `discover_repository` on the snapshots it lists. -/
def requireSnapshots (snapshots : List RepositorySnapshot) : Except AgentError Unit := do
  require (decide (snapshots.length ≤ maxSnapshots))
    (.backupIdentity "repository snapshot inventory exceeds its bound")
  require (snapshots.all validSnapshot && decide (snapshotIdsOf snapshots).Nodup)
    (.backupIdentity "invalid repository snapshot metadata")

/-- A bounded, sorted list of full identities. -/
def snapshotIds (ids : List String) : Except AgentError (List String) := do
  require (decide (ids.length ≤ maxProtectedSnapshots))
    (.backupIdentity "audit snapshot inventory exceeds its bound")
  require (ids.all isSha256) (.backupIdentity "audit archive requires a full SHA-256 identity")
  require (sortedUnique ids)
    (.backupIdentity "audit snapshot inventory is not sorted and unique")
  pure ids

theorem snapshotIds_eq_ok {ids found : List String} (h : snapshotIds ids = .ok found) :
    found = ids := by
  unfold snapshotIds at h
  simp only [bind_eq_ok, pure_eq_ok] at h
  obtain ⟨-, -, -, -, -, -, rfl⟩ := h
  rfl

/-! ## The local archive -/

/-- The lineage of the installation, by its canonical bytes and the members that are read. -/
structure LineageRecord extends Lineage where
  repository : RepositoryIdentity
  document : Bytes
  deriving DecidableEq

/-- A sealed rotation descriptor, by its canonical bytes and the member that is read. -/
structure RotationRecord where
  segmentNumber : Nat
  document : Bytes
  deriving DecidableEq

/-- One entry of the index, with the witness of its segment. -/
structure IndexedSegment where
  descriptor : RotationRecord
  snapshotId : String
  descriptorDigest : Sha256
  document : Bytes
  witness : Bytes
  deriving DecidableEq

structure RotationIntent where
  descriptor : RotationRecord
  snapshotIds : List String
  document : Bytes
  deriving DecidableEq

structure DuplicateRow where
  descriptorDigest : Sha256
  snapshotIds : List String
  deriving DecidableEq

inductive MaintenancePhase where
  | prepared | forgotten | pruning | checked
  deriving DecidableEq

/-- The durable intent of one maintenance. -/
structure MaintenanceIntent where
  maintenanceId : Uuid7
  lineage : Lineage
  expectedHeadDigest : Sha256
  protectedInventoryDigest : Sha256
  protectedSnapshotIds : List String
  removeIds : List String
  phase : MaintenancePhase
  deriving DecidableEq

/-- The local records of the archive, as one reading finds them. -/
structure LocalArchive where
  lineage : LineageRecord
  head : Option Bytes
  segments : List IndexedSegment
  rotationIntent : Option RotationIntent
  duplicates : Option (List DuplicateRow)
  maintenanceIntent : Option MaintenanceIntent
  pendingIndex : Option Bytes
  pendingWitness : Option Bytes
  deriving DecidableEq

/-- What the maintenance takes from outside: the JSON parser and serializer, and the hash. -/
structure MaintenanceHost where
  loads : Bytes → Option Json
  identityDocument : RepositoryIdentity → Bytes
  inventoryDocument : LineageRecord → String → List (String × Sha256) → Bytes
  intentDocument : MaintenanceIntent → Bytes
  /-- Domain, NUL, unsigned 64-bit length, exact canonical bytes. -/
  framedDigest : String → Bytes → Sha256

section Records

variable (host : MaintenanceHost)

def binding (identity : RepositoryIdentity) : Sha256 :=
  host.framedDigest "lowerduckpond-backup-repository-binding-v1" (host.identityDocument identity)

def descriptorDigest (document : Bytes) : Sha256 :=
  host.framedDigest "lowerduckpond-audit-descriptor-v1" document

def headDigest (archive : LocalArchive) : Except AgentError Sha256 :=
  match archive.head with
  | none => throw (.backupIdentity "protected audit index is not initialized")
  | some head => pure (host.framedDigest "lowerduckpond-audit-index-head-v1" head)

/-- The phase is one of the known ones by its type. -/
def decodeMaintenanceIntent (intent : MaintenanceIntent) : Except AgentError MaintenanceIntent := do
  require (decide ((host.intentDocument intent).length ≤ maxJournalBytes))
    (.contract ⟨.canonicalTooLarge, "canonical JSON exceeds its limit"⟩)
  let protected_ ← snapshotIds intent.protectedSnapshotIds
  let removals ← snapshotIds intent.removeIds
  require (decide (protected_ ≠ []) && decide (∀ id ∈ protected_, id ∉ removals))
    (.backupIdentity "audit maintenance would remove protected authority")
  pure intent

/-- The snapshots that the local archive refers to, with the descriptors they must hold; a later
reference replaces an earlier one. -/
def referencedSnapshots (archive : LocalArchive) : Except AgentError (List (String × Sha256)) := do
  let indexed := archive.segments.reverse.map fun s => (s.snapshotId, s.descriptorDigest)
  let duplicated ← (archive.duplicates.getD []).foldlM (fun referenced row => do
    let ids ← snapshotIds row.snapshotIds
    pure ((ids.reverse.map fun id => (id, row.descriptorDigest)) ++ referenced)) indexed
  match archive.rotationIntent with
  | none => pure duplicated
  | some intent => do
      let digest := descriptorDigest host intent.descriptor.document
      let ids ← snapshotIds intent.snapshotIds
      require (ids.all fun id => (duplicated.lookup id).all fun known => decide (known = digest))
        (.backupIdentity "protected snapshot has conflicting local references")
      pure ((ids.map fun id => (id, digest)) ++ duplicated)

/-! ## The history and its genesis -/

def isReserved (tag : String) : Bool :=
  tag.startsWith "lineage-" || tag.startsWith "repository-" || tag.startsWith "rotation-" ||
    tag.startsWith "capture-"

/-- Every snapshot with a reserved tag belongs to the lineage and to the repository. -/
def requireRepositoryHistory (snapshots : List RepositorySnapshot) (identity : RepositoryIdentity)
    (lineage : LineageRecord) : Except AgentError Unit :=
  snapshots.forM fun s => checkIf
    (s.tags.any isReserved || decide (archiveTag ∈ s.tags) || decide (lineageTag ∈ s.tags))
    (require (decide (s.hostname = identity.nodeName) &&
        decide (s.tags.filter (fun tag => tag.startsWith "lineage-") =
          ["lineage-" ++ lineage.lineageId.text]) &&
        decide (s.tags.filter (fun tag => tag.startsWith "repository-") =
          ["repository-" ++ sha256Text (binding host identity)]))
      (.backupIdentity "repository history conflicts with the audit lineage"))

def lineageTags (record : LineageRecord) : List String :=
  [lineageTag, "lineage-" ++ record.lineageId.text,
    "repository-" ++ sha256Text record.repositoryBinding]

/-- The unique permanent anchor of a listing; `restored` is the record that its snapshot holds. -/
def genesisOf (identity : RepositoryIdentity) (snapshots : List RepositorySnapshot)
    (restored : Except AgentError LineageRecord) : Except AgentError (Option LineageRecord) :=
  match snapshots.filter fun s => decide (lineageTag ∈ s.tags) with
  | [] => pure none
  | [snapshot] => do
      let record ← restored
      require (decide (record.repository = identity) &&
          decide (snapshot.hostname = identity.nodeName) &&
          snapshot.tags.all (fun tag => decide (tag ∈ lineageTags record)) &&
          (lineageTags record).all (fun tag => decide (tag ∈ snapshot.tags)))
        (.backupIdentity "repository lineage binding changed")
      pure (some record)
  | _ => throw (.backupIdentity "repository lineage evidence is ambiguous")

end Records

end StaticHostAgent.Maintenance
