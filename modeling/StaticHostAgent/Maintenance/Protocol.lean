import StaticHostAgent.Maintenance.Inventory

/-!
# The maintenance protocol

A maintenance selects what to remove once, records it durably, and then forgets, prunes and checks,
each phase behind a fresh verification. An interrupted maintenance is resumed from its recorded
intent, and never selects again.
-/

set_option autoImplicit false

namespace StaticHostAgent.Maintenance

open Library Contracts Host

structure VerifiedArchive where
  identity : RepositoryIdentity
  snapshots : List RepositorySnapshot
  archive : LocalArchive
  proof : ProtectedProof

section Program

variable (host : MaintenanceHost)

/-- The proof is published in other records; neither they nor their publication touch the intent of
the maintenance. -/
def commitProtectedProof (current : LocalArchive) (proof : ProtectedProof) : Maintain Unit := do
  Durable.query fun _ => do
    let _ ← headDigest host current
    require (!(proof.orphan.isNone && current.rotationIntent.any fun intent =>
        decide (intent.descriptor.segmentNumber = current.segments.length)))
      (.backupIdentity "pending audit rotation lacks a verified snapshot")
    require (!(proof.orphan.isSome && current.maintenanceIntent.isSome))
      (.backupIdentity "unindexed rotation appeared during maintenance")
  command

/-- The part of a verification behind the discovery of the lineage. -/
def verifyLineage (identity : RepositoryIdentity) (snapshots : List RepositorySnapshot)
    (lineage : LineageRecord) : Maintain VerifiedArchive := do
  let captured ← observeArchive host lineage
  let proof ← verifyProtectedInventory host identity snapshots captured
  let current ← observeArchive host lineage
  Durable.query fun _ => requireSameAuthority captured current
  commitProtectedProof host current proof
  let committed ← observeArchive host lineage
  pure ⟨identity, snapshots, committed, proof⟩

def lineageMissing : AgentError :=
  .backupIdentity "protected audit verification requires existing lineage evidence"

/-- `_verify` -/
def verify : Maintain VerifiedArchive := do
  let found ← discoverRepository
  let genesis ← repositoryGenesis found.1 found.2
  match genesis with
  | none => Durable.fail lineageMissing
  | some lineage => verifyLineage host found.1 found.2 lineage

/-- The intent still speaks about this head and this proof, and what it removes is ordinary. -/
def requireMaintenanceProof (intent : MaintenanceIntent) (verified : VerifiedArchive) :
    Except AgentError Unit := do
  let head ← headDigest host verified.archive
  require (decide (intent.expectedHeadDigest = head) &&
      decide (intent.protectedInventoryDigest = verified.proof.inventoryDigest) &&
      decide (intent.protectedSnapshotIds = verified.proof.snapshotIds))
    (.backupIdentity "maintenance protection changed since its durable intent")
  verified.snapshots.forM fun s => checkIf (decide (s.snapshotId ∈ intent.removeIds))
    (require (decide (s.snapshotId ∉ verified.proof.snapshotIds) &&
        decide (s.hostname = verified.identity.nodeName) && decide ("scheduled" ∈ s.tags) &&
        !isAuditSnapshot s && decide (lineageTag ∉ s.tags) && decide (s.paths ≠ []))
      (.backupIdentity "maintenance intent does not select ordinary snapshot authority"))

def publishIntent (verified : VerifiedArchive) (intent : MaintenanceIntent) : Maintain Unit := do
  let _ ← Durable.query fun _ => decodeMaintenanceIntent host intent
  let current ← observeArchive host verified.archive.lineage
  Durable.query fun _ => requireSameAuthority verified.archive current
  change (MaintenanceState.record intent)

def refreshLocal (verified : VerifiedArchive) : Maintain VerifiedArchive := do
  let current ← observeArchive host verified.archive.lineage
  pure { verified with archive := current }

def requireRemoved (intent : MaintenanceIntent) (verified : VerifiedArchive) :
    Except AgentError Unit :=
  require (decide (∀ s ∈ verified.snapshots, s.snapshotId ∉ intent.removeIds))
    (.backupIdentity "ordinary forget did not remove the exact selected snapshots")

/-- Whatever Restic answers, it was told to forget these. -/
def forgetExactIds (ids : List String) : Maintain Unit := do
  Durable.query fun _ => require (decide (ids.length ≤ maxSnapshots) && sortedUnique ids)
    (.backupIdentity "ordinary retention deletion set is ambiguous")
  Durable.when (decide (ids ≠ [])) (do
    Durable.query fun _ => require (ids.all isSha256)
      (.backupIdentity "audit archive requires a full SHA-256 identity")
    Durable.effect (MaintenanceState.note (.forgets ids))
    command)

def pruneRepository : Maintain Unit := do
  Durable.effect (MaintenanceState.note .prunes)
  command

/-- `restic check` changes nothing. -/
def checkRepository : Maintain Unit := command

/-- Select the remove set, and record it durably before anything is forgotten. -/
def beginMaintenance (verified : VerifiedArchive) :
    Maintain (MaintenanceIntent × VerifiedArchive) := do
  let answer ← ask
  let removals ← Durable.query fun _ => ordinaryRetentionIds host.loads verified.identity
    verified.snapshots verified.proof.snapshotIds answer.dryRun
  let intent ← Durable.query fun _ => do
    let head ← headDigest host verified.archive
    decodeMaintenanceIntent host ⟨answer.maintenanceId,
      ⟨verified.archive.lineage.lineageId, binding host verified.identity⟩, head,
      verified.proof.inventoryDigest, verified.proof.snapshotIds, removals, .prepared⟩
  publishIntent host verified intent
  let refreshed ← refreshLocal host verified
  pure (intent, refreshed)

/-- Forget what is still there of the recorded set, and prove it absent. -/
def forgetRecorded (intent : MaintenanceIntent) (verified : VerifiedArchive) :
    Maintain (MaintenanceIntent × VerifiedArchive) := do
  forgetExactIds (intent.removeIds.filter fun id =>
    decide (id ∈ snapshotIdsOf verified.snapshots))
  let again ← verify host
  Durable.query fun _ => requireMaintenanceProof host intent again
  Durable.query fun _ => requireRemoved intent again
  publishIntent host again { intent with phase := .forgotten }
  let refreshed ← refreshLocal host again
  pure ({ intent with phase := .forgotten }, refreshed)

/-- A prune that may have been interrupted is run again only behind a new proof. -/
def prunePhase (intent : MaintenanceIntent) (verified : VerifiedArchive) : Maintain Unit :=
  match intent.phase with
  | .forgotten => do
      publishIntent host verified { intent with phase := .pruning }
      pruneRepository
  | .pruning => do
      checkRepository
      let again ← verify host
      Durable.query fun _ => requireMaintenanceProof host intent again
      Durable.query fun _ => requireRemoved intent again
      pruneRepository
  | .prepared | .checked => pure ()

/-- Check the repository, and retire the intent behind a last proof. -/
def finishMaintenance (intent : MaintenanceIntent) : Maintain VerifiedArchive := do
  checkRepository
  let verified ← verify host
  Durable.query fun _ => requireMaintenanceProof host intent verified
  Durable.query fun _ => requireRemoved intent verified
  publishIntent host verified { intent with phase := .checked }
  let refreshed ← refreshLocal host verified
  let current ← observeArchive host refreshed.archive.lineage
  Durable.query fun _ => requireSameAuthority refreshed.archive current
  change MaintenanceState.remove
  refreshLocal host refreshed

def forgetPhase (intent : MaintenanceIntent) (verified : VerifiedArchive) :
    Maintain (MaintenanceIntent × VerifiedArchive) :=
  if intent.phase = .prepared then forgetRecorded host intent verified else pure (intent, verified)

/-- Carry a recorded maintenance through its phases. -/
def resumeMaintenance (intent : MaintenanceIntent) (verified : VerifiedArchive) :
    Maintain VerifiedArchive := do
  Durable.query fun _ => requireMaintenanceProof host intent verified
  let (intent, verified) ← forgetPhase host intent verified
  Durable.query fun _ => requireRemoved intent verified
  prunePhase host intent verified
  finishMaintenance host intent

/-- `_maintain` -/
def maintain : Maintain VerifiedArchive := do
  let verified ← verify host
  match verified.archive.maintenanceIntent with
  | some intent => resumeMaintenance host intent verified
  | none => do
      let (intent, refreshed) ← beginMaintenance host verified
      resumeMaintenance host intent refreshed

/-- A failure is recorded in the protection status, which the maintenance does not read. -/
def maintainArchive : Maintain VerifiedArchive :=
  Durable.rescue (maintain host) fun error => do
    let _ ← ask
    Durable.fail error

end Program

end StaticHostAgent.Maintenance
