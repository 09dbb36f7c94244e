import StaticHostAgent.Releases.Measure
import Mathlib.Data.List.Lex

/-!
# The release namespace and its operations

`release_store.py`: the immutable releases under `<tenant>/releases/<deployment>` and the private
staging root beside them. Every change of a name is one durable step, in the order of the source; a
crash leaves the names as they stood after some step, since the file system keeps the order of name
changes and every call syncs what it changed before it returns. The locks are held by the callers.
-/

set_option autoImplicit false

namespace StaticHostAgent.Releases

open Library Contracts Host

/-! ## Names -/

/-- The names below `releases`: a published release, one whose removal began, or another name. -/
inductive ReleaseName where
  | deployment (deploymentId : Uuid7)
  | retired (deploymentId : Uuid7) (digest : Sha256)
  | other (name : FileName)
  deriving DecidableEq

/-- The names below the staging root. -/
inductive StagingName where
  | staged (tenantId deploymentId : Uuid7)
  | discarded (tenantId deploymentId : Uuid7)
  | other (name : FileName)
  deriving DecidableEq

theorem rank_inj {u v : Uuid7} : u.rank = v.rank ↔ u = v := Uuid7.rank_injective.eq_iff

theorem map_toNat_inj {a b : FileName} : a.map UInt8.toNat = b.map UInt8.toNat ↔ a = b :=
  (List.map_injective_iff.2 fun _ _ h => UInt8.toNat_inj.1 h).eq_iff

/-- The place of a name in a listing. -/
def ReleaseName.key : ReleaseName → List Nat
  | retired d digest => [0, d.rank, digest.val]
  | deployment d => [1, d.rank]
  | other name => 2 :: name.map UInt8.toNat

theorem ReleaseName.key_injective : Function.Injective ReleaseName.key := by
  intro a b h
  cases a <;> cases b <;>
    simp_all [ReleaseName.key, rank_inj, map_toNat_inj, Fin.val_inj]

instance : LinearOrder ReleaseName := LinearOrder.lift' ReleaseName.key ReleaseName.key_injective

/-- The place of a name in a listing; the leading dot puts discarded trees first. -/
def StagingName.key : StagingName → List Nat
  | discarded t d => [0, t.rank, d.rank]
  | staged t d => [1, t.rank, d.rank]
  | other name => 2 :: name.map UInt8.toNat

theorem StagingName.key_injective : Function.Injective StagingName.key := by
  intro a b h
  cases a <;> cases b <;> simp_all [StagingName.key, rank_inj, map_toNat_inj]

instance : LinearOrder StagingName := LinearOrder.lift' StagingName.key StagingName.key_injective

theorem StagingName.discarded_lt_staged (t d t' d' : Uuid7) : discarded t d < staged t' d' := by
  show [0, t.rank, d.rank] < [1, t'.rank, d'.rank]
  exact List.Lex.rel Nat.zero_lt_one

/-! ## State -/

/-- What is checked of a directory of the namespace. -/
structure Access where
  owner : Nat
  mode : Nat
  deriving DecidableEq

abbrev Releases : Type := Directory ReleaseName Release

/-- The content of a tenant's directory: its `releases` and any other names. -/
structure TenantNamespace where
  releases : Option (Held Unit Access Releases)
  others : List FileName
  deriving DecidableEq

abbrev Staging : Type := Directory StagingName Release

/-- The release root and the staging root. -/
structure ReleaseSpace where
  tenants : Directory Uuid7 (Held Unit Access TenantNamespace)
  staging : Staging
  deriving DecidableEq

/-- How the store was opened and which process uses it. -/
structure ReleaseHost where
  tree : TreeHost
  expectedOwner : Nat
  processOwner : Nat
  umask : Nat

namespace ReleaseSpace

variable (t d : Uuid7)

def tenantNamespace? (s : ReleaseSpace) : Option TenantNamespace :=
  match s.tenants.find? t with
  | some (.directory _ content) => some content
  | _ => none

def releases? (s : ReleaseSpace) : Option Releases :=
  match s.tenantNamespace? t with
  | some ⟨some (.directory _ releases), _⟩ => some releases
  | _ => none

/-- What stands under the name of a published release. -/
def release? (s : ReleaseSpace) : Option Release := s.releases? t >>= fun r => r.find? (.deployment d)

/-- The entry of a tenant in the release root. -/
def setTenant (slot : Option (Held Unit Access TenantNamespace)) (s : ReleaseSpace) :
    ReleaseSpace :=
  match slot with
  | none => { s with tenants := s.tenants.erase t }
  | some held => { s with tenants := s.tenants.insert t held }

def releasesSlot? (s : ReleaseSpace) : Option (Held Unit Access Releases) :=
  s.tenantNamespace? t >>= TenantNamespace.releases

/-- The entry `releases` of a tenant's directory. -/
def setReleasesSlot (slot : Option (Held Unit Access Releases)) (s : ReleaseSpace) : ReleaseSpace :=
  match s.tenants.find? t with
  | some (.directory access content) =>
      s.setTenant t (some (.directory access { content with releases := slot }))
  | _ => s

/-- The releases of a tenant, empty where there is no such directory. -/
def releasesOf (s : ReleaseSpace) : Releases := (s.releases? t).getD Directory.empty

def setReleases (releases : Releases) (s : ReleaseSpace) : ReleaseSpace :=
  match s.releasesSlot? t with
  | some (.directory access _) => s.setReleasesSlot t (some (.directory access releases))
  | _ => s

def setStaging (staging : Staging) (s : ReleaseSpace) : ReleaseSpace := { s with staging := staging }

/-- Run a program on the staging root. -/
def onStaging {α : Type} (p : Durable Staging AgentError α) : Durable ReleaseSpace AgentError α :=
  Durable.zoom staging setStaging fun _ => p

/-- Run a program on the releases of a tenant. -/
def onReleases {α : Type} (p : Durable Releases AgentError α) : Durable ReleaseSpace AgentError α :=
  Durable.zoom (releasesOf t) (setReleases t) fun _ => p

end ReleaseSpace

open ReleaseSpace

/-! ## Opening and measuring -/

def releaseStoreError (message : String) : AgentError := .releaseStore message

section Operations

variable (host : ReleaseHost)

/-- Owner and mode of an opened directory. -/
def validateDirectory (label : String) (expectedMode owner mode : Nat) : Except AgentError Unit :=
  require (decide (owner = host.expectedOwner ∧ mode = expectedMode))
    (releaseStoreError (label ++ " has an unsafe inode shape"))

/-- Open an existing directory of the namespace. -/
def openChildDirectory {C : Type} (label : String) (slot : Option (Held Unit Access C)) :
    Except AgentError C :=
  match slot with
  | some (.directory access content) => do
      validateDirectory host label releaseDirectoryMode access.owner access.mode
      pure content
  | _ => throw (releaseStoreError (label ++ " cannot be opened safely"))

/-- Measure what stands under a name. -/
def measureHeld (held : Option Release) : Except AgentError ReleaseTreeMeasurement :=
  match held with
  | none => throw (releaseTreeError "release root could not be opened")
  | some (.leaf _) => throw (releaseTreeError "release root is not a no-follow directory")
  | some (.directory root content) => measureReleaseTree host.tree host.expectedOwner root content

/-- Remeasure one published release. -/
def measure (t d : Uuid7) (s : ReleaseSpace) : Except AgentError ReleaseTreeMeasurement :=
  match s.tenants.find? t with
  | some (.leaf _) => throw (releaseTreeError "release root is not a no-follow directory")
  | some (.directory _ ⟨some (.leaf _), _⟩) =>
      throw (releaseTreeError "release root is not a no-follow directory")
  | _ => measureHeld host (s.release? t d)

/-- Measure a staged tree. -/
def measureStaging (t d : Uuid7) (s : Staging) : Except AgentError ReleaseTreeMeasurement :=
  measureHeld host (s.find? (.staged t d))

/-! ## Removing trees -/

/-- The check of a directory inside a published tree. -/
def checkReleaseDirectory (label : String) (root : Snapshot) : Except AgentError Unit :=
  validateDirectory host label releaseDirectoryMode root.owner root.mode

/-- The check of a file in front of its removal. -/
def checkFile (modes : List Nat) (message : String) : Leaf → Except AgentError Unit
  | .regular snapshot _ =>
      require (decide (snapshot.owner = host.expectedOwner ∧ snapshot.mode ∈ modes))
        (releaseStoreError message)
  | .special _ => throw (releaseStoreError message)

/-- Remove a retired release. -/
def removeReleaseTree (name : ReleaseName) : Durable Releases AgentError Unit :=
  removeTree (releaseStoreError "release tree cannot be opened safely")
    (checkReleaseDirectory host "release tree")
    (checkFile host [releaseFileMode] "release cleanup encountered an unsafe inode")
    (checkReleaseDirectory host "release directory") name

def checkStagingDirectory (root : Snapshot) : Except AgentError Unit :=
  require (decide (root.owner = host.expectedOwner ∧ root.mode ∈ [releaseDirectoryMode, 0o700]))
    (releaseStoreError "staging directory has an unsafe inode shape")

/-- Remove a discarded staging tree. -/
def removeStagingTree (t d : Uuid7) : Durable Staging AgentError Unit :=
  removeTree (releaseStoreError "staging directory cannot be opened safely")
    (checkStagingDirectory host)
    (checkFile host [releaseFileMode, 0o600] "staging cleanup encountered an unsafe inode")
    (checkStagingDirectory host) (.discarded t d)

/-! ## Staging -/

/-- Rename an entry; the new name must be free. -/
def renameEntry {K V : Type} [LinearOrder K] (source destination : K) (s : Directory K V) :
    Directory K V :=
  match s.find? source with
  | some value => (s.erase source).insert destination value
  | none => s

/-- Whether a staged and a discarded name stand for the same release. -/
def requireOneIdentity (t d : Uuid7) (s : Staging) : Except AgentError (Bool × Bool) := do
  let canonical := (s.find? (.staged t d)).isSome
  let discarded := (s.find? (.discarded t d)).isSome
  require (!(canonical && discarded))
    (releaseStoreError "staging cleanup found canonical and discarded identities")
  pure (canonical, discarded)

/-- Rename a staged tree to its discarded name, and remove what stands there. -/
def removeDiscardTransition (t d : Uuid7) : Durable Staging AgentError Unit := do
  let found ← Durable.query (requireOneIdentity t d)
  Durable.when found.1 (Durable.effect (renameEntry (.staged t d) (.discarded t d)))
  Durable.when (found.1 || found.2) (removeStagingTree host t d)

/-- The digests that protected trees must have. -/
abbrev Protected : Type := List ((Uuid7 × Uuid7) × Digest)

def maximumStagingEntries : Nat := 2

/-- The names of the staging root, all of them recognized. Two discarded names never share their
release, so the source's check for that cannot fail. -/
def scanStaging (preserved : Protected) (s : Staging) : Except AgentError (List StagingName) := do
  let names := s.keys
  require (decide (names.length ≤ maximumStagingEntries))
    (releaseStoreError "release staging exceeds its entry bound")
  require (names.all fun name => match name with
      | .other _ => false
      | _ => true)
    (releaseStoreError "release staging contains an unrecognized entry")
  require (names.all fun name => match name with
      | .discarded t d => decide (.staged t d ∉ names)
      | _ => true)
    (releaseStoreError "staging cleanup found canonical and discarded identities")
  require (preserved.all fun entry => decide (.staged entry.1.1 entry.1.2 ∈ names) ||
      decide (.discarded entry.1.1 entry.1.2 ∈ names))
    (releaseStoreError "protected release staging is absent")
  pure names

/-- A staged tree has the digest it must have. -/
def requireStagedDigest (t d : Uuid7) (expected : Digest) (s : Staging) : Except AgentError Unit := do
  let measurement ← measureStaging host t d s
  require (decide (measurement.digest = expected))
    (releaseStoreError "protected release staging digest drifted")

/-- Verify or remove one entry of the staging root. -/
def reconcileEntry (preserved : Protected) : StagingName → Durable Staging AgentError Unit
  | .discarded t d => removeStagingTree host t d
  | .staged t d =>
      match preserved.lookup (t, d) with
      | some expected => Durable.query (requireStagedDigest host t d expected)
      | none => removeDiscardTransition host t d
  | .other _ => pure ()

/-- Whether an entry is removed and counted. -/
def isRemoved (preserved : Protected) : StagingName → Bool
  | .discarded _ _ => true
  | .staged t d => (preserved.lookup (t, d)).isNone
  | .other _ => false

/-- Remove unreferenced staging and verify every protected tree; the number of removed entries. -/
def reconcileStaging (preserved : Protected) : Durable Staging AgentError Nat := do
  let names ← Durable.query (scanStaging preserved)
  names.forM (reconcileEntry host preserved)
  pure (names.countP (isRemoved preserved))

/-! ## Publication -/

/-- One verified private extraction. -/
structure StagedDeploymentRelease where
  tenantId : Uuid7
  deploymentId : Uuid7
  stagingName : StagingName
  measurement : ReleaseTreeMeasurement

/-- One immutable release and whether this call published it. -/
structure PublishedDeploymentRelease where
  measurement : ReleaseTreeMeasurement
  created : Bool
  deriving DecidableEq

def validateStaged (staged : StagedDeploymentRelease) : Except AgentError Unit :=
  require (decide (staged.stagingName = .staged staged.tenantId staged.deploymentId))
    (releaseStoreError "staged release identity is inconsistent")

def restrictiveMode : Nat := 0o700

/-- The mode `mkdir` gives a directory under the umask of the process. -/
def createdMode : Nat := releaseDirectoryMode ^^^ (releaseDirectoryMode &&& host.umask)

/-- Whether an opened directory is one that a crash left before its mode was set. -/
def inspectCreated {C : Type} (label : String) (created : Bool)
    (slot : Option (Held Unit Access C)) : Except AgentError Bool :=
  match slot with
  | some (.directory access _) =>
      if access.owner = host.expectedOwner ∧ access.mode = restrictiveMode then pure true else do
        require (!(created && decide (access.mode ≠ releaseDirectoryMode)))
          (releaseStoreError (label ++ " changed during creation"))
        validateDirectory host label releaseDirectoryMode access.owner access.mode
        pure false
  | _ => throw (releaseStoreError (label ++ " cannot be opened safely"))

def grantMode {C : Type} : Option (Held Unit Access C) → Option (Held Unit Access C)
  | some (.directory access content) =>
      some (.directory { access with mode := releaseDirectoryMode } content)
  | slot => slot

/-- Open a directory of the namespace, or create it. -/
def openOrCreateDirectory {C : Type} (label : String) (fresh : C) :
    Durable (Option (Held Unit Access C)) AgentError Unit := do
  let absent ← Durable.query fun slot => pure slot.isNone
  Durable.when absent
    (Durable.effect fun _ => some (.directory ⟨host.processOwner, createdMode host⟩ fresh))
  let restrictive ← Durable.query (inspectCreated host label absent)
  Durable.when restrictive (Durable.effect grantMode)

/-- The directory `<tenant>/releases`, created where it is missing. -/
def openOrCreateReleaseNamespace (t : Uuid7) : Durable ReleaseSpace AgentError Unit := do
  Durable.zoom (fun s => s.tenants.find? t) (setTenant t) fun _ =>
    openOrCreateDirectory host "tenant release namespace" ⟨none, []⟩
  Durable.zoom (releasesSlot? t) (setReleasesSlot t) fun _ =>
    openOrCreateDirectory host "release namespace" Directory.empty

/-- Move a staged tree to the name of its release. -/
def renameToPublished (t d : Uuid7) (s : ReleaseSpace) : ReleaseSpace :=
  match s.staging.find? (.staged t d) with
  | some release =>
      (s.setStaging (s.staging.erase (.staged t d))).setReleases t
        ((s.releasesOf t).insert (.deployment d) release)
  | none => s

/-- The staged tree is still the measured one. -/
def requireUnchangedStaging (staged : StagedDeploymentRelease) (s : ReleaseSpace) :
    Except AgentError Unit := do
  validateStaged staged
  let current ← measureHeld host (s.staging.find? staged.stagingName)
  require (decide (current = staged.measurement))
    (releaseStoreError "staged release changed before publication")

/-- A release that exists already has the digest of the staged one. -/
def requireExisting (staged : StagedDeploymentRelease) (s : ReleaseSpace) :
    Except AgentError ReleaseTreeMeasurement := do
  let existing ← measure host staged.tenantId staged.deploymentId s
  require (decide (existing.digest = staged.measurement.digest))
    (releaseStoreError "published release identity contains other content")
  pure existing

def requirePublished (staged : StagedDeploymentRelease) (s : ReleaseSpace) :
    Except AgentError ReleaseTreeMeasurement := do
  let published ← measure host staged.tenantId staged.deploymentId s
  require (decide (published = staged.measurement))
    (releaseStoreError "published release changed across its durable rename")
  pure published

/-- Give the staged tree the name of its release, unless the name is taken. -/
def renameOrReplay (staged : StagedDeploymentRelease) (taken : Bool) :
    Durable ReleaseSpace AgentError PublishedDeploymentRelease :=
  if taken then do
    let existing ← Durable.query (requireExisting host staged)
    onStaging (removeDiscardTransition host staged.tenantId staged.deploymentId)
    pure ⟨existing, false⟩
  else do
    Durable.effect (renameToPublished staged.tenantId staged.deploymentId)
    let published ← Durable.query (requirePublished host staged)
    pure ⟨published, true⟩

/-- Durably publish one verified release, or replay its publication. -/
def publish (staged : StagedDeploymentRelease) :
    Durable ReleaseSpace AgentError PublishedDeploymentRelease := do
  Durable.query (requireUnchangedStaging host staged)
  openOrCreateReleaseNamespace host staged.tenantId
  let taken ← Durable.query fun s =>
    pure ((s.releasesOf staged.tenantId).find? (.deployment staged.deploymentId)).isSome
  renameOrReplay host staged taken

/-- A digest that names the content of a release. -/
def requireReleaseTreeDigest (expected : Digest) : Except AgentError Unit :=
  require (decide (expected.format = .releaseTree))
    (releaseStoreError "release cleanup digest has the wrong format")

/-- The staged tree of an interrupted publication. -/
def requireResumable (t d : Uuid7) (expected : Digest) (s : ReleaseSpace) :
    Except AgentError ReleaseTreeMeasurement := do
  let measurement ← measureStaging host t d s.staging
  require (decide (measurement.digest = expected))
    (releaseStoreError "protected release staging digest drifted")
  pure measurement

/-- The result of an interrupted publication. -/
def requireRecovered (t d : Uuid7) (expected : Digest) (s : ReleaseSpace) :
    Except AgentError PublishedDeploymentRelease := do
  let published ← match measure host t d s with
    | .error .fileNotFound => throw (releaseStoreError
        "intent-protected release is absent from staging and publication")
    | outcome => outcome
  require (decide (published.digest = expected))
    (releaseStoreError "published release disagrees with recovery authority")
  pure ⟨published, false⟩

/-- Publish what is staged, or verify what was published. -/
def publishOrVerify (t d : Uuid7) (expected : Digest) (stagedExists : Bool) :
    Durable ReleaseSpace AgentError PublishedDeploymentRelease :=
  if stagedExists then do
    let measurement ← Durable.query (requireResumable host t d expected)
    publish host ⟨t, d, .staged t d, measurement⟩
  else Durable.query (requireRecovered host t d expected)

/-- Publish an exact protected staging tree or verify its result. -/
def resumePublication (t d : Uuid7) (expected : Digest) :
    Durable ReleaseSpace AgentError PublishedDeploymentRelease := do
  Durable.query fun _ => requireReleaseTreeDigest expected
  let stagedExists ← Durable.query fun s => pure (s.staging.find? (.staged t d)).isSome
  let _ ← onStaging (reconcileStaging host (if stagedExists then [((t, d), expected)] else []))
  publishOrVerify host t d expected stagedExists

/-! ## Removal -/

/-- What the removal finds of the tenant's directories. -/
inductive TenantFound where
  | absent | withoutReleases | withReleases
  deriving DecidableEq

/-- Open the tenant's directory and its releases, where they exist. -/
def openTenantReleases (t : Uuid7) (s : ReleaseSpace) : Except AgentError TenantFound :=
  match s.tenants.find? t with
  | none => pure .absent
  | held => do
      let content ← openChildDirectory host "tenant release namespace" held
      match content.releases with
      | none => pure .withoutReleases
      | slot => do
          let _ ← openChildDirectory host "release namespace" slot
          pure .withReleases

/-- What the removal finds of the release. -/
structure ReleaseFound where
  canonical : Bool
  retired : Bool

/-- A release may be removed if it measures as expected, or if its removal has begun. -/
def requireRemovable (t d : Uuid7) (expected : Digest) (s : ReleaseSpace) :
    Except AgentError ReleaseFound := do
  let canonical := ((s.releasesOf t).find? (.deployment d)).isSome
  let retired := ((s.releasesOf t).find? (.retired d expected.value)).isSome
  if canonical then do
    require (!retired)
      (releaseStoreError "release cleanup found canonical and retired identities")
    let measurement ← measure host t d s
    require (decide (measurement.digest = expected))
      (releaseStoreError "release cleanup digest disagrees with authority")
    pure ⟨true, retired⟩
  else pure ⟨false, retired⟩

/-- Remove the tenant's directory if it is empty. -/
def removeEmptyTenant (t : Uuid7) : Durable ReleaseSpace AgentError Unit := do
  let empty ← Durable.query fun s =>
    pure (decide (s.tenantNamespace? t = some ⟨none, []⟩))
  Durable.when empty (Durable.effect (setTenant t none))

/-- Remove `releases` if it is empty, and whether it is absent then. -/
def removeEmptyReleases (t : Uuid7) : Durable ReleaseSpace AgentError Bool := do
  let empty ← Durable.query fun s => pure (decide (s.releases? t = some Directory.empty))
  Durable.when empty (Durable.effect (setReleasesSlot t none))
  pure empty

/-- Remove one exact release from the releases of its tenant, and what it leaves empty. -/
def removeFromReleases (t d : Uuid7) (expected : Digest) :
    Durable ReleaseSpace AgentError Unit := do
  let found ← Durable.query (requireRemovable host t d expected)
  Durable.when found.canonical (Durable.effect fun s =>
    s.setReleases t (renameEntry (.deployment d) (.retired d expected.value) (s.releasesOf t)))
  Durable.when (found.canonical || found.retired)
    (onReleases t (removeReleaseTree host (.retired d expected.value)))
  let releasesAbsent ← removeEmptyReleases t
  Durable.when releasesAbsent (removeEmptyTenant t)

/-- Durably remove one exact unreferenced immutable release. -/
def removeRelease (t d : Uuid7) (expected : Digest) : Durable ReleaseSpace AgentError Unit := do
  Durable.query fun _ => requireReleaseTreeDigest expected
  match ← Durable.query (openTenantReleases host t) with
  | .absent => pure ()
  | .withoutReleases => removeEmptyTenant t
  | .withReleases => removeFromReleases host t d expected

end Operations

end StaticHostAgent.Releases
