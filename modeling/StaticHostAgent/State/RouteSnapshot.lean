import StaticHostAgent.State.Operations
import StaticHostAgent.Caddy.Routes

/-!
# Tenant route snapshots

`snapshot_tenant_routes` and its siblings of `route_snapshot.py`: the namespace and every tenant's
manifest, observed state and selected deployment, read from one state, with at most one tenant
substituted by the candidate of a transition. Archived tenants are checked against their archive
record and left out of the route snapshot.
-/

set_option autoImplicit false

namespace StaticHostAgent.State

open Library Contracts Host Audit
open Caddy (TenantRouteInput PlatformNamespace)

inductive SnapshotError where
  | agent (error : AgentError)
  | routeSnapshot (message : String)
  deriving DecidableEq

/-- Raise the errors of the repository as errors of a snapshot. -/
def liftAgent {α : Type} : Except AgentError α → Except SnapshotError α :=
  mapError SnapshotError.agent

theorem liftAgent_eq_ok {α : Type} {x : Except AgentError α} {a : α} :
    liftAgent x = .ok a ↔ x = .ok a := mapError_eq_ok

/-- Whether a proposed tenant is new, replaces an existing tenant or takes it away. -/
inductive RouteOverlayMode where
  | add | replace | remove
  deriving DecidableEq

def RouteOverlayMode.value : RouteOverlayMode → String
  | .add => "add"
  | .replace => "replace"
  | .remove => "remove"

/-- One lifecycle candidate overlaid on the complete persisted tenant set. -/
structure TenantRouteOverlay where
  mode : RouteOverlayMode
  tenant : TenantRouteInput
  source : Option TenantRouteInput
  archiveRecord : Option ArchiveRecord
  deriving DecidableEq

/-- The namespace and every runtime-relevant input for one Caddy generation. -/
structure TenantRouteSnapshot where
  platformNamespace : PlatformNamespace
  tenants : List TenantRouteInput
  deriving DecidableEq

/-- The state host, and the namespace record that a state keeps by its digest. -/
structure RouteHost extends StateHost where
  platformNamespace : Option Digest → Except AgentError PlatformNamespace

/-- `_tenant_id` -/
def tenantIdOf (tenant : TenantRouteInput) : Uuid7 := tenant.manifest.metadata.id

section Snapshot

variable (host : RouteHost)

/-! ## Deployment history -/

/-- `_tenant_has_release_history` -/
def tenantHasReleaseHistory (t : Uuid7) (s : Store) : Bool :=
  s.releases.keys.any fun name => decide (name.tenantId = t)

/-- Whether the records or the releases of a tenant hold a deployment. -/
def tenantHasRecordHistory (currentIds : List Uuid7) (s : Store) (t : Uuid7) :
    Except AgentError Bool := do
  if t ∈ currentIds then
    let deployments ← tenantDeploymentIds host.toStateHost t s
    if deployments ≠ [] then pure true
    else
      let archives ← tenantArchiveIds host.toStateHost t s
      pure (decide (archives ≠ []) || tenantHasReleaseHistory t s)
  else pure (tenantHasReleaseHistory t s)

/-- `deployment_history_tenant_ids`: the records and the releases first, then the audit chain for
the tenants that are left. -/
def deploymentHistoryTenantIds (tenantIds : List Uuid7) (s : Store) :
    Except AgentError (List Uuid7) :=
  if tenantIds = [] then pure []
  else do
    let inventory ← measureInventory host.toStateHost s
    let found ← tenantIds.filterM (tenantHasRecordHistory host inventory.tenantIds s)
    let auditCandidates := tenantIds.filter fun t => decide (t ∉ found)
    if auditCandidates = [] then pure found
    else do
      let audited ← deploymentAuditHistoryTenantIds host.toAuditHost defaultAuditLimits
        auditCandidates s.audit
      pure (found ++ audited)

/-! ## One tenant -/

def rejectUndeployedHistory (tenant : TenantRouteInput) (history : List Uuid7) :
    Except SnapshotError Unit :=
  require (decide (tenant.manifest.spec.desiredState ≠ .undeployed) ||
      decide (tenantIdOf tenant ∉ history))
    (.routeSnapshot "undeployed tenant retains deployment history")

def readSite (t : Uuid7) (s : Store) : Except SnapshotError Site := do
  match ← liftAgent (readLocked host.toStateHost (.tenantDesired t) s) with
  | .site manifest => pure manifest
  | _ => throw (.routeSnapshot "tenant route manifest is not an object")

def readObserved (t : Uuid7) (s : Store) : Except SnapshotError TenantObservedState := do
  match ← liftAgent (readLocked host.toStateHost (.tenantObserved t) s) with
  | .tenantObservedState observed => pure observed
  | _ => throw (.routeSnapshot "tenant route state is not a contract object")

def readDeployment (t d : Uuid7) (s : Store) : Except SnapshotError DeploymentRecord := do
  match ← liftAgent (readLocked host.toStateHost (.tenantDeployment t d) s) with
  | .deploymentRecord record => pure record
  | _ => throw (.routeSnapshot "tenant route deployment is not a contract object")

/-- The deployment that a manifest selects. -/
def readSelected (t : Uuid7) (manifest : Site) (s : Store) :
    Except SnapshotError (Option DeploymentRecord) :=
  match manifest.spec.desiredDeployment with
  | none => pure none
  | some desired => do
      let deployment ← readDeployment host t desired.id s
      pure (some deployment)

/-- `_read_tenant` -/
def readTenant (t : Uuid7) (history : List Uuid7) (s : Store) :
    Except SnapshotError TenantRouteInput := do
  let manifest ← readSite host t s
  let observed ← readObserved host t s
  require (decide (manifest.metadata.id = t))
    (.routeSnapshot "tenant desired-state identity disagrees with inventory")
  let deployment ← readSelected host t manifest s
  rejectUndeployedHistory ⟨manifest, observed, deployment⟩ history
  pure ⟨manifest, observed, deployment⟩

/-- `_reject_live_archive_binding` -/
def rejectLiveArchiveBinding (tenant : TenantRouteInput) (s : Store) :
    Except SnapshotError Unit :=
  match tenant.deployment with
  | none => pure ()
  | some deployment =>
      match readLocked host.toStateHost (.tenantArchive (tenantIdOf tenant) deployment.id) s with
      | .error .fileNotFound => pure ()
      | .error error => throw (.agent error)
      | .ok _ => throw (.routeSnapshot "live tenant retained an archive record")

/-- The archive record of an archived tenant: the projected one, or the stored one. -/
def archiveOf (t d : Uuid7) (archiveRecord : Option ArchiveRecord) (s : Store) :
    Except SnapshotError ArchiveRecord :=
  match archiveRecord with
  | some projected => pure projected
  | none =>
      match readLocked host.toStateHost (.tenantArchive t d) s with
      | .error .fileNotFound =>
          throw (.routeSnapshot "archived tenant omitted its archive record")
      | .error error => throw (.agent error)
      | .ok (.archiveRecord archive) => pure archive
      | .ok _ => throw (.routeSnapshot "archived tenant omitted its archive record")

/-- `_validate_archived_bindings` -/
def validateArchivedBindings (tenant : TenantRouteInput) (allowObservedDrift : Bool)
    (archiveRecord : Option ArchiveRecord) (s : Store) : Except SnapshotError Unit := do
  let t := tenantIdOf tenant
  let observed := tenant.observedState
  let digest := manifestDigest host.encoding tenant.manifest
  require (decide (observed.tenantId = t))
    (.routeSnapshot "archived tenant observed-state identity drifted")
  require (allowObservedDrift || (decide (observed.desiredManifestDigest = digest) &&
      decide (observed.observedState = .archived) && observed.activeDeploymentId.isNone &&
      observed.runtimeGenerationId.isNone))
    (.routeSnapshot "archived tenant desired and observed state disagree")
  match tenant.deployment, tenant.manifest.spec.desiredDeployment with
  | some deployment, some desired => do
      require (decide (deployment.tenantId = t) && decide (deployment.id = desired.id) &&
          decide (deployment.archiveSha256 = desired.archiveSha256))
        (.routeSnapshot "archived tenant deployment binding drifted")
      let archive ← archiveOf host t deployment.id archiveRecord s
      require (decide (archive.tenantId = t) && decide (archive.deploymentId = deployment.id) &&
          decide (archive.releaseTreeDigest = deployment.releaseTreeDigest) &&
          decide (archive.manifestDigest = digest))
        (.routeSnapshot "archived tenant archive binding drifted")
  | _, _ => throw (.routeSnapshot "archived tenant omitted its selected deployment")

/-- `_is_archived` -/
def isArchived (tenant : TenantRouteInput) (allowObservedDrift : Bool)
    (archiveRecord : Option ArchiveRecord) (s : Store) : Except SnapshotError Bool :=
  if tenant.manifest.spec.desiredState ≠ .archived then do
    rejectLiveArchiveBinding host tenant s
    pure false
  else do
    validateArchivedBindings host tenant allowObservedDrift archiveRecord s
    pure true

/-! ## The overlay -/

/-- The documents of a tenant pass their contracts. -/
def copyTenant (tenant : TenantRouteInput) : Except SnapshotError TenantRouteInput := do
  let _ ← liftAgent (liftContract (validateContract host.encoding (.site tenant.manifest)))
  let _ ← liftAgent (liftContract
    (validateContract host.encoding (.tenantObservedState tenant.observedState)))
  match tenant.deployment with
  | none => pure ()
  | some deployment => do
      let _ ← liftAgent (liftContract
        (validateContract host.encoding (.deploymentRecord deployment)))
      pure ()
  pure tenant

/-- `_prepare_overlay` -/
def prepareOverlay (overlay : TenantRouteOverlay) (tenantIds history : List Uuid7) :
    Except SnapshotError Unit := do
  let candidate ← copyTenant host overlay.tenant
  match overlay.source with
  | none => pure ()
  | some source => do
      let _ ← copyTenant host source
      pure ()
  let found := decide (tenantIdOf candidate ∈ tenantIds)
  require (decide (overlay.mode = .add) != found)
    (.routeSnapshot (overlay.mode.value ++ " route overlay tenant " ++
      if found then "already exists" else "is absent"))
  rejectUndeployedHistory candidate history

/-- The row of the tenant that an overlay replaces or takes away. -/
def overlaidRow (overlay : TenantRouteOverlay) (allowObservedDrift : Bool) (t : Uuid7)
    (history : List Uuid7) (s : Store) : Except SnapshotError (Option (TenantRouteInput × Bool)) := do
  let current ← readTenant host t history s
  require (decide (overlay.source = some current))
    (.routeSnapshot "replace route overlay source changed before the locked snapshot")
  if overlay.mode = .remove then
    let _ ← isArchived host current false none s
    pure none
  else do
    checkIf overlay.archiveRecord.isSome (rejectLiveArchiveBinding host current s)
    let archived ← isArchived host overlay.tenant allowObservedDrift overlay.archiveRecord s
    pure (some (overlay.tenant, archived))

/-- The row of a tenant as it is stored. -/
def storedRow (allowObservedDrift : Bool) (t : Uuid7) (history : List Uuid7) (s : Store) :
    Except SnapshotError (Option (TenantRouteInput × Bool)) := do
  let current ← readTenant host t history s
  let archived ← isArchived host current allowObservedDrift none s
  pure (some (current, archived))

/-! ## The snapshot -/

/-- `_require_unique_slugs` -/
def requireUniqueSlugs (tenants : List TenantRouteInput) : Except SnapshotError Unit :=
  require (decide (tenants.map fun tenant => tenant.manifest.metadata.slug).Nodup)
    (.routeSnapshot "tenant slug namespace is ambiguous")

/-- The tenants in the order of their identities. -/
def sortRows (rows : List (TenantRouteInput × Bool)) : List (TenantRouteInput × Bool) :=
  rows.insertionSort fun a b => tenantIdOf a.1 ≤ tenantIdOf b.1

/-- What a snapshot is asked for beside the stored tenants. -/
structure SnapshotRequest where
  overlay : Option TenantRouteOverlay
  includeArchived : Bool
  observedDriftTenantId : Option Uuid7
  deploymentTransitionTenantId : Option Uuid7
  excludedTenantId : Option Uuid7

/-- The tenants whose history is inspected. -/
def historyCandidates (request : SnapshotRequest) (tenantIds : List Uuid7) :
    Except SnapshotError (List Uuid7) := do
  require (request.excludedTenantId.all fun t => decide (t ∈ tenantIds))
    (.routeSnapshot "recovery route projection selected an absent tenant")
  let others := tenantIds.filter fun t => decide (some t ≠ request.excludedTenantId)
  require (request.deploymentTransitionTenantId.all fun t => decide (t ∈ others))
    (.routeSnapshot "deployment transition tenant is absent")
  let settled := others.filter fun t => decide (some t ≠ request.deploymentTransitionTenantId)
  match request.overlay with
  | some ⟨.add, tenant, _, _⟩ =>
      pure (if tenantIdOf tenant ∈ settled then settled
        else settled.orderedInsert (· ≤ ·) (tenantIdOf tenant))
  | _ => pure settled

/-- The row of one stored tenant under the overlay. -/
def snapshotRow (request : SnapshotRequest) (history : List Uuid7) (s : Store) (t : Uuid7) :
    Except SnapshotError (Option (TenantRouteInput × Bool)) :=
  let allowObservedDrift := decide (request.observedDriftTenantId = some t)
  match request.overlay with
  | some overlay =>
      if tenantIdOf overlay.tenant = t then overlaidRow host overlay allowObservedDrift t history s
      else storedRow host allowObservedDrift t history s
  | none => storedRow host allowObservedDrift t history s

/-- The row that an added tenant has beside the stored ones. -/
def addedRow (request : SnapshotRequest) (s : Store) :
    Except SnapshotError (List (TenantRouteInput × Bool)) :=
  match request.overlay with
  | some ⟨.add, tenant, _, _⟩ => do
      let archived ← isArchived host tenant
        (decide (request.observedDriftTenantId = some (tenantIdOf tenant))) none s
      pure [(tenant, archived)]
  | _ => pure []

/-- `_snapshot_tenants` -/
def snapshotTenants (request : SnapshotRequest) (s : Store) :
    Except SnapshotError TenantRouteSnapshot := do
  let platformNamespace ← liftAgent (host.platformNamespace s.platformState)
  let inventory ← liftAgent (measureInventory host.toStateHost s)
  let candidates ← historyCandidates request inventory.tenantIds
  let history ← liftAgent (deploymentHistoryTenantIds host candidates s)
  match request.overlay with
  | none => pure ()
  | some overlay => prepareOverlay host overlay inventory.tenantIds history
  let stored ← (inventory.tenantIds.filter fun t =>
    decide (some t ≠ request.excludedTenantId)).mapM (snapshotRow host request history s)
  let added ← addedRow host request s
  let rows := sortRows (stored.reduceOption ++ added)
  requireUniqueSlugs (rows.map Prod.fst)
  let selected := if request.includeArchived then rows else rows.filter fun row => !row.2
  pure ⟨platformNamespace, selected.map Prod.fst⟩

/-- `snapshot_tenant_routes` without an overlay. -/
def snapshotTenantRoutes (s : Store) : Except SnapshotError TenantRouteSnapshot :=
  snapshotTenants host ⟨none, false, none, none, none⟩ s

end Snapshot

/-! ## States that differ in observations -/

/-- The two states agree in everything but the observed states of the tenants. -/
structure SameBesideObserved (host : RouteHost) (s s' : Store) : Prop where
  find : ∀ p, (∀ t, p ≠ .observed t) → s'.find? p = s.find? p
  tenants : s'.tenants = s.tenants
  platformState : s'.platformState = s.platformState
  releases : s'.releases = s.releases
  audit : s'.audit = s.audit
  inventory : measureInventory host.toStateHost s' = measureInventory host.toStateHost s

namespace SameBesideObserved

variable {host : RouteHost} {s s' s'' : Store}

theorem refl (s : Store) : SameBesideObserved host s s := ⟨fun _ _ => rfl, rfl, rfl, rfl, rfl, rfl⟩

theorem trans (h : SameBesideObserved host s s') (h' : SameBesideObserved host s' s'') :
    SameBesideObserved host s s'' where
  find p hp := (h'.find p hp).trans (h.find p hp)
  tenants := h'.tenants.trans h.tenants
  platformState := h'.platformState.trans h.platformState
  releases := h'.releases.trans h.releases
  audit := h'.audit.trans h.audit
  inventory := h'.inventory.trans h.inventory

theorem put (t : Uuid7) (d : Document) (s : Store) :
    SameBesideObserved host s (s.put (.observed t) d) where
  find _ hp := Store.find?_put_of_ne (hp t) d s
  tenants := rfl
  platformState := rfl
  releases := rfl
  audit := rfl
  inventory := measureInventory_put rfl d s

theorem readLocked (h : SameBesideObserved host s s') {path : StateRecordPath}
    (hpath : ∀ t, path.components ≠ .observed t) :
    State.readLocked host.toStateHost path s' = State.readLocked host.toStateHost path s :=
  readLocked_same (h.find _ hpath)

theorem tenantHasRecordHistory (h : SameBesideObserved host s s') (ids : List Uuid7) (t : Uuid7) :
    State.tenantHasRecordHistory host ids s' t = State.tenantHasRecordHistory host ids s t := by
  have hdeployments : tenantDeploymentIds host.toStateHost t s' =
      tenantDeploymentIds host.toStateHost t s := by
    have hread : ∀ d, State.readLocked host.toStateHost (.tenantDeployment t d) s' =
        State.readLocked host.toStateHost (.tenantDeployment t d) s := fun d =>
      h.readLocked fun u hu => by cases hu
    unfold tenantDeploymentIds boundedDeploymentIds
    rw [h.tenants, Listing.ids_congr (l := .deployments t) fun d =>
      h.find _ fun u hu => by cases hu]
    simp only [hread]
  have harchives : tenantArchiveIds host.toStateHost t s' =
      tenantArchiveIds host.toStateHost t s := by
    have hread : ∀ d, State.readLocked host.toStateHost (.tenantArchive t d) s' =
        State.readLocked host.toStateHost (.tenantArchive t d) s := fun d =>
      h.readLocked fun u hu => by cases hu
    unfold tenantArchiveIds
    rw [h.tenants, Listing.ids_congr (l := Listing.archives t) fun d =>
      h.find _ fun u hu => by cases hu]
    simp only [hread]
  unfold State.tenantHasRecordHistory tenantHasReleaseHistory
  rw [hdeployments, harchives, h.releases]

theorem deploymentHistory (h : SameBesideObserved host s s') (ids : List Uuid7) :
    deploymentHistoryTenantIds host ids s' = deploymentHistoryTenantIds host ids s := by
  have hrecords : ∀ current, State.tenantHasRecordHistory host current s' =
      State.tenantHasRecordHistory host current s := fun current =>
    funext fun t => h.tenantHasRecordHistory current t
  unfold deploymentHistoryTenantIds
  rw [h.inventory, h.audit]
  simp only [hrecords]

end SameBesideObserved

/-! ## The rows of a snapshot -/

section Rows

variable {host : RouteHost} {t : Uuid7} {history : List Uuid7} {s s' : Store}

theorem readObserved_eq_ok {o : TenantObservedState} :
    readObserved host t s = .ok o ↔
      readLocked host.toStateHost (.tenantObserved t) s = .ok (.tenantObservedState o) := by
  unfold readObserved
  rw [bind_eq_ok]
  constructor
  · rintro ⟨d, hd, ho⟩
    rw [liftAgent_eq_ok] at hd
    split at ho
    · rw [hd, pure_eq_ok.1 ho]
    · cases ho
  · intro h
    exact ⟨_, liftAgent_eq_ok.2 h, rfl⟩

/-- What reading a tenant checks and returns. -/
structure TenantRead (host : RouteHost) (t : Uuid7) (history : List Uuid7) (s : Store)
    (tenant : TenantRouteInput) : Prop where
  manifest : readSite host t s = .ok tenant.manifest
  observed : readObserved host t s = .ok tenant.observedState
  identity : tenantIdOf tenant = t
  deployment : readSelected host t tenant.manifest s = .ok tenant.deployment
  history : rejectUndeployedHistory tenant history = .ok ()

theorem readTenant_eq_ok {tenant : TenantRouteInput} :
    readTenant host t history s = .ok tenant ↔ TenantRead host t history s tenant := by
  unfold readTenant
  simp only [bind_eq_ok, require_eq_ok, decide_eq_true_eq]
  constructor
  · rintro ⟨manifest, hmanifest, observed, hobserved, -, hidentity, deployment, hdeployment, u,
      hhistory, htenant⟩
    obtain rfl := pure_eq_ok.1 htenant
    exact ⟨hmanifest, hobserved, hidentity, hdeployment, hhistory⟩
  · rintro ⟨hmanifest, hobserved, hidentity, hdeployment, hhistory⟩
    exact ⟨_, hmanifest, _, hobserved, (), hidentity, _, hdeployment, (), hhistory, rfl⟩

theorem storedRow_eq_ok {drift : Bool} {row : Option (TenantRouteInput × Bool)} :
    storedRow host drift t history s = .ok row ↔ ∃ tenant archived,
      TenantRead host t history s tenant ∧ isArchived host tenant drift none s = .ok archived ∧
        row = some (tenant, archived) := by
  unfold storedRow
  simp only [bind_eq_ok, readTenant_eq_ok]
  constructor
  · rintro ⟨tenant, htenant, archived, harchived, hrow⟩
    exact ⟨tenant, archived, htenant, harchived, (pure_eq_ok.1 hrow).symm⟩
  · rintro ⟨tenant, archived, htenant, harchived, rfl⟩
    exact ⟨tenant, htenant, archived, harchived, rfl⟩

/-- The row of a stored tenant, as the snapshot without an overlay takes it. -/
structure RowRead (host : RouteHost) (history : List Uuid7) (s : Store) (t : Uuid7)
    (row : TenantRouteInput × Bool) : Prop where
  tenant : TenantRead host t history s row.1
  archived : isArchived host row.1 false none s = .ok row.2

/-- The rows have the identities that were read. -/
theorem rows_ids {ids : List Uuid7} {rows : List (TenantRouteInput × Bool)}
    (hrows : List.Forall₂ (RowRead host history s) ids rows) :
    rows.map (fun row => tenantIdOf row.1) = ids := by
  induction hrows with
  | nil => rfl
  | cons hrow _ ih => rw [List.map_cons, ih, hrow.tenant.identity]

/-- Rows in the order of the tenants are sorted. -/
theorem sortRows_of_read {ids : List Uuid7} {rows : List (TenantRouteInput × Bool)}
    (hrows : List.Forall₂ (RowRead host history s) ids rows) (hids : ids.Pairwise (· < ·)) :
    sortRows rows = rows := by
  unfold sortRows
  refine List.Pairwise.insertionSort_eq ?_
  rw [← rows_ids hrows, List.pairwise_map] at hids
  exact hids.imp le_of_lt

theorem mapM_storedRow {ids : List Uuid7} {xs : List (Option (TenantRouteInput × Bool))} :
    ids.mapM (storedRow host false · history s) = .ok xs ↔
      ∃ rows, List.Forall₂ (RowRead host history s) ids rows ∧ xs = rows.map some := by
  rw [mapM_eq_ok_iff]
  constructor
  · intro h
    induction h with
    | nil => exact ⟨[], .nil, rfl⟩
    | cons hrow _ ih =>
        obtain ⟨rows, hrows, rfl⟩ := ih
        obtain ⟨tenant, archived, htenant, harchived, rfl⟩ := storedRow_eq_ok.1 hrow
        exact ⟨(tenant, archived) :: rows, .cons ⟨htenant, harchived⟩ hrows, rfl⟩
  · rintro ⟨rows, hrows, rfl⟩
    induction hrows with
    | nil => exact .nil
    | cons hrow _ ih =>
        exact .cons (storedRow_eq_ok.2 ⟨_, _, hrow.tenant, hrow.archived, rfl⟩) ih

/-- What a snapshot of the routes captures. -/
structure Captured (host : RouteHost) (s : Store) (found : List Uuid7)
    (rows : List (TenantRouteInput × Bool)) : Prop where
  inventory : ∃ inventory, measureInventory host.toStateHost s = .ok inventory
  history : deploymentHistoryTenantIds host s.tenants.keys s = .ok found
  read : List.Forall₂ (RowRead host found s) s.tenants.keys rows
  slugs : (rows.map fun row => row.1.manifest.metadata.slug).Nodup

namespace Captured

variable {found : List Uuid7} {rows : List (TenantRouteInput × Bool)}

theorem ids_nodup (h : Captured host s found rows) :
    (rows.map fun row => tenantIdOf row.1).Nodup := by
  rw [rows_ids h.read]
  exact s.tenants.keys_sorted.imp ne_of_lt

/-- Every row has the observation that is stored. -/
theorem observed (h : Captured host s found rows) {row : TenantRouteInput × Bool}
    (hrow : row ∈ rows) :
    readObserved host (tenantIdOf row.1) s = .ok row.1.observedState := by
  have hread := h.read
  clear h
  generalize s.tenants.keys = ids at hread
  induction hread with
  | nil => cases hrow
  | cons hhead _ ih =>
      rcases List.mem_cons.1 hrow with rfl | hrow
      · rw [hhead.tenant.identity]
        exact hhead.tenant.observed
      · exact ih hrow

end Captured

/-- The live tenants among the rows. -/
def liveTenants (rows : List (TenantRouteInput × Bool)) : List TenantRouteInput :=
  (rows.filter fun row => !row.2).map Prod.fst

theorem reduceOption_map_some {α : Type} (xs : List α) : (xs.map some).reduceOption = xs := by
  show (xs.map some).filterMap id = xs
  rw [List.filterMap_map]
  exact List.filterMap_some

theorem snapshotTenantRoutes_eq_ok {snapshot : TenantRouteSnapshot} :
    snapshotTenantRoutes host s = .ok snapshot ↔ ∃ platformNamespace found rows,
      host.platformNamespace s.platformState = .ok platformNamespace ∧
        Captured host s found rows ∧ snapshot = ⟨platformNamespace, liveTenants rows⟩ := by
  have hall : ∀ ids : List Uuid7, ids.filter (fun t => decide (some t ≠ none)) = ids := fun ids =>
    List.filter_eq_self.2 fun _ _ => decide_eq_true (Option.some_ne_none _)
  have hrow : ∀ found : List Uuid7, snapshotRow host ⟨none, false, none, none, none⟩ found s =
      (storedRow host false · found s) := fun found => rfl
  unfold snapshotTenantRoutes snapshotTenants historyCandidates addedRow requireUniqueSlugs
  simp only [bind_eq_ok, liftAgent_eq_ok, require_eq_ok, Option.all_none, hall, pure_eq_ok, hrow,
    decide_eq_true_eq]
  constructor
  · rintro ⟨platformNamespace, hnamespace, inventory, hinventory, candidates,
      ⟨-, -, -, -, rfl⟩, found, hfound, stored, hstored, added, rfl, -, hslugs, rfl⟩
    have hids : inventory.tenantIds = s.tenants.keys := by
      rw [(measureInventory_value hinventory).1]
      rfl
    rw [hids] at hfound hstored
    obtain ⟨rows, hrows, rfl⟩ := mapM_storedRow.1 hstored
    rw [reduceOption_map_some, List.append_nil,
      sortRows_of_read hrows s.tenants.keys_sorted] at hslugs ⊢
    rw [List.map_map] at hslugs
    exact ⟨platformNamespace, found, rows, hnamespace,
      ⟨⟨inventory, hinventory⟩, hfound, hrows, hslugs⟩, rfl⟩
  · rintro ⟨platformNamespace, found, rows, hnamespace, hcaptured, rfl⟩
    obtain ⟨inventory, hinventory⟩ := hcaptured.inventory
    have hids : inventory.tenantIds = s.tenants.keys := by
      rw [(measureInventory_value hinventory).1]
      rfl
    refine ⟨platformNamespace, hnamespace, inventory, hinventory, inventory.tenantIds,
      ⟨(), trivial, (), trivial, rfl⟩, found, ?_, rows.map some, ?_, [], rfl, (), ?_, ?_⟩
    · rw [hids]
      exact hcaptured.history
    · rw [hids]
      exact mapM_storedRow.2 ⟨rows, hcaptured.read, rfl⟩
    · rw [reduceOption_map_some, List.append_nil,
        sortRows_of_read hcaptured.read s.tenants.keys_sorted, List.map_map]
      exact hcaptured.slugs
    · rw [reduceOption_map_some, List.append_nil,
        sortRows_of_read hcaptured.read s.tenants.keys_sorted]
      rfl

/-! ### Other observations -/

/-- A live tenant is live whatever is observed of it. -/
theorem isArchived_reobserved {tenant : TenantRouteInput} (o : TenantObservedState)
    (hlive : tenant.manifest.spec.desiredState ≠ .archived) (drift : Bool) :
    isArchived host { tenant with observedState := o } drift none s =
      isArchived host tenant drift none s := by
  unfold isArchived
  rw [if_pos hlive, if_pos hlive]
  rfl

theorem SameBesideObserved.isArchived (h : SameBesideObserved host s s')
    (tenant : TenantRouteInput) (drift : Bool) :
    State.isArchived host tenant drift none s' = State.isArchived host tenant drift none s := by
  have hread : ∀ t d, State.readLocked host.toStateHost (.tenantArchive t d) s' =
      State.readLocked host.toStateHost (.tenantArchive t d) s := fun t d =>
    h.readLocked fun u hu => by cases hu
  unfold State.isArchived rejectLiveArchiveBinding validateArchivedBindings archiveOf
  simp only [hread]

/-- The row of a tenant after its observation changed. -/
theorem RowRead.reobserved {found : List Uuid7} {row : TenantRouteInput × Bool}
    (hrow : RowRead host found s t row) (h : SameBesideObserved host s s')
    {o : TenantObservedState} (ho : readObserved host t s' = .ok o)
    (hsame : row.2 = true → o = row.1.observedState) :
    RowRead host found s' t ({ row.1 with observedState := o }, row.2) := by
  obtain ⟨⟨hmanifest, hobserved, hidentity, hdeployment, hhistory⟩, harchived⟩ := hrow
  have hsite : readSite host t s' = readSite host t s := by
    unfold readSite
    rw [show readLocked host.toStateHost (.tenantDesired t) s' = _ from
      h.readLocked fun u hu => by cases hu]
  have hselected : readSelected host t row.1.manifest s' =
      readSelected host t row.1.manifest s := by
    have hread : ∀ d, State.readLocked host.toStateHost (.tenantDeployment t d) s' =
        State.readLocked host.toStateHost (.tenantDeployment t d) s := fun d =>
      h.readLocked fun u hu => by cases hu
    unfold readSelected readDeployment
    simp only [hread]
  refine ⟨⟨hsite.trans hmanifest, ho, hidentity, hselected.trans hdeployment, hhistory⟩, ?_⟩
  rw [h.isArchived]
  by_cases hlive : row.1.manifest.spec.desiredState = .archived
  · have htrue : row.2 = true := by
      unfold State.isArchived at harchived
      rw [if_neg (not_not.2 hlive), bind_eq_ok] at harchived
      obtain ⟨u, -, hvalue⟩ := harchived
      exact (pure_eq_ok.1 hvalue).symm
    rw [hsame htrue]
    exact harchived
  · rw [isArchived_reobserved o hlive]
    exact harchived

/-- The snapshot after the observations of the tenants changed, those of archived tenants apart. -/
theorem Captured.reobserved {found : List Uuid7} {rows : List (TenantRouteInput × Bool)}
    (hcaptured : Captured host s found rows) (h : SameBesideObserved host s s')
    (observe : TenantRouteInput → TenantObservedState)
    (hobserve : ∀ row ∈ rows, readObserved host (tenantIdOf row.1) s' = .ok (observe row.1) ∧
      (row.2 = true → observe row.1 = row.1.observedState)) :
    Captured host s' found
      (rows.map fun row => ({ row.1 with observedState := observe row.1 }, row.2)) where
  inventory := by
    rw [h.inventory]
    exact hcaptured.inventory
  history := by
    rw [h.tenants, h.deploymentHistory]
    exact hcaptured.history
  read := by
    rw [h.tenants]
    have hrows := hcaptured.read
    clear hcaptured
    revert hobserve
    generalize s.tenants.keys = ids at hrows ⊢
    induction hrows with
    | nil => exact fun _ => .nil
    | cons hrow _ ih =>
        intro hobserve
        obtain ⟨hread, hsame⟩ := hobserve _ List.mem_cons_self
        rw [hrow.tenant.identity] at hread
        exact .cons (hrow.reobserved h hread hsame)
          (ih fun row hmem => hobserve row (List.mem_cons_of_mem _ hmem))
  slugs := by
    rw [List.map_map]
    exact hcaptured.slugs

end Rows

end StaticHostAgent.State
