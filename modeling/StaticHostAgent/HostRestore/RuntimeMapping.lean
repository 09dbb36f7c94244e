import StaticHostAgent.Caddy.RouteIsolation
import StaticHostAgent.HostRestore.Journal
import StaticHostAgent.Library.Handlers
import StaticHostAgent.State.MeteredHost
import StaticHostAgent.State.RouteSnapshot

/-!
# Runtime mappings

`host_restore_mapping.py`: the inputs of a restored runtime, the mapping of its observations to the
regenerated runtime generation, the translation of a request through a chain of mappings, and the
application of a mapping to the restored state. The JSON texts of the inputs, the mapping and the
payload files are libraries or other modules; a `MappingHost` holds them.
-/

set_option autoImplicit false

namespace StaticHostAgent.HostRestore

open Library Contracts Backup Host Caddy State

inductive MappingError where
  | restore (error : RestoreError)
  | route (error : RouteError)
  | snapshot (error : SnapshotError)
  | agent (error : AgentError)
  deriving DecidableEq

def hostRestoreError (message : String) : MappingError := .restore (.hostRestore message)

/-! ## Inputs -/

/-- What the inputs take from the trusted inputs of the restore. -/
structure TrustedInputs where
  restoreId : String
  snapshotId : String
  digest : FramedDigest
  repositoryBinding : FramedDigest
  sourceFenceDigest : FramedDigest
  platformNamespace : PlatformNamespace
  binarySha256 : Sha256
  environmentSha256 : Sha256
  deriving DecidableEq

/-- One generation of the captured runtime, with the digest of its route state. -/
structure CapturedGeneration where
  generationId : Uuid7
  manifestSha256 : Sha256
  routeStateDigest : Sha256
  deriving DecidableEq

/-- What the inputs take from the backup descriptor. -/
structure CapturedDescriptor where
  digest : FramedDigest
  artifactDigest : FramedDigest
  captureId : String
  selectedTarget : Uuid7 × Sha256
  generations : List CapturedGeneration
  deriving DecidableEq

structure RuntimeInputs where
  reconciledJournalDigest : FramedDigest
  trusted : TrustedInputs
  descriptor : CapturedDescriptor
  newGenerationId : Uuid7
  tenants : List TenantRouteInput
  originalCa : List Bytes
  currentCa : List Bytes
  deriving DecidableEq

structure GenerationFile where
  name : String
  sha256 : Sha256
  size : Nat
  deriving DecidableEq

/-- The payload inventory of one generation. -/
structure GenerationManifest where
  generationId : Uuid7
  routeStateDigest : Sha256
  files : List GenerationFile
  deriving DecidableEq

structure RuntimeMapping where
  inputs : RuntimeInputs
  manifest : GenerationManifest
  deriving DecidableEq

/-- The state host with the texts and digests of the restore. -/
structure MappingHost extends RouteHost where
  backup : BackupHost
  codec : RouteCodec
  /-- The route state digest of the platform-only routes. -/
  platformOnlyDigest : List Bytes → Except RouteError Sha256
  configurationBytes : TenantCaddyRoutes → Except RouteError Bytes
  routeMetadataBytes : TenantCaddyRoutes → Except RouteError Bytes
  inputsBytes : RuntimeInputs → Except RestoreError Bytes
  decodeInputs : Bytes → Except RestoreError RuntimeInputs
  mappingBytes : FramedDigest → GenerationManifest → Except RestoreError Bytes

def planSchema : String := "lowerduckpond-host-restore-runtime-inputs-v1"

def planName : String := "runtime-inputs.json"

def mappingName : String := "runtime-mapping.json"

def maxPlanBytes : Nat := 2 * 1024 * 1024

/-- Raise the errors of the restore store as errors of the mapping. -/
def liftRestore {α : Type} : Except RestoreError α → Except MappingError α :=
  mapError MappingError.restore

/-- Raise the errors of the route builder as errors of the mapping. -/
def liftRoute {α : Type} : Except RouteError α → Except MappingError α :=
  mapError MappingError.route

/-- `generation_id` after the restore, in the observed state of an active tenant. -/
def projectObserved (generationId : Uuid7) (observed : TenantObservedState) :
    TenantObservedState :=
  if observed.observedState = .active then
    { observed with runtimeGenerationId := some generationId }
  else observed

def projectTenant (generationId : Uuid7) (tenant : TenantRouteInput) : TenantRouteInput :=
  { tenant with observedState := projectObserved generationId tenant.observedState }

namespace RuntimeInputs

/-- The captured tenants, in the order of their identities. -/
def original (i : RuntimeInputs) : Except MappingError TenantRouteSnapshot := do
  require (decide (i.tenants.length ≤ 25)) (hostRestoreError "restore_runtime_tenant_bound")
  require (decide ((i.tenants.map tenantIdOf).Pairwise (· < ·)))
    (hostRestoreError "restore_runtime_tenants_not_canonical")
  pure ⟨i.trusted.platformNamespace, i.tenants⟩

/-- The captured tenants with the new generation. -/
def projected (i : RuntimeInputs) : Except MappingError TenantRouteSnapshot := do
  let original ← i.original
  pure ⟨original.platformNamespace, original.tenants.map (projectTenant i.newGenerationId)⟩

section Host

variable (h : MappingHost)

/-- The routes of the projected tenants. -/
def routes (i : RuntimeInputs) : Except MappingError TenantCaddyRoutes := do
  let target ← i.projected
  liftRoute (buildTenantCaddyRoutes h.encoding h.codec target.platformNamespace target.tenants
    i.newGenerationId i.currentCa true)

/-- `require_captured_selection` of the original tenants. -/
def requireCapturedSelection (i : RuntimeInputs) : Except MappingError Unit := do
  let state ← i.original
  match i.descriptor.generations.find? fun row =>
      decide ((row.generationId, row.manifestSha256) = i.descriptor.selectedTarget) with
  | none => throw (hostRestoreError "restore_lifecycle_selection_unavailable")
  | some selected => do
      let routes ← liftRoute (buildTenantCaddyRoutes h.encoding h.codec state.platformNamespace
        state.tenants selected.generationId i.originalCa true)
      if routes.routeStateDigest ≠ selected.routeStateDigest then
        let platformOnly ← if state.tenants = [] then
            liftRoute (h.platformOnlyDigest i.originalCa) >>= fun digest => pure (some digest)
          else pure none
        require (decide (platformOnly = some selected.routeStateDigest))
          (hostRestoreError "restore_lifecycle_route_proof_mismatch")
      else pure ()

/-- The checks that `from_bytes` makes of the tenants and the generations. -/
def validate (i : RuntimeInputs) : Except MappingError Unit := do
  let _ ← i.original
  require (decide (i.newGenerationId ∉ i.descriptor.generations.map CapturedGeneration.generationId))
    (hostRestoreError "restore_runtime_generation_reused")
  i.requireCapturedSelection h
  let _ ← i.routes h
  pure ()

def digest (i : RuntimeInputs) : Except MappingError FramedDigest := do
  let raw ← liftRestore (h.inputsBytes i)
  pure (framedDigest h.backup planSchema raw)

def requireJournal (i : RuntimeInputs) (journal : RestoreJournal) : Except MappingError Unit := do
  let journalDigest ← liftRestore (RestoreJournal.digest h.backup journal)
  require (decide (i.reconciledJournalDigest = journalDigest) &&
      decide (journal.phase = .reconciled) &&
      decide (i.trusted.restoreId = journal.restoreId) &&
      decide (i.trusted.snapshotId = journal.snapshotId) &&
      decide (i.trusted.digest = journal.bindings.trustedInputs) &&
      decide (i.trusted.repositoryBinding = journal.bindings.repository) &&
      decide (i.trusted.sourceFenceDigest = journal.bindings.sourceFence) &&
      decide (i.descriptor.artifactDigest = journal.bindings.originalArtifact) &&
      decide (i.descriptor.digest = journal.bindings.backupDescriptor) &&
      decide (i.descriptor.captureId = journal.captureId))
    (hostRestoreError "restore_runtime_journal_mismatch")

end Host

end RuntimeInputs

/-! ## The mapping -/

/-- The file of a payload inventory. -/
def GenerationManifest.file (m : GenerationManifest) (name : String) : Option GenerationFile :=
  m.files.find? fun file => file.name == name

section Mapping

variable (h : MappingHost)

/-- A payload file is the canonical text of its content. -/
def requirePayload (manifest : GenerationManifest) (name : String)
    (raw : Except RouteError Bytes) : Except MappingError Unit := do
  let raw ← liftRoute raw
  require ((manifest.file name).any fun file =>
      decide (file.sha256 = h.encoding.sha256 raw) && decide (file.size = raw.length))
    (hostRestoreError "restore_runtime_payload_changed")

/-- `RuntimeMapping.to_bytes` -/
def RuntimeMapping.toBytes (m : RuntimeMapping) : Except MappingError Bytes := do
  let routes ← m.inputs.routes h
  require (decide (m.manifest.generationId = m.inputs.newGenerationId) &&
      decide (m.manifest.routeStateDigest = routes.routeStateDigest) &&
      (m.manifest.file "caddy").any (fun file =>
        decide (file.sha256 = m.inputs.trusted.binarySha256)) &&
      (m.manifest.file "environment").any (fun file =>
        decide (file.sha256 = m.inputs.trusted.environmentSha256)))
    (hostRestoreError "restore_runtime_manifest_changed")
  requirePayload h m.manifest "caddy.json" (h.configurationBytes routes)
  requirePayload h m.manifest "routes.json" (h.routeMetadataBytes routes)
  let inputsDigest ← m.inputs.digest h
  liftRestore (h.mappingBytes inputsDigest m.manifest)

/-- What a request observed of its tenant and which generation it found selected. -/
structure RuntimeRequest where
  generationId : Option Uuid7
  observed : Option TenantObservedState
  deriving DecidableEq

/-- The generation the capture found selected. -/
def RuntimeInputs.oldGlobal (i : RuntimeInputs) : Uuid7 := i.descriptor.selectedTarget.1

/-- The request after the mapping of a tenant that the capture lists. -/
def mapListed (i : RuntimeInputs) (source : TenantRouteInput) (manifest : Site)
    (request : RuntimeRequest) : RuntimeRequest :=
  let target := projectObserved i.newGenerationId source.observedState
  if source.manifest ≠ manifest then request
  else if request.observed ≠ some source.observedState ∧ request.observed ≠ some target ∧
      ¬ (request.observed = none ∧ request.generationId = some i.oldGlobal) then request
  else
    { generationId :=
        if request.generationId ≠ none ∧ (request.generationId = some i.oldGlobal ∨
            request.generationId = source.observedState.runtimeGenerationId)
        then some i.newGenerationId else request.generationId
      observed := some target }

/-- The archived observation of a tenant, which no capture lists. -/
def archivedObservation (tenantId : Uuid7) (manifest : Site)
    (observed : Option TenantObservedState) : Bool :=
  decide (manifest.spec.desiredState = .archived) && observed.any fun o =>
    decide (o.tenantId = tenantId) && decide (o.observedState = .archived) &&
      o.runtimeGenerationId.isNone

/-- The request after the mapping of a tenant that the capture does not list: only the globally
selected generation of an archived tenant is translated. -/
def mapUnlisted (i : RuntimeInputs) (tenantId : Uuid7) (manifest : Site)
    (request : RuntimeRequest) : RuntimeRequest :=
  if request.generationId = some i.oldGlobal ∧
      archivedObservation tenantId manifest request.observed = true
  then { request with generationId := some i.newGenerationId }
  else request

/-- The mapping of a request by captured tenants. -/
def mapCaptured (i : RuntimeInputs) (tenants : List TenantRouteInput) (tenantId : Uuid7)
    (manifest : Site) (request : RuntimeRequest) : RuntimeRequest :=
  match tenants.find? fun tenant => decide (tenantIdOf tenant = tenantId) with
  | some source => mapListed i source manifest request
  | none => mapUnlisted i tenantId manifest request

/-- `map_runtime_request` -/
def mapRuntimeRequest (m : RuntimeMapping) (tenantId : Uuid7) (manifest : Site)
    (request : RuntimeRequest) : Except MappingError RuntimeRequest := do
  let _ ← m.toBytes h
  let original ← m.inputs.original
  pure (mapCaptured m.inputs original.tenants tenantId manifest request)

/-- `translate_runtime_request` -/
def translateRuntimeRequest (mappings : List RuntimeMapping) (manifest : Site)
    (request : RuntimeRequest) : Except MappingError RuntimeRequest :=
  mappings.foldlM
    (fun request mapping => mapRuntimeRequest h mapping manifest.metadata.id manifest request)
    request

/-! ## The application -/

/-- `_read_inputs` -/
def readInputs (files : RestoreFiles) : Except MappingError RuntimeInputs :=
  match files.find? planName with
  | none => throw (.restore .fileNotFound)
  | some raw => do
      require (decide (raw.length ≤ maxPlanBytes))
        (.restore (.statePath "state object exceeds its read limit"))
      let inputs ← liftRestore (h.decodeInputs raw)
      inputs.validate h
      pure inputs

/-- The restore is reconciled, and the mapping is the committed one of its journal. -/
def requireCommitted (files : RestoreFiles) (m : RuntimeMapping) : Except MappingError Unit := do
  match ← liftRestore (read h.backup files) with
  | none => throw (hostRestoreError "restore_runtime_requires_reconciled_state")
  | some journal => do
      require (decide (journal.phase = .reconciled))
        (hostRestoreError "restore_runtime_requires_reconciled_state")
      m.inputs.requireJournal h journal
      let stored ← liftRestore (readBytes mappingName files)
      let raw ← m.toBytes h
      require (decide (stored = raw)) (hostRestoreError "restore_runtime_mapping_uncommitted")
      let inputs ← readInputs h files
      let storedDigest ← inputs.digest h
      let digest ← m.inputs.digest h
      require (decide (storedDigest = digest))
        (hostRestoreError "restore_runtime_mapping_uncommitted")

/-- One planned write: the record as it was read, and the observation it is to hold. -/
structure PlannedWrite where
  tenantId : Uuid7
  stored : Document
  target : TenantObservedState
  deriving DecidableEq

/-- One tenant is as captured or as projected already. -/
def planWrite (i : RuntimeInputs) (s : Store) (row : TenantRouteInput × TenantRouteInput) :
    Except MappingError PlannedWrite := do
  let current := row.1
  let source := row.2
  let target := projectObserved i.newGenerationId source.observedState
  require (decide (current.manifest = source.manifest) &&
      decide (current.deployment = source.deployment) &&
      (decide (current.observedState = source.observedState) ||
        decide (current.observedState = target)))
    (hostRestoreError "restore_runtime_observation_changed")
  let t := tenantIdOf source
  let stored ← mapError MappingError.agent (readLocked h.toStateHost (.tenantObserved t) s)
  pure ⟨t, stored, target⟩

/-- The writes of an application, planned before the first is made. -/
def planWrites (m : RuntimeMapping) (s : Store) : Except MappingError (List PlannedWrite) := do
  let intents ← mapError MappingError.agent (measureIntentRecords h.toStateHost s)
  require (decide (intents = [])) (hostRestoreError "restore_runtime_lifecycle_unreconciled")
  let actual ← mapError MappingError.snapshot (snapshotTenantRoutes h.toRouteHost s)
  let original ← m.inputs.original
  require (decide (actual.platformNamespace = original.platformNamespace) &&
      decide (actual.tenants.length = original.tenants.length))
    (hostRestoreError "restore_runtime_state_changed")
  (List.zip actual.tenants original.tenants).mapM (planWrite h m.inputs s)

/-- Replace an observation that is still the captured one. -/
def writeObservation (w : PlannedWrite) : Durable Store MappingError Unit :=
  Durable.when (decide (w.stored ≠ .tenantObservedState w.target))
    (Durable.raising MappingError.agent
      (compareAndSwap h.toStateHost (.tenantObserved w.tenantId) (revision h.toStateHost w.stored)
        (.tenantObservedState w.target) >>= fun _ => pure ()))

/-- `apply_runtime_mapping` -/
def applyRuntimeMapping (files : RestoreFiles) (m : RuntimeMapping) :
    Durable Store MappingError Unit := do
  Durable.query fun _ => requireCommitted h files m
  let writes ← Durable.query (planWrites h m)
  writes.forM (writeObservation h)

end Mapping

/-! ## A mapping of one tenant -/

/-- The captured tenant runs under the seventh generation, the restored one under the ninth. -/
def sampleInputs : RuntimeInputs where
  reconciledJournalDigest := sampleDigest
  trusted := ⟨sampleJournal.restoreId, sampleJournal.snapshotId, sampleJournal.bindings.trustedInputs,
    sampleJournal.bindings.repository, sampleJournal.bindings.sourceFence,
    ⟨tenantDomain, sampleTime⟩, 1, 2⟩
  descriptor := ⟨sampleJournal.bindings.backupDescriptor, sampleJournal.bindings.originalArtifact,
    sampleJournal.captureId, (sampleId 7, 0), [⟨sampleId 7, 0, 0⟩]⟩
  newGenerationId := sampleId 9
  tenants := [activeInput]
  originalCa := [[1]]
  currentCa := [[1]]

noncomputable def sampleMappingHost : MappingHost where
  toStateHost := meteredHost (tableAuditHost [.site activeInput.manifest,
    .tenantObservedState activeInput.observedState,
    .tenantObservedState (projectObserved (sampleId 9) activeInput.observedState),
    .deploymentRecord activeDeployment]) (2 ^ 40) 0
  platformNamespace _ := .ok ⟨tenantDomain, sampleTime⟩
  backup := sampleBackupHost
  codec := routeCodec
  platformOnlyDigest _ := .ok 0
  configurationBytes _ := .ok [1]
  routeMetadataBytes _ := .ok [2]
  inputsBytes _ := .ok [3]
  decodeInputs _ := .ok sampleInputs
  mappingBytes _ _ := .ok [4]

def sampleMapping : RuntimeMapping where
  inputs := sampleInputs
  manifest := ⟨sampleId 9, 0, [⟨"caddy", 1, 0⟩, ⟨"environment", 2, 0⟩, ⟨"caddy.json", numeral [1], 1⟩,
    ⟨"routes.json", numeral [2], 1⟩]⟩

end StaticHostAgent.HostRestore
