import StaticHostAgent.Contracts.Texts
import StaticHostAgent.Library.Checks
import Mathlib.Data.String.Basic

/-!
# Records of an isolated public-CA run

The plan and the three intents of an isolated run, the facts that its journal holds, and the schema
that each record of the journal must satisfy on its own (`validate`). What the records say about one
another is checked by `collect`.
-/

set_option autoImplicit false

namespace StaticHostAgent.Isolation

open Library Contracts

inductive IsolationError where
  | value (message : String)
  | lifecycle (message : String)
  | fileNotFound
  | fileExists
  deriving DecidableEq

/-! ## Roles -/

/-- `ROLES`, in the order of their names. -/
inductive Role where
  | audit | caddy | observer
  deriving DecidableEq

/-- A mapping whose keys are exactly the roles. -/
structure ByRole (α : Type) where
  audit : α
  caddy : α
  observer : α
  deriving DecidableEq

namespace ByRole

variable {α β : Type}

def get (values : ByRole α) : Role → α
  | .audit => values.audit
  | .caddy => values.caddy
  | .observer => values.observer

def ofFn (f : Role → α) : ByRole α := ⟨f .audit, f .caddy, f .observer⟩

def toList (values : ByRole α) : List α := [values.audit, values.caddy, values.observer]

end ByRole

/-! ## Plans, intents and manifests -/

structure Network where
  mode : String
  resolvers : List String
  deriving DecidableEq

/-- The members of a plan that records are compared with, and the canonical text of the others. -/
structure Plan where
  runId : String
  nonce : String
  sourceRevision : String
  controllerSha256 : String
  artifactSha256 : String
  caddyBinarySha256 : String
  fixtureImageSha256 : String
  archiveImageSha256 : String
  accountId : String
  comZone : String
  netZone : String
  network : Network
  dockerEndpoint : String
  daemonSha256 : String
  startBefore : String
  preparationSha256 : String
  details : String
  deriving DecidableEq

/-- `run_id.replace("-", "")` -/
def withoutHyphens (text : String) : String := String.ofList (text.toList.filter (· ≠ '-'))

structure Intent where
  plan : Plan
  role : Role
  requestedAt : String
  createBefore : String
  expiresAt : String
  /-- The permission groups by identifier, sorted, with their names. -/
  permissionIds : List (String × String)
  baselineIds : List String
  issuerAuthoritySha256 : String
  cleanupAuthoritySha256 : String
  approvalReference : String
  deriving DecidableEq

/-- A manifest: one intent for each role over one plan, and the members records are compared with. -/
structure Manifest where
  intents : ByRole Intent
  journalVault : String
  independentServerId : String
  details : String
  roles : ∀ role, (intents.get role).role = role
  onePlan : ∀ role, (intents.get role).plan = intents.audit.plan
  deriving DecidableEq

def Manifest.plan (m : Manifest) : Plan := m.intents.audit.plan

/-! ## Facts -/

structure GithubActor where
  runId : Int
  runAttempt : Int
  event : String
  helperRevision : String
  observedAt : String
  independentServerId : String
  authenticationSha256 : String
  deriving DecidableEq

/-- What a cleanup says about one role. -/
inductive Outcome where
  | notSubmitted
  | pending (cleanup errorType : String)
  | absent (credentialId : String) (providerAbsent : Bool) (authentication : String)
  deriving DecidableEq

structure Closure where
  planSha256 : String
  roles : ByRole Outcome
  deriving DecidableEq

/-- A mapping whose keys are exactly the actors. -/
structure Actors (α : Type) where
  source : α
  destination : α
  acme : α
  archive : α
  controller : α
  deriving DecidableEq

/-- The actors with their names. -/
def Actors.named {α : Type} (actors : Actors α) : List (String × α) :=
  [("source", actors.source), ("destination", actors.destination), ("acme", actors.acme),
    ("archive", actors.archive), ("controller", actors.controller)]

structure Actor where
  id : String
  name : String
  image : String
  owner : String
  deriving DecidableEq

structure StoppedActor where
  actor : Actor
  running : Bool
  restartPolicy : String
  deriving DecidableEq

structure Restore where
  restoreId : String
  journalSha256 : String
  binarySha256 : String
  publicStoreAbsent : Bool
  deriving DecidableEq

structure Daemon where
  id : String
  name : String
  dockerRootDir : String
  serverVersion : String
  deriving DecidableEq

structure Topology where
  dockerEndpoint : String
  daemon : Daemon
  networkModes : Actors String
  deriving DecidableEq

structure Preparation where
  format : String
  runId : String
  sourceRevision : String
  artifactSha256 : String
  caddyBinarySha256 : String
  daemonSha256 : String
  originalInputsSha256 : String
  sourceFenceSha256 : String
  guestProgramSha256 : String
  restore : Restore
  actors : Actors Actor
  capturedAt : String
  topology : Topology
  deriving DecidableEq

structure ContextCredentials where
  ids : ByRole String
  intents : ByRole String
  expiresAt : String
  deriving DecidableEq

structure Context where
  format : String
  planSha256 : String
  runId : String
  capturedAt : String
  sourceFixtureSha256 : String
  actors : Actors Actor
  topology : Topology
  guestProgramSha256 : String
  preparationSha256 : String
  credentials : ContextCredentials
  deriving DecidableEq

structure ConsumerStop where
  contextSha256 : Option String
  publicPhase : String
  actors : Actors StoppedActor
  observedAt : String
  deriving DecidableEq

structure ZoneLookup where
  zoneId : String
  name : String
  records : List String
  deriving DecidableEq

structure Lookup where
  format : String
  contextSha256 : String
  namesSha256 : String
  kind : String
  sequence : Int
  startedAt : String
  completedAt : String
  comZone : ZoneLookup
  netZone : ZoneLookup
  deriving DecidableEq

/-- What a DNS cleanup proof rests on. -/
inductive Observation where
  | restore (value : Restore)
  | lookup (value : Lookup)
  | other (text : String)
  deriving DecidableEq

structure DnsClean where
  contextSha256 : Option String
  basis : String
  observation : Observation
  observationSha256 : String
  observedAt : String
  deriving DecidableEq

structure FunctionalResult where
  format : String
  qualificationAuthority : String
  planSha256 : String
  contextSha256 : String
  observationsSha256 : String
  network : Network
  functionalRecovery : String
  cleanup : String
  deriving DecidableEq

structure Readback where
  github : GithubActor
  closureSha256 : String
  status : String
  deriving DecidableEq

/-- The kind of a record with its payload. -/
inductive Fact where
  | manifest (document : Manifest)
  | reservation (reservationId : String) (intents : ByRole String)
  | intents (documents : ByRole Intent)
  | entered (intentSha256 : String)
  | created (intentSha256 credentialId : String)
  | issued (ids : ByRole String)
  | cleanupPending (closure : Closure)
  | closed (closure : Closure)
  | confirmed (actor : GithubActor)
  | covered (actor : GithubActor)
  | stopRequested (actor : GithubActor)
  | prepared (preparation : Preparation)
  | context (context : Context)
  | phaseStarted (contextSha256 startedAt deadlineAt : String)
  | quiesced (stop : ConsumerStop)
  | dnsClean (proof : DnsClean)
  | functional (result : FunctionalResult)
  | readback (proof : Readback)
  deriving DecidableEq

/-- `CORE` -/
def Fact.isCore : Fact → Bool
  | .reservation .. | .intents .. | .entered .. | .created .. | .issued .. | .cleanupPending ..
  | .closed .. => true
  | _ => false

/-- One record of the journal. -/
structure Record where
  format : String
  manifestSha256 : String
  fact : Fact
  deriving DecidableEq

/-- The documents whose digests the records mention. -/
inductive Document where
  | plan (value : Plan)
  | intent (value : Intent)
  | manifest (value : Manifest)
  | record (value : Record)
  | obligation (planSha256 : String) (fact : Fact)
  | entry (intentSha256 : String)
  | preparation (value : Preparation)
  | actor (value : Actor)
  | daemon (value : Daemon)
  | context (value : Context)
  | closure (value : Closure)
  | observation (value : Observation)
  | names (planSha256 nonce : String)

/-- What the records take from elsewhere: SHA-256 of canonical texts, the records within the byte
bound of private files, and the reading of timestamps in microseconds. -/
structure IsolationHost where
  digest : Document → String
  fits : Record → Bool
  instant : String → Option Int

variable (h : IsolationHost)

def Plan.sha256 (plan : Plan) : String := h.digest (.plan plan)

def Intent.sha256 (intent : Intent) : String := h.digest (.intent intent)

def Manifest.sha256 (m : Manifest) : String := h.digest (.manifest m)

/-- The digests of the intents by role. -/
def Manifest.intentSha256 (m : Manifest) : ByRole String :=
  .ofFn fun role => (m.intents.get role).sha256 h

/-! ## Checks of single values -/

def isProviderId (text : String) : Bool := fullmatch (List.replicate 32 hexClass) text

/-- `provider_id` -/
def providerId (text : String) : Except IsolationError Unit :=
  require (isProviderId text) (.value "isolation provider identity is invalid")

/-- `fingerprint` -/
def fingerprint (text : String) : Except IsolationError Unit :=
  require (isSha256 text) (.lifecycle "invalid lifecycle digest")

/-- `identity` -/
def identity (text : String) : Except IsolationError Unit :=
  require (isUuid7 text) (.lifecycle "invalid lifecycle identity")

/-- `instant` -/
def instant (text : String) : Except IsolationError Int :=
  match h.instant text with
  | some time => .ok time
  | none => .error (.lifecycle "invalid lifecycle timestamp")

/-- `_role_ids` -/
def roleIds (ids : ByRole String) : Except IsolationError Unit := do
  require (decide ids.toList.Nodup)
    (.value "isolated journal credential identities are not separated")
  ids.toList.forM providerId

/-- `github` -/
def github (actor : GithubActor) (m : Manifest) : Except IsolationError Unit := do
  require (decide (1 ≤ actor.runId) && decide (1 ≤ actor.runAttempt) &&
      (decide (actor.event = "workflow_dispatch") || decide (actor.event = "schedule")) &&
      decide (actor.helperRevision = m.plan.sourceRevision) &&
      decide (actor.independentServerId = m.independentServerId))
    (.value "isolated GitHub actor differs from its manifest")
  let _ ← instant h actor.observedAt
  fingerprint actor.authenticationSha256

/-- The name that a fixture of the run has. -/
def actorName (runId : String) (name : String) : String :=
  if name = "controller" then "/ldp-m311-public-ca-" ++ withoutHyphens runId
  else "/ldp-m3-" ++ withoutHyphens runId ++ "-" ++ (if name = "source" then "host" else name)

/-- The image that a fixture of the plan has. -/
def actorImage (plan : Plan) (name : String) : String :=
  "sha256:" ++ (if name = "controller" then plan.controllerSha256
    else if name = "archive" then plan.archiveImageSha256
    else plan.fixtureImageSha256)

/-- The digest an image names. -/
def imageDigest (image : String) : Option String :=
  if "sha256:".toList.isPrefixOf image.toList then some (String.ofList (image.toList.drop 7))
  else none

/-! ## Preparations and contexts -/

/-- One actor of `preparation.parse`. -/
def parseActor (runId : String) (name : String) (actor : Actor) : Except IsolationError Unit := do
  fingerprint actor.id
  require (decide (actor.name = actorName runId name) &&
      decide (actor.owner = withoutHyphens runId))
    (.value "isolated prepared actor belongs to another resource graph")
  match imageDigest actor.image with
  | some digest => fingerprint digest
  | none => .error (.value "isolated prepared actor belongs to another resource graph")

/-- A text without control characters. -/
def printable (text : String) : Bool :=
  !text.toList.isEmpty && text.toList.all fun c => decide (32 ≤ c.toNat)

/-- The network modes of a native topology. -/
def nativeModes : Actors String := ⟨"bridge", "bridge", "bridge", "bridge", "host"⟩

/-- `preparation.parse` -/
def parsePreparation (p : Preparation) : Except IsolationError Unit := do
  require (decide (p.format = "lowerduckpond-isolated-public-ca-prepared-v1"))
    (.value "isolated preparation format differs")
  identity p.runId
  require (fullmatch (List.replicate 40 hexClass) p.sourceRevision)
    (.value "qualification source revision is invalid")
  [p.artifactSha256, p.caddyBinarySha256, p.daemonSha256, p.originalInputsSha256,
    p.sourceFenceSha256, p.guestProgramSha256].forM fingerprint
  let _ ← instant h p.capturedAt
  identity p.restore.restoreId
  fingerprint p.restore.journalSha256
  require (decide (p.restore.binarySha256 = p.caddyBinarySha256) && p.restore.publicStoreAbsent)
    (.value "isolated preparation has no genuine cold reconstruction")
  p.actors.named.forM fun entry => parseActor p.runId entry.1 entry.2
  require (decide ((p.actors.named.map fun entry => entry.2.id).Nodup))
    (.value "isolated prepared actors repeat an identity")
  require ([p.topology.daemon.id, p.topology.daemon.name, p.topology.daemon.dockerRootDir,
      p.topology.daemon.serverVersion].all printable)
    (.value "isolated prepared daemon metadata is invalid")
  require (decide (h.digest (.daemon p.topology.daemon) = p.daemonSha256) &&
      decide (p.topology.networkModes = nativeModes))
    (.value "isolated prepared daemon or native network path differs")

/-- `preparation.require` -/
def requirePreparation (p : Preparation) (plan : Plan) : Except IsolationError Unit := do
  parsePreparation h p
  require (decide (h.digest (.preparation p) = plan.preparationSha256) &&
      decide (p.runId = plan.runId) && decide (p.sourceRevision = plan.sourceRevision) &&
      decide (p.artifactSha256 = plan.artifactSha256) &&
      decide (p.caddyBinarySha256 = plan.caddyBinarySha256) &&
      decide (p.daemonSha256 = plan.daemonSha256))
    (.value "isolated prepared evidence differs from the exact plan")
  require (decide (p.topology.dockerEndpoint = plan.dockerEndpoint))
    (.value "isolated prepared Docker endpoint differs")
  require (p.actors.named.all fun entry => decide (entry.2.image = actorImage plan entry.1))
    (.value "isolated prepared image differs from the plan")

/-- `preparation.context` -/
def requireContext (c : Context) (prepared : Preparation) (plan : Plan) (intents ids : ByRole String)
    (expiresAt : String) : Except IsolationError Unit := do
  requirePreparation h prepared plan
  ids.toList.forM providerId
  require (decide ids.toList.Nodup) (.value "isolated context credential identities differ")
  require (decide (c.format = "lowerduckpond-isolated-public-ca-context-v1") &&
      decide (c.planSha256 = plan.sha256 h) && decide (c.runId = plan.runId) &&
      decide (c.preparationSha256 = plan.preparationSha256) &&
      decide (c.sourceFixtureSha256 = h.digest (.actor prepared.actors.source)) &&
      decide (c.actors = prepared.actors) && decide (c.topology = prepared.topology) &&
      decide (c.guestProgramSha256 = prepared.guestProgramSha256) &&
      decide (c.credentials = ⟨ids, intents, expiresAt⟩))
    (.value "isolated public context differs from its genuine prepared graph")
  let prepared ← instant h prepared.capturedAt
  let captured ← instant h c.capturedAt
  let expires ← instant h expiresAt
  require (decide (prepared ≤ captured) && decide (captured < expires))
    (.value "isolated public context differs from its genuine prepared graph")

/-! ## The schema of a record -/

def journalFormat : String := "lowerduckpond-isolated-public-ca-journal-v1"

/-- `COORDINATOR_SECONDS`, in microseconds -/
def coordinatorTime : Int := 1800000000

/-- `[A-Za-z_][A-Za-z0-9_]{0,80}` -/
def isErrorType (text : String) : Bool :=
  let letter (c : Char) : Bool := c.isAlpha || c == '_'
  match text.toList with
  | [] => false
  | first :: rest =>
      letter first && rest.all (fun c => letter c || c.isDigit) && decide (rest.length ≤ 80)

/-- One role of a cleanup record; only a pending cleanup may name an error. -/
def validateOutcome (isPending : Bool) : Outcome → Except IsolationError Unit
  | .notSubmitted => .ok ()
  | .pending cleanup errorType => do
      require isPending
        (.value "combined qualification fields are incomplete or unknown")
      require (decide (cleanup = "pending") && isErrorType errorType)
        (.value "isolated cleanup error classification is invalid")
  | .absent credentialId providerAbsent authentication => do
      providerId credentialId
      require (providerAbsent && decide (authentication = "denied"))
        (.value "isolated cleanup contains an unproven outcome")

/-- A cleanup record. -/
def validateClosure (isPending : Bool) (closure : Closure) (m : Manifest) :
    Except IsolationError Unit := do
  require (decide (closure.planSha256 = m.plan.sha256 h))
    (.value "isolated cleanup record plan differs")
  closure.roles.toList.forM (validateOutcome isPending)

/-- A digest that may be missing. -/
def optionalFingerprint : Option String → Except IsolationError Unit
  | none => .ok ()
  | some text => fingerprint text

/-- One actor of a consumer stop. -/
def validateStopped (plan : Plan) (name : String) (stopped : StoppedActor) :
    Except IsolationError Unit := do
  fingerprint stopped.actor.id
  require (!stopped.running && decide (stopped.restartPolicy = "no") &&
      decide (stopped.actor.image = actorImage plan name) &&
      decide (stopped.actor.owner = withoutHyphens plan.runId) &&
      decide (stopped.actor.name = actorName plan.runId name))
    (.value "isolated consumer is not positively owned and stopped")

/-- The start of the public phase lies within the intents' time and does not exceed its own. -/
def validatePhase (m : Manifest) (contextSha256 startedAt deadlineAt : String) :
    Except IsolationError Unit := do
  fingerprint contextSha256
  let started ← instant h startedAt
  let deadline ← instant h deadlineAt
  let requested ← instant h m.intents.audit.requestedAt
  let expires ← instant h m.intents.audit.expiresAt
  require (decide (requested ≤ started) && decide (started < deadline) &&
      decide (deadline ≤ expires) && decide (deadline - started ≤ coordinatorTime))
    (.value "isolated public phase acquired a renewed deadline")

/-- The payload of a record. -/
def validateFact (m : Manifest) : Fact → Except IsolationError Unit
  | .manifest document =>
      require (decide (document = m)) (.value "isolated manifest journal record changed")
  | .reservation reservationId intents => do
      identity reservationId
      require (decide (intents = m.intentSha256 h))
        (.value "isolated reservation intent binding differs")
  | .intents documents =>
      require (decide (documents = m.intents)) (.value "isolated journal intents differ")
  | .entered intentSha256 =>
      require ((m.intentSha256 h).toList.contains intentSha256)
        (.value "isolated record contains a foreign intent")
  | .created intentSha256 credentialId => do
      require ((m.intentSha256 h).toList.contains intentSha256)
        (.value "isolated record contains a foreign intent")
      providerId credentialId
  | .issued ids => roleIds ids
  | .cleanupPending closure => validateClosure h true closure m
  | .closed closure => validateClosure h false closure m
  | .confirmed actor => github h actor m
  | .covered actor => github h actor m
  | .stopRequested actor => github h actor m
  | .prepared preparation => requirePreparation h preparation m.plan
  | .context context =>
      require (decide (context.planSha256 = m.plan.sha256 h)) (.value "isolated context plan differs")
  | .phaseStarted contextSha256 startedAt deadlineAt =>
      validatePhase h m contextSha256 startedAt deadlineAt
  | .quiesced stop => do
      optionalFingerprint stop.contextSha256
      require (decide (stop.publicPhase = "entered") || decide (stop.publicPhase = "not-started"))
        (.value "isolated public phase disposition is invalid")
      let _ ← instant h stop.observedAt
      stop.actors.named.forM fun entry => validateStopped m.plan entry.1 entry.2
      require (decide ((stop.actors.named.map fun entry => entry.2.actor.id).Nodup))
        (.value "isolated consumer identities repeat")
  | .dnsClean proof => do
      optionalFingerprint proof.contextSha256
      require ((decide (proof.basis = "observed-absent") ||
          decide (proof.basis = "public-not-started")) &&
          decide (h.digest (.observation proof.observation) = proof.observationSha256))
        (.value "isolated DNS cleanup proof basis differs")
      fingerprint proof.observationSha256
      let _ ← instant h proof.observedAt
  | .functional result => do
      require (decide (result.format = "lowerduckpond-isolated-public-ca-result-v1") &&
          decide (result.qualificationAuthority = "none") &&
          decide (result.planSha256 = m.plan.sha256 h) &&
          decide (result.network = m.plan.network) &&
          decide (result.functionalRecovery = "passed") &&
          decide (result.cleanup = "pending-independent-closure"))
        (.value "isolated functional observation differs")
      fingerprint result.contextSha256
      fingerprint result.observationsSha256
  | .readback proof => do
      github h proof.github m
      fingerprint proof.closureSha256
      require (decide (proof.status = "provider-absence-and-host-denials-verified"))
        (.value "isolated independent closure is incomplete")

/-- `validate` -/
def validate (record : Record) (m : Manifest) : Except IsolationError Unit := do
  require (decide (record.format = journalFormat) &&
      decide (record.manifestSha256 = m.sha256 h))
    (.value "isolated journal record belongs to another manifest")
  validateFact h m record.fact

end StaticHostAgent.Isolation
