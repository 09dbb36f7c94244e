import StaticHostAgent.Audit.Chain
import StaticHostAgent.Backup.Identity
import StaticHostAgent.Library.DurableProgram

/-!
# The audit lineage

A backup repository belongs to one audit lineage. The lineage is recorded twice in the state: the
genesis comes first and stands for good, the primary is a copy that is published once the repository
itself has given the genesis back as evidence. The state lease admits one caller at a time, and each
publication is one durable change.
-/

set_option autoImplicit false

namespace StaticHostAgent.Backup

open Library Contracts Host Audit

inductive BackupError where
  | backupIdentity (message : String)
  | contract
  | fileNotFound
  | statePath (message : String)
  | clock
  | audit (error : AgentError)
  deriving DecidableEq

def identitySchema : String := "lowerduckpond-backup-repository-v1"

def bindingFormat : String := "lowerduckpond-backup-repository-binding-v1"

def lineageSchema : String := "lowerduckpond-audit-lineage-v1"

def maxIdentityBytes : Nat := 16 * 1024

def maxLineageEntries : Nat := 2 ^ 53 - 1

/-! ## Repository identities -/

/-- What `urlsplit` finds in an address. -/
structure UrlParts where
  scheme : String
  hostname : Option String
  port : Option Nat
  username : Option String
  password : Option String
  path : String
  query : String
  fragment : String
  deriving DecidableEq

/-- The JSON library and the hash with the host's other libraries and the audit reader. -/
structure LineageHost extends BackupHost where
  /-- An address that raises has no parts. -/
  urlsplit : String → Option UrlParts
  isSpace : Char → Bool
  /-- The schema of a platform namespace. -/
  namespaceContract : List (String × Json) → Bool
  audit : AuditHost

def asciiLetter (c : Char) : Bool :=
  (decide ('a' ≤ c) && decide (c ≤ 'z')) || (decide ('A' ≤ c) && decide (c ≤ 'Z'))

def asciiDigit (c : Char) : Bool := decide ('0' ≤ c) && decide (c ≤ '9')

/-- `_COMPONENT` -/
def isComponent (text : String) : Bool :=
  decide (text ≠ "") && text.toList.all fun c =>
    asciiLetter c || asciiDigit c || decide (c ∈ ['_', '.', '-'])

/-- `_NODE` -/
def isNode (text : String) : Bool :=
  (text.toList.head?.any fun c => asciiLetter c || asciiDigit c) && isComponent text &&
    decide (text.length ≤ 253)

/-- The components of a POSIX path. -/
def pathParts (path : String) : List String :=
  (path.splitOn "/").filter fun part => decide (part ≠ "") && decide (part ≠ ".")

/-- The locator of a local repository. -/
def localLocator (repository : String) : Except BackupError String := do
  require (!repository.startsWith "//" && decide ('\x00' ∉ repository.toList))
    (.backupIdentity "invalid local backup repository locator")
  let parts := pathParts repository
  require (decide (".." ∉ parts) && decide (parts ≠ []))
    (.backupIdentity "invalid local backup repository locator")
  pure ("/" ++ "/".intercalate parts)

/-- The address of an S3 repository with its scheme. -/
def s3Address (repository : String) : String :=
  let address := (repository.drop 3).toString
  let bare := if address.startsWith "//" then (address.drop 2).toString else address
  if 1 < (bare.splitOn "://").length then bare else "https://" ++ bare

/-- The components of the path of an address. -/
def s3Parts (path : String) : List String :=
  let rest := (path.drop 1).toString
  ((if rest.endsWith "/" then (rest.dropEnd 1).toString else rest).splitOn "/")

/-- An address is plain HTTPS without credentials. -/
def safeAddress (h : LineageHost) (address : String) (parts : UrlParts) (hostname : String) :
    Bool :=
  decide (parts.scheme = "https") && isNode hostname && parts.username.isNone &&
    parts.password.isNone && decide (parts.query = "") && decide (parts.fragment = "") &&
    parts.path.startsWith "/" && !address.toList.any fun c => h.isSpace c || decide (c.toNat < 32)

/-- The locator of an S3 repository. -/
def s3Locator (h : LineageHost) (repository : String) : Except BackupError String := do
  let address := s3Address repository
  match h.urlsplit address with
  | none => throw (.backupIdentity "invalid S3 backup repository locator")
  | some parts => do
      let hostname := parts.hostname.getD ""
      require (safeAddress h address parts hostname)
        (.backupIdentity "unsafe S3 backup repository locator")
      let components := s3Parts parts.path
      require (components.all fun part => decide (part ∉ ["", ".", ".."]) && isComponent part)
        (.backupIdentity "ambiguous S3 backup repository path")
      let port := (parts.port.filter fun port => decide (port ≠ 443)).elim "" fun port =>
        ":" ++ toString port
      pure ("s3:https://" ++ hostname.toLower ++ port ++ "/" ++ "/".intercalate components)

def canonicalLocator (h : LineageHost) (repository : String) : Except BackupError String := do
  require (decide (repository ≠ "") && decide (repository.length ≤ 4096))
    (.backupIdentity "invalid backup repository locator")
  if repository.startsWith "/" then localLocator repository
  else do
    require (repository.startsWith "s3:")
      (.backupIdentity "unsupported backup repository backend")
    s3Locator h repository

/-- The members of a repository identity. -/
structure IdentityDocument where
  configId : String
  nodeName : String
  locator : String
  deriving DecidableEq

namespace IdentityDocument

/-- `RepositoryIdentity.__post_init__` -/
def check (h : LineageHost) (d : IdentityDocument) : Except BackupError Unit := do
  require (isSha256 d.configId && isNode d.nodeName)
    (.backupIdentity "invalid canonical repository identity")
  let locator ← canonicalLocator h d.locator
  require (decide (locator = d.locator)) (.backupIdentity "invalid canonical repository identity")

def json (d : IdentityDocument) : Json :=
  .object [("configId", .string d.configId), ("locator", .string d.locator),
    ("nodeName", .string d.nodeName), ("schema", .string identitySchema)]

def ofJson : Json → Option IdentityDocument
  | .object [("configId", .string configId), ("locator", .string locator),
      ("nodeName", .string nodeName), ("schema", .string schema)] =>
      if schema = identitySchema then some ⟨configId, nodeName, locator⟩ else none
  | _ => none

def binding (h : LineageHost) (d : IdentityDocument) : Except BackupError FramedDigest :=
  match h.encodeRecord d.json maxCanonicalBytes with
  | none => throw .contract
  | some raw => pure (framedDigest h.toBackupHost bindingFormat raw)

end IdentityDocument

/-- An identity that was accepted. -/
structure RepositoryIdentity (h : LineageHost) extends IdentityDocument where
  accepted : toIdentityDocument.check h = .ok ()

/-! ## Lineage records -/

structure LineageRecord where
  lineageId : String
  repository : IdentityDocument
  repositoryBinding : FramedDigest
  namespaceDigest : FramedDigest
  initializedAt : String
  initialEntryCount : Nat
  initialTerminalEntryDigest : Option FramedDigest
  deriving DecidableEq

/-- A digest, or null. -/
def optionalDigestJson : Option FramedDigest → Json
  | none => .null
  | some digest => digest.json

def optionalDigestOfJson : Json → Option (Option FramedDigest)
  | .null => some none
  | value => (FramedDigest.ofJson value).map some

/-- A natural number in a document. -/
def naturalOfJson : Json → Option Nat
  | .number value => if value.den = 1 ∧ 0 ≤ value.num then some value.num.toNat else none
  | _ => none

def stringOfJson : Json → Option String
  | .string text => some text
  | _ => none

namespace LineageRecord

/-- The members of a record, in the canonical order. -/
def members (r : LineageRecord) : List (String × Json) :=
  [("initialEntryCount", .number r.initialEntryCount),
    ("initialTerminalEntryDigest", optionalDigestJson r.initialTerminalEntryDigest),
    ("initializedAt", .string r.initializedAt), ("lineageId", .string r.lineageId),
    ("namespaceDigest", r.namespaceDigest.json), ("repository", r.repository.json),
    ("repositoryBinding", r.repositoryBinding.json), ("schema", .string lineageSchema)]

end LineageRecord

/-- The days of a month. -/
def daysOfMonth (year month : Nat) : Nat :=
  if month = 2 then if year % 4 = 0 ∧ (year % 100 ≠ 0 ∨ year % 400 = 0) then 29 else 28
  else if month ∈ [4, 6, 9, 11] then 30 else 31

/-- `_timestamp`: a second of the calendar in the exact format, from the year 1000 on. -/
def isTimestamp (text : String) : Bool :=
  let field (start length : Nat) : Nat :=
    ((text.toList.drop start).take length).foldl (fun n c => 10 * n + (c.toNat - 48)) 0
  let digits := List.replicate 4 asciiDigit ++ [(· == '-'), asciiDigit, asciiDigit, (· == '-'),
    asciiDigit, asciiDigit, (· == 'T'), asciiDigit, asciiDigit, (· == ':'), asciiDigit, asciiDigit,
    (· == ':'), asciiDigit, asciiDigit, (· == 'Z')]
  fullmatch digits text && decide (1000 ≤ field 0 4) && decide (1 ≤ field 5 2) &&
    decide (field 5 2 ≤ 12) && decide (1 ≤ field 8 2) &&
    decide (field 8 2 ≤ daysOfMonth (field 0 4) (field 5 2)) && decide (field 11 2 ≤ 23) &&
    decide (field 14 2 ≤ 59) && decide (field 17 2 ≤ 59)

def orFail {α : Type} (error : BackupError) : Option α → Except BackupError α
  | none => throw error
  | some a => pure a

section Lineages

variable (h : LineageHost)

/-- The boundary of an empty log has no digest. -/
def checkBoundary (count : Nat) (terminal : Option FramedDigest) : Except BackupError Unit := do
  require (decide (count ≤ maxLineageEntries)) (.backupIdentity "invalid lineage audit boundary")
  if count = 0 then require terminal.isNone (.backupIdentity "empty lineage has an audit digest")
  else
    require (terminal.any fun digest => digest.hasFormat "lowerduckpond-audit-entry-v1")
      (.backupIdentity "invalid backup digest")

/-- The checks of `validate_lineage` on the values. -/
def LineageRecord.check (r : LineageRecord) : Except BackupError Unit := do
  require (isUuid7 r.lineageId) (.backupIdentity "invalid audit lineage identity")
  require (isTimestamp r.initializedAt) (.backupIdentity "invalid lineage initialization time")
  r.repository.check h
  require (r.repositoryBinding.hasFormat bindingFormat) (.backupIdentity "invalid backup digest")
  let binding ← r.repository.binding h
  require (decide (r.repositoryBinding = binding))
    (.backupIdentity "lineage repository binding mismatch")
  require (r.namespaceDigest.hasFormat "lowerduckpond-platform-state-v1")
    (.backupIdentity "invalid backup digest")
  checkBoundary r.initialEntryCount r.initialTerminalEntryDigest

/-- The record that the members of an object describe. -/
def recordOfMembers : List (String × Json) → Except BackupError LineageRecord
  | [("initialEntryCount", count), ("initialTerminalEntryDigest", terminal),
      ("initializedAt", initialized), ("lineageId", lineage), ("namespaceDigest", bound),
      ("repository", repository), ("repositoryBinding", binding), ("schema", schema)] => do
      require (decide (stringOfJson schema = some lineageSchema))
        (.backupIdentity "unsupported audit lineage schema")
      let lineageId ← orFail (.backupIdentity "invalid audit lineage identity")
        (stringOfJson lineage)
      let initializedAt ← orFail (.backupIdentity "invalid lineage initialization time")
        (stringOfJson initialized)
      let identity ← orFail (.backupIdentity "invalid lineage repository identity")
        (IdentityDocument.ofJson repository)
      let repositoryBinding ← orFail (.backupIdentity "invalid backup digest")
        (FramedDigest.ofJson binding)
      let namespaceDigest ← orFail (.backupIdentity "invalid backup digest")
        (FramedDigest.ofJson bound)
      let entryCount ← orFail (.backupIdentity "invalid lineage audit boundary")
        (naturalOfJson count)
      let terminalDigest ← orFail (.backupIdentity "invalid backup digest")
        (optionalDigestOfJson terminal)
      pure ⟨lineageId, identity, repositoryBinding, namespaceDigest, initializedAt, entryCount,
        terminalDigest⟩
  | _ => throw (.backupIdentity "unsupported audit lineage schema")

/-- `validate_lineage` -/
def validateLineage (members : List (String × Json)) : Except BackupError LineageRecord := do
  let record ← recordOfMembers members
  record.check h
  pure record

def decodeLineage (raw : Bytes) : Except BackupError LineageRecord := do
  let members ← orFail (.backupIdentity "invalid audit lineage JSON")
    (h.decodeRecord raw maxIdentityBytes)
  require (decide (h.encodeRecord (.object members) maxIdentityBytes = some raw))
    (.backupIdentity "audit lineage bytes are not canonical")
  validateLineage h members

/-! ## The state -/

/-- The files a lineage is established from, and the audit log. -/
structure LineageState where
  platformNamespace : Option Bytes
  genesis : Option Bytes
  primary : Option Bytes
  audit : AuditStore
  deriving DecidableEq

def readBounded (maximum : Nat) : Option Bytes → Except BackupError Bytes
  | none => throw .fileNotFound
  | some raw => do
      require (decide (raw.length ≤ maximum)) (.statePath "state object exceeds its read limit")
      pure raw

/-- `_optional_lineage` -/
def optionalLineage (file : Option Bytes) : Except BackupError (Option LineageRecord) :=
  match file with
  | none => pure none
  | some raw => do
      let found ← readBounded maxIdentityBytes (some raw)
      let record ← decodeLineage h found
      pure (some record)

/-- The digest of the canonical platform namespace. -/
def namespaceDigest (s : LineageState) : Except BackupError FramedDigest := do
  let raw ← readBounded maxCanonicalBytes s.platformNamespace
  let members ← orFail .contract (h.decodeRecord raw maxCanonicalBytes)
  require (h.namespaceContract members) .contract
  require (decide (h.encodeRecord (.object members) maxCanonicalBytes = some raw))
    (.backupIdentity "platform namespace is not canonical")
  pure ⟨"lowerduckpond-platform-state-v1", sha256Text (h.sha256
    (ascii "lowerduckpond-platform-state-v1" ++ 0 :: bigEndian4 raw.length ++ raw))⟩

/-- A contract digest as a document. -/
def digestDocument (d : Digest) : FramedDigest := ⟨d.format.identifier, sha256Text d.value⟩

/-- An archive belongs to the lineage that both records give. -/
def archiveLineage (s : LineageState) (directory : ArchiveDirectory) : Except BackupError Unit := do
  let raw ← readBounded maxIdentityBytes s.primary
  let primary ← decodeLineage h raw
  let raw ← readBounded maxIdentityBytes s.genesis
  let genesis ← decodeLineage h raw
  require (decide (primary = genesis))
    (.backupIdentity "audit archive lineage disagrees with immutable genesis")
  require (decide (directory.lineage.lineageId.text = primary.lineageId) &&
      decide (sha256Text directory.lineage.repositoryBinding = primary.repositoryBinding.value))
    (.backupIdentity "audit archive belongs to another lineage or repository")

/-- The lineage of the archive, if there is one. -/
def requireArchiveLineage (s : LineageState) : Except BackupError Unit :=
  match s.audit.archive with
  | none => pure ()
  | some directory =>
      mapError (fun _ => .audit (.audit "audit archive prefix is invalid or incomplete"))
        (archiveLineage h s directory)

/-- The segments of the log against the archived prefix. -/
def readLog (s : LineageState) :
    Except BackupError (ArchivePrefix h.audit.encoding × List Segment) := do
  requireArchiveLineage h s
  mapError .audit (readSegments h.audit defaultAuditLimits s.audit)

/-- `inspect_audit` -/
def inspectLog (s : LineageState) : Except BackupError AuditState := do
  let (archive, segments) ← readLog h s
  mapError .audit (validateChain h.audit defaultAuditLimits archive segments)

/-- The digest of the entry before the boundary. -/
def auditPrefixTerminal (count : Nat) (s : LineageState) :
    Except BackupError (Option FramedDigest) := do
  let (archive, segments) ← readLog h s
  let state ← mapError .audit (validateChain h.audit defaultAuditLimits archive segments)
  require (decide (count ≤ state.entryCount))
    (.audit (.audit "audit prefix lies outside the verified chain"))
  if count = 0 then pure none
  else
    match (chainEntries h.audit segments).find? fun x => decide (x.sequence = count - 1) with
    | none => throw (.audit (.audit "audit prefix boundary is unavailable"))
    | some x => pure (some (digestDocument (auditEntryDigest h.audit.encoding x)))

def requireInitialLineagePrefix (lineage : LineageRecord) (audit : AuditState) (s : LineageState) :
    Except BackupError Unit := do
  require (decide (lineage.initialEntryCount ≤ audit.entryCount))
    (.backupIdentity "audit history predates its lineage boundary")
  if lineage.initialEntryCount = 0 then pure ()
  else do
    let terminal ← auditPrefixTerminal h lineage.initialEntryCount s
    require (decide (terminal = lineage.initialTerminalEntryDigest))
      (.backupIdentity "audit history forks its lineage boundary")

/-! ## The repository -/

/-- A snapshot of the repository: its host and its tags. -/
structure SnapshotTags where
  hostname : String
  tags : List String
  deriving DecidableEq

def reservedPrefixes : List String := ["lineage-", "repository-", "rotation-", "capture-"]

def protectedTags : List String := ["lowerduckpond-audit-archive", "lowerduckpond-audit-lineage"]

/-- The snapshot has a reserved or a protected tag. -/
def SnapshotTags.claimed (snapshot : SnapshotTags) : Bool :=
  (snapshot.tags.any fun tag => reservedPrefixes.any fun head => tag.startsWith head) ||
    snapshot.tags.any fun tag => decide (tag ∈ protectedTags)

/-- One snapshot of the repository history. -/
def requireSnapshot (identity : RepositoryIdentity h) (lineage : Option LineageRecord)
    (snapshot : SnapshotTags) : Except BackupError Unit :=
  if !snapshot.claimed then pure ()
  else
    match lineage with
    | none => throw (.backupIdentity "repository history requires an existing audit lineage")
    | some record => do
        let binding ← identity.binding h
        require (decide (snapshot.hostname = identity.nodeName) &&
            decide (snapshot.tags.filter (·.startsWith "lineage-") =
              ["lineage-" ++ record.lineageId]) &&
            decide (snapshot.tags.filter (·.startsWith "repository-") =
              ["repository-" ++ binding.value]))
          (.backupIdentity "repository history conflicts with the audit lineage")

def requireRepositoryHistory (snapshots : List SnapshotTags) (identity : RepositoryIdentity h)
    (lineage : Option LineageRecord) : Except BackupError Unit :=
  snapshots.forM (requireSnapshot h identity lineage)

/-! ## Establishing a lineage -/

/-- What one call is given; the clock and the entropy are read in it. -/
structure LineageCall where
  identity : RepositoryIdentity h
  snapshotTags : List SnapshotTags
  initializing : Bool
  repositoryGenesis : Option JsonObject
  commit : Bool
  now : Nat
  entropy : Nat

/-- The civil date of a day since 1970-01-01. -/
def civilDate (days : Nat) : Nat × Nat × Nat :=
  let z := days + 719468
  let era := z / 146097
  let doe := z % 146097
  let yoe := (doe - doe / 1460 + doe / 36524 - doe / 146096) / 365
  let doy := doe - (365 * yoe + yoe / 4 - yoe / 100)
  let mp := (5 * doy + 2) / 153
  let month := if mp < 10 then mp + 3 else mp - 9
  (yoe + era * 400 + (if month ≤ 2 then 1 else 0), month, doy - (153 * mp + 2) / 5 + 1)

def decimal (width number : Nat) : String :=
  String.ofList ((fixedDigits 10 width number).map fun d => Char.ofNat (48 + d))

/-- The second of a time in milliseconds, as a text; calendar years end with 9999. -/
def utcText (milliseconds : Nat) : Option String :=
  let seconds := milliseconds / 1000
  let (year, month, day) := civilDate (seconds / 86400)
  if year ≤ 9999 then
    some (decimal 4 year ++ "-" ++ decimal 2 month ++ "-" ++ decimal 2 day ++ "T" ++
      decimal 2 (seconds % 86400 / 3600) ++ ":" ++ decimal 2 (seconds % 3600 / 60) ++ ":" ++
      decimal 2 (seconds % 60) ++ "Z")
  else none

/-- `generate_uuid7` with ten bytes of entropy. -/
def generateUuid7 (timestamp entropy : Nat) : Except BackupError String := do
  require (decide (timestamp < 2 ^ 48)) .clock
  let random := entropy % 2 ^ 74
  pure (String.ofList (uuidText (timestamp * 2 ^ 80 + 7 * 2 ^ 76 + random / 2 ^ 62 * 2 ^ 64 +
    2 * 2 ^ 62 + random % 2 ^ 62)))

/-- What a call finds before it decides. -/
structure LineageFound where
  genesis : Option LineageRecord
  published : Option LineageRecord
  namespaceDigest : FramedDigest
  audit : AuditState

variable {h}

/-- The evidence of the repository is the local genesis; only an uninitialized lineage that is not
to be committed needs none. -/
def requireEvidence (call : LineageCall h) (genesis published : Option LineageRecord) :
    Except BackupError Unit :=
  match call.repositoryGenesis with
  | some document => do
      let record ← validateLineage h document.members
      require (decide (genesis = some record))
        (.backupIdentity "repository history requires the existing audit lineage")
  | none =>
      require (published.isNone && !call.commit)
        (.backupIdentity "repository lineage evidence is missing")

/-- An existing lineage is bound to this repository, this namespace and this log. -/
def requireBound (call : LineageCall h) (digest : FramedDigest) (audit : AuditState)
    (genesis : Option LineageRecord) (s : LineageState) : Except BackupError Unit :=
  match genesis with
  | none => pure ()
  | some lineage => do
      require (decide (lineage.repository = call.identity.toIdentityDocument) &&
          decide (lineage.namespaceDigest = digest))
        (.backupIdentity "audit lineage binding changed")
      requireInitialLineagePrefix h lineage audit s

/-- The checks before the first change. -/
def lineageChecks (call : LineageCall h) (s : LineageState) : Except BackupError LineageFound := do
  let digest ← namespaceDigest h s
  let genesis ← optionalLineage h s.genesis
  let published ← optionalLineage h s.primary
  require (published.isNone || decide (genesis = published))
    (.backupIdentity "audit lineage genesis is missing or inconsistent")
  require (published.isSome || call.initializing)
    (.backupIdentity "audit lineage has not been initialized")
  requireRepositoryHistory h call.snapshotTags call.identity genesis
  requireEvidence call genesis published
  let audit ← inspectLog h s
  requireBound call digest audit genesis s
  pure ⟨genesis, published, digest, audit⟩

/-- The first record of a lineage: its boundary is the present end of the log. -/
def freshLineage (call : LineageCall h) (found : LineageFound) :
    Except BackupError LineageRecord := do
  let lineageId ← generateUuid7 call.now call.entropy
  let binding ← call.identity.binding h
  let initializedAt ← orFail .clock (utcText call.now)
  let record : LineageRecord := ⟨lineageId, call.identity.toIdentityDocument, binding,
    found.namespaceDigest, initializedAt, found.audit.entryCount,
    found.audit.terminalDigest.map digestDocument⟩
  record.check h
  pure record

/-- The bytes of a record. -/
def LineageRecord.bytes (record : LineageRecord) : Except BackupError Bytes :=
  orFail .contract (h.encodeRecord (.object record.members) maxCanonicalBytes)

def createGenesis (raw : Bytes) : Durable LineageState BackupError Unit :=
  Durable.effect fun s => { s with genesis := some raw }

/-- `_publish_primary` -/
def publishPrimary (raw : Bytes) : Durable LineageState BackupError Unit :=
  Durable.effect fun s => { s with primary := some raw }

def lineageForRepository (call : LineageCall h) :
    Durable LineageState BackupError LineageRecord := do
  let found ← Durable.query (lineageChecks call)
  match found.genesis with
  | some lineage =>
      if found.published.isNone && call.commit then do
        let raw ← Durable.query fun _ => LineageRecord.bytes (h := h) lineage
        publishPrimary raw
        pure lineage
      else pure lineage
  | none => do
      let lineage ← Durable.query fun _ => freshLineage call found
      let raw ← Durable.query fun _ => LineageRecord.bytes (h := h) lineage
      createGenesis raw
      pure lineage

end Lineages

end StaticHostAgent.Backup
