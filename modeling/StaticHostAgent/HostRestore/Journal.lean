import StaticHostAgent.Backup.Identity
import StaticHostAgent.Contracts.TableEncoding
import StaticHostAgent.Library.AsciiJson
import StaticHostAgent.Library.Checks
import StaticHostAgent.Library.Directory
import StaticHostAgent.Library.DurableProgram
import Mathlib.Data.String.Basic

/-!
# The restore journal

The journal of a host restore and the store that keeps it: one journal for each phase, one receipt
for each phase after the first, and the head. Every publication of a file is one durable change, and
the coordinator lease admits one caller at a time.
-/

set_option autoImplicit false

namespace StaticHostAgent.HostRestore

open Library Contracts Backup

inductive RestoreError where
  | hostRestore (message : String)
  | backupIdentity (message : String)
  | contract
  | unknownPhase
  | fileNotFound
  | statePath (message : String)
  deriving DecidableEq

def maxRestoreBytes : Nat := 256 * 1024

def restoreSchema : String := "lowerduckpond-host-restore-v1"

/-! ## Phases -/

inductive RestorePhase where
  | prepared | restored | validated | reconciled | runtimePrepared | installed | verified | complete
  deriving DecidableEq

def phases : List RestorePhase :=
  [.prepared, .restored, .validated, .reconciled, .runtimePrepared, .installed, .verified,
    .complete]

namespace RestorePhase

def value : RestorePhase → String
  | prepared => "prepared"
  | restored => "restored"
  | validated => "validated"
  | reconciled => "reconciled"
  | runtimePrepared => "runtime-prepared"
  | installed => "installed"
  | verified => "verified"
  | complete => "complete"

/-- `PHASES.index` -/
def index (phase : RestorePhase) : Nat := phases.idxOf phase

/-- `RestorePhase(text)` -/
def ofText (text : String) : Option RestorePhase := phases.find? fun phase => phase.value == text

end RestorePhase

def receiptFormat (phase : RestorePhase) : String :=
  "lowerduckpond-host-restore-" ++ phase.value ++ "-v1"

/-! ## Journals -/

/-- What a restore is bound to. -/
structure RestoreBindings where
  backupDescriptor : FramedDigest
  repository : FramedDigest
  originalArtifact : FramedDigest
  trustedInputs : FramedDigest
  destination : FramedDigest
  sourceFence : FramedDigest
  deriving DecidableEq

namespace RestoreBindings

/-- Every binding with the format it must have. -/
def formats (b : RestoreBindings) : List (FramedDigest × String) :=
  [(b.backupDescriptor, "lowerduckpond-static-backup-v1"),
    (b.repository, "lowerduckpond-backup-repository-binding-v1"),
    (b.originalArtifact, "lowerduckpond-static-host-agent-artifact-v1"),
    (b.trustedInputs, "lowerduckpond-host-restore-inputs-v1"),
    (b.destination, "lowerduckpond-host-restore-destination-v1"),
    (b.sourceFence, "lowerduckpond-host-restore-source-fence-v1")]

def json (b : RestoreBindings) : Json :=
  .object [("backupDescriptor", b.backupDescriptor.json), ("destination", b.destination.json),
    ("originalArtifact", b.originalArtifact.json), ("repository", b.repository.json),
    ("sourceFence", b.sourceFence.json), ("trustedInputs", b.trustedInputs.json)]

def ofJson : Json → Option RestoreBindings
  | .object [("backupDescriptor", backupDescriptor), ("destination", destination),
      ("originalArtifact", originalArtifact), ("repository", repository),
      ("sourceFence", sourceFence), ("trustedInputs", trustedInputs)] => do
      pure ⟨← FramedDigest.ofJson backupDescriptor, ← FramedDigest.ofJson repository,
        ← FramedDigest.ofJson originalArtifact, ← FramedDigest.ofJson trustedInputs,
        ← FramedDigest.ofJson destination, ← FramedDigest.ofJson sourceFence⟩
  | _ => none

end RestoreBindings

structure RestoreJournal where
  restoreId : String
  snapshotId : String
  captureId : String
  lineageId : String
  bindings : RestoreBindings
  phase : RestorePhase
  receipts : List FramedDigest
  previous : Option FramedDigest
  deriving DecidableEq

/-- The digest of the predecessor, or null. -/
def previousJson : Option FramedDigest → Json
  | none => .null
  | some digest => digest.json

def previousOfJson : Json → Option (Option FramedDigest)
  | .null => some none
  | value => (FramedDigest.ofJson value).map some

namespace RestoreJournal

/-- The members of a journal, in the canonical order. -/
def members (j : RestoreJournal) : List (String × Json) :=
  [("bindings", j.bindings.json), ("captureId", .string j.captureId),
    ("lineageId", .string j.lineageId), ("phase", .string j.phase.value),
    ("previousJournalDigest", previousJson j.previous),
    ("receipts", .array (j.receipts.map FramedDigest.json)), ("restoreId", .string j.restoreId),
    ("schema", .string restoreSchema), ("snapshotId", .string j.snapshotId)]

/-- The identities and the bindings of a journal. -/
def requireAuthority (j : RestoreJournal) : Except RestoreError Unit := do
  require (isUuid7 j.restoreId) .contract
  require (isSha256 j.snapshotId)
    (.hostRestore "restore requires a complete snapshot identity")
  require (isUuid7 j.captureId) .contract
  require (isUuid7 j.lineageId) .contract
  require (j.bindings.formats.all fun binding => binding.1.hasFormat binding.2)
    (.backupIdentity "invalid backup digest")

/-- A receipt for every phase so far, and a predecessor unless the journal is the first. -/
def requireProgress (j : RestoreJournal) : Except RestoreError Unit := do
  require (decide (j.receipts.length = j.phase.index))
    (.hostRestore "restore phase lacks complete receipt history")
  require ((List.zip (phases.drop 1) j.receipts).all fun receipt =>
      receipt.2.hasFormat (receiptFormat receipt.1))
    (.backupIdentity "invalid backup digest")
  if j.phase.index = 0 then
    require j.previous.isNone (.hostRestore "initial restore has a predecessor")
  else
    require (j.previous.any fun digest => digest.hasFormat restoreSchema)
      (.backupIdentity "invalid backup digest")

variable (h : BackupHost)

def toBytes (j : RestoreJournal) : Except RestoreError Bytes := do
  requireAuthority j
  requireProgress j
  match h.encodeRecord (.object j.members) maxRestoreBytes with
  | none => throw .contract
  | some raw => pure raw

def digest (j : RestoreJournal) : Except RestoreError FramedDigest := do
  let raw ← toBytes h j
  pure (framedDigest h restoreSchema raw)

end RestoreJournal

/-- A value, or the error. -/
def orRaise {α : Type} (error : RestoreError) : Option α → Except RestoreError α
  | none => throw error
  | some a => pure a

/-- The journal that the members of an object describe. What is malformed below the members is
found by `toBytes` in the source. -/
def journalOfMembers : List (String × Json) → Except RestoreError RestoreJournal
  | [("bindings", bindings), ("captureId", captureId), ("lineageId", lineageId), ("phase", phase),
      ("previousJournalDigest", previous), ("receipts", receipts), ("restoreId", restoreId),
      ("schema", schema), ("snapshotId", snapshotId)] =>
      match schema, receipts with
      | .string schemaText, .array receiptValues => do
          require (decide (schemaText = restoreSchema))
            (.hostRestore "restore journal schema is unsupported")
          match phase with
          | .string phaseText =>
              match restoreId, snapshotId, captureId, lineageId with
              | .string restore, .string snapshot, .string capture, .string lineage => do
                  let found ← orRaise .unknownPhase (RestorePhase.ofText phaseText)
                  let bound ← orRaise (.hostRestore "restore object has unexpected members")
                    (RestoreBindings.ofJson bindings)
                  let digests ← orRaise (.backupIdentity "invalid backup digest")
                    (receiptValues.mapM FramedDigest.ofJson)
                  let predecessor ← orRaise (.backupIdentity "invalid backup digest")
                    (previousOfJson previous)
                  pure ⟨restore, snapshot, capture, lineage, bound, found, digests, predecessor⟩
              | _, _, _, _ => throw .contract
          | _ => throw (.hostRestore "restore journal phase is invalid")
      | _, _ => throw (.hostRestore "restore journal schema is unsupported")
  | _ => throw (.hostRestore "restore object has unexpected members")

section Store

variable (h : BackupHost)

def RestoreJournal.fromBytes (raw : Bytes) : Except RestoreError RestoreJournal := do
  let members ← orRaise .contract (h.decodeRecord raw maxRestoreBytes)
  let result ← journalOfMembers members
  let canonical ← RestoreJournal.toBytes h result
  require (decide (canonical = raw)) (.hostRestore "restore journal is not canonical")
  pure result

/-! ## The store -/

/-- The regular files of the recovery directory. -/
abbrev RestoreFiles : Type := Directory String Bytes

def journalHead : String := "host-restore.json"

def journalName (phase : RestorePhase) : String := "journal-" ++ phase.value ++ ".json"

def receiptName (phase : RestorePhase) : String := phase.value ++ ".json"

def readBytes (name : String) (files : RestoreFiles) : Except RestoreError Bytes :=
  match files.find? name with
  | none => throw .fileNotFound
  | some raw => do
      require (decide (raw.length ≤ maxRestoreBytes))
        (.statePath "state object exceeds its read limit")
      pure raw

/-- A journal continues the journal before it. -/
def requireContinuation (journal historical : RestoreJournal) (phase : RestorePhase) :
    Option RestoreJournal → Except RestoreError Unit
  | none => pure ()
  | some before => do
      let digest ← RestoreJournal.digest h before
      require (decide (historical = { before with
          phase := phase
          receipts := journal.receipts.take phase.index
          previous := some digest }))
        (.hostRestore "restore journal history is discontinuous")

/-- One phase of the history. -/
def readHistory (files : RestoreFiles) (journal : RestoreJournal)
    (predecessor : Option RestoreJournal) (phase : RestorePhase) :
    Except RestoreError (Option RestoreJournal) := do
  let raw ← readBytes (journalName phase) files
  let historical ← RestoreJournal.fromBytes h raw
  require (decide (historical.phase = phase))
    (.hostRestore "restore journal history has the wrong phase")
  requireContinuation h journal historical phase predecessor
  pure (some historical)

/-- The receipt of a phase is stored as the journal binds it. -/
def readReceipt (files : RestoreFiles) (receipt : RestorePhase × FramedDigest) :
    Except RestoreError Unit := do
  let raw ← readBytes (receiptName receipt.1) files
  let members ← orRaise .contract (h.decodeRecord raw maxRestoreBytes)
  require (decide (h.encodeRecord (.object members) maxRestoreBytes = some raw))
    (.hostRestore "restore receipt is not canonical")
  require (decide (framedDigest h (receiptFormat receipt.1) raw = receipt.2))
    (.hostRestore "restore receipt does not match its journal")

/-- The head, its complete history and its receipts. -/
def readJournal (raw : Bytes) (files : RestoreFiles) : Except RestoreError RestoreJournal := do
  let journal ← RestoreJournal.fromBytes h raw
  let last ← (phases.take (journal.phase.index + 1)).foldlM (readHistory h files journal) none
  require (decide (last = some journal))
    (.hostRestore "restore journal differs from its immutable history")
  (List.zip (phases.drop 1) journal.receipts).forM (readReceipt h files)
  pure journal

def read (files : RestoreFiles) : Except RestoreError (Option RestoreJournal) :=
  match readBytes journalHead files with
  | .error .fileNotFound => pure none
  | .error error => throw error
  | .ok raw => do
      let journal ← readJournal h raw files
      pure (some journal)

/-- Whether the evidence is still to be written; evidence that exists must be the same. -/
def evidenceMissing (name : String) (raw : Bytes) (files : RestoreFiles) :
    Except RestoreError Bool := do
  require (decide (raw.length ≤ maxRestoreBytes))
    (.hostRestore "restore evidence exceeds its bound")
  match readBytes name files with
  | .error .fileNotFound => pure true
  | .error error => throw error
  | .ok existing => do
      require (decide (existing = raw)) (.hostRestore "restore immutable evidence conflicts")
      pure false

def immutable (name : String) (raw : Bytes) : Durable RestoreFiles RestoreError Unit := do
  let missing ← Durable.query (evidenceMissing name raw)
  Durable.when missing (Durable.effect fun files => files.insert name raw)

def begin (journal : RestoreJournal) : Durable RestoreFiles RestoreError Unit := do
  Durable.query fun _ => require (decide (journal.phase = .prepared))
    (.hostRestore "restore must begin at prepared")
  let raw ← Durable.query fun _ => RestoreJournal.toBytes h journal
  immutable (journalName .prepared) raw
  immutable journalHead raw

/-- The journal is the current one and the phase the next. -/
def compareJournal (previous : RestoreJournal) (phase : RestorePhase) (files : RestoreFiles) :
    Except RestoreError Unit := do
  let current ← read h files
  require (decide (current = some previous) && decide (phase.index = previous.phase.index + 1))
    (.hostRestore "restore journal compare-and-swap refused")

/-- The journal after one more phase. -/
def advanced (previous : RestoreJournal) (digest : FramedDigest) (phase : RestorePhase)
    (raw : Bytes) : RestoreJournal :=
  { previous with
    phase := phase
    receipts := previous.receipts ++ [framedDigest h (receiptFormat phase) raw]
    previous := some digest }

def advance (previous : RestoreJournal) (phase : RestorePhase) (receipt : JsonObject) :
    Durable RestoreFiles RestoreError RestoreJournal := do
  Durable.query (compareJournal h previous phase)
  let raw ← Durable.query fun _ =>
    orRaise .contract (h.encodeRecord receipt.json maxRestoreBytes)
  immutable (receiptName phase) raw
  let digest ← Durable.query fun _ => RestoreJournal.digest h previous
  let current := advanced h previous digest phase raw
  let canonical ← Durable.query fun _ => RestoreJournal.toBytes h current
  immutable (journalName phase) canonical
  Durable.effect fun files => files.insert journalHead canonical
  pure current

end Store

/-! ## A prepared journal -/

def sampleBackupHost : BackupHost := ⟨AsciiJson.asciiText, numeral⟩

def sampleBinding (format : String) : FramedDigest := ⟨format, sha256Text 7⟩

def sampleJournal : RestoreJournal where
  restoreId := "01890f3e-7b6a-7cc3-98c4-dc0c0c07398f"
  snapshotId := sha256Text 1
  captureId := "01890f3e-7b6a-7cc3-98c4-dc0c0c073990"
  lineageId := "01890f3e-7b6a-7cc3-98c4-dc0c0c073991"
  bindings :=
    { backupDescriptor := sampleBinding "lowerduckpond-static-backup-v1"
      repository := sampleBinding "lowerduckpond-backup-repository-binding-v1"
      originalArtifact := sampleBinding "lowerduckpond-static-host-agent-artifact-v1"
      trustedInputs := sampleBinding "lowerduckpond-host-restore-inputs-v1"
      destination := sampleBinding "lowerduckpond-host-restore-destination-v1"
      sourceFence := sampleBinding "lowerduckpond-host-restore-source-fence-v1" }
  phase := .prepared
  receipts := []
  previous := none

/-- The digest of every journal of the sample: the hash is the number of the last bytes. -/
def sampleDigest : FramedDigest :=
  ⟨restoreSchema, sha256Text (numeral
    (ascii (String.ofList (List.replicate 28 '0' ++ ['1', '"', '}', '\n']))))⟩

end StaticHostAgent.HostRestore
