import StaticHostAgent.Audit.Archive
import StaticHostAgent.Contracts.Texts
import StaticHostAgent.Library.CanonicalJson

/-!
# Segments and witnesses

A closed segment of the audit log is kept as its witness: one row of values for each entry, without
the names of the members and without what is constant. `inspectSegment` writes the witness of a
segment and `segmentFromWitness` expands it; both make the same complete proof of the entries and
of their chain, and both share a cache of proofs.

The model is at the level of JSON documents. Of the schema of an audit entry it has the names, the
constants and the type of the deletion evidence; what else the schema and the semantic checks
require of the members is a parameter.
-/

set_option autoImplicit false

namespace StaticHostAgent.Audit.Witness

open Library Contracts Host

/-- The JSON library, the hash, and the schema below the names of the members. -/
structure WitnessHost extends CanonicalText where
  string_rows : string "rows" = some (ascii "\"rows\"")
  sha256 : Bytes → Sha256
  property : String → Json → Bool
  conditions : List (String × Json) → Bool

def witnessError (message : String) : AgentError := .backupIdentity message

/-- A value, or the error; no value also stands for a `ContractError`, which the callers turn into
an error of their own. -/
def orInvalid {α : Type} (message : String) : Option α → Except AgentError α
  | some a => pure a
  | none => throw (witnessError message)

theorem orInvalid_eq_ok {α : Type} {message : String} {x : Option α} {a : α} :
    orInvalid message x = .ok a ↔ x = some a := by
  cases x with
  | none => exact iff_of_false (fun h => (nomatch h)) fun h => (nomatch h)
  | some b => exact ⟨fun h => congrArg some (pure_eq_ok.1 h), fun h => by
      rw [Option.some.inj h]
      rfl⟩

/-! ## Entries -/

def apiVersion : String := "hosting.lowerduckpond.net/v1alpha1"

def requiredMembers : List String :=
  ["apiVersion", "kind", "sequence", "previousEntryDigest", "timestamp", "operatorPrincipal",
    "operation", "tenantId", "correlationId", "resultDigest", "resultStatus"]

/-- `_ROW_FIELDS` -/
def rowFields : List String :=
  ["sequence", "previousEntryDigest", "timestamp", "operatorPrincipal", "operation", "tenantId",
    "correlationId", "resultDigest", "resultStatus", "deletionEvidence"]

def isText (value : Json) (text : String) : Bool :=
  match value with
  | .string found => decide (found = text)
  | _ => false

def isObject : Json → Bool
  | .object _ => true
  | _ => false

def isNull : Json → Bool
  | .null => true
  | _ => false

/-- A sequence number, as Python's `int` without a fraction. -/
def countOf (value : Json) : Option Nat :=
  match value with
  | .number q => if q.den = 1 ∧ 0 ≤ q.num then some q.num.toNat else none
  | _ => none

/-- The value of an audit entry digest, or of none. -/
def digestOf (value : Json) : Option (Option String) :=
  match value with
  | .null => some none
  | .object [("algorithm", .string "sha256"), ("format", .string "lowerduckpond-audit-entry-v1"),
      ("value", .string text)] => if isSha256 text then some (some text) else none
  | _ => none

def uuid7Of (value : Json) : Option String :=
  match value with
  | .string text => if isUuid7 text then some text else none
  | _ => none

section Texts

variable (h : WitnessHost)

/-- `canonical_json_bytes` -/
def canonicalBytes (document : Json) (maximum : Nat) : Option Bytes := do
  let text ← h.dumps document
  if text.length + 1 ≤ maximum then some (text ++ [10]) else none

/-- `decode_json_object` -/
def decodeJsonObject (raw : Bytes) (maximum : Nat) : Option Json :=
  if raw.length ≤ maximum then
    match h.loads raw with
    | some (.object members) => some (.object members)
    | _ => none
  else none

/-- The contract of an audit entry. -/
def acceptsEntry (members : List (String × Json)) : Bool :=
  let document := Json.object members
  (members.map Prod.fst).all (fun name => decide (name ∈ "deletionEvidence" :: requiredMembers)) &&
    requiredMembers.all (fun name => decide (name ∈ members.map Prod.fst)) &&
    isText (document.get "apiVersion") apiVersion && isText (document.get "kind") "AuditEntry" &&
    members.all (fun member => h.property member.1 member.2) &&
    (decide ("deletionEvidence" ∉ members.map Prod.fst) ||
      isObject (document.get "deletionEvidence")) && h.conditions members

def auditEntryDigestText (canonical : Bytes) : String :=
  sha256Text (h.sha256 (ascii "lowerduckpond-audit-entry-v1" ++
    0 :: bigEndian4 canonical.length ++ canonical))

/-- The canonical bytes of a valid entry and the value of their digest. -/
def canonicalAuditEntry (document : Json) : Option (Bytes × String) :=
  match document with
  | .object members =>
      if acceptsEntry h members then
        (canonicalBytes h document maxCanonicalBytes).map fun canonical =>
          (canonical, auditEntryDigestText h canonical)
      else none
  | _ => none

/-! ## Chains -/

/-- `_SegmentChain` -/
structure EntryChain where
  count : Nat
  first : Nat
  predecessor : Option String
  terminal : Option String
  seen : List String
  deriving DecidableEq

def EntryChain.start : EntryChain := ⟨0, 0, none, none, []⟩

/-- `archive_count` -/
def archiveCount (value : Json) (maximum : Nat) : Except AgentError Nat :=
  match countOf value with
  | some n => do
      require (decide (n ≤ maximum)) (witnessError "audit archive count exceeds its bound")
      pure n
  | none => throw (witnessError "audit archive count exceeds its bound")

/-- The boundary before the first entry is what that entry names. -/
def boundary (chain : EntryChain) (previous : Json) : Except AgentError (Option String) :=
  if chain.count = 0 then
    match digestOf previous with
    | some predecessor => pure predecessor
    | none => throw (witnessError "invalid backup digest")
  else pure chain.predecessor

/-- One more entry; its canonical bytes are returned. -/
def EntryChain.add (chain : EntryChain) (invalid : String) (document : Json) :
    Except AgentError (EntryChain × Bytes) := do
  let entry ← orInvalid invalid (canonicalAuditEntry h document)
  let sequence ← archiveCount (document.get "sequence") (maxWitnessedEntries - 1)
  let previous := document.get "previousEntryDigest"
  let predecessor ← boundary chain previous
  let first := if chain.count = 0 then sequence else chain.first
  let terminal := if chain.count = 0 then predecessor else chain.terminal
  require (decide (sequence = first + chain.count) && decide (digestOf previous = some terminal))
    (witnessError "audit archive segment breaks its hash chain")
  let correlation ← orInvalid invalid (uuid7Of (document.get "correlationId"))
  require (decide (correlation ∉ chain.seen))
    (witnessError "audit archive repeats a correlation")
  require (decide (chain.count + 1 ≤ maxWitnessedEntries))
    (witnessError "audit archive witness exceeds its entry boundary")
  pure (⟨chain.count + 1, first, predecessor, some entry.2, correlation :: chain.seen⟩, entry.1)

structure SegmentEvidence where
  firstSequence : Nat
  entryCount : Nat
  predecessor : Option String
  terminal : Option String
  witness : Bytes
  deriving DecidableEq

def EntryChain.evidence (chain : EntryChain) (witness : Bytes) : SegmentEvidence :=
  ⟨chain.first, chain.count, chain.predecessor, chain.terminal, witness⟩

/-! ## Inspection -/

def invalidEntry : String := "audit archive contains an invalid entry"

def invalidWitness : String := "audit archive witness contains an invalid entry"

/-- The values of the row of an entry; a missing member is null. -/
def rowOf (document : Json) : List Json := rowFields.map document.get

/-- A comma before every row but the first. -/
def separator (chain : EntryChain) : Bytes := if chain.count = 0 then [] else [44]

/-- One line: the chain goes on, and the row of the entry is written. -/
def inspectLine (progress : EntryChain × Bytes) (line : Bytes) :
    Except AgentError (EntryChain × Bytes) := do
  let document ← orInvalid invalidEntry (decodeJsonObject h line maxCanonicalBytes)
  let (chain, canonical) ← progress.1.add h invalidEntry document
  require (decide (canonical = line)) (witnessError "audit archive entry is not canonical")
  let row ← orInvalid invalidEntry
    (canonicalBytes h (.array (rowOf document)) maxCanonicalBytes)
  let rows := progress.2 ++ separator progress.1 ++ row.dropLast
  require (decide (rows.length + 2 ≤ maxArchiveSegmentBytes))
    (witnessError "audit archive witness exceeds its byte boundary")
  pure (chain, rows)

/-- `_inspect_segment` without the cache. -/
def inspectRaw (raw : Bytes) : Except AgentError SegmentEvidence := do
  require (decide (raw ≠ []) && decide (raw.length ≤ maxArchiveSegmentBytes) &&
      decide (raw.getLast? = some 10))
    (witnessError "audit archive segment exceeds its byte boundary")
  let (chain, rows) ← (splitNewlines raw).foldlM (inspectLine h) (EntryChain.start, [91])
  pure (chain.evidence (rows ++ [93, 10]))

/-! ## Expansion -/

/-- The entry of a row, with the constants, and without deletion evidence where the row has null. -/
def documentOf (row : Json) : Option Json :=
  match row with
  | .array [sequence, previous, timestamp, principal, operation, tenant, correlation, resultDigest,
      status, evidence] =>
      some (.object ([("apiVersion", .string apiVersion), ("correlationId", correlation)] ++
        (if isNull evidence then [] else [("deletionEvidence", evidence)]) ++
        [("kind", .string "AuditEntry"), ("operation", operation),
          ("operatorPrincipal", principal), ("previousEntryDigest", previous),
          ("resultDigest", resultDigest), ("resultStatus", status), ("sequence", sequence),
          ("tenantId", tenant), ("timestamp", timestamp)]))
  | _ => none

/-- One row: the entry it denotes continues the chain and is written. -/
def expandRow (progress : EntryChain × Bytes) (row : Json) :
    Except AgentError (EntryChain × Bytes) := do
  let document ← orInvalid "audit archive witness row has unexpected members" (documentOf row)
  let (chain, canonical) ← progress.1.add h invalidWitness document
  let segment := progress.2 ++ canonical
  require (decide (segment.length ≤ maxArchiveSegmentBytes))
    (witnessError "audit archive witness expands beyond one segment")
  pure (chain, segment)

def rowsOf (wrapped : Json) : Except AgentError (List Json) :=
  match wrapped with
  | .object [("rows", .array rows)] => pure rows
  | _ => throw (witnessError "audit archive witness is not a canonical row array")

/-- `segment_from_witness` without the cache: the segment, and the evidence that is remembered. -/
def expandWitness (raw : Bytes) : Except AgentError (Bytes × SegmentEvidence) := do
  require (decide (raw.length ≤ maxArchiveSegmentBytes))
    (witnessError "audit archive witness exceeds its byte boundary")
  let wrapped ← orInvalid invalidWitness (decodeJsonObject h
    (ascii "\x7b\"rows\":" ++ raw ++ ascii "\x7d") (maxArchiveSegmentBytes + 16))
  let rows ← rowsOf wrapped
  require (decide (0 < rows.length) && decide (rows.length ≤ maxWitnessedEntries))
    (witnessError "audit archive witness is not a canonical row array")
  let canonical ← orInvalid invalidWitness
    (canonicalBytes h (.array rows) maxArchiveSegmentBytes)
  require (decide (canonical = raw))
    (witnessError "audit archive witness is not a canonical row array")
  let (chain, segment) ← rows.foldlM (expandRow h) (EntryChain.start, [])
  pure (segment, chain.evidence raw)

/-! ## The cache -/

/-- Proofs of segments, the last used first. -/
abbrev ProofCache : Type := List (Bytes × SegmentEvidence)

/-- `_cached_proof`: the proof that is found moves to the front. -/
def cachedProof (matches_ : Bytes × SegmentEvidence → Bool) (cache : ProofCache) :
    Option (Bytes × SegmentEvidence) × ProofCache :=
  match cache.findIdx? matches_ with
  | none => (none, cache)
  | some position =>
      match cache[position]? with
      | none => (none, cache)
      | some pair => (some pair, pair :: cache.eraseIdx position)

/-- `_remember_proof`: at most two proofs are kept. -/
def rememberProof (raw : Bytes) (evidence : SegmentEvidence) (cache : ProofCache) : ProofCache :=
  ((raw, evidence) :: cache.filter fun pair => decide (pair.1 ≠ raw)).take 2

/-- `inspect_segment` -/
def inspectSegment (raw : Bytes) (cache : ProofCache) :
    Except AgentError SegmentEvidence × ProofCache :=
  match cachedProof (fun pair => decide (pair.1 = raw)) cache with
  | (some pair, cache) => (.ok pair.2, cache)
  | (none, cache) =>
      match inspectRaw h raw with
      | .error error => (.error error, cache)
      | .ok evidence => (.ok evidence, rememberProof raw evidence cache)

/-- `segment_from_witness` -/
def segmentFromWitness (raw : Bytes) (cache : ProofCache) : Except AgentError Bytes × ProofCache :=
  match cachedProof (fun pair => decide (pair.2.witness = raw)) cache with
  | (some pair, cache) => (.ok pair.1, cache)
  | (none, cache) =>
      match expandWitness h raw with
      | .error error => (.error error, cache)
      | .ok (segment, evidence) => (.ok segment, rememberProof segment evidence cache)

end Texts

end StaticHostAgent.Audit.Witness
