import StaticHostAgent.Contracts.Encoding
import Mathlib.Tactic.DeriveCountable
import Mathlib.Data.Countable.Basic
import Mathlib.Logic.Encodable.Basic
import Mathlib.Logic.Equiv.List

/-!
# An encoding that computes

`tableEncoding` encodes the documents of a table by their places, in unary, and every other document
by a number of its own. It keeps all laws of an `Encoding` and evaluates on the documents of the
table, so that a run over concrete documents can be evaluated. The documents such runs share are at
the end.
-/

set_option autoImplicit false

namespace StaticHostAgent.Contracts

open Library

instance countableChar : Countable Char :=
  Function.Injective.countable (f := Char.toNat) fun _ _ h => Char.toNat_inj.1 h

instance countableString : Countable String :=
  Function.Injective.countable (f := String.toList) fun _ _ h => String.toList_inj.1 h

deriving instance Countable for Uuid7, Quotas, DeploymentReference, CanonicalOrigin, SiteMetadata,
  LifecycleState, SiteSpec, Site, DigestFormat, Digest, TenantObservedState, ImportProvenance,
  DeploymentRecord, ArchiveKey, ArchiveRecord, RouteSet, ArchiveRecovery, LifecycleRecovery,
  RestartTarget, RestartFence, Operation, TransactionPhase, TransactionIntent, Provenance,
  ArchiveTransition, RetirementPhase, ArchiveRetirementIntent, ConstructionPhase,
  ArchiveConstructionIntent, DeletionMode, DeletionEvidence, ResultStatus, AuditEntry,
  ResultErrorCode, ExportBundle, FailureAudit, OperationResult, Artifact, OperationRequest,
  JobVersion, JobPhase, ExportDelivery, ExpectedSource, SourceAuthority, AuditBoundary,
  TenantRecordHistory, Dispatch, AuthorizationJob, EmergencyDeletionIntent, Document

/-- The line that writes `n` with one repeated digit. -/
def unaryLine (digit : UInt8) (n : Nat) : Bytes := digit :: (List.replicate n digit ++ [10])

theorem unaryLine_clean {digit : UInt8} (hlf : digit ≠ 10) (hcr : digit ≠ 13) (n : Nat) :
    CleanLine (unaryLine digit n) := by
  refine ⟨digit :: List.replicate n digit, rfl, fun h => ?_, fun h => ?_⟩
  · rcases List.mem_cons.1 h with h | h
    · exact hlf h.symm
    · exact hlf (List.eq_of_mem_replicate h).symm
  · rcases List.mem_cons.1 h with h | h
    · exact hcr h.symm
    · exact hcr (List.eq_of_mem_replicate h).symm

theorem unaryLine_length (digit : UInt8) (n : Nat) : (unaryLine digit n).length = n + 2 := by
  simp [unaryLine]

/-- Any number of its own for every document. -/
noncomputable def documentNumber : Document → Nat := (exists_injective_nat Document).choose

theorem documentNumber_injective : Function.Injective documentNumber :=
  (exists_injective_nat Document).choose_spec

/-- A document of the table is written by its place, another one by its number. -/
noncomputable def tableCanonical (table : List Document) (d : Document) : Bytes :=
  match table.idxOf? d with
  | some place => unaryLine 49 place
  | none => unaryLine 48 (documentNumber d)

theorem tableCanonical_clean (table : List Document) (d : Document) :
    CleanLine (tableCanonical table d) := by
  unfold tableCanonical
  split
  · exact unaryLine_clean (by decide) (by decide) _
  · exact unaryLine_clean (by decide) (by decide) _

theorem getElem?_of_idxOf? {table : List Document} {d : Document} {place : Nat}
    (h : table.idxOf? d = some place) : table[place]? = some d := by
  obtain ⟨hlt, hget, -⟩ := List.findIdx?_eq_some_iff_getElem.1 h
  rw [List.getElem?_eq_getElem hlt]
  exact congrArg some (eq_of_beq hget)

theorem tableCanonical_injective (table : List Document) :
    Function.Injective (tableCanonical table) := by
  intro c d h
  unfold tableCanonical at h
  have hlength := congrArg List.length h
  cases hc : table.idxOf? c with
  | some i =>
      cases hd : table.idxOf? d with
      | some j =>
          simp only [hc, hd, unaryLine_length] at hlength
          obtain rfl : i = j := by omega
          have hsame := (getElem?_of_idxOf? hc).symm.trans (getElem?_of_idxOf? hd)
          exact Option.some.inj hsame
      | none =>
          rw [hc, hd] at h
          exact absurd (List.cons.inj h).1 (by decide)
  | none =>
      cases hd : table.idxOf? d with
      | some j =>
          rw [hc, hd] at h
          exact absurd (List.cons.inj h).1 (by decide)
      | none =>
          simp only [hc, hd, unaryLine_length] at hlength
          exact documentNumber_injective (by omega)

/-- The document of the table that has the bytes. -/
noncomputable def tableLookup (table : List Document) (raw : Bytes) : Option Document :=
  table[raw.length - 2]?.filter fun d => decide (tableCanonical table d = raw)

open Classical in
/-- Read a place of the table, or whatever document has the bytes. -/
noncomputable def tableDecode (table : List Document) (raw : Bytes) : Option Document :=
  match tableLookup table raw with
  | some d => some d
  | none => if h : ∃ d, tableCanonical table d = raw then some h.choose else none

theorem tableDecode_canonical (table : List Document) (d : Document) :
    tableDecode table (tableCanonical table d) = some d := by
  unfold tableDecode
  cases hlookup : tableLookup table (tableCanonical table d) with
  | some c =>
      obtain ⟨-, hc⟩ := Option.filter_eq_some_iff.1 hlookup
      exact congrArg some (tableCanonical_injective table (of_decide_eq_true hc))
  | none =>
      have hex : ∃ c, tableCanonical table c = tableCanonical table d := ⟨d, rfl⟩
      simp only
      rw [dif_pos hex]
      exact congrArg some (tableCanonical_injective table hex.choose_spec)

/-- The number the bytes write, as a digest. -/
def numeral (raw : Bytes) : Sha256 :=
  Fin.ofNat _ (raw.foldl (fun n b => n * 256 + b.toNat) 0)

noncomputable def tableEncoding (table : List Document) : Encoding where
  canonical := tableCanonical table
  decode := tableDecode table
  sha256 := numeral
  decode_canonical := tableDecode_canonical table
  canonical_clean := tableCanonical_clean table

/-- The digest of the document at a place of the table; it does not depend on the table, so that
documents may name each other by it. -/
def placeDigest (format : DigestFormat) (place : Nat) : Digest :=
  ⟨format, numeral (ascii format.identifier ++ 0 :: bigEndian4 (place + 2) ++ unaryLine 49 place)⟩

/-! ## Documents of a sample tenant -/

def sampleId (n : Fin (2 ^ 48)) : Uuid7 := ⟨n, 0, 0⟩

def sampleTime : Timestamp := "2026-01-01T00:00:00Z"

def sampleTenant : Uuid7 := sampleId 1

def sampleCorrelation : Uuid7 := sampleId 2

def sampleJobId : Uuid7 := sampleId 3

def sampleIntentId : Uuid7 := sampleId 4

def sampleSite (state : LifecycleState) (deployment : Option Uuid7) : Site :=
  ⟨⟨sampleTenant, "site", canonicalOrigin sampleTenant⟩,
    ⟨state, ⟨1, 1⟩, deployment.map fun d => ⟨d, 0⟩⟩⟩

def sampleObserved (manifest : Digest) (state : LifecycleState) (active runtime : Option Uuid7) :
    TenantObservedState := ⟨sampleTenant, manifest, state, active, runtime, sampleTime⟩

/-- The result of a successful transition of the sample tenant. -/
def sampleResult (operation : Operation) (manifest : Site) : OperationResult :=
  ⟨.authorizationJob sampleJobId, sampleCorrelation, operation, .succeeded, some sampleTenant,
    some (canonicalOrigin sampleTenant), some manifest, none, none, none, none⟩

/-- The first audit entry of a chain, about a result. -/
def sampleEntry (operation : Operation) (result : Digest) : AuditEntry :=
  ⟨0, none, sampleTime, "operator", operation, some sampleTenant, sampleCorrelation, result,
    .succeeded, none⟩

/-- A request about the sample tenant. -/
def sampleRequest (operation : Operation) (artifact : Option Artifact) : OperationRequest :=
  ⟨operation, sampleCorrelation, some sampleTenant, none, none, none, artifact⟩

/-- The intent of a transition between two manifests that stand at places of the table. -/
def sampleIntent (operation : Operation) (recovery : Option LifecycleRecovery)
    (source candidate : Option (Site × Nat)) : TransactionIntent :=
  ⟨true, sampleIntentId, sampleTenant, sampleCorrelation, operation, none, recovery,
    source.map Prod.fst, source.map (placeDigest .manifest ·.2), candidate.map Prod.fst,
    candidate.map (placeDigest .manifest ·.2), .prepared, none, sampleTime⟩

/-- The claimed and validated job of a request that stands at a place of the table. -/
def sampleJob (request : OperationRequest) (place : Nat) (expected : ExpectedSource)
    (authority : Option SourceAuthority) (dispatch : Dispatch) : AuthorizationJob :=
  ⟨.staticJobV2, sampleJobId, "operator", request, placeDigest .request place, request.artifact,
    expected, authority, sampleTime, .claimed, some true, none, dispatch⟩

/-- What the dispatch of the job saw. -/
def sampleDispatch (observed : TenantObservedState) (routes : RouteSet)
    (deployments archives : List Uuid7) : Dispatch :=
  { Dispatch.none with
    sourceObservedState := some observed
    sourceRouteSet := some routes
    sourceRuntimeGenerationId := some (sampleId 6)
    deploymentIds := some deployments
    archiveDeploymentIds := some archives }

/-- A deployment of the sample tenant, of one and the same artifact. -/
def sampleDeployment (n : Fin (2 ^ 48)) (correlation : Uuid7) : DeploymentRecord :=
  ⟨sampleId n, sampleTenant, 0, ⟨.releaseTree, 0⟩, sampleTime, correlation, none⟩

/-- The archive of its deployment 5. -/
def sampleArchive (manifest : Digest) (correlation : Uuid7) : ArchiveRecord :=
  ⟨sampleTenant, sampleId 5, ⟨.releaseTree, 0⟩, manifest, ⟨.archive, 0⟩, 1, "bucket",
    ⟨sampleId 11⟩, "version", sampleTime, correlation⟩

/-- The journal that retires an archive. -/
def sampleRetirement (transition : ArchiveTransition) (archive : ArchiveRecord) (digest : Digest) :
    ArchiveRetirementIntent :=
  ⟨true, sampleId 12, .authorizationJob sampleJobId, "operator", sampleTenant, sampleCorrelation,
    transition, archive.manifestDigest, digest, some archive, archive.bundleDigest,
    archive.bundleSize, archive.bucket, archive.key, archive.versionId, .prepared, sampleTime⟩

end StaticHostAgent.Contracts
