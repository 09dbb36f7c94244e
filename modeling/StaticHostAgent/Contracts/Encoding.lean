import StaticHostAgent.Contracts.Documents
import StaticHostAgent.Library.Checks
import StaticHostAgent.Library.Lines

/-!
# Canonical bytes and contract digests

RFC 8785 serialization and SHA-256 are libraries outside the repository: an `Encoding` holds them
with what the code relies on.
`canonicalJsonBytes` adds the size bound of the contracts, `digestBytes` the framing of a payload by
its format identifier and its length.
-/

set_option autoImplicit false

namespace StaticHostAgent.Contracts

open Library

/-- The contract errors, by code. -/
inductive ContractErrorCode where
  | canonicalTooLarge | invalidCanonicalOrigin | invalidIdentifier | invalidSlug | reservedSlug
  | schemaInvalid
  deriving DecidableEq

structure ContractError where
  code : ContractErrorCode
  message : String
  deriving DecidableEq

def schemaInvalid (message : String) : ContractError := ⟨.schemaInvalid, message⟩

/-- The serializer, the parser and the hash function the contracts rest on. Control characters are
escaped inside the canonical text, so its only line feed is the last byte. -/
structure Encoding where
  /-- The RFC 8785 bytes of a document followed by one line feed. -/
  canonical : Document → Bytes
  /-- The document a JSON text denotes. -/
  decode : Bytes → Option Document
  sha256 : Bytes → Sha256
  decode_canonical : ∀ d, decode (canonical d) = some d
  canonical_clean : ∀ d, CleanLine (canonical d)

def maxCanonicalBytes : Nat := 16 * 1024

/-- The canonical bytes of a document, bounded. -/
def canonicalJsonBytes (e : Encoding) (d : Document) : Except ContractError Bytes := do
  require (decide ((e.canonical d).length ≤ maxCanonicalBytes))
    ⟨.canonicalTooLarge, "canonical JSON exceeds its limit"⟩
  pure (e.canonical d)

theorem canonicalJsonBytes_eq_ok {e : Encoding} {d : Document} {raw : Bytes} :
    canonicalJsonBytes e d = .ok raw ↔
      (e.canonical d).length ≤ maxCanonicalBytes ∧ raw = e.canonical d := by
  unfold canonicalJsonBytes
  rw [bind_eq_ok]
  constructor
  · rintro ⟨u, hsize, hraw⟩
    exact ⟨of_decide_eq_true (require_eq_ok.1 hsize), (pure_eq_ok.1 hraw).symm⟩
  · rintro ⟨hsize, rfl⟩
    exact ⟨(), require_eq_ok.2 (decide_eq_true hsize), rfl⟩

/-- A natural number in four bytes, most significant first. -/
def bigEndian4 (n : Nat) : Bytes :=
  [UInt8.ofNat (n / 2 ^ 24), UInt8.ofNat (n / 2 ^ 16), UInt8.ofNat (n / 2 ^ 8), UInt8.ofNat n]

/-- The bytes of an ASCII text. -/
def ascii (text : String) : Bytes := text.toList.map fun c => UInt8.ofNat c.toNat

/-- Digest length-bound bytes under the domain separator of the format. Every payload here is at
most `maxCanonicalBytes` long, so the length always fits its four bytes. -/
def digestBytes (e : Encoding) (format : DigestFormat) (payload : Bytes) : Digest :=
  ⟨format, e.sha256 (ascii format.identifier ++ 0 :: bigEndian4 payload.length ++ payload)⟩

def manifestDigest (e : Encoding) (m : Site) : Digest :=
  digestBytes e .manifest (e.canonical (.site m))

def requestDigest (e : Encoding) (r : OperationRequest) : Digest :=
  digestBytes e .request (e.canonical (.operationRequest r))

def resultDigest (e : Encoding) (r : OperationResult) : Digest :=
  digestBytes e .result (e.canonical (.operationResult r))

def auditEntryDigest (e : Encoding) (a : AuditEntry) : Digest :=
  digestBytes e .auditEntry (e.canonical (.auditEntry a))

def deploymentRecordDigest (e : Encoding) (d : DeploymentRecord) : Digest :=
  digestBytes e .deploymentRecord (e.canonical (.deploymentRecord d))

def archiveRecordDigest (e : Encoding) (a : ArchiveRecord) : Digest :=
  digestBytes e .archiveRecord (e.canonical (.archiveRecord a))

end StaticHostAgent.Contracts
