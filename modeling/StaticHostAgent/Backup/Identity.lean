import StaticHostAgent.Contracts.Encoding
import StaticHostAgent.Contracts.Texts
import StaticHostAgent.Library.JsonLines

/-!
# Framed digests of the backup formats

The digests of the backup and recovery formats name their format and are framed with a length of
eight bytes.
-/

set_option autoImplicit false

namespace StaticHostAgent.Backup

open Library Contracts

/-- The JSON library and the hash. -/
structure BackupHost extends CanonicalText where
  sha256 : Bytes → Sha256

/-- A digest with its format. -/
structure FramedDigest where
  format : String
  value : String
  deriving DecidableEq

namespace FramedDigest

/-- The digest as a JSON object. -/
def json (d : FramedDigest) : Json :=
  .object [("algorithm", .string "sha256"), ("format", .string d.format),
    ("value", .string d.value)]

/-- Read a digest of any format. -/
def ofJson : Json → Option FramedDigest
  | .object [("algorithm", .string "sha256"), ("format", .string format),
      ("value", .string value)] => some ⟨format, value⟩
  | _ => none

theorem ofJson_json (d : FramedDigest) : ofJson d.json = some d := rfl

theorem json_normal (d : FramedDigest) : d.json.Normal := by
  have hnames : Json.NamesAscend ["algorithm", "format", "value"] := by decide
  refine .object _ hnames ?_
  simp only [List.forall_mem_cons]
  exact ⟨.string _, .string _, .string _, fun _ h => absurd h List.not_mem_nil⟩

/-- `require_digest` -/
def hasFormat (d : FramedDigest) (format : String) : Bool :=
  decide (d.format = format) && isSha256 d.value

theorem hasFormat_sha256Text (format : String) (value : Sha256) :
    hasFormat ⟨format, sha256Text value⟩ format = true := by
  rw [hasFormat, decide_eq_true rfl, isSha256_sha256Text]
  rfl

end FramedDigest

/-- The eight bytes of a length. -/
def bigEndian8 (n : Nat) : Bytes := bigEndian4 (n / 2 ^ 32) ++ bigEndian4 n

/-- `framed_digest` of a supported format. -/
def framedDigest (h : BackupHost) (format : String) (payload : Bytes) : FramedDigest :=
  ⟨format, sha256Text (h.sha256 (ascii format ++ 0 :: bigEndian8 payload.length ++ payload))⟩

end StaticHostAgent.Backup
