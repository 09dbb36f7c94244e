import Mathlib.Order.Defs.LinearOrder
import Mathlib.Order.Lattice
import Mathlib.Order.Basic
import Mathlib.Algebra.GroupWithZero.Nat

/-!
# Identities, digests and lifecycle of the contracts

UUIDv7 identities are kept by their three free fields. Version and variant are fixed bits at fixed
places of the one canonical text form, so the order of the texts is the order of the packed fields.
A digest names its format; the format identifier separates the digest domains.
-/

set_option autoImplicit false

namespace StaticHostAgent.Contracts

/-- Byte strings. -/
abbrev Bytes : Type := List UInt8

/-! The widths of the fields of fixed size. -/

instance neZero_milliseconds : NeZero (2 ^ 48 : Nat) := ⟨by decide⟩

instance neZero_randA : NeZero (2 ^ 12 : Nat) := ⟨by decide⟩

instance neZero_randB : NeZero (2 ^ 62 : Nat) := ⟨by decide⟩

instance neZero_sha256 : NeZero (2 ^ 256 : Nat) := ⟨by decide⟩

/-- A canonical UUIDv7: 48 bits of time, then 12 and 62 free bits around version and variant. -/
structure Uuid7 where
  unixMilliseconds : Fin (2 ^ 48)
  randA : Fin (2 ^ 12)
  randB : Fin (2 ^ 62)
  deriving DecidableEq

namespace Uuid7

/-- The free fields as one number, most significant first. -/
def rank (u : Uuid7) : Nat :=
  u.unixMilliseconds.val * 2 ^ 74 + u.randA.val * 2 ^ 62 + u.randB.val

theorem rank_injective : Function.Injective rank := by
  rintro ⟨a, b, c⟩ ⟨a', b', c'⟩ h
  simp only [rank] at h
  have hb := b.isLt
  have hb' := b'.isLt
  have hc := c.isLt
  have hc' := c'.isLt
  have h1 : a.val = a'.val := by omega
  have h2 : b.val = b'.val := by omega
  have h3 : c.val = c'.val := by omega
  rw [Fin.ext h1, Fin.ext h2, Fin.ext h3]

theorem rank_lt (u : Uuid7) : u.rank < 2 ^ 122 := by
  obtain ⟨⟨a, ha⟩, ⟨b, hb⟩, ⟨c, hc⟩⟩ := u
  simp only [rank]
  omega

/-- Identities are ordered as their texts are. -/
instance : LinearOrder Uuid7 := LinearOrder.lift' rank rank_injective

theorem lt_iff_rank {u v : Uuid7} : u < v ↔ u.rank < v.rank := Iff.rfl

/-- The 128 bits of the text form without hyphens. -/
def packed (u : Uuid7) : Nat :=
  u.unixMilliseconds.val * 2 ^ 80 + 7 * 2 ^ 76 + u.randA.val * 2 ^ 64 + 2 * 2 ^ 62 + u.randB.val

theorem packed_injective : Function.Injective packed := by
  rintro ⟨a, b, c⟩ ⟨a', b', c'⟩ h
  simp only [packed] at h
  have hb := b.isLt
  have hb' := b'.isLt
  have hc := c.isLt
  have hc' := c'.isLt
  have h1 : a.val = a'.val := by omega
  have h2 : b.val = b'.val := by omega
  have h3 : c.val = c'.val := by omega
  rw [Fin.ext h1, Fin.ext h2, Fin.ext h3]

end Uuid7

/-- A canonical origin `t-<32 hex digits>.lowerduckpond.com`, kept by the number its digits write. -/
structure CanonicalOrigin where
  label : Nat
  deriving DecidableEq

/-- The origin derived from a tenant identity. -/
def canonicalOrigin (tenantId : Uuid7) : CanonicalOrigin := ⟨tenantId.packed⟩

/-- RFC 3339 times in UTC, compared as texts. -/
abbrev Timestamp : Type := String

/-- A SHA-256 value. -/
abbrev Sha256 : Type := Fin (2 ^ 256)

/-- The digest formats of the contracts. -/
inductive DigestFormat where
  | manifest | request | result | auditEntry | platformState | deploymentRecord | archiveRecord
  | releaseTree | archive
  deriving DecidableEq

/-- The format identifier that separates the digest domains. -/
def DigestFormat.identifier : DigestFormat → String
  | .manifest => "lowerduckpond-manifest-v1"
  | .request => "lowerduckpond-request-v1"
  | .result => "lowerduckpond-result-v1"
  | .auditEntry => "lowerduckpond-audit-entry-v1"
  | .platformState => "lowerduckpond-platform-state-v1"
  | .deploymentRecord => "lowerduckpond-deployment-record-v1"
  | .archiveRecord => "lowerduckpond-archive-record-v1"
  | .releaseTree => "lowerduckpond-release-tree-v1"
  | .archive => "lowerduckpond-archive-v1"

/-- One versioned SHA-256 digest. -/
structure Digest where
  format : DigestFormat
  value : Sha256
  deriving DecidableEq

/-! ## Lifecycle -/

/-- Desired states, with absence as the state before creation and after deletion. -/
inductive LifecycleState where
  | absent | undeployed | active | suspended | archived
  deriving DecidableEq

instance lawful_lifecycle : LawfulBEq (Option LifecycleState) := inferInstance

/-- Ordinary requested operations. -/
inductive Operation where
  | create | deploy | rollback | suspend | resume | rename | export | «import» | archive | restore
  | delete | reconcile
  deriving DecidableEq

/-- Phases of a durable lifecycle transaction. -/
inductive TransactionPhase where
  | prepared | runtimeSelected | restartRequired | candidateStarting | rollbackRestartRequired
  | recoveryStarting | stateCommitted
  deriving DecidableEq

/-- The complete ordinary lifecycle table. -/
def lifecycleMatrix : Operation → LifecycleState → Option LifecycleState
  | .create, .absent => some .undeployed
  | .deploy, .undeployed => some .active
  | .deploy, .active => some .active
  | .deploy, .suspended => some .suspended
  | .rollback, .active => some .active
  | .rollback, .suspended => some .suspended
  | .suspend, .active => some .suspended
  | .suspend, .suspended => some .suspended
  | .resume, .suspended => some .active
  | .resume, .active => some .active
  | .rename, .undeployed => some .undeployed
  | .rename, .active => some .active
  | .rename, .suspended => some .suspended
  | .export, .active => some .active
  | .export, .suspended => some .suspended
  | .export, .archived => some .archived
  | .import, .undeployed => some .active
  | .archive, .active => some .archived
  | .archive, .suspended => some .archived
  | .archive, .archived => some .archived
  | .restore, .archived => some .active
  | .delete, .undeployed => some .absent
  | .delete, .archived => some .absent
  | .reconcile, .undeployed => some .undeployed
  | .reconcile, .active => some .active
  | .reconcile, .suspended => some .suspended
  | .reconcile, .archived => some .archived
  | _, _ => none

end StaticHostAgent.Contracts
