import StaticHostAgent.State.Repository

/-!
# Published releases

Measuring, enumerating and removing the immutable release trees of the tenants. A release is removed
in two durable changes: it is renamed to its retired name, which carries the digest it must
have, and the retired tree is removed.
-/

set_option autoImplicit false

namespace StaticHostAgent.State

open Library Contracts Host

/-- Remeasure one published release. -/
def measureRelease (t d : Uuid7) (s : Store) : Except AgentError Digest :=
  match s.releases.find? ⟨t, d, none⟩ with
  | none => throw .fileNotFound
  | some none => throw (.releaseStore "release tree cannot be measured")
  | some (some digest) => pure digest

def maximumTenantReleases : Nat := 3

/-- The deployment identities of a tenant's published releases. -/
def releaseIds (t : Uuid7) (s : Store) : List Uuid7 :=
  s.releases.keys.filterMap fun n => if n.tenantId = t then some n.deploymentId else none

/-- The releases of every tenant, none of them retired and no history longer than its bound. -/
def requirePublishedInventory (s : Store) : Except AgentError Unit := do
  require (s.releases.keys.all fun n => n.retired.isNone)
    (.releaseStore "tenant release history has an invalid identity")
  require (s.releases.keys.all fun n =>
      decide ((releaseIds n.tenantId s).length ≤ maximumTenantReleases))
    (.releaseStore "tenant release history exceeds its entry ceiling")

/-- What a removal finds: the published and the retired name of the release. -/
structure RemovableRelease where
  canonical : Bool
  retired : Bool

/-- A release may be removed if it measures as expected, or if its removal has begun. -/
def requireRemovableRelease (t d : Uuid7) (expected : Digest) (s : Store) :
    Except AgentError RemovableRelease := do
  require (expected.hasFormat .releaseTree)
    (.releaseStore "release cleanup digest has the wrong format")
  let retired := (s.releases.find? ⟨t, d, some expected.value⟩).isSome
  if (s.releases.find? ⟨t, d, none⟩).isSome then do
    require (!retired) (.releaseStore "release cleanup found canonical and retired identities")
    let measured ← measureRelease t d s
    require (decide (measured = expected))
      (.releaseStore "release cleanup digest disagrees with authority")
    pure ⟨true, retired⟩
  else pure ⟨false, retired⟩

/-- Durably remove one exact unreferenced immutable release. -/
def removeRelease (t d : Uuid7) (expected : Digest) : Durable Store AgentError Unit := do
  let found ← Durable.query (requireRemovableRelease t d expected)
  Durable.when found.canonical (Durable.effect (Store.retireRelease t d expected))
  Durable.when (found.canonical || found.retired)
    (Durable.effect (Store.discardRelease t d expected))

end StaticHostAgent.State
