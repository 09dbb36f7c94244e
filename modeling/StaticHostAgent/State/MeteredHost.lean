import StaticHostAgent.Contracts.TableEncoding
import StaticHostAgent.State.Repository

/-!
# A filesystem that is metered

A host whose filesystem has a fixed number of bytes, from which every file, segment, tenant
directory and release takes its share until it is removed. It satisfies the laws of a `StateHost`,
and over an encoding that computes its runs can be evaluated.
-/

set_option autoImplicit false

namespace StaticHostAgent.State

open Library Contracts Host Audit

/-- What the files, the segments, the tenants and the releases of a state occupy, with
`releaseBytes` for each release. -/
def usedBytes (h : AuditHost) (releaseBytes : Nat) (s : Store) : Nat :=
  s.files.total (fun _ d => writeAllocation h.allocation (h.encoding.canonical d).length) +
    s.audit.segments.total (fun _ raw => writeAllocation h.allocation raw.length) +
    s.tenants.total (fun _ _ => h.allocation.namespaceAllocationUpperBound 1) +
    s.releases.total (fun _ _ => releaseBytes)

def meteredInodes : Nat := 2 ^ 40

/-- The bytes that are left of `total`. -/
def meteredCapacity (h : AuditHost) (total releaseBytes : Nat) (s : Store) : FilesystemCapacity :=
  ⟨total, total - usedBytes h releaseBytes s, meteredInodes, meteredInodes⟩

theorem metered_spends {h : AuditHost} {total releaseBytes bytes inodes : Nat} {s s' : Store}
    (hused : usedBytes h releaseBytes s' ≤ usedBytes h releaseBytes s + bytes) :
    Spends (meteredCapacity h total releaseBytes s) (meteredCapacity h total releaseBytes s')
      bytes inodes := by
  refine ⟨rfl, rfl, ?_, Nat.le_add_right _ _⟩
  show total - usedBytes h releaseBytes s ≤ total - usedBytes h releaseBytes s' + bytes
  omega

/-- The metered host. -/
def meteredHost (h : AuditHost) (total releaseBytes : Nat) : StateHost where
  toAuditHost := h
  capacity := meteredCapacity h total releaseBytes
  put_spends p d s := metered_spends (by
    have hfiles := Directory.total_insert
      (fun _ d => writeAllocation h.allocation (h.encoding.canonical d).length) s.files p d
    simp only [usedBytes, Store.put]
    omega)
  remove_spends p s := metered_spends (by
    have hfiles := Directory.total_erase
      (fun _ d => writeAllocation h.allocation (h.encoding.canonical d).length) s.files p
    simp only [usedBytes, Store.remove]
    omega)
  segment_spends plan s := metered_spends (by
    have hsegments := Directory.total_insert
      (fun _ raw => writeAllocation h.allocation raw.length) s.audit.segments plan.target
      plan.payload
    simp only [usedBytes, Store.setAudit, AuditStore.write]
    omega)
  tenant_spends t n s := metered_spends (by
    have htenants := Directory.total_insert
      (fun _ _ => h.allocation.namespaceAllocationUpperBound 1) s.tenants t n
    simp only [usedBytes, Store.makeTenant]
    omega)
  retire_spends t d g s hs := metered_spends (by
    obtain ⟨m, hm⟩ := Option.isSome_iff_exists.1 hs
    have herased := Directory.total_erase (fun _ _ => releaseBytes) s.releases ⟨t, d, none⟩
    have hinserted := Directory.total_insert (fun _ _ => releaseBytes)
      (s.releases.erase ⟨t, d, none⟩) ⟨t, d, some g.value⟩ (some g)
    rw [hm, Option.elim_some] at herased
    simp only [usedBytes, Store.retireRelease]
    omega)
  discard_spends t d g s := metered_spends (by
    have hreleases := Directory.total_erase (fun _ _ => releaseBytes) s.releases
      ⟨t, d, some g.value⟩
    simp only [usedBytes, Store.discardRelease]
    omega)

/-- An audit host over a table of documents. -/
noncomputable def tableAuditHost (table : List Document) : AuditHost where
  encoding := tableEncoding table
  allocation := .exact
  headDigest := fun _ => 0
  now := 0

/-- A state with files and releases of the sample tenant and without an audit log. -/
def sampleStore (files : List (FilePath × Document)) (releases : List Uuid7) : Store where
  files := files.foldl (fun d file => d.insert file.1 file.2) Directory.empty
  tenants := Directory.empty.insert sampleTenant ⟨true, true⟩
  platformState := some ⟨.platformState, 0⟩
  releases := releases.foldl (fun d release =>
    d.insert ⟨sampleTenant, release, none⟩ (some ⟨.releaseTree, 0⟩)) Directory.empty
  audit := ⟨none, Directory.empty⟩

end StaticHostAgent.State
