import StaticHostAgent.State.Paths
import StaticHostAgent.Audit.Append

/-!
# The durable state

The state tree: the records by their files, the tenant directories, the published releases and the
audit directory. A file holds a document, where an unreadable file is one whose document does not
pass its contract. Listings of a store are the names of its files in order (`Listing.ids`).
-/

set_option autoImplicit false

namespace StaticHostAgent.State

open Library Contracts Host Audit

/-- The directory of one tenant: which of its children exist. -/
structure TenantNamespace where
  archives : Bool
  deployments : Bool
  deriving DecidableEq

/-- The name of a release tree: a deployment identity, with a digest once it is retired. -/
structure ReleaseName where
  tenantId : Uuid7
  deploymentId : Uuid7
  retired : Option Sha256
  deriving DecidableEq

namespace ReleaseName

def rank (n : ReleaseName) : Nat :=
  (n.tenantId.rank * 2 ^ 122 + n.deploymentId.rank) * (2 ^ 256 + 1) +
    n.retired.elim 0 fun digest => digest.val + 1

theorem rank_injective : Function.Injective rank := by
  rintro ⟨t, d, r⟩ ⟨t', d', r'⟩ h
  simp only [rank] at h
  have hd := d.rank_lt
  have hd' := d'.rank_lt
  have hbound : ∀ r : Option Sha256, (r.elim 0 fun digest => digest.val + 1) < 2 ^ 256 + 1 := by
    intro r
    cases r with
    | none => exact Nat.succ_pos _
    | some v => exact Nat.succ_lt_succ v.isLt
  have hr := hbound r
  have hr' := hbound r'
  have h1 : t.rank = t'.rank := by omega
  have h2 : d.rank = d'.rank := by omega
  have h3 : (r.elim 0 fun digest => digest.val + 1) = r'.elim 0 fun digest => digest.val + 1 := by
    omega
  rw [Uuid7.rank_injective h1, Uuid7.rank_injective h2]
  cases r with
  | none =>
      cases r' with
      | none => rfl
      | some v => simp at h3
  | some u =>
      cases r' with
      | none => simp at h3
      | some v => rw [Fin.ext (Nat.succ_injective h3)]

instance : LinearOrder ReleaseName := LinearOrder.lift' rank rank_injective

end ReleaseName

/-- The state of the host. A release tree is kept by the digest its measurement gives, `none` where
measuring it fails; of the platform namespace only its digest is kept. -/
structure Store where
  files : Directory FilePath Document
  tenants : Directory Uuid7 TenantNamespace
  platformState : Option Digest
  releases : Directory ReleaseName (Option Digest)
  audit : AuditStore
  deriving DecidableEq

namespace Store

def find? (s : Store) (p : FilePath) : Option Document := s.files.find? p

/-- Write a file. -/
def put (p : FilePath) (d : Document) (s : Store) : Store := { s with files := s.files.insert p d }

/-- Remove a file. -/
def remove (p : FilePath) (s : Store) : Store := { s with files := s.files.erase p }

/-- Create or complete a tenant directory. -/
def makeTenant (t : Uuid7) (namespace_ : TenantNamespace) (s : Store) : Store :=
  { s with tenants := s.tenants.insert t namespace_ }

/-- Replace the audit directory. -/
def setAudit (a : AuditStore) (s : Store) : Store := { s with audit := a }

/-- Rename a published release to its retired name. -/
def retireRelease (t d : Uuid7) (digest : Digest) (s : Store) : Store :=
  { s with
    releases := (s.releases.erase ⟨t, d, none⟩).insert ⟨t, d, some digest.value⟩ (some digest) }

/-- Remove a retired release. -/
def discardRelease (t d : Uuid7) (digest : Digest) (s : Store) : Store :=
  { s with releases := s.releases.erase ⟨t, d, some digest.value⟩ }

@[simp] theorem find?_put_self (p : FilePath) (d : Document) (s : Store) :
    (s.put p d).find? p = some d := Directory.find?_insert_self _ _ _

theorem find?_put_of_ne {p q : FilePath} (h : q ≠ p) (d : Document) (s : Store) :
    (s.put p d).find? q = s.find? q := Directory.find?_insert_of_ne _ h _

theorem find?_put (p q : FilePath) (d : Document) (s : Store) :
    (s.put p d).find? q = if q = p then some d else s.find? q := by
  split
  · rename_i h
    rw [h, find?_put_self]
  · rename_i h
    exact find?_put_of_ne h d s

@[simp] theorem find?_remove_self (p : FilePath) (s : Store) : (s.remove p).find? p = none :=
  Directory.find?_erase_self _ _

theorem find?_remove_of_ne {p q : FilePath} (h : q ≠ p) (s : Store) :
    (s.remove p).find? q = s.find? q := Directory.find?_erase_of_ne _ h

theorem put_of_find? {p : FilePath} {d : Document} {s : Store} (h : s.find? p = some d) :
    s.put p d = s := by
  show ({ s with files := s.files.insert p d } : Store) = s
  rw [Directory.insert_of_find? h]

@[simp] theorem put_tenants (p : FilePath) (d : Document) (s : Store) :
    (s.put p d).tenants = s.tenants := rfl
@[simp] theorem put_platformState (p : FilePath) (d : Document) (s : Store) :
    (s.put p d).platformState = s.platformState := rfl
@[simp] theorem put_releases (p : FilePath) (d : Document) (s : Store) :
    (s.put p d).releases = s.releases := rfl
@[simp] theorem put_audit (p : FilePath) (d : Document) (s : Store) :
    (s.put p d).audit = s.audit := rfl

@[simp] theorem remove_tenants (p : FilePath) (s : Store) : (s.remove p).tenants = s.tenants := rfl
@[simp] theorem remove_platformState (p : FilePath) (s : Store) :
    (s.remove p).platformState = s.platformState := rfl
@[simp] theorem remove_releases (p : FilePath) (s : Store) :
    (s.remove p).releases = s.releases := rfl
@[simp] theorem remove_audit (p : FilePath) (s : Store) : (s.remove p).audit = s.audit := rfl

@[simp] theorem makeTenant_find? (t : Uuid7) (n : TenantNamespace) (s : Store) (p : FilePath) :
    (s.makeTenant t n).find? p = s.find? p := rfl
@[simp] theorem makeTenant_files (t : Uuid7) (n : TenantNamespace) (s : Store) :
    (s.makeTenant t n).files = s.files := rfl
@[simp] theorem makeTenant_releases (t : Uuid7) (n : TenantNamespace) (s : Store) :
    (s.makeTenant t n).releases = s.releases := rfl
@[simp] theorem makeTenant_audit (t : Uuid7) (n : TenantNamespace) (s : Store) :
    (s.makeTenant t n).audit = s.audit := rfl

@[simp] theorem setAudit_find? (a : AuditStore) (s : Store) (p : FilePath) :
    (s.setAudit a).find? p = s.find? p := rfl
@[simp] theorem setAudit_files (a : AuditStore) (s : Store) : (s.setAudit a).files = s.files := rfl
@[simp] theorem setAudit_tenants (a : AuditStore) (s : Store) :
    (s.setAudit a).tenants = s.tenants := rfl
@[simp] theorem setAudit_platformState (a : AuditStore) (s : Store) :
    (s.setAudit a).platformState = s.platformState := rfl
@[simp] theorem setAudit_releases (a : AuditStore) (s : Store) :
    (s.setAudit a).releases = s.releases := rfl
@[simp] theorem setAudit_audit (a : AuditStore) (s : Store) : (s.setAudit a).audit = a := rfl

@[simp] theorem retireRelease_find? (t d : Uuid7) (digest : Digest) (s : Store) (p : FilePath) :
    (s.retireRelease t d digest).find? p = s.find? p := rfl
@[simp] theorem retireRelease_files (t d : Uuid7) (digest : Digest) (s : Store) :
    (s.retireRelease t d digest).files = s.files := rfl
@[simp] theorem retireRelease_tenants (t d : Uuid7) (digest : Digest) (s : Store) :
    (s.retireRelease t d digest).tenants = s.tenants := rfl
@[simp] theorem retireRelease_platformState (t d : Uuid7) (digest : Digest) (s : Store) :
    (s.retireRelease t d digest).platformState = s.platformState := rfl
@[simp] theorem retireRelease_audit (t d : Uuid7) (digest : Digest) (s : Store) :
    (s.retireRelease t d digest).audit = s.audit := rfl

@[simp] theorem discardRelease_find? (t d : Uuid7) (digest : Digest) (s : Store) (p : FilePath) :
    (s.discardRelease t d digest).find? p = s.find? p := rfl
@[simp] theorem discardRelease_files (t d : Uuid7) (digest : Digest) (s : Store) :
    (s.discardRelease t d digest).files = s.files := rfl
@[simp] theorem discardRelease_tenants (t d : Uuid7) (digest : Digest) (s : Store) :
    (s.discardRelease t d digest).tenants = s.tenants := rfl
@[simp] theorem discardRelease_platformState (t d : Uuid7) (digest : Digest) (s : Store) :
    (s.discardRelease t d digest).platformState = s.platformState := rfl
@[simp] theorem discardRelease_audit (t d : Uuid7) (digest : Digest) (s : Store) :
    (s.discardRelease t d digest).audit = s.audit := rfl

end Store

/-! ## Listings -/

/-- A store of files that are named by one identity each. -/
structure Listing where
  path : Uuid7 → FilePath
  name : FilePath → Option Uuid7
  name_iff : ∀ p i, name p = some i ↔ p = path i
  lt_iff : ∀ i j, path i < path j ↔ i < j

namespace Listing

/-- The deployment records of a tenant. -/
def deployments (t : Uuid7) : Listing where
  path := .deployment t
  name
    | .deployment t' d => if t' = t then some d else none
    | _ => none
  name_iff p i := by
    cases p <;> simp
  lt_iff _ _ := FilePath.deployment_lt_iff

/-- The archive records of a tenant. -/
def archives (t : Uuid7) : Listing where
  path := .archive t
  name
    | .archive t' d => if t' = t then some d else none
    | _ => none
  name_iff p i := by
    cases p <;> simp
  lt_iff _ _ := FilePath.archive_lt_iff

def jobs : Listing where
  path := .job
  name
    | .job j => some j
    | _ => none
  name_iff p i := by
    cases p <;> simp
  lt_iff _ _ := FilePath.job_lt_iff

def results : Listing where
  path := .result
  name
    | .result r => some r
    | _ => none
  name_iff p i := by
    cases p <;> simp
  lt_iff _ _ := FilePath.result_lt_iff

def correlations : Listing where
  path := .correlation
  name
    | .correlation c => some c
    | _ => none
  name_iff p i := by
    cases p <;> simp
  lt_iff _ _ := FilePath.correlation_lt_iff

def intents : Listing where
  path := .intent
  name
    | .intent i => some i
    | _ => none
  name_iff p i := by
    cases p <;> simp
  lt_iff _ _ := FilePath.intent_lt_iff

variable (l : Listing)

/-- The sorted names of the files of a store. -/
def ids (s : Store) : List Uuid7 := s.files.keys.filterMap l.name

variable {l}

theorem name_path (i : Uuid7) : l.name (l.path i) = some i := (l.name_iff _ _).2 rfl

theorem path_injective : Function.Injective l.path := by
  intro i j h
  have hi := l.name_path i
  rw [h, l.name_path j] at hi
  exact (Option.some.inj hi).symm

theorem mem_ids {s : Store} {i : Uuid7} : i ∈ l.ids s ↔ (s.find? (l.path i)).isSome = true := by
  unfold ids
  rw [List.mem_filterMap]
  constructor
  · rintro ⟨p, hp, hname⟩
    rw [(l.name_iff p i).1 hname] at hp
    exact Directory.mem_keys.1 hp
  · intro h
    exact ⟨l.path i, Directory.mem_keys.2 h, l.name_path i⟩

theorem not_mem_ids {s : Store} {i : Uuid7} : i ∉ l.ids s ↔ s.find? (l.path i) = none := by
  rw [mem_ids, Bool.not_eq_true, Option.isSome_eq_false_iff, Option.isNone_iff_eq_none]

theorem ids_sorted (s : Store) : (l.ids s).Pairwise (· < ·) := by
  refine List.Pairwise.filterMap l.name ?_ s.files.keys_sorted
  intro p q hlt i hi j hj
  rw [(l.name_iff p i).1 hi, (l.name_iff q j).1 hj] at hlt
  exact (l.lt_iff i j).1 hlt

theorem ids_nodup (s : Store) : (l.ids s).Nodup := (ids_sorted s).imp ne_of_lt

/-- Two sorted lists of identities with the same members are equal. -/
theorem eq_of_mem_iff {is js : List Uuid7} (hi : is.Pairwise (· < ·)) (hj : js.Pairwise (· < ·))
    (h : ∀ i, i ∈ is ↔ i ∈ js) : is = js := by
  refine List.Perm.eq_of_pairwise (fun a b _ _ hab hba => absurd hab (lt_asymm hba)) hi hj ?_
  exact (List.perm_ext_iff_of_nodup (hi.imp ne_of_lt) (hj.imp ne_of_lt)).2 h

/-- A sorted list with the right members is the listing. -/
theorem ids_eq {s : Store} {is : List Uuid7} (his : is.Pairwise (· < ·))
    (h : ∀ i, i ∈ is ↔ (s.find? (l.path i)).isSome = true) : l.ids s = is :=
  eq_of_mem_iff (ids_sorted s) his fun i => by rw [mem_ids, h]

theorem ids_congr {s s' : Store} (h : ∀ i, s'.find? (l.path i) = s.find? (l.path i)) :
    l.ids s' = l.ids s :=
  ids_eq (ids_sorted s) fun i => by rw [h, mem_ids]

/-- Files of other stores do not show in the listing. -/
theorem ids_put_other {s : Store} {p : FilePath} (hp : l.name p = none) (d : Document) :
    l.ids (s.put p d) = l.ids s := by
  refine ids_congr fun i => Store.find?_put_of_ne (fun h => ?_) d s
  rw [← h, name_path] at hp
  cases hp

theorem ids_remove_other {s : Store} {p : FilePath} (hp : l.name p = none) :
    l.ids (s.remove p) = l.ids s := by
  refine ids_congr fun i => Store.find?_remove_of_ne (fun h => ?_) s
  rw [← h, name_path] at hp
  cases hp

theorem ids_remove {s : Store} (i : Uuid7) :
    l.ids (s.remove (l.path i)) = (l.ids s).filter fun j => decide (j ≠ i) := by
  refine ids_eq ((ids_sorted s).filter _) fun j => ?_
  rw [List.mem_filter, mem_ids, decide_eq_true_eq]
  by_cases h : j = i
  · rw [h, Store.find?_remove_self]
    simp
  · rw [Store.find?_remove_of_ne fun hpath => h (path_injective hpath)]
    exact ⟨fun hj => hj.1, fun hj => ⟨hj, h⟩⟩

end Listing

end StaticHostAgent.State
