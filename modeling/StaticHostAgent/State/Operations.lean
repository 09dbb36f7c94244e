import StaticHostAgent.State.Releases
import StaticHostAgent.State.Steps

/-!
# What the repository operations do

For every reading when it succeeds, and for every mutation the one step it performs. A mutation that
succeeded proves its own preconditions (`_ok`), and where these hold it performs its step
(`_performs`).
-/

set_option autoImplicit false

namespace StaticHostAgent.State

open Library Contracts Host Audit

variable {host : StateHost} {path : StateRecordPath}

/-! ## Readings -/

theorem encode_eq_ok {d : Document} {u : Unit} :
    encode host path d = .ok u ↔ path.Fits host.encoding d := by
  unfold encode StateRecordPath.validateBinding
  simp only [bind_eq_ok, require_eq_ok, liftContract_eq_ok, validateContract_eq_ok,
    decide_eq_true_eq]
  constructor
  · rintro ⟨-, hkind, -, ⟨hvalid, -⟩, hbound⟩
    exact ⟨hkind, hvalid, hbound⟩
  · intro h
    exact ⟨(), h.kind, _, ⟨h.valid, rfl⟩, h.bound⟩

theorem readLocked_of_find? {s : Store} {d : Document} (h : s.find? path.components = some d) :
    readLocked host path s = (encode host path d >>= fun _ => pure d) := by
  unfold readLocked encode
  rw [h]
  simp only [bind_assoc]

theorem readLocked_eq_ok {s : Store} {d : Document} :
    readLocked host path s = .ok d ↔
      s.find? path.components = some d ∧ path.Fits host.encoding d := by
  cases hfind : s.find? path.components with
  | none =>
      unfold readLocked
      rw [hfind]
      constructor
      · intro h
        cases h
      · rintro ⟨h, -⟩
        cases h
  | some d' =>
      rw [readLocked_of_find? hfind]
      simp only [bind_eq_ok, pure_eq_ok, Option.some.injEq]
      constructor
      · rintro ⟨⟨⟩, hencode, rfl⟩
        exact ⟨rfl, encode_eq_ok.1 hencode⟩
      · rintro ⟨rfl, hfits⟩
        exact ⟨(), encode_eq_ok.2 hfits, rfl⟩

theorem encode_ne_fileNotFound {d : Document} :
    encode host path d ≠ .error .fileNotFound := by
  unfold encode StateRecordPath.validateBinding require liftContract mapError
  intro h
  split at h
  · rw [ok_bind] at h
    split at h
    · rw [ok_bind] at h
      split at h <;> cases h
    · cases h
  · cases h

theorem readLocked_eq_fileNotFound {s : Store} :
    readLocked host path s = .error .fileNotFound ↔ s.find? path.components = none := by
  cases hfind : s.find? path.components with
  | none =>
      unfold readLocked
      rw [hfind]
      exact iff_of_true rfl rfl
  | some d =>
      rw [readLocked_of_find? hfind]
      refine iff_of_false (fun h => ?_) (by simp)
      cases hencode : encode host path d with
      | ok u =>
          rw [hencode] at h
          cases h
      | error e =>
          rw [hencode] at h
          obtain rfl : e = .fileNotFound := Except.error.inj h
          exact encode_ne_fileNotFound hencode

/-- A reading depends on the file alone. -/
theorem readLocked_same {s s' : Store} (h : s'.find? path.components = s.find? path.components) :
    readLocked host path s' = readLocked host path s := by
  unfold readLocked
  rw [h]

theorem measureRecords_eq_ok {l : Listing} {n : Nat} {s : Store} {ids : List Uuid7} :
    measureRecords host l n s = .ok ids ↔ ids = l.ids s ∧ ids.length ≤ n ∧
      ∀ i d, s.find? (l.path i) = some d →
        (host.encoding.canonical d).length ≤ maxCanonicalBytes := by
  unfold measureRecords
  simp only [bind_eq_ok, require_eq_ok, decide_eq_true_eq, pure_eq_ok, List.all_eq_true,
    option_all_iff]
  constructor
  · rintro ⟨-, hlength, -, hbounded, rfl⟩
    refine ⟨rfl, hlength, fun i d hd => ?_⟩
    exact hbounded i (Listing.mem_ids.2 (by rw [hd]; rfl)) d hd
  · rintro ⟨rfl, hlength, hbounded⟩
    exact ⟨(), hlength, (), fun i _ d hd => hbounded i d hd, rfl⟩

/-- A listing depends on its own files alone. -/
theorem measureRecords_same {l : Listing} {n : Nat} {s s' : Store}
    (h : ∀ i, s'.find? (l.path i) = s.find? (l.path i)) :
    measureRecords host l n s' = measureRecords host l n s := by
  unfold measureRecords
  simp only [Listing.ids_congr h, h]

theorem measureIntentRecords_eq_ok {s : Store} {ids : List Uuid7} :
    measureIntentRecords host s = .ok ids ↔ ids = Listing.intents.ids s ∧ ids.length ≤ 2 ∧
      ∀ i d, s.find? (.intent i) = some d →
        (host.encoding.canonical d).length ≤ maxCanonicalBytes := measureRecords_eq_ok

/-- Every file of a listing is readable at its path. -/
def AllReadable (host : StateHost) (path : Uuid7 → StateRecordPath) (ids : List Uuid7)
    (s : Store) : Prop :=
  ∀ d ∈ ids, ∃ r, readLocked host (path d) s = .ok r

theorem boundedDeploymentIds_eq_ok {t : Uuid7} {n : Nat} {s : Store} {ids : List Uuid7} :
    boundedDeploymentIds host t n s = .ok ids ↔
      (s.tenants.find? t).any TenantNamespace.deployments = true ∧
        ids = (Listing.deployments t).ids s ∧ ids.length ≤ n ∧
          AllReadable host (.tenantDeployment t) ids s := by
  unfold boundedDeploymentIds AllReadable
  simp only [bind_eq_ok, require_eq_ok, decide_eq_true_eq, pure_eq_ok, forM_eq_ok, and_true]
  constructor
  · rintro ⟨-, hdirectory, -, hlength, ⟨⟩, hreadable, rfl⟩
    exact ⟨hdirectory, rfl, hlength, hreadable⟩
  · rintro ⟨hdirectory, rfl, hlength, hreadable⟩
    exact ⟨(), hdirectory, (), hlength, (), hreadable, rfl⟩

theorem tenantDeploymentTransitionIds_eq_ok {t c : Uuid7} {s : Store} {ids : List Uuid7} :
    tenantDeploymentTransitionIds host t c s = .ok ids ↔
      boundedDeploymentIds host t 4 s = .ok ids ∧ (ids.length ≤ 3 ∨ ids.getLast? = some c) := by
  unfold tenantDeploymentTransitionIds maxRetainedDeploymentRecords
  simp only [bind_eq_ok, require_eq_ok, Bool.or_eq_true, decide_eq_true_eq, pure_eq_ok]
  constructor
  · rintro ⟨ids', hids, -, hbound, rfl⟩
    exact ⟨hids, hbound⟩
  · rintro ⟨hids, hbound⟩
    exact ⟨ids, hids, (), hbound, rfl⟩

theorem tenantArchiveIds_eq_ok {t : Uuid7} {s : Store} {ids : List Uuid7} :
    tenantArchiveIds host t s = .ok ids ↔
      (s.tenants.find? t).any TenantNamespace.archives = true ∧
        ids = (Listing.archives t).ids s ∧ ids.length ≤ 3 ∧
          AllReadable host (.tenantArchive t) ids s := by
  unfold tenantArchiveIds AllReadable maxRetainedDeploymentRecords
  simp only [bind_eq_ok, require_eq_ok, decide_eq_true_eq, pure_eq_ok, forM_eq_ok, and_true]
  constructor
  · rintro ⟨-, hdirectory, -, hlength, ⟨⟩, hreadable, rfl⟩
    exact ⟨hdirectory, rfl, hlength, hreadable⟩
  · rintro ⟨hdirectory, rfl, hlength, hreadable⟩
    exact ⟨(), hdirectory, (), hlength, (), hreadable, rfl⟩

/-! ## The inventory -/

theorem names_of_not_authorization {p : FilePath} (hp : p.isAuthorization = false) :
    Listing.correlations.name p = none ∧ Listing.jobs.name p = none ∧
      Listing.results.name p = none := by
  cases p <;> first
    | (cases hp; done)
    | exact ⟨rfl, rfl, rfl⟩

/-- A change of a file outside the authorization stores keeps the inventory. -/
theorem measureInventory_same {p : FilePath} (hp : p.isAuthorization = false) {s s' : Store}
    (hfind : ∀ q, q ≠ p → s'.find? q = s.find? q) (htenants : s'.tenants = s.tenants)
    (htotal : authorizationAllocatedBytes host s' = authorizationAllocatedBytes host s) :
    measureInventory host s' = measureInventory host s := by
  have hids : ∀ l : Listing, l.name p = none → ∀ n,
      measureRecords host l n s' = measureRecords host l n s := by
    refine fun l hname n => measureRecords_same fun i => hfind _ fun h => ?_
    rw [← h, l.name_path] at hname
    cases hname
  obtain ⟨hcorrelations, hjobs, hresults⟩ := names_of_not_authorization hp
  unfold measureInventory
  simp only [hids _ hcorrelations, hids _ hjobs, hids _ hresults, htotal, htenants]

theorem measureInventory_put {p : FilePath} (hp : p.isAuthorization = false) (d : Document)
    (s : Store) : measureInventory host (s.put p d) = measureInventory host s := by
  refine measureInventory_same hp (fun q hq => Store.find?_put_of_ne hq d s) rfl ?_
  have h := Directory.total_insert (fun p d => if p.isAuthorization then
    host.allocation.allocated (host.encoding.canonical d).length else 0) s.files p d
  rw [hp] at h
  unfold authorizationAllocatedBytes Store.put
  cases hold : s.files.find? p <;> simpa [hold] using h

theorem measureInventory_remove {p : FilePath} (hp : p.isAuthorization = false) (s : Store) :
    measureInventory host (s.remove p) = measureInventory host s := by
  refine measureInventory_same hp (fun q hq => Store.find?_remove_of_ne hq s) rfl ?_
  have h := Directory.total_erase (fun p d => if p.isAuthorization then
    host.allocation.allocated (host.encoding.canonical d).length else 0) s.files p
  rw [hp] at h
  unfold authorizationAllocatedBytes Store.remove
  cases hold : s.files.find? p <;> simpa [hold] using h

/-- A step that touches neither the authorization stores nor the tenant directories. -/
def CommitStep.keepsInventory : CommitStep → Bool
  | .put p _ | .remove p => !p.isAuthorization
  | .makeTenant _ | .makeChild _ _ => false
  | _ => true

theorem measureInventory_apply {e : CommitStep} (he : e.keepsInventory = true) (s : Store) :
    measureInventory host (e.apply host s) = measureInventory host s := by
  cases e with
  | put p d => exact measureInventory_put (by simpa [CommitStep.keepsInventory] using he) d s
  | remove p => exact measureInventory_remove (by simpa [CommitStep.keepsInventory] using he) s
  | append entry =>
      simp only [CommitStep.apply, CommitStep.appended]
      split <;> rfl
  | retire t d g => rfl
  | discard t d g => rfl
  | makeTenant t => cases he
  | makeChild t c => cases he

theorem admitStateInventory_eq_ok {inventory : StateInventory}
    {reservation : StateInventoryReservation} {u : Unit} :
    admitStateInventory inventory reservation = .ok u ↔
      inventory.tenantIds.length + reservation.tenants ≤ initialMaximumTenants ∧
        inventory.authorizationRecordCount + reservation.authorizationRecords ≤
            initialMaximumAuthorizationRecords ∧
          inventory.authorizationAllocatedBytes + reservation.authorizationAllocatedBytes ≤
            initialMaximumAuthorizationAllocatedBytes := by
  unfold admitStateInventory
  simp only [bind_eq_ok, require_eq_ok, decide_eq_true_eq]
  exact ⟨fun ⟨_, h1, _, h2, h3⟩ => ⟨h1, h2, h3⟩, fun ⟨h1, h2, h3⟩ => ⟨(), h1, (), h2, h3⟩⟩

theorem admitInventory_eq_ok {reservation : StateInventoryReservation} {s : Store} {u : Unit} :
    admitInventory host reservation s = .ok u ↔ ∃ inventory,
      measureInventory host s = .ok inventory ∧
        admitStateInventory inventory reservation = .ok () := by
  unfold admitInventory
  rw [bind_eq_ok]

/-- The inventory that is measured, if measuring goes through. -/
def inventoryOf (host : StateHost) (s : Store) : StateInventory :=
  ⟨s.tenants.keys, (Listing.jobs.ids s).length, (Listing.results.ids s).length,
    (Listing.correlations.ids s).length, authorizationAllocatedBytes host s⟩

theorem measureInventory_value {s : Store} {inventory : StateInventory}
    (h : measureInventory host s = .ok inventory) :
    inventory = inventoryOf host s ∧ admitStateInventory inventory ⟨0, 0, 0⟩ = .ok () := by
  unfold measureInventory at h
  simp only [bind_eq_ok, measureRecords_eq_ok, pure_eq_ok] at h
  obtain ⟨-, -, -, ⟨rfl, -⟩, -, ⟨rfl, -⟩, -, ⟨rfl, -⟩, ⟨⟩, hadmitted, rfl⟩ := h
  exact ⟨rfl, hadmitted⟩

/-! ## Mutations -/

variable (host) in
/-- Writing a file performs its step, also when the file has the content already. -/
theorem put_performs (p : FilePath) (d : Document) (s : Store) :
    Performs (Durable.effect (Store.put p d) : Durable Store AgentError Unit)
      (stepsOf host [.put p d]) s () := by
  by_cases h : s.find? p = some d
  · refine Performs.skip (e := CommitStep.toStep host (.put p d)) (decide_eq_false (by simp [h])) ?_
    exact Performs.effect_same (Store.put_of_find? h)
  · exact Performs.effect (e := CommitStep.toStep host (.put p d)) (decide_eq_true h)

theorem settle_put (p : FilePath) (d : Document) (s : Store) :
    settleAll (stepsOf host [.put p d]) s = s.put p d := by
  show (if decide (s.find? p ≠ some d) = true then s.put p d else s) = _
  split
  · rfl
  · rename_i h
    exact (Store.put_of_find? (by simpa using h)).symm

/-- A write followed by reading the record back. -/
theorem put_read_performs {d : Document} {s : Store} (hfits : path.Fits host.encoding d) :
    Performs (Durable.effect (Store.put path.components d) >>= fun _ =>
      Durable.query (readLocked host path)) (stepsOf host [.put path.components d]) s d := by
  have hread : Performs (Durable.query (readLocked host path)) []
      (settleAll (stepsOf host [.put path.components d]) s) d := by
    refine Performs.query (readLocked_eq_ok.2 ⟨?_, hfits⟩)
    rw [settle_put, Store.find?_put_self]
  exact (put_performs host path.components d s).bind hread

theorem requireAbsent_eq_ok {p : FilePath} {s : Store} {u : Unit} :
    requireAbsent p s = .ok u ↔ hasParent s p = true ∧ s.find? p = none := by
  unfold requireAbsent
  simp only [bind_eq_ok, require_eq_ok, Option.isNone_iff_eq_none]
  exact ⟨fun ⟨_, h⟩ => h, fun h => ⟨(), h⟩⟩

theorem encodeNew_fits {d : Document} (h : encodeNew host path d = .ok ()) :
    path.Fits host.encoding d := by
  unfold encodeNew at h
  simp only [bind_eq_ok] at h
  obtain ⟨⟨⟩, hencode, -⟩ := h
  exact encode_eq_ok.1 hencode

theorem createImmutable_ok {d r : Document} {s : Store}
    (h : (createImmutable host path d s).result = .ok r) :
    encodeNew host path d = .ok () ∧ hasParent s path.components = true ∧
      s.find? path.components = none := by
  obtain ⟨⟨⟩, hencode, h⟩ := Durable.bind_result_ok h
  obtain ⟨⟨⟩, habsent, -⟩ := Durable.bind_result_ok h
  exact ⟨hencode, requireAbsent_eq_ok.1 habsent⟩

theorem createImmutable_performs {d : Document} {s : Store}
    (hencode : encodeNew host path d = .ok ()) (hparent : hasParent s path.components = true)
    (habsent : s.find? path.components = none) :
    Performs (createImmutable host path d) (stepsOf host [.put path.components d]) s d :=
  Performs.query_bind (a := ()) hencode
    (Performs.query_bind (a := ()) (requireAbsent_eq_ok.2 ⟨hparent, habsent⟩)
      (put_read_performs (encodeNew_fits hencode)))

/-- What a replacement of the record at hand needs. -/
structure Replaceable (host : StateHost) (path : StateRecordPath) (expected : StateRevision)
    (candidate : Document) (s : Store) : Prop where
  mutable : path.allowsReplacement = true
  current : ∃ d, readLocked host path s = .ok d ∧ revision host d = expected ∧
    validateRetirementReplacement d candidate = .ok () ∧
      validateAuthorizationPhaseReplacement d candidate = .ok ()

theorem requireReplaceable_eq_ok {expected : StateRevision} {candidate : Document} {s : Store}
    {u : Unit} :
    requireReplaceable host path expected candidate s = .ok u ↔
      Replaceable host path expected candidate s := by
  unfold requireReplaceable
  simp only [bind_eq_ok, require_eq_ok, decide_eq_true_eq]
  constructor
  · rintro ⟨-, hmutable, d, hread, -, hrevision, ⟨⟩, hretirement, hphase⟩
    exact ⟨hmutable, d, hread, hrevision, hretirement, hphase⟩
  · rintro ⟨hmutable, d, hread, hrevision, hretirement, hphase⟩
    exact ⟨(), hmutable, d, hread, (), hrevision, (), hretirement, hphase⟩

theorem compareAndSwap_ok {expected : StateRevision} {d r : Document} {s : Store}
    (h : (compareAndSwap host path expected d s).result = .ok r) :
    path.Fits host.encoding d ∧ Replaceable host path expected d s := by
  obtain ⟨⟨⟩, hencode, h⟩ := Durable.bind_result_ok h
  obtain ⟨⟨⟩, hreplaceable, -⟩ := Durable.bind_result_ok h
  exact ⟨encode_eq_ok.1 hencode, requireReplaceable_eq_ok.1 hreplaceable⟩

theorem compareAndSwap_performs {expected : StateRevision} {d : Document} {s : Store}
    (hfits : path.Fits host.encoding d) (h : Replaceable host path expected d s) :
    Performs (compareAndSwap host path expected d) (stepsOf host [.put path.components d]) s d :=
  Performs.query_bind (a := ()) (encode_eq_ok.2 hfits)
    (Performs.query_bind (a := ()) (requireReplaceable_eq_ok.2 h) (put_read_performs hfits))

/-- Removing a file that is there performs its step. -/
theorem remove_performs {p : FilePath} {s : Store} (h : (s.find? p).isSome = true) :
    Performs (Durable.effect (Store.remove p) : Durable Store AgentError Unit)
      (stepsOf host [.remove p]) s () :=
  Performs.effect (e := CommitStep.toStep host (.remove p)) h

/-- What clearing an intent needs. -/
structure ReconciledIntent (host : StateHost) (path : StateRecordPath) (expected : StateRevision)
    (s : Store) : Prop where
  intent : path.isIntent = true
  current : ∃ d, readLocked host path s = .ok d ∧ revision host d = expected
  measured : ∃ ids, measureIntentRecords host s = .ok ids

theorem requireReconciledIntent_eq_ok {expected : StateRevision} {s : Store} {u : Unit} :
    requireReconciledIntent host path expected s = .ok u ↔
      ReconciledIntent host path expected s := by
  unfold requireReconciledIntent
  simp only [bind_eq_ok, require_eq_ok, decide_eq_true_eq, pure_eq_ok]
  constructor
  · rintro ⟨-, hintent, d, hread, -, hrevision, ids, hids, -⟩
    exact ⟨hintent, ⟨d, hread, hrevision⟩, ids, hids⟩
  · rintro ⟨hintent, ⟨d, hread, hrevision⟩, ids, hids⟩
    exact ⟨(), hintent, d, hread, (), hrevision, ids, hids, trivial⟩

theorem removeReconciledIntent_performs {expected : StateRevision} {s : Store}
    (h : ReconciledIntent host path expected s) :
    Performs (removeReconciledIntent host path expected) (stepsOf host [.remove path.components])
      s () := by
  obtain ⟨d, hread, -⟩ := h.current
  refine Performs.query_bind (a := ()) (requireReconciledIntent_eq_ok.2 h) (remove_performs ?_)
  rw [(readLocked_eq_ok.1 hread).1]
  rfl

/-- The path of a deployment record. -/
def recordPath (record : DeploymentRecord) : StateRecordPath :=
  .tenantDeployment record.tenantId record.id

theorem deploymentRemovalAuthority_eq_ok {record : DeploymentRecord} :
    deploymentRemovalAuthority host record = .ok path ↔
      (recordPath record).Fits host.encoding (.deploymentRecord record) ∧
        path = recordPath record := by
  unfold deploymentRemovalAuthority
  simp only [bind_eq_ok, encode_eq_ok, pure_eq_ok]
  constructor
  · rintro ⟨-, hfits, rfl⟩
    exact ⟨hfits, rfl⟩
  · rintro ⟨hfits, rfl⟩
    exact ⟨(), hfits, rfl⟩

/-- A token is given for the record that is stored. -/
theorem deploymentRemovalToken_of_find? {record : DeploymentRecord} {s : Store}
    (hfits : (recordPath record).Fits host.encoding (.deploymentRecord record))
    (hfind : s.find? (recordPath record).components = some (.deploymentRecord record)) :
    deploymentRemovalToken host record s = .ok (revision host (.deploymentRecord record)) := by
  unfold deploymentRemovalToken
  rw [deploymentRemovalAuthority_eq_ok.2 ⟨hfits, rfl⟩, ok_bind,
    readLocked_eq_ok.2 ⟨hfind, hfits⟩, ok_bind, decide_eq_true rfl]
  rfl

theorem removeExactDeployment_performs {record : DeploymentRecord} {s : Store}
    (hfits : (recordPath record).Fits host.encoding (.deploymentRecord record))
    (hfind : s.find? (recordPath record).components = some (.deploymentRecord record)) :
    Performs (removeExactDeployment host record (revision host (.deploymentRecord record)))
      (stepsOf host [.remove (recordPath record).components]) s () := by
  refine Performs.query_bind (a := ()) ?_ (remove_performs (p := (recordPath record).components) ?_)
  · unfold requireExactRemoval
    rw [deploymentRemovalAuthority_eq_ok.2 ⟨hfits, rfl⟩, ok_bind,
      readLocked_eq_ok.2 ⟨hfind, hfits⟩, ok_bind, decide_eq_true rfl]
    rfl
  · rw [hfind]
    rfl

/-! ### Releases -/

theorem measureRelease_eq_ok {t d : Uuid7} {s : Store} {digest : Digest} :
    measureRelease t d s = .ok digest ↔ s.releases.find? ⟨t, d, none⟩ = some (some digest) := by
  unfold measureRelease
  split <;> rename_i h
  · rw [h]
    constructor <;> (intro h; cases h)
  · rw [h]
    constructor <;> (intro h; cases h)
  · rw [h, pure_eq_ok]
    simp

/-- What removing a release needs: the published release measures as expected and was not retired
beside, or it is gone. -/
structure Removable (t d : Uuid7) (expected : Digest) (s : Store) : Prop where
  format : expected.format = .releaseTree
  measured : ∀ m, s.releases.find? ⟨t, d, none⟩ = some m →
    m = some expected ∧ s.releases.find? ⟨t, d, some expected.value⟩ = none

theorem requireRemovableRelease_eq_ok {t d : Uuid7} {expected : Digest} {s : Store}
    {found : RemovableRelease} :
    requireRemovableRelease t d expected s = .ok found ↔ Removable t d expected s ∧
      found = ⟨(s.releases.find? ⟨t, d, none⟩).isSome,
        (s.releases.find? ⟨t, d, some expected.value⟩).isSome⟩ := by
  unfold requireRemovableRelease
  cases hcanonical : s.releases.find? ⟨t, d, none⟩ with
  | none =>
      simp only [bind_eq_ok, require_eq_ok, Option.isSome_none, Bool.false_eq_true, if_false,
        pure_eq_ok, Digest.hasFormat, decide_eq_true_eq]
      constructor
      · rintro ⟨-, hformat, rfl⟩
        refine ⟨⟨hformat, fun m hm => ?_⟩, rfl⟩
        rw [hcanonical] at hm
        cases hm
      · rintro ⟨h, rfl⟩
        exact ⟨(), h.format, rfl⟩
  | some m =>
      simp only [bind_eq_ok, require_eq_ok, Option.isSome_some, if_true, pure_eq_ok,
        Digest.hasFormat, decide_eq_true_eq, measureRelease_eq_ok, Bool.not_eq_true',
        Option.isSome_eq_false_iff, Option.isNone_iff_eq_none]
      constructor
      · rintro ⟨-, hformat, -, hretired, digest, hmeasured, -, rfl, rfl⟩
        refine ⟨⟨hformat, fun m' hm' => ⟨?_, hretired⟩⟩, rfl⟩
        rw [hmeasured] at hm'
        exact (Option.some.inj hm').symm
      · rintro ⟨h, rfl⟩
        obtain ⟨rfl, hretired⟩ := h.measured m hcanonical
        exact ⟨(), h.format, (), hretired, expected, hcanonical, (), rfl, rfl⟩

theorem removeRelease_ok {t d : Uuid7} {expected : Digest} {s : Store} {u : Unit}
    (h : (removeRelease t d expected s).result = .ok u) : Removable t d expected s := by
  obtain ⟨found, hfound, -⟩ := Durable.bind_result_ok h
  exact (requireRemovableRelease_eq_ok.1 hfound).1

theorem removeRelease_performs {t d : Uuid7} {expected : Digest} {s : Store}
    (h : Removable t d expected s) :
    Performs (removeRelease t d expected)
      (stepsOf host [.retire t d expected, .discard t d expected]) s () := by
  refine Performs.query_bind (requireRemovableRelease_eq_ok.2 ⟨h, rfl⟩) ?_
  refine (@Performs.bind _ _ _ _ _ _ (stepsOf host [.retire t d expected]) (stepsOf host [.discard t d expected]) _ (())) ?_ ?_
  · exact Performs.when (e := CommitStep.toStep host (.retire t d expected))
      (fun hc => Performs.effect (e := CommitStep.toStep host (.retire t d expected)) hc) id
  · refine Performs.when (e := CommitStep.toStep host (.discard t d expected)) (fun hc => ?_)
      fun hc => ?_
    · refine Performs.effect (e := CommitStep.toStep host (.discard t d expected)) ?_
      show ((settleAll (stepsOf host [.retire t d expected]) s).releases.find? _).isSome = true
      show (((CommitStep.toStep host (.retire t d expected)).settle s).releases.find? _).isSome = _
      cases hcanonical : (s.releases.find? ⟨t, d, none⟩).isSome with
      | true =>
          rw [Step.settle_of_pending (e := CommitStep.toStep host (.retire t d expected)) hcanonical]
          show ((Directory.insert _ _ _).find? _).isSome = _
          rw [Directory.find?_insert_self]
          rfl
      | false =>
          rw [Step.settle_of_settled (e := CommitStep.toStep host (.retire t d expected)) hcanonical]
          rw [hcanonical] at hc
          exact hc
    · obtain ⟨hcanonical, hretired⟩ := Bool.or_eq_false_iff.1 hc
      show (((CommitStep.toStep host (.retire t d expected)).settle s).releases.find? _).isSome = _
      rw [Step.settle_of_settled (e := CommitStep.toStep host (.retire t d expected)) hcanonical]
      exact hretired

/-- A release can still be removed after any step: its removal begins with its retirement. -/
theorem Removable.apply {t d : Uuid7} {expected : Digest} {e : CommitStep} {s : Store}
    (h : Removable t d expected s) : Removable t d expected (e.apply host s) := by
  refine ⟨h.format, fun m hm => ?_⟩
  cases e with
  | retire t' d' g =>
      -- either this release is retired, or its names are untouched
      by_cases hsame : (⟨t, d, none⟩ : ReleaseName) = ⟨t', d', none⟩
      · have hgone : ((s.releases.erase ⟨t', d', none⟩).insert ⟨t', d', some g.value⟩
            (some g)).find? ⟨t, d, none⟩ = none := by
          rw [Directory.find?_insert_of_ne _ (by simp), hsame, Directory.find?_erase_self]
        rw [show (CommitStep.apply host (.retire t' d' g) s).releases.find? ⟨t, d, none⟩ = none
          from hgone] at hm
        cases hm
      · have hother : (⟨t, d, some expected.value⟩ : ReleaseName) ≠ ⟨t', d', some g.value⟩ := by
          intro heq
          simp only [ReleaseName.mk.injEq] at heq hsame
          exact hsame ⟨heq.1, heq.2.1, trivial⟩
        have hcanonical : (CommitStep.apply host (.retire t' d' g) s).releases.find? ⟨t, d, none⟩ =
            s.releases.find? ⟨t, d, none⟩ := by
          show (Directory.insert _ _ _).find? _ = _
          rw [Directory.find?_insert_of_ne _ (by simp), Directory.find?_erase_of_ne _ hsame]
        have hretired : (CommitStep.apply host (.retire t' d' g) s).releases.find?
            ⟨t, d, some expected.value⟩ = s.releases.find? ⟨t, d, some expected.value⟩ := by
          show (Directory.insert _ _ _).find? _ = _
          rw [Directory.find?_insert_of_ne _ hother, Directory.find?_erase_of_ne _ (by simp)]
        rw [hcanonical] at hm
        rw [hretired]
        exact h.measured m hm
  | discard t' d' g =>
      have hcanonical : (CommitStep.apply host (.discard t' d' g) s).releases.find? ⟨t, d, none⟩ =
          s.releases.find? ⟨t, d, none⟩ := Directory.find?_erase_of_ne _ (by simp)
      rw [hcanonical] at hm
      obtain ⟨hmeasured, hretired⟩ := h.measured m hm
      refine ⟨hmeasured, ?_⟩
      by_cases hsame : (⟨t, d, some expected.value⟩ : ReleaseName) = ⟨t', d', some g.value⟩
      · show (Directory.erase _ _).find? _ = _
        rw [hsame, Directory.find?_erase_self]
      · show (Directory.erase _ _).find? _ = _
        rw [Directory.find?_erase_of_ne _ hsame]
        exact hretired
  | append entry =>
      have hsame : (CommitStep.apply host (.append entry) s).releases = s.releases := by
        simp only [CommitStep.apply, CommitStep.appended]
        split <;> rfl
      rw [hsame] at hm ⊢
      exact h.measured m hm
  | makeChild t' c =>
      have hsame : (CommitStep.apply host (.makeChild t' c) s).releases = s.releases := by
        simp only [CommitStep.apply]
        split <;> rfl
      rw [hsame] at hm ⊢
      exact h.measured m hm
  | _ => exact h.measured m hm

theorem Removable.settleAll {t d : Uuid7} {expected : Digest} {es : List CommitStep} {s : Store}
    (h : Removable t d expected s) : Removable t d expected (settleAll (stepsOf host es) s) := by
  refine settleAll_invariant (P := fun u : Store => Removable t d expected u)
    (fun e he u hu => ?_) h
  obtain ⟨c, -, rfl⟩ := List.mem_map.1 he
  exact hu.apply

theorem Removable.same {t d : Uuid7} {expected : Digest} {s s' : Store}
    (h : Removable t d expected s)
    (hcanonical : s'.releases.find? ⟨t, d, none⟩ = s.releases.find? ⟨t, d, none⟩)
    (hretired : s'.releases.find? ⟨t, d, some expected.value⟩ =
      s.releases.find? ⟨t, d, some expected.value⟩) : Removable t d expected s' := by
  refine ⟨h.format, fun m hm => ?_⟩
  rw [hcanonical] at hm
  rw [hretired]
  exact h.measured m hm

end StaticHostAgent.State
