import StaticHostAgent.Commit.AuditTrail
import StaticHostAgent.Commit.DeleteState
import Mathlib.Data.List.Perm.Subperm

/-!
# The changes that a commit may make

An abstract machine of the commits: what one durable change of a commit does, and what must be so
before it. The commits of all paths follow it, so that what the changes keep holds however the
commits are ordered, fail or crash:

* a commit touches one tenant, one job and one intent (`CommitScope.Confined`),
* the audit chain only grows, and tells every loss of a tenant and every result (`Lasting`),
* what a tenant selects, serves or keeps archived is stored until its tombstone is in the chain
  (`Referenced`),
* a completed job has its result (`Answered`), and a result its audit entry (`Audited`).
-/

set_option autoImplicit false

namespace StaticHostAgent.Commit

open Library Contracts Host Audit State

/-- The tenant, the job and the intent of one commit. -/
structure CommitScope where
  tenantId : Uuid7
  jobId : Uuid7
  intentId : Uuid7
  deriving DecidableEq

/-- A deployment of a tenant is stored: its record, and a release that measures as the record
says. -/
structure StoredDeployment (t : Uuid7) (r : DeploymentRecord) (s : Store) : Prop where
  record : s.find? (.deployment t r.id) = some (.deploymentRecord r)
  release : measureRelease t r.id s = .ok r.releaseTreeDigest

/-- The tenant neither selects nor serves the deployment. -/
structure UnusedDeployment (t d : Uuid7) (s : Store) : Prop where
  selected : ∀ m ref, s.find? (.desired t) = some (.site m) →
    m.spec.desiredDeployment = some ref → ref.id ≠ d
  active : ∀ o, s.find? (.observed t) = some (.tenantObservedState o) →
    o.activeDeploymentId ≠ some d

/-- What the manifest selects has an archive record. -/
def SelectionArchived (t : Uuid7) (m : Site) (s : Store) : Prop :=
  ∀ ref, m.spec.desiredDeployment = some ref → (s.find? (.archive t ref.id)).isSome = true

/-- The job of a commit is completed and has its result. -/
structure CommitScope.Closed (c : CommitScope) (s : Store) : Prop where
  completed : ∃ job, s.find? (.job c.jobId) = some (.authorizationJob job) ∧
    job.phase = .completed
  answered : (s.find? (.result c.jobId)).isSome = true

/-- One durable change of a commit. -/
inductive CommitChange (host : StateHost) (c : CommitScope) (s : Store) : Store → Prop where
  /-- The directory of a tenant that is not there. -/
  | found (absent : s.tenants.find? c.tenantId = none) :
      CommitChange host c s (s.makeTenant c.tenantId ⟨false, false⟩)
  | child (child : TenantChild) : CommitChange host c s (makeTenantChild c.tenantId child s)
  /-- A deployment whose release is there, while there is room for its record. -/
  | record (r : DeploymentRecord) (absent : s.find? (.deployment c.tenantId r.id) = none)
      (released : measureRelease c.tenantId r.id s = .ok r.releaseTreeDigest)
      (room : ((Listing.deployments c.tenantId).ids s).length ≤ 3) :
      CommitChange host c s (s.put (.deployment c.tenantId r.id) (.deploymentRecord r))
  /-- A manifest that selects a stored deployment and is not archived. -/
  | select (m : Site) (r : DeploymentRecord) (stored : StoredDeployment c.tenantId r s)
      (reference : m.spec.desiredDeployment = some ⟨r.id, r.archiveSha256⟩)
      (live : m.spec.desiredState ≠ .archived) :
      CommitChange host c s (s.put (.desired c.tenantId) (.site m))
  /-- A manifest that selects what the one before it selects. -/
  | keep (m source : Site) (before : s.find? (.desired c.tenantId) = some (.site source))
      (reference : m.spec.desiredDeployment = source.spec.desiredDeployment)
      (archived : m.spec.desiredState = .archived →
        source.spec.desiredState = .archived ∨ SelectionArchived c.tenantId m s) :
      CommitChange host c s (s.put (.desired c.tenantId) (.site m))
  /-- The manifest of a tenant that was not deployed. -/
  | undeployed (m : Site) (reference : m.spec.desiredDeployment = none) :
      CommitChange host c s (s.put (.desired c.tenantId) (.site m))
  /-- An observed state that serves nothing but what the stored manifest selects. -/
  | observe (o : TenantObservedState) (follows : ∀ d, o.activeDeploymentId = some d →
        ∃ m ref, s.find? (.desired c.tenantId) = some (.site m) ∧
          m.spec.desiredDeployment = some ref ∧ ref.id = d) :
      CommitChange host c s (s.put (.observed c.tenantId) (.tenantObservedState o))
  | retire (d : Uuid7) (digest : Digest)
      (unused : UnusedDeployment c.tenantId d s ∨ Tombstoned host c.tenantId s) :
      CommitChange host c s (s.retireRelease c.tenantId d digest)
  | discard (d : Uuid7) (digest : Digest) :
      CommitChange host c s (s.discardRelease c.tenantId d digest)
  /-- A record goes behind its release. -/
  | forget (d : Uuid7) (unused : UnusedDeployment c.tenantId d s)
      (gone : s.releases.find? ⟨c.tenantId, d, none⟩ = none) :
      CommitChange host c s (s.remove (.deployment c.tenantId d))
  | archive (d : Uuid7) (r : ArchiveRecord) (absent : s.find? (.archive c.tenantId d) = none) :
      CommitChange host c s (s.put (.archive c.tenantId d) (.archiveRecord r))
  /-- An archive record goes behind the audit entry of a restore. -/
  | unbind (d : Uuid7) (restored : Succeeded host [.restore] c.tenantId s)
      (live : ∀ m, s.find? (.desired c.tenantId) = some (.site m) →
        m.spec.desiredState ≠ .archived) :
      CommitChange host c s (s.remove (.archive c.tenantId d))
  /-- One more entry of the audit chain. -/
  | append (x : AuditEntry) (a : AuditStore)
      (behind : auditTrail host (s.setAudit a) = auditTrail host s ++ [x]) :
      CommitChange host c s (s.setAudit a)
  /-- A result is published behind an audit entry that carries its digest. -/
  | answer (r : OperationResult) (x : AuditEntry) (absent : s.find? (.result c.jobId) = none)
      (recorded : Recorded host x s) (vouched : x.resultDigest = resultDigest host.encoding r) :
      CommitChange host c s (s.put (.result c.jobId) (.operationResult r))
  /-- A job is completed behind its result. -/
  | complete (job : AuthorizationJob)
      (stored : s.find? (.job c.jobId) = some (.authorizationJob job))
      (answered : (s.find? (.result c.jobId)).isSome = true) :
      CommitChange host c s (s.put (.job c.jobId) (.authorizationJob (completedJob job)))
  /-- The intent goes behind its completed job. -/
  | clear (closed : c.Closed s) : CommitChange host c s (s.remove (.intent c.intentId))
  /-- A record of a deleted tenant. -/
  | erase (p : FilePath) (owner : p.tenant? = some c.tenantId)
      (tombstoned : Tombstoned host c.tenantId s) : CommitChange host c s (s.remove p)
  | dropChild (child : TenantChild) (tombstoned : Tombstoned host c.tenantId s) :
      CommitChange host c s (dropTenantChild c.tenantId child s)
  | drop (tombstoned : Tombstoned host c.tenantId s) :
      CommitChange host c s (dropTenant c.tenantId s)

variable {host : StateHost} {c : CommitScope} {s t u : Store}

/-- Making a child of a tenant directory leaves the rest of the state. -/
theorem makeTenantChild_cases (i : Uuid7) (child : TenantChild) (s : Store) :
    makeTenantChild i child s = s ∨ ∃ n, makeTenantChild i child s = s.makeTenant i n := by
  unfold makeTenantChild
  split
  · exact Or.inr ⟨_, rfl⟩
  · exact Or.inl rfl

theorem dropTenantChild_cases (i : Uuid7) (child : TenantChild) (s : Store) :
    dropTenantChild i child s = s ∨ ∃ n, dropTenantChild i child s = s.makeTenant i n := by
  unfold dropTenantChild
  split
  · exact Or.inr ⟨_, rfl⟩
  · exact Or.inl rfl

/-! ## What a commit does not touch -/

/-- The files of a commit. -/
def CommitScope.owns (c : CommitScope) : FilePath → Bool
  | .desired t | .observed t | .deployment t _ | .archive t _ => decide (t = c.tenantId)
  | .job j | .result j => decide (j = c.jobId)
  | .intent i => decide (i = c.intentId)
  | .correlation _ => false

/-- Everything but the tenant, the job and the intent of a commit and the audit chain is as it
was. -/
structure CommitScope.Confined (c : CommitScope) (s u : Store) : Prop where
  files : ∀ p, c.owns p = false → u.find? p = s.find? p
  directories : ∀ t, t ≠ c.tenantId → u.tenants.find? t = s.tenants.find? t
  releases : ∀ n : ReleaseName, n.tenantId ≠ c.tenantId →
    u.releases.find? n = s.releases.find? n
  platformState : u.platformState = s.platformState

theorem CommitScope.Confined.refl (c : CommitScope) (s : Store) : c.Confined s s :=
  ⟨fun _ _ => rfl, fun _ _ => rfl, fun _ _ => rfl, rfl⟩

theorem CommitScope.Confined.trans (h : c.Confined s t) (h' : c.Confined t u) : c.Confined s u :=
  ⟨fun p hp => (h'.files p hp).trans (h.files p hp),
    fun i hi => (h'.directories i hi).trans (h.directories i hi),
    fun n hn => (h'.releases n hn).trans (h.releases n hn),
    h'.platformState.trans h.platformState⟩

theorem CommitScope.Confined.put (s : Store) {p : FilePath} (hp : c.owns p = true)
    (document : Document) : c.Confined s (s.put p document) := by
  refine ⟨fun q hq => Store.find?_put_of_ne ?_ _ _, fun _ _ => rfl, fun _ _ => rfl, rfl⟩
  rintro rfl
  rw [hp] at hq
  cases hq

theorem CommitScope.Confined.remove (s : Store) {p : FilePath} (hp : c.owns p = true) :
    c.Confined s (s.remove p) := by
  refine ⟨fun q hq => Store.find?_remove_of_ne ?_ _, fun _ _ => rfl, fun _ _ => rfl, rfl⟩
  rintro rfl
  rw [hp] at hq
  cases hq

theorem CommitScope.Confined.makeTenant (s : Store) (n : TenantNamespace) :
    c.Confined s (s.makeTenant c.tenantId n) :=
  ⟨fun _ _ => rfl, fun _ ht => Directory.find?_insert_of_ne _ ht _, fun _ _ => rfl, rfl⟩

theorem CommitScope.owns_of_tenant {p : FilePath} (h : p.tenant? = some c.tenantId) :
    c.owns p = true := by
  cases p with
  | desired t | observed t | deployment t d | archive t d =>
      exact decide_eq_true (Option.some.inj h)
  | job j | result j | correlation i | intent i => cases h

/-- A change of a commit stays in its scope. -/
theorem CommitChange.confined (hchange : CommitChange host c s u) : c.Confined s u := by
  cases hchange with
  | found _ => exact CommitScope.Confined.makeTenant s _
  | child child =>
      rcases makeTenantChild_cases c.tenantId child s with h | ⟨n, h⟩
      · rw [h]
        exact CommitScope.Confined.refl c s
      · rw [h]
        exact CommitScope.Confined.makeTenant s n
  | dropChild child _ =>
      rcases dropTenantChild_cases c.tenantId child s with h | ⟨n, h⟩
      · rw [h]
        exact CommitScope.Confined.refl c s
      · rw [h]
        exact CommitScope.Confined.makeTenant s n
  | drop _ => exact ⟨fun _ _ => rfl, fun _ ht => Directory.find?_erase_of_ne _ ht,
      fun _ _ => rfl, rfl⟩
  | record _ _ _ _ | select _ _ _ _ _ | keep _ _ _ _ _ | undeployed _ _ | observe _ _
  | archive _ _ _ | answer _ _ _ _ _ | complete _ _ _ =>
      exact CommitScope.Confined.put s (by simp [CommitScope.owns]) _
  | forget _ _ _ | unbind _ _ _ | clear _ =>
      exact CommitScope.Confined.remove s (by simp [CommitScope.owns])
  | erase p owner _ => exact CommitScope.Confined.remove s (CommitScope.owns_of_tenant owner)
  | append _ _ _ => exact ⟨fun _ _ => rfl, fun _ _ => rfl, fun _ _ => rfl, rfl⟩
  | retire d digest _ =>
      refine ⟨fun _ _ => rfl, fun _ _ => rfl, fun n hn => ?_, rfl⟩
      have hne : ∀ r, n ≠ ⟨c.tenantId, d, r⟩ := by
        rintro r rfl
        exact hn rfl
      show ((s.releases.erase _).insert _ _).find? n = _
      rw [Directory.find?_insert_of_ne _ (hne _), Directory.find?_erase_of_ne _ (hne _)]
  | discard d digest =>
      refine ⟨fun _ _ => rfl, fun _ _ => rfl, fun n hn => ?_, rfl⟩
      show (s.releases.erase _).find? n = _
      refine Directory.find?_erase_of_ne _ ?_
      rintro rfl
      exact hn rfl

/-- Everything of a tenant is as it was. -/
structure SameTenant (t : Uuid7) (s u : Store) : Prop where
  desired : u.find? (.desired t) = s.find? (.desired t)
  observed : u.find? (.observed t) = s.find? (.observed t)
  deployments : ∀ d, u.find? (.deployment t d) = s.find? (.deployment t d)
  archives : ∀ d, u.find? (.archive t d) = s.find? (.archive t d)
  directory : u.tenants.find? t = s.tenants.find? t
  releases : ∀ d retired, u.releases.find? ⟨t, d, retired⟩ = s.releases.find? ⟨t, d, retired⟩

theorem SameTenant.refl (i : Uuid7) (s : Store) : SameTenant i s s :=
  ⟨rfl, rfl, fun _ => rfl, fun _ => rfl, rfl, fun _ _ => rfl⟩

theorem SameTenant.trans {i : Uuid7} (h : SameTenant i s t) (h' : SameTenant i t u) :
    SameTenant i s u :=
  ⟨h'.desired.trans h.desired, h'.observed.trans h.observed,
    fun d => (h'.deployments d).trans (h.deployments d),
    fun d => (h'.archives d).trans (h.archives d), h'.directory.trans h.directory,
    fun d r => (h'.releases d r).trans (h.releases d r)⟩

/-- A commit of another tenant leaves the tenant as it is. -/
theorem CommitScope.Confined.sameTenant (h : c.Confined s u) {i : Uuid7} (hi : i ≠ c.tenantId) :
    SameTenant i s u where
  desired := h.files _ (decide_eq_false hi)
  observed := h.files _ (decide_eq_false hi)
  deployments _ := h.files _ (decide_eq_false hi)
  archives _ := h.files _ (decide_eq_false hi)
  directory := h.directories i hi
  releases _ _ := h.releases _ hi

/-! ## The chain -/

/-- The chain only grows. -/
theorem CommitChange.trail (hchange : CommitChange host c s u) :
    ∃ xs, auditTrail host u = auditTrail host s ++ xs := by
  cases hchange with
  | append x a behind => exact ⟨[x], behind⟩
  | child child =>
      refine ⟨[], ?_⟩
      rcases makeTenantChild_cases c.tenantId child s with h | ⟨n, h⟩
      · rw [h, List.append_nil]
      · rw [h, List.append_nil]
        rfl
  | dropChild child _ =>
      refine ⟨[], ?_⟩
      rcases dropTenantChild_cases c.tenantId child s with h | ⟨n, h⟩
      · rw [h, List.append_nil]
      · rw [h, List.append_nil]
        rfl
  | found _ | record _ _ _ _ | select _ _ _ _ _ | keep _ _ _ _ _ | undeployed _ _ | observe _ _
  | retire _ _ _ | discard _ _ | forget _ _ _ | archive _ _ _ | unbind _ _ _ | answer _ _ _ _ _
  | complete _ _ _ | clear _ | erase _ _ _ | drop _ => exact ⟨[], (List.append_nil _).symm⟩

theorem CommitChange.recorded (hchange : CommitChange host c s u) :
    ∀ y ∈ auditTrail host s, y ∈ auditTrail host u := by
  obtain ⟨xs, hxs⟩ := hchange.trail
  intro y hy
  rw [hxs]
  exact List.mem_append_left _ hy

/-! ## References -/

/-- What a tenant selects or serves is stored, what it keeps archived has its archive record, and its
history is within its bound. -/
structure Referenced (t : Uuid7) (s : Store) : Prop where
  selected : ∀ m ref, s.find? (.desired t) = some (.site m) →
    m.spec.desiredDeployment = some ref →
      ∃ r, r.id = ref.id ∧ r.archiveSha256 = ref.archiveSha256 ∧ StoredDeployment t r s
  active : ∀ o d, s.find? (.observed t) = some (.tenantObservedState o) →
    o.activeDeploymentId = some d → ∃ r, r.id = d ∧ StoredDeployment t r s
  archived : ∀ m, s.find? (.desired t) = some (.site m) → m.spec.desiredState = .archived →
    SelectionArchived t m s
  bounded : ((Listing.deployments t).ids s).length ≤ 4

section References

variable {i d : Uuid7} {r : DeploymentRecord}

/-- A stored deployment depends on its record and on the published releases alone. -/
theorem StoredDeployment.same (h : StoredDeployment i r s)
    (hrecord : u.find? (.deployment i r.id) = s.find? (.deployment i r.id))
    (hrelease : ∀ digest, s.releases.find? ⟨i, r.id, none⟩ = some (some digest) →
      u.releases.find? ⟨i, r.id, none⟩ = some (some digest)) :
    StoredDeployment i r u := by
  refine ⟨hrecord.trans h.record, ?_⟩
  have hmeasured := h.release
  unfold measureRelease at hmeasured ⊢
  split at hmeasured
  · cases hmeasured
  · cases hmeasured
  · rename_i digest hfind
    rw [hrelease digest hfind]
    exact hmeasured

theorem StoredDeployment.put (h : StoredDeployment i r s) {p : FilePath}
    (hp : p ≠ .deployment i r.id) (document : Document) :
    StoredDeployment i r (s.put p document) :=
  h.same (Store.find?_put_of_ne (Ne.symm hp) _ _) fun _ hfind => hfind

/-- A record that was not there is not the one of a stored deployment. -/
theorem StoredDeployment.record_ne (h : StoredDeployment i r s) {p : FilePath}
    (hp : s.find? p = none) : p ≠ .deployment i r.id := by
  rintro rfl
  rw [h.record] at hp
  cases hp

theorem StoredDeployment.retire (h : StoredDeployment i r s) {digest : Digest} (hne : r.id ≠ d) :
    StoredDeployment i r (s.retireRelease i d digest) := by
  refine h.same rfl fun g hfind => ?_
  show ((s.releases.erase _).insert _ _).find? _ = _
  rw [Directory.find?_insert_of_ne _ (by simp), Directory.find?_erase_of_ne, hfind]
  simp [hne]

theorem StoredDeployment.discard (h : StoredDeployment i r s) {digest : Digest} :
    StoredDeployment i r (s.discardRelease i d digest) := by
  refine h.same rfl fun g hfind => ?_
  show (s.releases.erase _).find? _ = _
  rw [Directory.find?_erase_of_ne _ (by simp), hfind]

/-- A history grows by at most one record. -/
theorem deployments_put_length (p : FilePath) (document : Document) :
    ((Listing.deployments i).ids (s.put p document)).length ≤
      ((Listing.deployments i).ids s).length + 1 := by
  have hsub : ((Listing.deployments i).ids (s.put p document)).Subperm
      (((Listing.deployments i).name p).toList ++ (Listing.deployments i).ids s) := by
    refine (Listing.ids_nodup _).subperm fun j hj => ?_
    rw [List.mem_append]
    rw [Listing.mem_ids, Store.find?_put] at hj
    by_cases hpath : (Listing.deployments i).path j = p
    · left
      rw [← hpath, Listing.name_path]
      exact List.mem_singleton.2 rfl
    · right
      rw [if_neg hpath] at hj
      exact Listing.mem_ids.2 hj
  have hlength := hsub.length_le
  rw [List.length_append] at hlength
  have hname : ((Listing.deployments i).name p).toList.length ≤ 1 := by
    cases (Listing.deployments i).name p <;> simp
  omega

/-- Where the states are as they were and nothing stored is lost, the references hold on. -/
theorem Referenced.same (h : Referenced i s)
    (hdesired : u.find? (.desired i) = s.find? (.desired i))
    (hobserved : u.find? (.observed i) = s.find? (.observed i))
    (hstored : ∀ r, StoredDeployment i r s → StoredDeployment i r u)
    (harchives : ∀ d, (s.find? (.archive i d)).isSome = true →
      (u.find? (.archive i d)).isSome = true)
    (hbounded : ((Listing.deployments i).ids u).length ≤ ((Listing.deployments i).ids s).length) :
    Referenced i u := by
  refine ⟨fun m ref hm href => ?_, fun o d ho hd => ?_, fun m hm hstate ref href => ?_,
    hbounded.trans h.bounded⟩
  · rw [hdesired] at hm
    obtain ⟨r, hid, harchive, hr⟩ := h.selected m ref hm href
    exact ⟨r, hid, harchive, hstored r hr⟩
  · rw [hobserved] at ho
    obtain ⟨r, hid, hr⟩ := h.active o d ho hd
    exact ⟨r, hid, hstored r hr⟩
  · rw [hdesired] at hm
    exact harchives _ (h.archived m hm hstate ref href)

theorem Referenced.sameTenant (h : Referenced i s) (hsame : SameTenant i s u) :
    Referenced i u := by
  refine h.same hsame.desired hsame.observed (fun r hr => ?_) (fun d hd => ?_) (le_of_eq ?_)
  · exact hr.same (hsame.deployments r.id) fun g hfind => (hsame.releases r.id none).trans hfind
  · rw [hsame.archives, hd]
  · exact congrArg List.length (Listing.ids_congr fun d => hsame.deployments d)

/-- The references survive the loss of an unused deployment. -/
theorem Referenced.lose (h : Referenced i s) (hunused : UnusedDeployment i d s)
    (hstored : ∀ r, StoredDeployment i r s → r.id ≠ d → StoredDeployment i r u)
    (hfiles : ∀ p, p ≠ .deployment i d → u.find? p = s.find? p)
    (hbounded : ((Listing.deployments i).ids u).length ≤ ((Listing.deployments i).ids s).length) :
    Referenced i u := by
  refine ⟨fun m ref hm href => ?_, fun o d' ho hd => ?_, fun m hm hstate ref href => ?_,
    hbounded.trans h.bounded⟩
  · rw [hfiles _ (by simp)] at hm
    obtain ⟨r, hid, harchive, hr⟩ := h.selected m ref hm href
    refine ⟨r, hid, harchive, hstored r hr fun heq => ?_⟩
    exact hunused.selected m ref hm href (hid.symm.trans heq)
  · rw [hfiles _ (by simp)] at ho
    obtain ⟨r, hid, hr⟩ := h.active o d' ho hd
    refine ⟨r, hid, hstored r hr fun heq => ?_⟩
    exact hunused.active o ho (hd.trans (congrArg some (hid.symm.trans heq)))
  · rw [hfiles _ (by simp)] at hm ⊢
    exact h.archived m hm hstate ref href

theorem Referenced.putDesired (h : Referenced i s) {m : Site}
    (hm : ∀ ref, m.spec.desiredDeployment = some ref →
      ∃ r, r.id = ref.id ∧ r.archiveSha256 = ref.archiveSha256 ∧ StoredDeployment i r s)
    (harchived : m.spec.desiredState = .archived → SelectionArchived i m s) :
    Referenced i (s.put (.desired i) (.site m)) := by
  have hkept : ∀ p, p ≠ .desired i → (s.put (.desired i) (.site m)).find? p = s.find? p :=
    fun p hp => Store.find?_put_of_ne hp _ _
  refine ⟨fun m' ref hm' href => ?_, fun o d' ho hd => ?_, fun m' hm' hstate ref href => ?_, ?_⟩
  · rw [Store.find?_put_self] at hm'
    cases hm'
    obtain ⟨r, hid, harchive, hr⟩ := hm ref href
    exact ⟨r, hid, harchive, hr.put (by simp) _⟩
  · rw [hkept _ (by simp)] at ho
    obtain ⟨r, hid, hr⟩ := h.active o d' ho hd
    exact ⟨r, hid, hr.put (by simp) _⟩
  · rw [Store.find?_put_self] at hm'
    cases hm'
    rw [hkept _ (by simp)]
    exact harchived hstate ref href
  · rw [Listing.ids_put_other rfl]
    exact h.bounded

theorem Referenced.putObserved (h : Referenced i s) {o : TenantObservedState}
    (ho : ∀ d, o.activeDeploymentId = some d → ∃ r, r.id = d ∧ StoredDeployment i r s) :
    Referenced i (s.put (.observed i) (.tenantObservedState o)) := by
  have hkept : ∀ p, p ≠ .observed i →
      (s.put (.observed i) (.tenantObservedState o)).find? p = s.find? p :=
    fun p hp => Store.find?_put_of_ne hp _ _
  refine ⟨fun m ref hm href => ?_, fun o' d' ho' hd => ?_, fun m hm hstate ref href => ?_, ?_⟩
  · rw [hkept _ (by simp)] at hm
    obtain ⟨r, hid, harchive, hr⟩ := h.selected m ref hm href
    exact ⟨r, hid, harchive, hr.put (by simp) _⟩
  · rw [Store.find?_put_self] at ho'
    cases ho'
    obtain ⟨r, hid, hr⟩ := ho d' hd
    exact ⟨r, hid, hr.put (by simp) _⟩
  · rw [hkept _ (by simp)] at hm ⊢
    exact h.archived m hm hstate ref href
  · rw [Listing.ids_put_other rfl]
    exact h.bounded

theorem Referenced.putRecord (h : Referenced i s) {r : DeploymentRecord}
    (habsent : s.find? (.deployment i r.id) = none)
    (hroom : ((Listing.deployments i).ids s).length ≤ 3) :
    Referenced i (s.put (.deployment i r.id) (.deploymentRecord r)) := by
  have hkept : ∀ p, p ≠ .deployment i r.id →
      (s.put (.deployment i r.id) (.deploymentRecord r)).find? p = s.find? p :=
    fun p hp => Store.find?_put_of_ne hp _ _
  have hstored : ∀ r', StoredDeployment i r' s →
      StoredDeployment i r' (s.put (.deployment i r.id) (.deploymentRecord r)) :=
    fun r' hr' => hr'.put (hr'.record_ne habsent) _
  refine ⟨fun m ref hm href => ?_, fun o d' ho hd => ?_, fun m hm hstate ref href => ?_, ?_⟩
  · rw [hkept _ (by simp)] at hm
    obtain ⟨r', hid, harchive, hr⟩ := h.selected m ref hm href
    exact ⟨r', hid, harchive, hstored r' hr⟩
  · rw [hkept _ (by simp)] at ho
    obtain ⟨r', hid, hr⟩ := h.active o d' ho hd
    exact ⟨r', hid, hstored r' hr⟩
  · rw [hkept _ (by simp)] at hm ⊢
    exact h.archived m hm hstate ref href
  · have hgrown := (@deployments_put_length s i) (.deployment i r.id) (.deploymentRecord r)
    omega

/-- A change of what is neither a state nor a record of a deployment or an archive. -/
theorem Referenced.files (h : Referenced i s)
    (hfiles : ∀ p, p.tenant? = some i → u.find? p = s.find? p) (hreleases : u.releases = s.releases) :
    Referenced i u := by
  refine h.same (hfiles _ rfl) (hfiles _ rfl) (fun r hr => ?_) (fun d hd => ?_) (le_of_eq ?_)
  · exact hr.same (hfiles _ rfl) fun g hfind => by rw [hreleases, hfind]
  · rw [hfiles _ rfl, hd]
  · exact congrArg List.length (Listing.ids_congr fun d => hfiles _ rfl)

theorem Referenced.put (h : Referenced i s) {p : FilePath} (hp : p.tenant? = none)
    (document : Document) : Referenced i (s.put p document) := by
  refine h.files (fun q hq => Store.find?_put_of_ne ?_ _ _) rfl
  rintro rfl
  rw [hp] at hq
  cases hq

theorem Referenced.remove (h : Referenced i s) {p : FilePath} (hp : p.tenant? = none) :
    Referenced i (s.remove p) := by
  refine h.files (fun q hq => Store.find?_remove_of_ne ?_ _) rfl
  rintro rfl
  rw [hp] at hq
  cases hq

/-- No change of a commit breaks a reference of its own tenant, unless the tenant's tombstone is in
the chain. -/
theorem Referenced.own (h : Referenced c.tenantId s) (hchange : CommitChange host c s u) :
    Referenced c.tenantId u ∨ Tombstoned host c.tenantId u := by
  have hgrown := hchange.recorded
  cases hchange with
  | found _ => exact Or.inl (h.files (fun _ _ => rfl) rfl)
  | child child =>
      left
      rcases makeTenantChild_cases c.tenantId child s with heq | ⟨n, heq⟩
      · rwa [heq]
      · rw [heq]
        exact h.files (fun _ _ => rfl) rfl
  | record r absent _ room => exact Or.inl (h.putRecord absent room)
  | select m r stored reference live =>
      -- the selected deployment is stored, and a live manifest needs no archive record
      refine Or.inl (h.putDesired (fun ref href => ?_) fun harchived => absurd harchived live)
      rw [reference] at href
      obtain rfl := Option.some.inj href
      exact ⟨r, rfl, rfl, stored⟩
  | keep m source before reference archived =>
      refine Or.inl (h.putDesired (fun ref href => ?_) fun harchived => ?_)
      · rw [reference] at href
        exact h.selected source ref before href
      · rcases archived harchived with hsource | hselection
        · intro ref href
          rw [reference] at href
          exact h.archived source before hsource ref href
        · exact hselection
  | undeployed m reference =>
      refine Or.inl (h.putDesired (fun ref href => ?_) fun _ ref href => ?_)
      · rw [reference] at href
        cases href
      · rw [reference] at href
        cases href
  | observe o follows =>
      -- what is served is what the manifest selects, which is stored
      refine Or.inl (h.putObserved fun d hd => ?_)
      obtain ⟨m, ref, hm, href, hid⟩ := follows d hd
      obtain ⟨r, hr, -, hstored⟩ := h.selected m ref hm href
      exact ⟨r, hr.trans hid, hstored⟩
  | retire d digest unused =>
      -- a release leaves when nothing refers to it, or behind the tombstone
      rcases unused with hunused | htombstoned
      · refine Or.inl (h.lose hunused (fun r hr hne => hr.retire hne) (fun _ _ => rfl) ?_)
        exact le_of_eq (congrArg List.length (Listing.ids_congr fun _ => rfl))
      · exact Or.inr (htombstoned.grow hgrown)
  | discard d digest =>
      refine Or.inl (h.same rfl rfl (fun r hr => hr.discard) (fun _ hd => hd) (le_of_eq ?_))
      exact congrArg List.length (Listing.ids_congr fun _ => rfl)
  | forget d unused _ =>
      refine Or.inl (h.lose unused (fun r hr hne => ?_)
        (fun p hp => Store.find?_remove_of_ne hp _) ?_)
      · exact hr.same (Store.find?_remove_of_ne (by simp [hne]) _) fun _ hfind => hfind
      · rw [show FilePath.deployment c.tenantId d = (Listing.deployments c.tenantId).path d from rfl,
          Listing.ids_remove]
        exact List.length_filter_le _ _
  | archive d r _ =>
      refine Or.inl (h.same (Store.find?_put_of_ne (by simp) _ _)
        (Store.find?_put_of_ne (by simp) _ _) (fun r hr => hr.put (by simp) _) (fun d' hd => ?_)
        (le_of_eq ?_))
      · rw [Store.find?_put]
        split
        · rfl
        · exact hd
      · exact congrArg List.length (Listing.ids_put_other rfl _)
  | unbind d _ live =>
      -- the manifest is not archived, so nothing refers to the record
      refine Or.inl ⟨fun m ref hm href => ?_, fun o d' ho hd => ?_, fun m hm harchived => ?_, ?_⟩
      · rw [Store.find?_remove_of_ne (by simp)] at hm
        obtain ⟨r, hid, harchive, hr⟩ := h.selected m ref hm href
        exact ⟨r, hid, harchive, hr.same (Store.find?_remove_of_ne (by simp) _) fun _ hf => hf⟩
      · rw [Store.find?_remove_of_ne (by simp)] at ho
        obtain ⟨r, hid, hr⟩ := h.active o d' ho hd
        exact ⟨r, hid, hr.same (Store.find?_remove_of_ne (by simp) _) fun _ hf => hf⟩
      · rw [Store.find?_remove_of_ne (by simp)] at hm
        exact absurd harchived (live m hm)
      · rw [Listing.ids_remove_other rfl]
        exact h.bounded
  | append x a _ => exact Or.inl (h.files (fun _ _ => rfl) rfl)
  | answer r x _ _ _ => exact Or.inl (h.put rfl _)
  | complete job _ _ => exact Or.inl (h.put rfl _)
  | clear _ => exact Or.inl (h.remove rfl)
  | erase p _ tombstoned => exact Or.inr (tombstoned.grow hgrown)
  | dropChild child tombstoned => exact Or.inr (tombstoned.grow hgrown)
  | drop tombstoned => exact Or.inr (tombstoned.grow hgrown)

/-- A tenant keeps its references until its tombstone is in the chain. -/
theorem Referenced.change (h : Referenced i s ∨ Tombstoned host i s)
    (hchange : CommitChange host c s u) : Referenced i u ∨ Tombstoned host i u := by
  rcases h with h | h
  · by_cases hi : i = c.tenantId
    · subst hi
      exact h.own hchange
    · exact Or.inl (h.sameTenant (hchange.confined.sameTenant hi))
  · exact Or.inr (h.grow hchange.recorded)

/-! ### Standing -/

/-- The tenant is there, with both of its states. -/
structure Standing (t : Uuid7) (s : Store) : Prop where
  desired : (s.find? (.desired t)).isSome = true
  observed : (s.find? (.observed t)).isSome = true
  directory : (s.tenants.find? t).isSome = true

theorem Standing.put (h : Standing i s) (p : FilePath) (document : Document) :
    Standing i (s.put p document) := by
  have hkept : ∀ q, (s.find? q).isSome = true → ((s.put p document).find? q).isSome = true := by
    intro q hq
    rw [Store.find?_put]
    split
    · rfl
    · exact hq
  exact ⟨hkept _ h.desired, hkept _ h.observed, h.directory⟩

theorem Standing.remove (h : Standing i s) {p : FilePath} (hdesired : p ≠ .desired i)
    (hobserved : p ≠ .observed i) : Standing i (s.remove p) := by
  refine ⟨?_, ?_, h.directory⟩
  · rw [Store.find?_remove_of_ne (Ne.symm hdesired)]
    exact h.desired
  · rw [Store.find?_remove_of_ne (Ne.symm hobserved)]
    exact h.observed

theorem Standing.makeTenant (h : Standing i s) (n : TenantNamespace) :
    Standing i (s.makeTenant i n) := by
  refine ⟨h.desired, h.observed, ?_⟩
  show ((s.tenants.insert i n).find? i).isSome = true
  rw [Directory.find?_insert_self]
  rfl

/-- No change of a commit takes its tenant away, unless the tenant's tombstone is in the chain. -/
theorem Standing.own (h : Standing c.tenantId s) (hchange : CommitChange host c s u) :
    Standing c.tenantId u ∨ Tombstoned host c.tenantId u := by
  have hgrown := hchange.recorded
  cases hchange with
  | found _ => exact Or.inl (h.makeTenant _)
  | child child =>
      left
      rcases makeTenantChild_cases c.tenantId child s with heq | ⟨n, heq⟩
      · rwa [heq]
      · rw [heq]
        exact h.makeTenant n
  | record _ _ _ _ | select _ _ _ _ _ | keep _ _ _ _ _ | undeployed _ _ | observe _ _
  | archive _ _ _ | answer _ _ _ _ _ | complete _ _ _ => exact Or.inl (h.put _ _)
  | forget _ _ _ | unbind _ _ _ | clear _ => exact Or.inl (h.remove (by simp) (by simp))
  | retire _ _ _ | discard _ _ | append _ _ _ =>
      exact Or.inl ⟨h.desired, h.observed, h.directory⟩
  | erase _ _ tombstoned | dropChild _ tombstoned | drop tombstoned =>
      exact Or.inr (tombstoned.grow hgrown)

/-- A tenant stands until its tombstone is in the chain. -/
theorem Standing.change (h : Standing i s ∨ Tombstoned host i s)
    (hchange : CommitChange host c s u) : Standing i u ∨ Tombstoned host i u := by
  rcases h with h | h
  · by_cases hi : i = c.tenantId
    · subst hi
      exact h.own hchange
    · have hsame := hchange.confined.sameTenant hi
      refine Or.inl ⟨?_, ?_, ?_⟩
      · rw [hsame.desired]
        exact h.desired
      · rw [hsame.observed]
        exact h.observed
      · rw [hsame.directory]
        exact h.directory
  · exact Or.inr (h.grow hchange.recorded)

end References

/-! ## Jobs and what they leave -/

/-- Every completed job has its result. -/
def Answered (s : Store) : Prop :=
  ∀ j job, s.find? (.job j) = some (.authorizationJob job) → job.phase = .completed →
    (s.find? (.result j)).isSome = true

/-- The result has an entry of the chain that carries its digest. -/
def Vouched (host : StateHost) (document : Document) (s : Store) : Prop :=
  ∃ r x, document = .operationResult r ∧ Recorded host x s ∧
    x.resultDigest = resultDigest host.encoding r

/-- Every result has its entry. -/
def Audited (host : StateHost) (s : Store) : Prop :=
  ∀ j d, s.find? (.result j) = some d → Vouched host d s

/-- What a later state still has: the entries of the chain, the results, the jobs as they were
authorized, and the archive records of the tenants that were neither restored nor deleted. -/
structure Lasting (host : StateHost) (s u : Store) : Prop where
  trail : ∃ xs, auditTrail host u = auditTrail host s ++ xs
  results : ∀ j d, s.find? (.result j) = some d → u.find? (.result j) = some d
  jobs : ∀ j job, s.find? (.job j) = some (.authorizationJob job) →
    u.find? (.job j) = some (.authorizationJob job) ∨
      u.find? (.job j) = some (.authorizationJob (completedJob job))
  archives : ∀ i d a, s.find? (.archive i d) = some a →
    u.find? (.archive i d) = some a ∨ Succeeded host [.restore, .delete] i u

/-- The intents are as they were, except that the one of a closed commit may be gone. -/
def CommitScope.Cleared (c : CommitScope) (s u : Store) : Prop :=
  ∀ i, u.find? (.intent i) = s.find? (.intent i) ∨
    i = c.intentId ∧ u.find? (.intent i) = none ∧ c.Closed u

section Jobs

theorem Lasting.recorded (h : Lasting host s u) :
    ∀ y ∈ auditTrail host s, y ∈ auditTrail host u := by
  obtain ⟨xs, hxs⟩ := h.trail
  intro y hy
  rw [hxs]
  exact List.mem_append_left _ hy

theorem Lasting.refl (host : StateHost) (s : Store) : Lasting host s s :=
  ⟨⟨[], (List.append_nil _).symm⟩, fun _ _ hd => hd, fun _ _ hd => Or.inl hd,
    fun _ _ _ hd => Or.inl hd⟩

theorem Lasting.trans (h : Lasting host s t) (h' : Lasting host t u) : Lasting host s u := by
  refine ⟨?_, fun j d hd => h'.results j d (h.results j d hd), fun j job hd => ?_,
    fun i d a hd => ?_⟩
  · obtain ⟨xs, hxs⟩ := h.trail
    obtain ⟨ys, hys⟩ := h'.trail
    exact ⟨xs ++ ys, by rw [hys, hxs, List.append_assoc]⟩
  · rcases h.jobs j job hd with hd | hd
    · exact h'.jobs j job hd
    · -- a completed job is completed once
      exact Or.inr ((h'.jobs j _ hd).elim id id)
  · rcases h.archives i d a hd with hd | hgone
    · exact h'.archives i d a hd
    · exact Or.inr (hgone.grow h'.recorded)

/-- What changes neither the chain nor a result, a job or an archive record. -/
theorem Lasting.other (htrail : auditTrail host u = auditTrail host s)
    (hfiles : ∀ p, (∀ i, p ≠ .desired i) → (∀ i, p ≠ .observed i) → (∀ i d, p ≠ .deployment i d) →
      (∀ i, p ≠ .intent i) → u.find? p = s.find? p) : Lasting host s u := by
  refine ⟨⟨[], by rw [htrail, List.append_nil]⟩, fun j d hd => ?_, fun j job hd => Or.inl ?_,
    fun i d a hd => Or.inl ?_⟩
  · rw [hfiles _ (by simp) (by simp) (by simp) (by simp), hd]
  · rw [hfiles _ (by simp) (by simp) (by simp) (by simp), hd]
  · rw [hfiles _ (by simp) (by simp) (by simp) (by simp), hd]

/-- A write lasts if it replaces no result and no archive record and only completes a job. -/
theorem Lasting.put (s : Store) {p : FilePath} (document : Document)
    (hresult : ∀ j, p = .result j → s.find? p = none)
    (harchive : ∀ i d, p = .archive i d → s.find? p = none)
    (hjob : ∀ j job, p = .job j → s.find? p = some (.authorizationJob job) →
      document = .authorizationJob (completedJob job)) : Lasting host s (s.put p document) := by
  refine ⟨⟨[], (List.append_nil _).symm⟩, fun j d hd => ?_, fun j job hd => ?_,
    fun i d a hd => Or.inl ?_⟩
  · rw [Store.find?_put_of_ne ?_, hd]
    intro heq
    have habsent := hresult j heq.symm
    rw [← heq, hd] at habsent
    cases habsent
  · rw [Store.find?_put]
    split
    · rename_i heq
      right
      rw [hjob j job heq.symm (heq ▸ hd)]
    · exact Or.inl hd
  · rw [Store.find?_put_of_ne ?_, hd]
    intro heq
    have habsent := harchive i d heq.symm
    rw [← heq, hd] at habsent
    cases habsent

/-- A loss lasts if it is no result and no job, and an archive record only of a tenant whose restore
or deletion is recorded. -/
theorem Lasting.remove (s : Store) {p : FilePath} (hresult : ∀ j, p ≠ .result j)
    (hjob : ∀ j, p ≠ .job j)
    (harchive : ∀ i d, p = .archive i d → Succeeded host [.restore, .delete] i s) :
    Lasting host s (s.remove p) := by
  refine ⟨⟨[], (List.append_nil _).symm⟩, fun j d hd => ?_, fun j job hd => Or.inl ?_,
    fun i d a hd => ?_⟩
  · rw [Store.find?_remove_of_ne (Ne.symm (hresult j)), hd]
  · rw [Store.find?_remove_of_ne (Ne.symm (hjob j)), hd]
  · by_cases hp : p = .archive i d
    · exact Or.inr ((harchive i d hp).grow fun _ hy => hy)
    · left
      rw [Store.find?_remove_of_ne (Ne.symm hp), hd]

/-- The changes of a commit last. -/
theorem Lasting.change (hchange : CommitChange host c s u) : Lasting host s u := by
  have htrail := hchange.trail
  cases hchange with
  | found _ => exact Lasting.other rfl fun _ _ _ _ _ => rfl
  | child child =>
      rcases makeTenantChild_cases c.tenantId child s with heq | ⟨n, heq⟩
      · rw [heq]
        exact Lasting.refl host s
      · rw [heq]
        exact Lasting.other rfl fun _ _ _ _ _ => rfl
  | dropChild child _ =>
      rcases dropTenantChild_cases c.tenantId child s with heq | ⟨n, heq⟩
      · rw [heq]
        exact Lasting.refl host s
      · rw [heq]
        exact Lasting.other rfl fun _ _ _ _ _ => rfl
  | drop _ => exact Lasting.other rfl fun _ _ _ _ _ => rfl
  | record r _ _ _ => exact Lasting.put s _ (by simp) (by simp) (by simp)
  | select m r _ _ _ => exact Lasting.put s _ (by simp) (by simp) (by simp)
  | keep m source _ _ _ => exact Lasting.put s _ (by simp) (by simp) (by simp)
  | undeployed m _ => exact Lasting.put s _ (by simp) (by simp) (by simp)
  | observe o _ => exact Lasting.put s _ (by simp) (by simp) (by simp)
  | retire d digest _ => exact Lasting.other rfl fun _ _ _ _ _ => rfl
  | discard d digest => exact Lasting.other rfl fun _ _ _ _ _ => rfl
  | forget d _ _ => exact Lasting.remove s (by simp) (by simp) (by simp)
  -- an archive record is only written where there was none
  | archive d r absent => exact Lasting.put s _ (by simp) (fun _ _ _ => absent) (by simp)
  | unbind d restored _ =>
      refine Lasting.remove s (by simp) (by simp) fun i d' heq => ?_
      simp only [FilePath.archive.injEq] at heq
      rw [← heq.1]
      exact restored.more (by simp)
  | append x a behind =>
      exact ⟨htrail, fun _ _ hd => hd, fun _ _ hd => Or.inl hd, fun _ _ _ hd => Or.inl hd⟩
  | answer r x absent _ _ => exact Lasting.put s _ (fun _ _ => absent) (by simp) (by simp)
  | complete job stored _ =>
      refine Lasting.put s _ (by simp) (by simp) fun j job' _ hfind => ?_
      rw [stored] at hfind
      cases hfind
      rfl
  | clear _ => exact Lasting.remove s (by simp) (by simp) (by simp)
  | erase p owner tombstoned =>
      refine Lasting.remove s ?_ ?_ fun i d heq => ?_
      · rintro j rfl
        cases owner
      · rintro j rfl
        cases owner
      · subst heq
        obtain rfl := Option.some.inj owner
        exact tombstoned.more (by simp)

/-- A closed commit stays closed. -/
theorem CommitScope.Closed.lasting (h : c.Closed s) (hlasting : Lasting host s u) :
    c.Closed u := by
  obtain ⟨⟨job, hjob, hcompleted⟩, hanswered⟩ := h
  refine ⟨?_, ?_⟩
  · rcases hlasting.jobs _ job hjob with hjob | hjob
    · exact ⟨job, hjob, hcompleted⟩
    · exact ⟨_, hjob, rfl⟩
  · obtain ⟨d, hd⟩ := Option.isSome_iff_exists.1 hanswered
    rw [hlasting.results _ d hd]
    rfl

/-- Files outside of the tenants are left by all changes but three. -/
theorem CommitChange.files (hchange : CommitChange host c s u) {p : FilePath}
    (hp : p.tenant? = none) :
    u.find? p = s.find? p ∨
      (∃ r x, p = .result c.jobId ∧ u.find? p = some (.operationResult r) ∧ Recorded host x s ∧
        x.resultDigest = resultDigest host.encoding r) ∨
      (p = .job c.jobId ∧ (s.find? (.result c.jobId)).isSome = true) ∨
      p = .intent c.intentId ∧ u.find? p = none ∧ c.Closed u := by
  have hlasting := Lasting.change hchange
  have hput : ∀ {q : FilePath} (d : Document), q.tenant? = some c.tenantId →
      (s.put q d).find? p = s.find? p := by
    intro q d hq
    refine Store.find?_put_of_ne ?_ _ _
    rintro rfl
    rw [hp] at hq
    cases hq
  have hremove : ∀ {q : FilePath}, q.tenant? = some c.tenantId →
      (s.remove q).find? p = s.find? p := by
    intro q hq
    refine Store.find?_remove_of_ne ?_ _
    rintro rfl
    rw [hp] at hq
    cases hq
  cases hchange with
  | found _ | retire _ _ _ | discard _ _ | append _ _ _ | drop _ => exact Or.inl rfl
  | child child =>
      left
      rcases makeTenantChild_cases c.tenantId child s with heq | ⟨n, heq⟩
      · rw [heq]
      · rw [heq]
        rfl
  | dropChild child _ =>
      left
      rcases dropTenantChild_cases c.tenantId child s with heq | ⟨n, heq⟩
      · rw [heq]
      · rw [heq]
        rfl
  | record _ _ _ _ | select _ _ _ _ _ | keep _ _ _ _ _ | undeployed _ _ | observe _ _
  | archive _ _ _ => exact Or.inl (hput _ rfl)
  | forget _ _ _ | unbind _ _ _ => exact Or.inl (hremove rfl)
  | erase _ owner _ => exact Or.inl (hremove owner)
  | answer r x _ recorded vouched =>
      by_cases hresult : p = .result c.jobId
      · subst hresult
        exact Or.inr (Or.inl ⟨r, x, rfl, Store.find?_put_self _ _ _, recorded, vouched⟩)
      · exact Or.inl (Store.find?_put_of_ne hresult _ _)
  | complete job _ answered =>
      by_cases hjob : p = .job c.jobId
      · exact Or.inr (Or.inr (Or.inl ⟨hjob, answered⟩))
      · exact Or.inl (Store.find?_put_of_ne hjob _ _)
  | clear closed =>
      by_cases hintent : p = .intent c.intentId
      · subst hintent
        exact Or.inr (Or.inr (Or.inr ⟨rfl, Store.find?_remove_self _ _, closed.lasting hlasting⟩))
      · exact Or.inl (Store.find?_remove_of_ne hintent _)

theorem Answered.change (h : Answered s) (hchange : CommitChange host c s u) : Answered u := by
  intro j job hjob hcompleted
  have hresult : (s.find? (.result j)).isSome = true := by
    rcases hchange.files (p := .job j) rfl with hsame | ⟨_, _, heq, -⟩ | ⟨heq, hanswered⟩ | ⟨heq, -⟩
    · rw [hsame] at hjob
      exact h j job hjob hcompleted
    · cases heq
    · cases heq
      exact hanswered
    · cases heq
  obtain ⟨d, hd⟩ := Option.isSome_iff_exists.1 hresult
  rw [(Lasting.change hchange).results j d hd]
  rfl

/-- A result keeps its entry while the chain grows. -/
theorem Vouched.grow {d : Document} (h : Vouched host d s)
    (hgrown : ∀ y ∈ auditTrail host s, y ∈ auditTrail host u) : Vouched host d u := by
  obtain ⟨r, x, hd, hrecorded, hvouched⟩ := h
  exact ⟨r, x, hd, hrecorded.grow hgrown, hvouched⟩

theorem Audited.change (h : Audited host s) (hchange : CommitChange host c s u) :
    Audited host u := by
  intro j d hd
  rcases hchange.files (p := .result j) rfl with hsame | ⟨r, x, -, hr, hx, hvouched⟩ | ⟨heq, -⟩ |
    ⟨heq, -⟩
  · rw [hsame] at hd
    exact (h j d hd).grow hchange.recorded
  · rw [hr] at hd
    exact ⟨r, x, (Option.some.inj hd).symm, hx.grow hchange.recorded, hvouched⟩
  · cases heq
  · cases heq

/-- An intent goes only behind its closed commit. -/
theorem CommitChange.cleared (hchange : CommitChange host c s u) : c.Cleared s u := by
  intro i
  rcases hchange.files (p := .intent i) rfl with hsame | ⟨_, _, heq, -⟩ | ⟨heq, -⟩ |
    ⟨heq, hgone, hclosed⟩
  · exact Or.inl hsame
  · cases heq
  · cases heq
  · cases heq
    exact Or.inr ⟨rfl, hgone, hclosed⟩

end Jobs

end StaticHostAgent.Commit
