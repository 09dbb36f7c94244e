import StaticHostAgent.Commit.System
import StaticHostAgent.Commit.Endings
import StaticHostAgent.State.MeteredHost

/-!
# What a deletion does

The finalizer of a deletion, from any state and for any job, plan and retirement journal. Nothing of
the tenant is lost before its tombstone is in the chain. A run that goes through leaves nothing of the
tenant but its tombstone, the result and the completed job. While a release of any tenant is retired,
that is renamed and not yet removed, every deletion is refused, so that a deletion that has crashed
between the two does not go on by itself (`deletion_laws`).
-/

set_option autoImplicit false

namespace StaticHostAgent.Commit

open Library Contracts Host Audit State

variable {host : StateHost} {limits : HostCapacityLimits} {expected job : AuthorizationJob}
  {plan : DeleteTransitionPlan} {retirement : Option ArchiveRetirementIntent} {t : Uuid7}
  {s u v : Store}

/-! ## The tombstone comes first -/

/-- A change leaves the tenant as it is or comes behind its tombstone, and the chain only grows. -/
structure TombstoneFirst (host : StateHost) (t : Uuid7) (s u : Store) : Prop where
  tenant : SameTenant t s u ∨ Tombstoned host t s
  recorded : ∀ y ∈ auditTrail host s, y ∈ auditTrail host u

theorem TombstoneFirst.behind (hdead : Tombstoned host t s) (haudit : u.audit = s.audit) :
    TombstoneFirst host t s u := by
  refine ⟨Or.inr hdead, fun y hy => ?_⟩
  unfold auditTrail at hy ⊢
  rwa [haudit]

/-- Over a run the tenant is as it was, or its tombstone is in the chain. -/
theorem TombstoneFirst.run (h : Relation.ReflTransGen (TombstoneFirst host t) s u) :
    SameTenant t s u ∨ Tombstoned host t u := by
  induction h with
  | refl => exact Or.inl (SameTenant.refl t s)
  | tail _ hstep ih =>
      -- a tombstone that is in the chain stays in it
      rcases ih with hsame | hdead
      · rcases hstep.tenant with hnext | hdead
        · exact Or.inl (hsame.trans hnext)
        · exact Or.inr (hdead.grow hstep.recorded)
      · exact Or.inr (hdead.grow hstep.recorded)

/-! ## Releases -/

/-- Only releases have changed. -/
structure OnlyReleases (s u : Store) : Prop where
  files : u.files = s.files
  tenants : u.tenants = s.tenants
  audit : u.audit = s.audit

theorem OnlyReleases.trans (h : OnlyReleases s u) (h' : OnlyReleases u v) : OnlyReleases s v :=
  ⟨h'.files.trans h.files, h'.tenants.trans h.tenants, h'.audit.trans h.audit⟩

theorem removeRelease_behind {d : Uuid7} {digest : Digest} (hdead : Tombstoned host t s) :
    Durable.Follows (TombstoneFirst host t) s (removeRelease t d digest)
      fun _ => OnlyReleases s := by
  refine Durable.Follows.query_bind fun found _ => ?_
  refine Durable.Follows.bind (M := fun _ => OnlyReleases s) ?_ ?_
  · refine Durable.Follows.when (fun _ => ?_) fun _ => ⟨rfl, rfl, rfl⟩
    exact Durable.Follows.effect (.behind hdead rfl) ⟨rfl, rfl, rfl⟩
  · intro _ u hu
    refine Durable.Follows.when (fun _ => ?_) fun _ => hu
    exact Durable.Follows.effect (.behind (hdead.same hu.audit) rfl) (hu.trans ⟨rfl, rfl, rfl⟩)

theorem deletedReleases_behind {records : List DeploymentRecord} (hdead : Tombstoned host t s) :
    Durable.Follows (TombstoneFirst host t) s
      (records.forM fun record => removeRelease t record.id record.releaseTreeDigest)
      fun _ => OnlyReleases s := by
  refine Durable.Follows.forM (I := fun _ => OnlyReleases s) ⟨rfl, rfl, rfl⟩ ?_
  intro pre record _ u hu
  exact (removeRelease_behind (hdead.same hu.audit)).weaken fun _ _ hv => hu.trans hv

/-- What is checked behind the releases. -/
theorem requireReleasesGone_eq_ok {x : Unit} (h : requireReleasesGone t s = .ok x) :
    ∀ n ∈ s.releases.keys, n.tenantId ≠ t := by
  obtain ⟨_, -, hgone⟩ := bind_eq_ok.1 h
  rw [require_eq_ok, decide_eq_true_eq] at hgone
  intro n hn htenant
  have hnone := List.filterMap_eq_nil_iff.1 hgone n hn
  rw [if_pos htenant] at hnone
  cases hnone

/-! ## Records and directories -/

/-- The child of the tenant directory that holds the record is there. -/
def houses (n : TenantNamespace) : FilePath → Bool
  | .archive _ _ => n.archives
  | .deployment _ _ => n.deployments
  | _ => true

/-- Every record of the tenant lies in its directory. -/
def Housed (t : Uuid7) (s : Store) : Prop :=
  ∀ p, p.tenant? = some t → (s.find? p).isSome = true →
    (s.tenants.find? t).any (houses · p) = true

theorem Housed.same (h : Housed t s) (hfiles : ∀ p, u.find? p = s.find? p)
    (htenants : u.tenants = s.tenants) : Housed t u := by
  intro p hp hfound
  rw [hfiles] at hfound
  rw [htenants]
  exact h p hp hfound

/-- Records of the tenant may be lost, and the tenant directory may have changed. -/
structure Lessened (t : Uuid7) (s u : Store) : Prop where
  files : ∀ p, u.find? p = s.find? p ∨ u.find? p = none ∧ p.tenant? = some t
  releases : u.releases = s.releases
  audit : u.audit = s.audit

theorem Lessened.refl (t : Uuid7) (s : Store) : Lessened t s s := ⟨fun _ => Or.inl rfl, rfl, rfl⟩

theorem Lessened.trans (h : Lessened t s u) (h' : Lessened t u v) : Lessened t s v := by
  refine ⟨fun p => ?_, h'.releases.trans h.releases, h'.audit.trans h.audit⟩
  rcases h'.files p with hsame | hlost
  · rw [hsame]
    exact h.files p
  · exact Or.inr hlost

theorem Lessened.absent (h : Lessened t s u) {p : FilePath} (hp : s.find? p = none) :
    u.find? p = none := by
  rcases h.files p with hsame | ⟨hlost, -⟩
  · rw [hsame, hp]
  · exact hlost

theorem Lessened.outside (h : Lessened t s u) {p : FilePath} (hp : p.tenant? = none) :
    u.find? p = s.find? p := by
  rcases h.files p with hsame | ⟨-, howner⟩
  · exact hsame
  · rw [hp] at howner
    cases howner

theorem requireEmptyChild_eq_ok {child : TenantChild} {present : Bool}
    (h : requireEmptyChild t child s = .ok present) :
    present = (s.tenants.find? t).any (·.has child) ∧
      (present = true → (childListing t child).ids s = []) := by
  unfold requireEmptyChild at h
  split at h
  · rename_i hthere
    simp only [bind_eq_ok, require_eq_ok, decide_eq_true_eq, pure_eq_ok] at h
    obtain ⟨-, hempty, rfl⟩ := h
    exact ⟨hthere.symm, fun _ => hempty⟩
  · rename_i hmissing
    obtain rfl := pure_eq_ok.1 h
    exact ⟨(Bool.eq_false_iff.2 hmissing).symm, fun hfalse => by cases hfalse⟩

/-- A child is removed, which held nothing if it was there. -/
structure ChildDropped (t : Uuid7) (child : TenantChild) (s u : Store) : Prop where
  lessened : Lessened t s u
  empty : (s.tenants.find? t).any (·.has child) = true → (childListing t child).ids u = []
  others : ∀ other, other ≠ child →
    (u.tenants.find? t).any (·.has other) = (s.tenants.find? t).any (·.has other)

theorem dropTenantChild_dropped {child : TenantChild} (hempty : (childListing t child).ids s = []) :
    ChildDropped t child s (dropTenantChild t child s) := by
  unfold dropTenantChild
  cases hfound : s.tenants.find? t with
  | none =>
      rw [hfound] at *
      exact ⟨Lessened.refl t s, fun _ => hempty, fun _ _ => by rw [hfound]⟩
  | some n =>
      refine ⟨⟨fun _ => Or.inl rfl, rfl, rfl⟩, fun _ => hempty, fun other hother => ?_⟩
      show ((s.tenants.insert t (TenantNamespace.without n child)).find? t).any (·.has other) = _
      rw [Directory.find?_insert_self, hfound, Option.any_some, Option.any_some]
      cases child with
      | archives =>
          cases other with
          | archives => exact absurd rfl hother
          | deployments => rfl
      | deployments =>
          cases other with
          | archives => rfl
          | deployments => exact absurd rfl hother

theorem removeTenantChild_behind (child : TenantChild) (hdead : Tombstoned host t s) :
    Durable.Follows (TombstoneFirst host t) s (removeTenantChild t child)
      fun _ => ChildDropped t child s := by
  refine Durable.Follows.query_bind fun present hpresent => ?_
  obtain ⟨hthere, hempty⟩ := requireEmptyChild_eq_ok hpresent
  refine Durable.Follows.when (fun hyes => ?_) fun hno => ?_
  · have hdropped := dropTenantChild_dropped (hempty hyes)
    exact Durable.Follows.effect (.behind hdead hdropped.lessened.audit) hdropped
  · refine ⟨Lessened.refl t s, fun hyes => ?_, fun _ _ => rfl⟩
    rw [← hthere, hno] at hyes
    cases hyes

/-- The tenant directory is removed, which held neither state. -/
structure TenantDropped (t : Uuid7) (s u : Store) : Prop where
  lessened : Lessened t s u
  directory : u.tenants.find? t = none
  desired : u.find? (.desired t) = none
  observed : u.find? (.observed t) = none

theorem removeTenantDirectory_behind (hdead : Tombstoned host t s) :
    Durable.Follows (TombstoneFirst host t) s (removeTenantDirectory t)
      fun _ => TenantDropped t s := by
  refine Durable.Follows.query_bind fun _ hempty => ?_
  refine Durable.Follows.effect (.behind hdead rfl) ?_
  unfold requireEmptyTenant at hempty
  split at hempty
  · cases hempty
  · simp only [require_eq_ok, Bool.and_eq_true, Option.isNone_iff_eq_none] at hempty
    obtain ⟨⟨-, hdesired⟩, hobserved⟩ := hempty
    exact ⟨⟨fun _ => Or.inl rfl, rfl, rfl⟩, Directory.find?_erase_self _ _, hdesired, hobserved⟩

/-- The tenant is gone with everything that lay in its directory. -/
structure TenantGone (t : Uuid7) (s u : Store) : Prop where
  lessened : Lessened t s u
  directory : u.tenants.find? t = none
  records : Housed t s → ∀ p, p.tenant? = some t → u.find? p = none

/-- A record in a child of the tenant directory is not there where the child is not. -/
theorem Housed.absent (h : Housed t s) {p : FilePath} (hp : p.tenant? = some t)
    (hmissing : (s.tenants.find? t).any (houses · p) = false) : s.find? p = none := by
  cases hfound : s.find? p with
  | none => rfl
  | some document =>
      have hthere := h p hp (by rw [hfound]; rfl)
      rw [hmissing] at hthere
      cases hthere

theorem removeTenantState_behind {intent : TransactionIntent} {n : TenantNamespace}
    (htenant : intent.tenantId = t) (hn : s.tenants.find? t = some n)
    (hdead : Tombstoned host t s) :
    Durable.Follows (TombstoneFirst host t) s (removeTenantState host job intent n)
      fun _ => TenantGone t s := by
  unfold removeTenantState
  rw [htenant]
  refine Durable.Follows.query_bind fun paths hpaths => ?_
  have howner := remainingRecords_tenant hpaths
  refine Durable.Follows.bind (M := fun _ v => Lessened t s v ∧ v.tenants = s.tenants) ?_ ?_
  · refine Durable.Follows.forM (I := fun _ v => Lessened t s v ∧ v.tenants = s.tenants)
      ⟨Lessened.refl t s, rfl⟩ ?_
    rintro pre path hpath v ⟨hv, htenants⟩
    refine Durable.Follows.effect (.behind (hdead.same hv.audit) rfl) ⟨hv.trans ?_, htenants⟩
    refine ⟨fun p => ?_, rfl, rfl⟩
    by_cases hp : p = path.components
    · rw [hp]
      exact Or.inr ⟨Store.find?_remove_self _ _, howner path hpath⟩
    · exact Or.inl (Store.find?_remove_of_ne hp _)
  · rintro - v ⟨hv, htenants⟩
    refine Durable.Follows.bind (removeTenantChild_behind .archives (hdead.same hv.audit)) ?_
    intro _ w hw
    have hvw := hv.trans hw.lessened
    refine Durable.Follows.bind (removeTenantChild_behind .deployments (hdead.same hvw.audit)) ?_
    intro _ x hx
    have hvx := hvw.trans hx.lessened
    refine (removeTenantDirectory_behind (hdead.same hvx.audit)).weaken ?_
    intro _ y hy
    refine ⟨hvx.trans hy.lessened, hy.directory, fun hhoused p hp => ?_⟩
    -- the states were gone before the directory went, the histories before their children did
    cases p with
    | desired t' =>
        obtain rfl := Option.some.inj hp
        exact hy.desired
    | observed t' =>
        obtain rfl := Option.some.inj hp
        exact hy.observed
    | archive t' d =>
        obtain rfl := Option.some.inj hp
        cases hthere : n.archives with
        | true =>
            have hempty := hw.empty (by rw [htenants, hn]; exact hthere)
            have hnone : w.find? (.archive t' d) = none :=
              (Listing.not_mem_ids (l := Listing.archives t')).1 (by
                rw [show (Listing.archives t').ids w = [] from hempty]
                exact List.not_mem_nil)
            exact hy.lessened.absent (hx.lessened.absent hnone)
        | false =>
            -- a child that is not there holds no record
            have hnone := hhoused.absent (p := .archive t' d) rfl (by rw [hn]; exact hthere)
            exact hy.lessened.absent (hvx.absent hnone)
    | deployment t' d =>
        obtain rfl := Option.some.inj hp
        cases hthere : n.deployments with
        | true =>
            have hempty := hx.empty (by
              rw [hw.others .deployments (by simp), htenants, hn]
              exact hthere)
            have hnone : x.find? (.deployment t' d) = none :=
              (Listing.not_mem_ids (l := Listing.deployments t')).1 (by
                rw [show (Listing.deployments t').ids x = [] from hempty]
                exact List.not_mem_nil)
            exact hy.lessened.absent hnone
        | false =>
            have hnone := hhoused.absent (p := .deployment t' d) rfl (by rw [hn]; exact hthere)
            exact hy.lessened.absent (hvx.absent hnone)
    | job _ | result _ | correlation _ | intent _ => cases hp

theorem removeDeletedState_behind {intent : TransactionIntent} {entry : AuditEntry}
    (htenant : intent.tenantId = t) (hdead : Tombstoned host t s) :
    Durable.Follows (TombstoneFirst host t) s (removeDeletedState host job intent entry)
      fun _ => TenantGone t s := by
  refine Durable.Follows.query_bind fun _ _ => ?_
  refine Durable.Follows.query_bind fun found hfound => ?_
  rw [htenant] at hfound
  cases found with
  | none =>
      have hnone := pure_eq_ok.1 hfound
      refine Durable.Follows.pure ⟨Lessened.refl t s, hnone, fun hhoused p hp => ?_⟩
      exact hhoused.absent hp (by rw [hnone]; rfl)
  | some n => exact removeTenantState_behind htenant (pure_eq_ok.1 hfound) hdead

/-! ## The end -/

theorem closeDelete_behind {p : DeleteProgress} (hdead : Tombstoned host t s)
    (hjob : s.find? (.job p.job.jobId) = some (.authorizationJob p.job)) :
    Durable.Follows (TombstoneFirst host t) s (closeDelete host plan p)
      fun o u => o.result = plan.result ∧ Ended p.job plan.result plan.intentId s u := by
  have hallowed : AllowsBeside (TombstoneFirst host t) s := by
    intro v w hv hw
    exact .behind (hdead.same hv) (hw.trans hv.symm)
  unfold closeDelete
  refine (ending_ends hallowed hjob).weaken ?_
  rintro o u ⟨rfl, hu⟩
  exact ⟨rfl, hu⟩

/-- Nothing of the tenant is left but what tells of its deletion. -/
structure Erased (host : StateHost) (plan : DeleteTransitionPlan) (job : AuthorizationJob)
    (s u : Store) : Prop where
  tombstone : Recorded host plan.auditEntry u
  directory : u.tenants.find? plan.tenantId = none
  releases : ∀ n ∈ u.releases.keys, n.tenantId ≠ plan.tenantId
  records : Housed plan.tenantId s → ∀ p, p.tenant? = some plan.tenantId → u.find? p = none
  result : u.find? (.result job.jobId) = some (.operationResult plan.result)
  completed : ∃ terminal, u.find? (.job job.jobId) = some (.authorizationJob terminal) ∧
    terminal.phase = .completed
  cleared : u.find? (.intent plan.intentId) = none

theorem finalizeDelete_behind :
    Durable.Follows (TombstoneFirst host plan.tenantId) s
      (finalizeDelete host limits expected plan retirement) fun o u =>
        ∃ job, routeSameJob host expected s = .ok job ∧ o.result = plan.result ∧
          Erased host plan job s u := by
  unfold finalizeDelete
  refine Durable.Follows.query_bind fun p hvalid => ?_
  refine Durable.Follows.query_bind fun records _ => ?_
  have hprepared := validateDeleteTransition_prepared hvalid
  have hplanned := hprepared.planned
  obtain ⟨hid, hjob⟩ := requireSameJob_scope hprepared.same
  -- the tombstone is appended to a chain of a tenant that is as it was
  have happends : ∀ (x : Store) (a : AuditStore),
      auditTrail host (x.setAudit a) = auditTrail host x ++ [plan.auditEntry] →
        TombstoneFirst host plan.tenantId x (x.setAudit a) := by
    intro x a htrail
    refine ⟨Or.inl ⟨rfl, rfl, fun _ => rfl, fun _ => rfl, rfl, fun _ _ => rfl⟩, fun y hy => ?_⟩
    rw [htrail]
    exact List.mem_append_left _ hy
  refine Durable.Follows.bind (ensureAudit_steps happends).raising ?_
  rintro - u ⟨a, rfl, hrecorded⟩
  have hdead : Tombstoned host plan.tenantId (s.setAudit a) :=
    ⟨plan.auditEntry, hrecorded, by simp [hplanned.operation], hplanned.tenant, hplanned.status⟩
  -- from here on every change is behind the tombstone
  refine Durable.Follows.bind (deletedReleases_behind hdead).raising ?_
  intro _ v hv
  -- no release of the tenant, published or retired, is left before its records go
  refine Durable.Follows.query_bind fun _ hgone => ?_
  have hgone := requireReleasesGone_eq_ok hgone
  have hdead := hdead.same hv.audit
  refine Durable.Follows.bind (removeDeletedState_behind hplanned.intent hdead) ?_
  intro _ w hw
  have hfiles : ∀ q, v.find? q = s.find? q := fun q => by
    unfold Store.find?
    rw [hv.files]
    rfl
  have hstored : w.find? (.job p.job.jobId) = some (.authorizationJob p.job) := by
    rw [hw.lessened.outside rfl, hfiles, hid]
    exact hjob
  have hclose : Durable.Follows (TombstoneFirst host plan.tenantId) w (closeDelete host plan p)
      fun o x => o.result = plan.result ∧ Ended p.job plan.result plan.intentId w x :=
    closeDelete_behind (hdead.same hw.lessened.audit) hstored
  refine hclose.raising.weaken ?_
  rintro o x ⟨hresult, hx⟩
  refine ⟨p.job, hprepared.same, hresult, ?_, ?_, ?_, fun hhoused q hq => ?_, hx.result,
    hx.completed, hx.cleared⟩
  · exact hrecorded.same (hx.audit.trans (hw.lessened.audit.trans hv.audit))
  · rw [hx.tenants]
    exact hw.directory
  · rw [hx.releases, hw.lessened.releases]
    exact hgone
  · rw [hx.tenant hq]
    exact hw.records (hhoused.same hfiles (hv.tenants.trans rfl)) q hq

/-! ## Retired releases -/

/-- With a retired release no inventory is accepted. -/
theorem deletedDeployments_retired {p : DeleteProgress} {n : ReleaseName}
    (hn : n ∈ s.releases.keys) (hretired : n.retired.isSome = true) (records : List DeploymentRecord) :
    deletedDeployments host plan p s ≠ .ok records := by
  intro h
  obtain ⟨found, -, h⟩ := bind_eq_ok.1 h
  obtain ⟨_, hreleases, -⟩ := bind_eq_ok.1 h
  obtain ⟨_, hinventory, -⟩ := bind_eq_ok.1 hreleases
  rw [inDeletion_eq_ok] at hinventory
  obtain ⟨_, hall, -⟩ := bind_eq_ok.1 hinventory
  rw [require_eq_ok, List.all_eq_true] at hall
  have hpublished := hall n hn
  rw [Option.isNone_iff_eq_none] at hpublished
  rw [hpublished] at hretired
  cases hretired

theorem finalizeDelete_refused {n : ReleaseName} (hn : n ∈ s.releases.keys)
    (hretired : n.retired.isSome = true) :
    ∃ e, finalizeDelete host limits expected plan retirement s = ⟨[], s, .error e⟩ := by
  unfold finalizeDelete
  cases hvalid : validateDeleteTransition host limits expected plan retirement s with
  | error e => exact ⟨e, Durable.query_bind_error hvalid⟩
  | ok p =>
      rw [Durable.query_bind_ok hvalid]
      cases hrecords : deletedDeployments host plan p s with
      | error e => exact ⟨e, Durable.query_bind_error hrecords⟩
      | ok records => exact absurd hrecords (deletedDeployments_retired hn hretired records)

/-- The attempt is a deletion. -/
def CommitAttempt.Deletes : CommitAttempt → Prop
  | .delete _ _ _ _ => True
  | _ => False

/-- Any number of deletions, of whatever tenants, change nothing while a release is retired. -/
theorem deletions_stuck {n : ReleaseName} (hn : n ∈ s.releases.keys)
    (hretired : n.retired.isSome = true)
    (h : CommitRuns host CommitAttempt.Deletes (fun _ _ => False) s u) : u = s := by
  have hrefused : ∀ a, CommitAttempt.Deletes a → ∃ e, a.run host s = ⟨[], s, .error e⟩ := by
    intro a ha
    cases a with
    | delete limits job plan retirement => exact finalizeDelete_refused hn hretired
    | create _ _ _ | route _ _ _ | deployment _ _ _ | archive _ _ _ | restore _ _ _ _ => cases ha
  induction h with
  | refl => rfl
  | tail _ turn ih =>
      subst ih
      cases turn with
      | stops a may =>
          obtain ⟨e, hrun⟩ := hrefused a may
          rw [hrun]
      | crashes a may left =>
          obtain ⟨e, hrun⟩ := hrefused a may
          rw [hrun] at left
          cases left
      | other step => cases step

/-- A release is renamed and not yet removed. -/
def Retired (s : Store) : Prop := ∃ n ∈ s.releases.keys, n.retired.isSome = true

theorem removeRelease_passes {n : ReleaseName} {d : Uuid7} {digest : Digest}
    (hpublished : n.retired = none) (hn : n ∈ s.releases.keys) :
    Durable.Passes Retired s (removeRelease t d digest) fun _ u => n ∈ u.releases.keys := by
  refine Durable.Passes.query_bind fun found _ => ?_
  refine Durable.Passes.bind (M := fun _ u => n ∈ u.releases.keys) ?_ ?_
  · -- a release that is there is renamed before it is removed
    refine Durable.Passes.when (fun _ => Durable.Passes.hit ?_) fun _ => hn
    refine ⟨⟨t, d, some digest.value⟩, Directory.mem_keys.2 ?_, rfl⟩
    show (((s.releases.erase _).insert _ _).find? _).isSome = true
    rw [Directory.find?_insert_self]
    rfl
  · intro _ u hu
    refine Durable.Passes.when (fun _ => ?_) fun _ => hu
    refine Durable.Passes.of_follows
      (Durable.Follows.effect (R := fun _ _ => True) trivial ?_)
    show n ∈ (u.releases.erase ⟨t, d, some digest.value⟩).keys
    rw [Directory.mem_keys, Directory.find?_erase_of_ne, ← Directory.mem_keys]
    · exact hu
    · rintro rfl
      cases hpublished

/-- A deletion that goes through has renamed every release that the tenant had. -/
theorem finalizeDelete_passes {n : ReleaseName} (hn : n ∈ s.releases.keys)
    (htenant : n.tenantId = plan.tenantId) :
    Durable.Passes Retired s (finalizeDelete host limits expected plan retirement)
      fun _ _ => False := by
  unfold finalizeDelete
  refine Durable.Passes.query_bind fun p _ => ?_
  refine Durable.Passes.query_bind fun records hrecords => ?_
  -- the inventory is accepted, so the release is a published one
  have hpublished : n.retired = none := by
    cases hretired : n.retired with
    | none => rfl
    | some digest =>
        exact absurd hrecords (deletedDeployments_retired hn (by rw [hretired]; rfl) records)
  have haudit : Durable.Follows (fun _ _ => True) s (ensureAudit host .route plan.auditEntry)
      fun _ u => ∃ a, u = s.setAudit a ∧ Recorded host plan.auditEntry u :=
    ensureAudit_steps fun _ _ _ => trivial
  refine Durable.Passes.bind (Durable.Passes.of_follows haudit.raising) ?_
  rintro - u ⟨a, rfl, -⟩
  have hloop : Durable.Passes Retired (s.setAudit a)
      (records.forM fun record =>
        removeRelease plan.tenantId record.id record.releaseTreeDigest)
      fun _ v => n ∈ v.releases.keys := by
    refine Durable.Passes.forM (I := fun v : Store => n ∈ v.releases.keys) hn ?_
    intro record _ v hv
    exact removeRelease_passes hpublished hv
  refine Durable.Passes.bind hloop.raising ?_
  intro _ v hv
  refine Durable.Passes.query_bind fun _ hgone => ?_
  exact absurd htenant (requireReleasesGone_eq_ok hgone n hv)

/-! ## The laws -/

/-- What the finalizer of a deletion does, from any state. -/
structure DeletionLaws (host : StateHost) : Prop where
  /-- In every state it leaves, the tenant is as it was or its tombstone is in the chain. -/
  tombstoneFirst : ∀ limits expected plan retirement s,
    let run := finalizeDelete host limits expected plan retirement s
    (∀ u ∈ run.trace, SameTenant plan.tenantId s u ∨ Tombstoned host plan.tenantId u) ∧
      (SameTenant plan.tenantId s run.state ∨ Tombstoned host plan.tenantId run.state)
  /-- A run that goes through leaves nothing of the tenant. -/
  erases : ∀ limits expected plan retirement s o,
    (finalizeDelete host limits expected plan retirement s).result = .ok o →
      ∃ job, routeSameJob host expected s = .ok job ∧ o.result = plan.result ∧
        Erased host plan job s (finalizeDelete host limits expected plan retirement s).state
  /-- From a state with a retired release, of whatever tenant, no deletions lead anywhere. -/
  stuck : ∀ s u, Retired s → CommitRuns host CommitAttempt.Deletes (fun _ _ => False) s u → u = s
  /-- A deletion that goes through for a tenant with a release makes such a state durable on its way,
  so that it does not go on by itself if it crashes there. -/
  passes : ∀ limits expected plan retirement s o (n : ReleaseName),
    (finalizeDelete host limits expected plan retirement s).result = .ok o →
      n ∈ s.releases.keys → n.tenantId = plan.tenantId →
        ∃ u ∈ (finalizeDelete host limits expected plan retirement s).trace, Retired u

theorem deletion_laws (host : StateHost) : DeletionLaws host where
  tombstoneFirst := by
    intro limits expected plan retirement s
    have hfollows : Durable.Follows (TombstoneFirst host plan.tenantId) s
        (finalizeDelete host limits expected plan retirement) _ := finalizeDelete_behind
    exact ⟨fun u hu => TombstoneFirst.run (hfollows.visited u hu),
      TombstoneFirst.run hfollows.stopped⟩
  erases := by
    intro limits expected plan retirement s o hok
    exact finalizeDelete_behind.post o hok
  stuck := by
    rintro s u ⟨n, hn, hretired⟩ h
    exact deletions_stuck hn hretired h
  passes := by
    intro limits expected plan retirement s o n hok hn htenant
    rcases finalizeDelete_passes hn htenant o hok with hretired | hfalse
    · exact hretired
    · exact absurd hfalse id

end StaticHostAgent.Commit

/-! ## A deletion that goes through -/

namespace StaticHostAgent.Commit.DeletionRun

open Library Contracts Host Audit State

def site : Site := sampleSite .archived (some (sampleId 5))

def observed : TenantObservedState := sampleObserved (placeDigest .manifest 0) .archived none none

def archive : ArchiveRecord := sampleArchive (placeDigest .manifest 0) (sampleId 9)

def retirement : ArchiveRetirementIntent :=
  sampleRetirement .delete archive (placeDigest .archiveRecord 2)

def request : OperationRequest := sampleRequest .delete none

def evidence : DeletionEvidence :=
  ⟨.archived, ["site"], some (placeDigest .archiveRecord 2), some archive.bucket, some archive.key,
    some archive.versionId, none⟩

def plan : DeleteTransitionPlan where
  tenantId := sampleTenant
  intentId := sampleIntentId
  intent := sampleIntent .delete
    (some ⟨some observed, sampleId 6, .absent, none, sampleId 7, .absent⟩) (some (site, 0)) none
  result := { sampleResult .delete site with manifest := none }
  auditEntry := { sampleEntry .delete (placeDigest .result 4) with
    deletionEvidence := some evidence }

def job : AuthorizationJob :=
  sampleJob request 3
    ⟨false, some .archived, some (placeDigest .manifest 0), some (placeDigest .deploymentRecord 1),
      some (placeDigest .archiveRecord 2), ⟨.platformState, 0⟩, some (some evidence)⟩
    (some ⟨site, some archive⟩) (sampleDispatch observed .absent [sampleId 5] [sampleId 5])

noncomputable def host : StateHost :=
  meteredHost (tableAuditHost [.site site, .deploymentRecord (sampleDeployment 5 (sampleId 9)),
    .archiveRecord archive, .operationRequest request, .operationResult plan.result,
    .archiveRetirementIntent retirement, .auditEntry plan.auditEntry, .tenantObservedState observed,
    .transactionIntent plan.intent, .authorizationJob job, .authorizationJob (completedJob job)])
    (2 ^ 50) 0

/-- An archived tenant with its release, the claimed job and its two intents. -/
def store : Store :=
  sampleStore [(.desired sampleTenant, .site site),
    (.observed sampleTenant, .tenantObservedState observed),
    (.deployment sampleTenant (sampleId 5), .deploymentRecord (sampleDeployment 5 (sampleId 9))),
    (.archive sampleTenant (sampleId 5), .archiveRecord archive),
    (.job sampleJobId, .authorizationJob job),
    (.intent sampleIntentId, .transactionIntent plan.intent),
    (.intent (sampleId 12), .archiveRetirementIntent retirement)] [sampleId 5]

example : (finalizeDelete host defaultHostCapacityLimits job plan (some retirement) store).result =
    .ok ⟨plan.result, true⟩ := by decide +kernel

end StaticHostAgent.Commit.DeletionRun
