import StaticHostAgent.Commit.FinalizerSimulation
import StaticHostAgent.Commit.Restore
import StaticHostAgent.Commit.Delete

/-!
# The restore and the delete commit follow the changes

The two commits that take something away for good, from any state and for any job, plan and
retirement journal, make nothing durable but changes of their own scope. A restore unbinds its
archive record behind its own audit entry and selects the deployment it has written; a deletion
takes nothing away before its tombstone is in the chain.
-/

set_option autoImplicit false

namespace StaticHostAgent.Commit

open Library Contracts Host Audit State

variable {host : StateHost} {limits : HostCapacityLimits} {expected job : AuthorizationJob}
  {c : CommitScope} {s : Store}

/-! ## Restore -/

section Restore

variable {plan : DeploymentTransitionPlan} {retirement : ArchiveRetirementIntent}

/-- What the revalidated plan of a restore is known to be. -/
structure RestorePlanned (e : Encoding) (job : AuthorizationJob) (plan : DeploymentTransitionPlan)
    (retirement : ArchiveRetirementIntent) : Prop where
  requested : job.request.tenantId = some plan.tenantId
  selected : plan.manifest.spec.desiredDeployment =
    some ⟨plan.deployment.id, plan.deployment.archiveSha256⟩
  live : plan.manifest.spec.desiredState = .active
  active : plan.observedState.activeDeploymentId = some plan.deployment.id
  retires : retirement.tenantId = plan.tenantId
  operation : plan.auditEntry.operation = .restore
  tenant : plan.auditEntry.tenantId = some plan.tenantId
  status : plan.auditEntry.resultStatus = .succeeded
  vouched : plan.auditEntry.resultDigest = resultDigest e plan.result

theorem requireRestoreSource_eq_ok {a : RestoreAuthority} {archive : ArchiveRecord}
    (h : requireRestoreSource host job a = .ok archive) :
    job.request.tenantId = some a.sourceManifest.metadata.id ∧
      a.retirement.tenantId = a.sourceManifest.metadata.id := by
  unfold requireRestoreSource at h
  split at h
  · cases h
  · simp only [bind_eq_ok, require_eq_ok, Bool.and_eq_true, decide_eq_true_eq] at h
    obtain ⟨-, ⟨⟨hjob, -⟩, hretirement⟩, -⟩ := h
    exact ⟨hjob.tenant, hretirement.tenant⟩

theorem planRestoreTransition_planned {a : RestoreAuthority} {sequence : Nat}
    {previous : Option Digest} {timestamp : Timestamp}
    (h : planRestoreTransition host job a sequence previous timestamp = .ok plan) :
    RestorePlanned host.encoding job plan a.retirement := by
  unfold planRestoreTransition at h
  simp only [bind_eq_ok, pure_eq_ok] at h
  obtain ⟨-, -, archive, hsource, -, -, -, -, -, -, rfl⟩ := h
  obtain ⟨hrequested, hretires⟩ := requireRestoreSource_eq_ok hsource
  exact ⟨hrequested, rfl, rfl, rfl, hretires, rfl, rfl, rfl, rfl⟩

theorem validateRestorePlan_planned {bound : RestoreRecovery}
    (h : validateRestorePlan host job plan retirement s = .ok bound) :
    RestorePlanned host.encoding job plan retirement := by
  unfold validateRestorePlan at h
  simp only [bind_eq_ok, require_eq_ok, decide_eq_true_eq, pure_eq_ok] at h
  obtain ⟨-, -, _, -, -, -, _, -, -, -, _, -, _, -, planned, hplanned, -, heq, -⟩ := h
  rw [heq] at hplanned
  have hrevalidated := planRestoreTransition_planned hplanned
  exact ⟨hrevalidated.requested, hrevalidated.selected, hrevalidated.live, hrevalidated.active,
    hrevalidated.retires, hrevalidated.operation, hrevalidated.tenant, hrevalidated.status,
    hrevalidated.vouched⟩

/-- What the preparation of a restore commit has found. -/
structure RestorePrepared (host : StateHost) (expected job : AuthorizationJob)
    (plan : DeploymentTransitionPlan) (retirement : ArchiveRetirementIntent) (p : RestoreProgress)
    (s : Store) : Prop where
  same : routeSameJob host expected s = .ok job
  planned : RestorePlanned host.encoding job plan retirement
  desired : s.find? (.desired plan.tenantId) = some p.desired
  observed : s.find? (.observed plan.tenantId) = some p.observed
  recorded : p.deploymentMissing = false →
    s.find? (.deployment plan.tenantId plan.deployment.id) =
      some (.deploymentRecord plan.deployment)
  room : p.deploymentMissing = true →
    ((Listing.deployments plan.tenantId).ids s).length ≤ 3
  retired : ∀ r ∈ p.retired, r.tenantId = plan.tenantId ∧ r.id ≠ plan.deployment.id

/-- The restored deployment is retained. -/
theorem candidate_retained (history : List Uuid7) (candidate : Uuid7) :
    candidate ∈ retainedRestored history candidate := by
  have hlast : (retainedRestored history candidate).getLast? = some candidate := by
    unfold retainedRestored restoredHistory maximumRetainedDeployments
    -- the history is not empty, so dropping leaves its last member
    have hkept : ¬ (history ++ [candidate]).length ≤ (history ++ [candidate]).length - 3 := by
      rw [List.length_append, List.length_singleton]
      omega
    rw [List.getLast?_drop, if_neg hkept, List.getLast?_concat]
  exact List.mem_of_getLast? hlast

theorem validateRestoreTransition_prepared {p : RestoreProgress}
    (h : validateRestoreTransition host limits expected plan retirement s = .ok (job, p)) :
    RestorePrepared host expected job plan retirement p s := by
  unfold validateRestoreTransition at h
  simp only [bind_eq_ok, require_eq_ok, pure_eq_ok, Prod.mk.injEq] at h
  obtain ⟨current, hsame, bound, hplanned, removal, -, desired, hdesired, observed, hobserved,
    -, -, missing, hmissing, _, -, _, -, -, -, _, -, auditMissing, -, -, -, actual, hactual, -,
    hhistory, -, -, retired, hretired, -, -, rfl, rfl⟩ := h
  refine ⟨hsame, validateRestorePlan_planned hplanned, (readLocked_eq_ok.1 hdesired).1,
    (readLocked_eq_ok.1 hobserved).1, ?_, ?_, ?_⟩
  · rintro rfl
    rcases missingExact_eq_ok.1 hmissing with ⟨-, hfalse⟩ | ⟨hread, -⟩
    · cases hfalse
    · exact (readLocked_eq_ok.1 hread).1
  · rintro rfl
    -- a missing record is not listed, so the history is within its retained bound
    obtain ⟨hlisted, hbound⟩ := tenantDeploymentTransitionIds_eq_ok.1 hactual
    obtain ⟨-, rfl, -, -⟩ := boundedDeploymentIds_eq_ok.1 hlisted
    rcases hbound with hshort | hlast
    · exact hshort
    · have habsent : s.find? (.deployment plan.tenantId plan.deployment.id) = none := by
        rcases missingExact_eq_ok.1 hmissing with ⟨hnone, -⟩ | ⟨-, hfalse⟩
        · exact hnone
        · cases hfalse
      exact absurd (List.mem_of_getLast? hlast) (Listing.not_mem_ids.2 habsent)
  · intro r hr
    have hid : ∀ d r, readDeployment host plan.tenantId d s = .ok r →
        DeploymentRecord.id r = d := fun d r hread => (readDeployment_identity hread).2
    obtain ⟨hids, hread⟩ := (mapM_eq_ok hid).1 hretired
    refine ⟨(readDeployment_identity (hread r hr)).1, fun heq => ?_⟩
    have hleaves : r.id ∈ retired.map DeploymentRecord.id := List.mem_map_of_mem hr
    rw [← hids, List.mem_filter, decide_eq_true_eq] at hleaves
    exact hleaves.2 (heq ▸ candidate_retained _ _)

/-- Behind the audit entry of the restore its archive record may go. -/
theorem removeRestoredArchive_follows {m : Site} (htenant : retirement.tenantId = c.tenantId)
    (hrestored : Succeeded host [.restore] c.tenantId s)
    (hdesired : s.find? (.desired c.tenantId) = some (.site m))
    (hlive : m.spec.desiredState ≠ .archived) :
    Durable.Follows (CommitChange host c) s (removeRestoredArchive host retirement)
      fun _ u => (∀ p, (∀ d, p ≠ .archive c.tenantId d) → u.find? p = s.find? p) ∧
        u.audit = s.audit := by
  refine Durable.Follows.query_bind fun found _ => ?_
  cases found with
  | none => exact Durable.Follows.pure ⟨fun _ _ => rfl, rfl⟩
  | some archive =>
      rw [htenant]
      refine Durable.Follows.effect (.unbind archive.deploymentId hrestored fun m' hm => ?_)
        ⟨fun p hp => Store.find?_remove_of_ne (hp _) _, rfl⟩
      rw [hdesired] at hm
      cases hm
      exact hlive

/-- The deployments that leave the history go one after the other, each release before its
record. -/
theorem removeRestoredDeployments_follow {m : Site} {o : TenantObservedState} {x : AuditEntry}
    {selected : DeploymentReference} {retired : List DeploymentRecord}
    (hselected : m.spec.desiredDeployment = some selected)
    (hactive : o.activeDeploymentId = some selected.id)
    (hretired : ∀ r ∈ retired, r.tenantId = c.tenantId ∧ r.id ≠ selected.id)
    (hs : Retiring c.tenantId m o job s) (hrecorded : Recorded host x s) :
    Durable.Follows (CommitChange host c) s
      (retired.forM (removeRestoredDeployment host c.tenantId))
      fun _ u => Retiring c.tenantId m o job u ∧ Recorded host x u := by
  refine Durable.Follows.forM (I := fun _ u => Retiring c.tenantId m o job u ∧ Recorded host x u)
    ⟨hs, hrecorded⟩ ?_
  rintro pre r hr u ⟨hu, hentry⟩
  obtain ⟨hrtenant, hother⟩ := hretired r hr
  refine Durable.Follows.query_bind fun token _ => ?_
  refine Durable.Follows.bind
    (removeRelease_follows (Or.inl (hu.unused hselected hactive hother))) ?_
  intro _ v hv
  have hretiring : Retiring c.tenantId m o job v := hu.same fun p _ => by
    unfold Store.find?
    rw [hv.files]
  have hstill : Recorded host x v := hentry.same hv.audit
  refine Durable.Follows.query_bind fun _ _ => ?_
  rw [hrtenant]
  refine Durable.Follows.effect
    (.forget r.id (hretiring.unused hselected hactive hother) hv.gone) ⟨?_, hstill⟩
  exact hretiring.same fun p hp => Store.find?_remove_of_ne (hp _ _) _

theorem requireRestoredRelease_eq_ok (h : requireRestoredRelease plan s = .ok ()) :
    measureRelease plan.tenantId plan.deployment.id s = .ok plan.deployment.releaseTreeDigest := by
  obtain ⟨measured, hmeasure, heq⟩ := bind_eq_ok.1 h
  rw [require_eq_ok, decide_eq_true_eq] at heq
  rw [hmeasure, heq]

/-- The record of the restored deployment is written where it is missing. -/
theorem restoredRecord_follows {p : RestoreProgress}
    (hprepared : RestorePrepared host expected job plan retirement p s)
    (hreleased : measureRelease plan.tenantId plan.deployment.id s =
      .ok plan.deployment.releaseTreeDigest) (htenant : plan.tenantId = c.tenantId) :
    Durable.Follows (CommitChange host c) s
      (Durable.when p.deploymentMissing do
        let _ ← createImmutable host (.tenantDeployment plan.tenantId plan.deployment.id)
          (.deploymentRecord plan.deployment)
        pure ()) fun _ u => StoredDeployment plan.tenantId plan.deployment u ∧
          ∀ q, (∀ t d, q ≠ .deployment t d) → u.find? q = s.find? q := by
  refine Durable.Follows.when (fun hmissing => ?_) fun hskip => ?_
  · have hroom := hprepared.room hmissing
    have hchange : s.find? (.deployment plan.tenantId plan.deployment.id) = none →
        CommitChange host c s (s.put (.deployment plan.tenantId plan.deployment.id)
          (.deploymentRecord plan.deployment)) := by
      intro habsent
      rw [htenant] at habsent hroom hreleased ⊢
      exact .record plan.deployment habsent hreleased hroom
    refine Durable.Follows.bind (createImmutable_follows hchange) ?_
    rintro - u rfl
    exact Durable.Follows.pure ⟨⟨Store.find?_put_self _ _ _, hreleased⟩, fun q hq =>
      Store.find?_put_of_ne (hq _ _) _ _⟩
  · exact ⟨⟨hprepared.recorded hskip, hreleased⟩, fun _ _ => rfl⟩

theorem finalizeRestore_follows :
    Durable.Follows (CommitChange host ⟨plan.tenantId, expected.jobId, plan.intentId⟩) s
      (finalizeRestore host limits expected plan retirement) fun _ _ => True := by
  unfold finalizeRestore
  refine Durable.Follows.query_bind ?_
  rintro ⟨job, p⟩ hvalid
  refine Durable.Follows.query_bind fun _ hmeasured => ?_
  have hprepared := validateRestoreTransition_prepared hvalid
  have hplanned := hprepared.planned
  obtain ⟨hid, hjob⟩ := requireSameJob_scope hprepared.same
  have hreleased := requireRestoredRelease_eq_ok hmeasured
  refine Durable.Follows.bind (restoredRecord_follows hprepared hreleased rfl) ?_
  rintro - u ⟨hstored, hfiles⟩
  have hdesired : u.find? (.desired plan.tenantId) = some p.desired :=
    (hfiles _ (by simp)).trans hprepared.desired
  have hobserved : u.find? (.observed plan.tenantId) = some p.observed :=
    (hfiles _ (by simp)).trans hprepared.observed
  refine states_follow hdesired hobserved
    (fun hskip => not_not.1 (of_decide_eq_false hskip))
    (fun hskip => not_not.1 (of_decide_eq_false hskip)) (fun _ => ?_) (fun v hv => ?_)
    fun v hmoved => ?_
  · -- the restored record is there before the manifest refers to it
    refine .select plan.manifest plan.deployment hstored hplanned.selected ?_
    rw [hplanned.live]
    exact fun h => by cases h
  · refine .observe plan.observedState fun d hd => ?_
    rw [hplanned.active] at hd
    exact ⟨plan.manifest, _, hv, hplanned.selected, Option.some.inj hd⟩
  · have hretiring : Retiring plan.tenantId plan.manifest plan.observedState job v :=
      ⟨hmoved.desired, hmoved.observed, by
        rw [hmoved.files _ (by simp) (by simp), hfiles _ (by simp), hid, hjob]⟩
    refine Durable.Follows.bind ensureAudit_follows ?_
    rintro - w ⟨a, rfl, hrecorded⟩
    -- the entry of the restore lets the archive record leave
    have hrestored : Succeeded host [.restore] plan.tenantId (v.setAudit a) :=
      ⟨plan.auditEntry, hrecorded, by simp [hplanned.operation], hplanned.tenant,
        hplanned.status⟩
    have hlive : plan.manifest.spec.desiredState ≠ .archived := by
      rw [hplanned.live]
      exact fun h => by cases h
    refine Durable.Follows.bind
      (removeRestoredArchive_follows hplanned.retires hrestored hretiring.desired hlive) ?_
    rintro - x ⟨hkept, haudit⟩
    have hunbound : Retiring plan.tenantId plan.manifest plan.observedState job x :=
      ⟨(hkept _ (by simp)).trans hretiring.desired, (hkept _ (by simp)).trans hretiring.observed,
        (hkept _ (by simp)).trans hretiring.job⟩
    have hstill : Recorded host plan.auditEntry x := hrecorded.same haudit
    refine Durable.Follows.bind (removeRestoredDeployments_follow hplanned.selected
      hplanned.active hprepared.retired hunbound hstill) ?_
    rintro - y ⟨hy, hentry⟩
    exact ending_follows hid (hid ▸ hy.job) hentry hplanned.vouched fun z hclosed =>
      removeReconciledIntent_follows hclosed

end Restore

/-! ## Delete -/

section Delete

variable {plan : DeleteTransitionPlan} {retirement : Option ArchiveRetirementIntent}

/-- What the revalidated plan of a deletion is known to be. -/
structure DeletePlanned (e : Encoding) (job : AuthorizationJob) (plan : DeleteTransitionPlan) :
    Prop where
  requested : job.request.tenantId = some plan.tenantId
  intent : plan.intent.tenantId = plan.tenantId
  operation : plan.auditEntry.operation = .delete
  tenant : plan.auditEntry.tenantId = some plan.tenantId
  status : plan.auditEntry.resultStatus = .succeeded
  vouched : plan.auditEntry.resultDigest = resultDigest e plan.result

theorem requireDeleteSource_tenant {a : DeleteAuthority} {evidence : DeletionEvidence}
    (h : requireDeleteSource host job a = .ok evidence) :
    job.request.tenantId = some a.sourceManifest.metadata.id := by
  unfold requireDeleteSource at h
  split at h
  · obtain ⟨_, hbinds, -⟩ := bind_eq_ok.1 h
    rw [require_eq_ok, Bool.and_eq_true] at hbinds
    have hjob := hbinds.1
    simp only [deleteJobBinds, Bool.and_eq_true, decide_eq_true_eq] at hjob
    obtain ⟨⟨⟨⟨⟨⟨⟨⟨⟨-, hrequested⟩, -⟩, -⟩, -⟩, -⟩, -⟩, -⟩, -⟩, -⟩ := hjob
    exact hrequested
  · cases h

theorem planDeleteTransition_planned {a : DeleteAuthority} {sequence : Nat}
    {previous : Option Digest} {timestamp : Timestamp} {intentId : Uuid7}
    (h : planDeleteTransition host job a sequence previous timestamp intentId = .ok plan) :
    DeletePlanned host.encoding job plan := by
  unfold planDeleteTransition at h
  simp only [bind_eq_ok, pure_eq_ok] at h
  obtain ⟨-, -, evidence, hsource, -, -, -, -, rfl⟩ := h
  exact ⟨requireDeleteSource_tenant hsource, rfl, rfl, rfl, rfl, rfl⟩

theorem validateDeletePlan_planned {recovery : LifecycleRecovery} {u : Unit}
    (h : validateDeletePlan host job plan recovery retirement s = .ok u) :
    DeletePlanned host.encoding job plan := by
  unfold validateDeletePlan at h
  obtain ⟨_, -, h⟩ := bind_eq_ok.1 h
  split at h
  · simp only [bind_eq_ok, inDeletion_eq_ok, require_eq_ok, decide_eq_true_eq] at h
    obtain ⟨planned, hplanned, heq⟩ := h
    rw [heq] at hplanned
    have hrevalidated := planDeleteTransition_planned hplanned
    exact ⟨hrevalidated.requested, hrevalidated.intent, hrevalidated.operation,
      hrevalidated.tenant, hrevalidated.status, hrevalidated.vouched⟩
  · cases h

/-- What the preparation of a delete commit has found. -/
structure DeletePrepared (host : StateHost) (expected : AuthorizationJob)
    (plan : DeleteTransitionPlan) (p : DeleteProgress) (s : Store) : Prop where
  same : routeSameJob host expected s = .ok p.job
  planned : DeletePlanned host.encoding p.job plan

theorem validateDeleteTransition_prepared {p : DeleteProgress}
    (h : validateDeleteTransition host limits expected plan retirement s = .ok p) :
    DeletePrepared host expected plan p s := by
  unfold validateDeleteTransition at h
  obtain ⟨current, hsame, h⟩ := bind_eq_ok.1 h
  rw [inDeletion_eq_ok] at hsame
  split at h
  · cases h
  · simp only [bind_eq_ok, pure_eq_ok] at h
    obtain ⟨_, -, _, hplanned, _, -, _, -, _, -, _, -, _, -, rfl⟩ := h
    exact ⟨hsame, validateDeletePlan_planned hplanned⟩

/-! ### Records -/

theorem remainingState_tenant {t : Uuid7} {path : StateRecordPath} {document : Option Document}
    {paths : List StateRecordPath} (hpath : path.components.tenant? = some t)
    (h : remainingState host path document s = .ok paths) :
    ∀ q ∈ paths, q.components.tenant? = some t := by
  unfold remainingState at h
  split at h
  · obtain rfl := pure_eq_ok.1 h
    exact fun q hq => by cases hq
  · simp only [bind_eq_ok, pure_eq_ok] at h
    obtain ⟨_, -, _, -, rfl⟩ := h
    intro q hq
    rw [List.mem_singleton.1 hq]
    exact hpath

theorem remainingHistory_tenant {t : Uuid7} {l : Listing} {path : Uuid7 → StateRecordPath}
    {present : Bool} {ids : Option (List Uuid7)}
    {check : Uuid7 → Document → Except DeletionError Unit} {paths : List StateRecordPath}
    (hpath : ∀ d, (path d).components.tenant? = some t)
    (h : remainingHistory host l path present ids check s = .ok paths) :
    ∀ q ∈ paths, q.components.tenant? = some t := by
  unfold remainingHistory at h
  split at h
  · cases h
  · split at h
    · obtain ⟨_, -, hread⟩ := bind_eq_ok.1 h
      have hall := List.forall₂_iff_get.1 (mapM_eq_ok_iff.1 hread)
      intro q hq
      obtain ⟨n, hn, rfl⟩ := List.mem_iff_getElem.1 hq
      have hone := hall.2 n (by rw [hall.1]; exact hn) hn
      simp only [bind_eq_ok, pure_eq_ok] at hone
      obtain ⟨_, -, _, -, heq⟩ := hone
      rw [List.get_eq_getElem, List.get_eq_getElem] at heq
      rw [← heq]
      exact hpath _
    · obtain rfl := pure_eq_ok.1 h
      exact fun q hq => by cases hq

/-- A deletion finds nothing but records of its tenant. -/
theorem remainingRecords_tenant {intent : TransactionIntent} {t : Uuid7} {n : TenantNamespace}
    {paths : List StateRecordPath} (h : remainingRecords host job intent t n s = .ok paths) :
    ∀ q ∈ paths, q.components.tenant? = some t := by
  unfold remainingRecords at h
  split at h
  · simp only [bind_eq_ok, pure_eq_ok] at h
    obtain ⟨desired, hdesired, observed, hobserved, archives, harchives, deployments,
      hdeployments, rfl⟩ := h
    intro q hq
    simp only [List.mem_append] at hq
    rcases hq with ((hq | hq) | hq) | hq
    · exact remainingState_tenant rfl hdesired q hq
    · exact remainingState_tenant rfl hobserved q hq
    · exact remainingHistory_tenant (fun _ => rfl) harchives q hq
    · exact remainingHistory_tenant (fun _ => rfl) hdeployments q hq
  · cases h

/-! ### Removal -/

/-- The chain and the job of a commit are as they were. -/
structure CommitScope.Aside (c : CommitScope) (s u : Store) : Prop where
  audit : u.audit = s.audit
  job : u.find? (.job c.jobId) = s.find? (.job c.jobId)

theorem CommitScope.Aside.refl (c : CommitScope) (s : Store) : c.Aside s s := ⟨rfl, rfl⟩

theorem CommitScope.Aside.trans {u v : Store} (h : c.Aside s u) (h' : c.Aside u v) : c.Aside s v :=
  ⟨h'.audit.trans h.audit, h'.job.trans h.job⟩

theorem removeTenantChild_follows (child : TenantChild) (hdead : Tombstoned host c.tenantId s) :
    Durable.Follows (CommitChange host c) s (removeTenantChild c.tenantId child)
      fun _ => c.Aside s := by
  refine Durable.Follows.query_bind fun present _ => ?_
  refine Durable.Follows.when (fun _ => ?_) fun _ => CommitScope.Aside.refl c s
  refine Durable.Follows.effect (.dropChild child hdead) ?_
  rcases dropTenantChild_cases c.tenantId child s with heq | ⟨n, heq⟩ <;> rw [heq]
  · exact CommitScope.Aside.refl c s
  · exact ⟨rfl, rfl⟩

theorem removeTenantDirectory_follows (hdead : Tombstoned host c.tenantId s) :
    Durable.Follows (CommitChange host c) s (removeTenantDirectory c.tenantId)
      fun _ => c.Aside s :=
  Durable.Follows.query_bind fun _ _ => Durable.Follows.effect (.drop hdead) ⟨rfl, rfl⟩

theorem removeTenantState_follows {intent : TransactionIntent} {n : TenantNamespace}
    (htenant : intent.tenantId = c.tenantId) (hdead : Tombstoned host c.tenantId s) :
    Durable.Follows (CommitChange host c) s (removeTenantState host job intent n)
      fun _ => c.Aside s := by
  unfold removeTenantState
  rw [htenant]
  refine Durable.Follows.query_bind fun paths hpaths => ?_
  have howner := remainingRecords_tenant hpaths
  refine Durable.Follows.bind (M := fun _ => c.Aside s) ?_ ?_
  · refine Durable.Follows.forM (I := fun _ => c.Aside s) (CommitScope.Aside.refl c s) ?_
    intro pre path hpath u hu
    refine Durable.Follows.effect (.erase _ (howner path hpath) (hdead.same hu.audit)) ?_
    refine hu.trans ⟨rfl, Store.find?_remove_of_ne ?_ _⟩
    intro heq
    have hnone := howner path hpath
    rw [← heq] at hnone
    cases hnone
  · intro _ u hu
    refine Durable.Follows.bind (removeTenantChild_follows .archives (hdead.same hu.audit)) ?_
    intro _ v hv
    have hv := hu.trans hv
    refine Durable.Follows.bind (removeTenantChild_follows .deployments (hdead.same hv.audit)) ?_
    intro _ w hw
    have hw := hv.trans hw
    exact (removeTenantDirectory_follows (hdead.same hw.audit)).weaken fun _ _ hx => hw.trans hx

theorem removeDeletedState_follows {intent : TransactionIntent} {entry : AuditEntry}
    (htenant : intent.tenantId = c.tenantId) (hdead : Tombstoned host c.tenantId s) :
    Durable.Follows (CommitChange host c) s (removeDeletedState host job intent entry)
      fun _ => c.Aside s := by
  refine Durable.Follows.query_bind fun _ _ => ?_
  refine Durable.Follows.query_bind fun found _ => ?_
  cases found with
  | none => exact Durable.Follows.pure (CommitScope.Aside.refl c s)
  | some n => exact removeTenantState_follows htenant hdead

/-- Behind its tombstone the releases of the tenant go one after the other. -/
theorem deletedReleases_follow {records : List DeploymentRecord}
    (hdead : Tombstoned host c.tenantId s) :
    Durable.Follows (CommitChange host c) s
      (records.forM fun record => removeRelease c.tenantId record.id record.releaseTreeDigest)
      fun _ => c.Aside s := by
  refine Durable.Follows.forM (I := fun _ => c.Aside s) (CommitScope.Aside.refl c s) ?_
  intro pre record _ u hu
  refine (removeRelease_follows (Or.inr (hdead.same hu.audit))).weaken ?_
  intro _ v hv
  refine hu.trans ⟨hv.audit, ?_⟩
  unfold Store.find?
  rw [hv.files]

theorem finalizeDelete_follows :
    Durable.Follows (CommitChange host ⟨plan.tenantId, expected.jobId, plan.intentId⟩) s
      (finalizeDelete host limits expected plan retirement) fun _ _ => True := by
  unfold finalizeDelete
  refine Durable.Follows.query_bind fun p hvalid => ?_
  refine Durable.Follows.query_bind fun records _ => ?_
  have hprepared := validateDeleteTransition_prepared hvalid
  have hplanned := hprepared.planned
  obtain ⟨hid, hjob⟩ := requireSameJob_scope hprepared.same
  refine Durable.Follows.bind ensureAudit_follows.raising ?_
  rintro - u ⟨a, rfl, hrecorded⟩
  -- nothing of the tenant goes before its tombstone is in the chain
  have hdead : Tombstoned host plan.tenantId (s.setAudit a) :=
    ⟨plan.auditEntry, hrecorded, by simp [hplanned.operation], hplanned.tenant, hplanned.status⟩
  refine Durable.Follows.bind (deletedReleases_follow hdead).raising ?_
  intro _ v hv
  refine Durable.Follows.query_bind fun _ _ => ?_
  refine Durable.Follows.bind
    (removeDeletedState_follows hplanned.intent (hdead.same hv.audit)) ?_
  intro _ w hw
  have hw := hv.trans hw
  refine Durable.Follows.raising ?_
  unfold closeDelete
  exact ending_follows hid (hid ▸ hw.job.trans hjob) (hrecorded.same hw.audit) hplanned.vouched
    fun x hclosed => removeReconciledIntent_follows hclosed

end Delete

end StaticHostAgent.Commit
