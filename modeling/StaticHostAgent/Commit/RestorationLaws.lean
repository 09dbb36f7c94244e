import StaticHostAgent.Commit.RetirementSimulation
import StaticHostAgent.Commit.Endings
import StaticHostAgent.State.MeteredHost

/-!
# What a restore leaves

The finalizer of a restore, from any state and for any job, plan and retirement journal, which may
continue any number of interrupted ones. A run that goes through leaves the tenant with exactly the
retained history, the restored deployment stored, selected and served, and no archive record; the
retirement journal stays as it was, because it still owes the removal of the remote object
(`restoration_laws`).
-/

set_option autoImplicit false

namespace StaticHostAgent.Commit

open Library Contracts Host Audit State

variable {host : StateHost} {limits : HostCapacityLimits} {expected job : AuthorizationJob}
  {plan : DeploymentTransitionPlan} {retirement : ArchiveRetirementIntent} {t : Uuid7}
  {s u v : Store}

/-- Any change; what a run ends in does not depend on the changes on its way. -/
abbrev AnyChange : Store → Store → Prop := fun _ _ => True

/-! ## Admission -/

/-- The identities that the restore retains. -/
abbrev restoreRetained (job : AuthorizationJob) (plan : DeploymentTransitionPlan) : List Uuid7 :=
  retainedRestored (job.dispatch.deploymentIds.getD []) plan.deployment.id

/-- What the preparation of a restore has found of the histories and the journals. -/
structure RestoreListed (host : StateHost) (job : AuthorizationJob)
    (plan : DeploymentTransitionPlan) (retirement : ArchiveRetirementIntent) (p : RestoreProgress)
    (s : Store) : Prop where
  within : restoreHistoryRetained ((Listing.deployments plan.tenantId).ids s)
    (job.dispatch.deploymentIds.getD []) plan.deployment.id p.deploymentMissing = true
  leaving : p.retired.map DeploymentRecord.id =
    ((Listing.deployments plan.tenantId).ids s).filter fun d =>
      decide (d ∉ restoreRetained job plan)
  archive : ∃ archive, retirement.archiveRecord = some archive ∧
    ∀ d, (s.find? (.archive plan.tenantId d)).isSome = true → d = archive.deploymentId
  journal : (s.find? (.intent retirement.intentId)).isSome = true
  distinct : retirement.intentId ≠ plan.intentId

theorem restoreRecovery_archive {bound : RestoreRecovery}
    (h : restoreRecovery plan retirement = .ok bound) :
    retirement.archiveRecord = some bound.archive := by
  unfold restoreRecovery at h
  split at h
  · rename_i harchive
    split at h
    · rw [← pure_eq_ok.1 h]
      exact harchive
    · cases h
  · cases h

/-- A planned restore has an intent of its own. -/
theorem planRestoreTransition_distinct {a : RestoreAuthority} {sequence : Nat}
    {previous : Option Digest} {timestamp : Timestamp}
    (h : planRestoreTransition host job a sequence previous timestamp = .ok plan) :
    a.retirement.intentId ≠ a.intentId := by
  unfold planRestoreTransition at h
  simp only [bind_eq_ok, require_eq_ok, Bool.and_eq_true, decide_eq_true_eq] at h
  obtain ⟨-, -, archive, -, -, hidentities, -⟩ := h
  intro heq
  have hnodup := hidentities.2
  rw [heq] at hnodup
  simp at hnodup

theorem validateRestorePlan_bound {bound : RestoreRecovery}
    (h : validateRestorePlan host job plan retirement s = .ok bound) :
    retirement.archiveRecord = some bound.archive ∧ retirement.intentId ≠ plan.intentId ∧
      (s.find? (.intent retirement.intentId)).isSome = true := by
  unfold validateRestorePlan at h
  simp only [bind_eq_ok, require_eq_ok, decide_eq_true_eq, pure_eq_ok] at h
  obtain ⟨-, -, current, hcurrent, -, -, _, hbound, -, -, _, -, _, -, planned, hplanned, -, -,
    rfl⟩ := h
  refine ⟨restoreRecovery_archive hbound, planRestoreTransition_distinct hplanned, ?_⟩
  obtain ⟨document, hread, -⟩ := bind_eq_ok.1 hcurrent
  rw [show s.find? (.intent retirement.intentId) = some document from (readLocked_eq_ok.1 hread).1]
  rfl

theorem validateRestoreTransition_listed {p : RestoreProgress}
    (h : validateRestoreTransition host limits expected plan retirement s = .ok (job, p)) :
    RestoreListed host job plan retirement p s := by
  unfold validateRestoreTransition at h
  simp only [bind_eq_ok, require_eq_ok, pure_eq_ok, Prod.mk.injEq, decide_eq_true_eq] at h
  obtain ⟨current, hsame, bound, hplanned, removal, -, desired, -, observed, -, -, -, missing, -,
    archiveMissing, -, archiveIds, hlisted, -, harchives, _, -, auditMissing, -, -, -, actual,
    hactual, -, hhistory, -, -, retired, hretired, -, -, rfl, rfl⟩ := h
  obtain ⟨harchive, hdistinct, hjournal⟩ := validateRestorePlan_bound hplanned
  obtain ⟨-, rfl, -, -⟩ := boundedDeploymentIds_eq_ok.1 (tenantDeploymentTransitionIds_eq_ok.1
    hactual).1
  obtain ⟨-, rfl, -, -⟩ := tenantArchiveIds_eq_ok.1 hlisted
  have hid : ∀ d r, readDeployment host plan.tenantId d s = .ok r →
      DeploymentRecord.id r = d := fun d r hread => (readDeployment_identity hread).2
  refine ⟨hhistory, ((mapM_eq_ok hid).1 hretired).1.symm, ⟨bound.archive, harchive, ?_⟩, hjournal,
    hdistinct⟩
  -- the listing is empty once the archive record has left
  intro d hd
  have hmem : d ∈ (Listing.archives plan.tenantId).ids s := Listing.mem_ids.2 hd
  rw [harchives] at hmem
  split at hmem
  · cases hmem
  · exact List.mem_singleton.1 hmem

/-- What is retained and was listed, or is restored, is what is retained. -/
theorem restoreHistoryRetained_iff {actual history : List Uuid7} {candidate d : Uuid7}
    {missing : Bool} (h : restoreHistoryRetained actual history candidate missing = true) :
    (d ∈ actual ∧ d ∈ retainedRestored history candidate) ∨ d = candidate ↔
      d ∈ retainedRestored history candidate := by
  constructor
  · rintro (⟨-, hd⟩ | rfl)
    · exact hd
    · exact candidate_retained history d
  · intro hd
    simp only [restoreHistoryRetained, Bool.or_eq_true, Bool.and_eq_true, decide_eq_true_eq,
      List.all_eq_true, Bool.not_eq_true'] at h
    rcases h with ⟨-, rfl⟩ | ⟨⟨-, hretained⟩, -⟩
    · -- nothing has left the history of the source yet
      have hwhole : d ∈ restoredHistory actual candidate := List.mem_of_mem_drop hd
      rcases List.mem_append.1 hwhole with hold | hnew
      · exact Or.inl ⟨hold, hd⟩
      · exact Or.inr (List.mem_singleton.1 hnew)
    · exact Or.inl ⟨hretained d hd, hd⟩

/-! ## The archive record -/

theorem requireRestoredArchive_eq_ok {archive : ArchiveRecord} {found : Option ArchiveRecord}
    (harchive : retirement.archiveRecord = some archive)
    (h : requireRestoredArchive host retirement s = .ok found) :
    found = some archive ∨
      found = none ∧ s.find? (.archive retirement.tenantId archive.deploymentId) = none := by
  unfold requireRestoredArchive at h
  simp only [bind_eq_ok] at h
  obtain ⟨-, -, _, -, -, -, intent, -, h⟩ := h
  split at h
  · rename_i hrecord
    rw [harchive] at hrecord
    obtain rfl := Option.some.inj hrecord
    simp only [bind_eq_ok, pure_eq_ok] at h
    obtain ⟨_, -, -, -, _, -, -, -, missing, hmissing, -, -, rfl⟩ := h
    rcases missingExact_eq_ok.1 hmissing with ⟨hnone, rfl⟩ | ⟨-, rfl⟩
    · exact Or.inr ⟨rfl, hnone⟩
    · exact Or.inl rfl
  · cases h

/-- The tenant has no archive record left, and nothing else has changed. -/
structure Unbound (t : Uuid7) (s u : Store) : Prop where
  archives : ∀ d, u.find? (.archive t d) = none
  files : ∀ p, (∀ d, p ≠ .archive t d) → u.find? p = s.find? p
  releases : u.releases = s.releases
  audit : u.audit = s.audit

theorem removeRestoredArchive_unbinds {archive : ArchiveRecord} (htenant : retirement.tenantId = t)
    (harchive : retirement.archiveRecord = some archive)
    (honly : ∀ d, (s.find? (.archive t d)).isSome = true → d = archive.deploymentId) :
    Durable.Follows AnyChange s (removeRestoredArchive host retirement) fun _ => Unbound t s := by
  have hothers : ∀ d, d ≠ archive.deploymentId → s.find? (.archive t d) = none := by
    intro d hd
    cases hfound : s.find? (.archive t d) with
    | none => rfl
    | some document => exact absurd (honly d (by rw [hfound]; rfl)) hd
  refine Durable.Follows.query_bind fun found hfound => ?_
  rcases requireRestoredArchive_eq_ok harchive hfound with rfl | ⟨rfl, hnone⟩
  · -- the only archive record of the tenant is removed
    rw [htenant]
    refine Durable.Follows.effect trivial ⟨fun d => ?_, fun p hp => ?_, rfl, rfl⟩
    · by_cases hd : d = archive.deploymentId
      · rw [hd]
        exact Store.find?_remove_self _ _
      · rw [Store.find?_remove_of_ne (by simp [hd]), hothers d hd]
    · exact Store.find?_remove_of_ne (hp _) _
  · refine Durable.Follows.pure ⟨fun d => ?_, fun _ _ => rfl, rfl, rfl⟩
    by_cases hd : d = archive.deploymentId
    · rw [hd, ← htenant]
      exact hnone
    · exact hothers d hd

/-! ## The history -/

/-- The deployments have left the history with their records and published releases, and nothing
else has changed but retired releases of theirs. -/
structure HistoryCut (t : Uuid7) (ids : List Uuid7) (s u : Store) : Prop where
  records : ∀ d ∈ ids, u.find? (.deployment t d) = none
  gone : ∀ d ∈ ids, u.releases.find? ⟨t, d, none⟩ = none
  files : ∀ p, (∀ d ∈ ids, p ≠ .deployment t d) → u.find? p = s.find? p
  kept : ∀ n : ReleaseName, n.deploymentId ∉ ids → u.releases.find? n = s.releases.find? n
  audit : u.audit = s.audit

theorem removeRelease_cuts {d : Uuid7} {digest : Digest} :
    Durable.Follows AnyChange s (removeRelease t d digest) fun _ u =>
      u.files = s.files ∧ u.audit = s.audit ∧ u.releases.find? ⟨t, d, none⟩ = none ∧
        ∀ n : ReleaseName, n.deploymentId ≠ d → u.releases.find? n = s.releases.find? n := by
  refine Durable.Follows.query_bind fun found hfound => ?_
  obtain ⟨-, rfl⟩ := requireRemovableRelease_eq_ok.1 hfound
  have hother : ∀ (n : ReleaseName) retired, n.deploymentId ≠ d → n ≠ ⟨t, d, retired⟩ := by
    rintro n retired hn rfl
    exact hn rfl
  refine Durable.Follows.bind (M := fun _ u => u.files = s.files ∧ u.audit = s.audit ∧
    u.releases.find? ⟨t, d, none⟩ = none ∧
      ∀ n : ReleaseName, n.deploymentId ≠ d → u.releases.find? n = s.releases.find? n) ?_ ?_
  · refine Durable.Follows.when (fun _ => ?_) fun hskip => ?_
    · refine Durable.Follows.effect trivial ⟨rfl, rfl, ?_, fun n hn => ?_⟩
      · show ((s.releases.erase _).insert _ _).find? _ = none
        rw [Directory.find?_insert_of_ne _ (by simp), Directory.find?_erase_self]
      · show ((s.releases.erase _).insert _ _).find? n = _
        rw [Directory.find?_insert_of_ne _ (hother n _ hn),
          Directory.find?_erase_of_ne _ (hother n _ hn)]
    · exact ⟨rfl, rfl, Option.isNone_iff_eq_none.1 (Option.isSome_eq_false_iff.1 hskip),
        fun _ _ => rfl⟩
  · rintro - u ⟨hfiles, haudit, hgone, hkept⟩
    refine Durable.Follows.when (fun _ => ?_) fun _ => ⟨hfiles, haudit, hgone, hkept⟩
    refine Durable.Follows.effect trivial ⟨hfiles, haudit, ?_, fun n hn => ?_⟩
    · show (u.releases.erase _).find? _ = none
      rw [Directory.find?_erase_of_ne _ (by simp), hgone]
    · show (u.releases.erase _).find? n = _
      rw [Directory.find?_erase_of_ne _ (hother n _ hn), hkept n hn]

theorem removeRestoredDeployments_cut {retired : List DeploymentRecord}
    (htenant : ∀ r ∈ retired, r.tenantId = t) :
    Durable.Follows AnyChange s (retired.forM (removeRestoredDeployment host t))
      fun _ => HistoryCut t (retired.map DeploymentRecord.id) s := by
  refine Durable.Follows.forM
    (I := fun (pre : List DeploymentRecord) => HistoryCut t (pre.map DeploymentRecord.id) s)
    ⟨by simp, by simp, fun _ _ => rfl, fun _ _ => rfl, rfl⟩ ?_
  intro pre r hr v hv
  refine Durable.Follows.query_bind fun token _ => ?_
  refine Durable.Follows.bind removeRelease_cuts ?_
  rintro - w ⟨hfiles, haudit, hgone, hkept⟩
  -- the release has gone, and its record is as it was until the removal below
  have hfind : ∀ p, w.find? p = v.find? p := fun p => by
    unfold Store.find?
    rw [hfiles]
  refine Durable.Follows.query_bind fun _ _ => ?_
  rw [htenant r hr]
  refine Durable.Follows.effect trivial ⟨fun d hd => ?_, fun d hd => ?_, fun p hp => ?_,
    fun n hn => ?_, haudit.trans hv.audit⟩
  · by_cases hsame : d = r.id
    · rw [hsame]
      exact Store.find?_remove_self _ _
    · simp only [List.map_append, List.map_cons, List.map_nil, List.mem_append,
        List.mem_singleton] at hd
      rw [Store.find?_remove_of_ne (by simp [hsame]), hfind]
      exact hv.records d (hd.resolve_right hsame)
  · by_cases hsame : d = r.id
    · rw [hsame]
      exact hgone
    · simp only [List.map_append, List.map_cons, List.map_nil, List.mem_append,
        List.mem_singleton] at hd
      exact (hkept _ hsame).trans (hv.gone d (hd.resolve_right hsame))
  · simp only [List.map_append, List.map_cons, List.map_nil, List.mem_append,
      List.mem_singleton] at hp
    rw [Store.find?_remove_of_ne (hp _ (Or.inr rfl)), hfind]
    exact hv.files p fun d hd => hp d (Or.inl hd)
  · simp only [List.map_append, List.map_cons, List.map_nil, List.mem_append,
      List.mem_singleton, not_or] at hn
    exact (hkept n hn.2).trans (hv.kept n hn.1)

/-! ## The restored tenant -/

/-- The tenant is restored, and the retirement of its archive is still owed. -/
structure Restored (host : StateHost) (plan : DeploymentTransitionPlan)
    (retirement : ArchiveRetirementIntent) (job : AuthorizationJob) (s u : Store) : Prop where
  desired : u.find? (.desired plan.tenantId) = some (.site plan.manifest)
  observed : u.find? (.observed plan.tenantId) = some (.tenantObservedState plan.observedState)
  stored : StoredDeployment plan.tenantId plan.deployment u
  audited : Recorded host plan.auditEntry u
  unbound : ∀ d, u.find? (.archive plan.tenantId d) = none
  history : ∀ d, d ∈ (Listing.deployments plan.tenantId).ids u ↔ d ∈ restoreRetained job plan
  released : ∀ d ∈ (Listing.deployments plan.tenantId).ids s, d ∉ restoreRetained job plan →
    u.releases.find? ⟨plan.tenantId, d, none⟩ = none
  owed : u.find? (.intent retirement.intentId) = s.find? (.intent retirement.intentId) ∧
    (u.find? (.intent retirement.intentId)).isSome = true
  result : u.find? (.result job.jobId) = some (.operationResult plan.result)
  completed : ∃ terminal, u.find? (.job job.jobId) = some (.authorizationJob terminal) ∧
    terminal.phase = .completed
  cleared : u.find? (.intent plan.intentId) = none

/-- The record of the restored deployment is there, and nothing else has changed. -/
theorem restoredRecord_beside {p : RestoreProgress}
    (hprepared : RestorePrepared host expected job plan retirement p s) :
    Durable.Follows AnyChange s
      (Durable.when p.deploymentMissing do
        let _ ← createImmutable host (.tenantDeployment plan.tenantId plan.deployment.id)
          (.deploymentRecord plan.deployment)
        pure ()) fun _ u => Beside (.deployment plan.tenantId plan.deployment.id) s u ∧
          u.find? (.deployment plan.tenantId plan.deployment.id) =
            some (.deploymentRecord plan.deployment) := by
  refine Durable.Follows.when (fun _ => ?_) fun hskip => ?_
  · refine Durable.Follows.bind (createImmutable_follows fun _ => trivial) ?_
    rintro - u rfl
    exact Durable.Follows.pure ⟨Beside.put _ _ s, Store.find?_put_self _ _ _⟩
  · exact ⟨⟨fun _ _ => rfl, rfl, rfl, rfl⟩, hprepared.recorded hskip⟩

/-- What is listed in the end is what was listed or restored and has not left. -/
theorem restored_history {p : RestoreProgress} {w : Store} {d : Uuid7}
    (hlisted : RestoreListed host job plan retirement p s)
    (hrecord : v.find? (.deployment plan.tenantId plan.deployment.id) =
      some (.deploymentRecord plan.deployment))
    (hbeside : ∀ d, d ≠ plan.deployment.id →
      v.find? (.deployment plan.tenantId d) = s.find? (.deployment plan.tenantId d))
    (hcut : HistoryCut plan.tenantId (p.retired.map DeploymentRecord.id) v w) :
    d ∈ (Listing.deployments plan.tenantId).ids w ↔ d ∈ restoreRetained job plan := by
  rw [← restoreHistoryRetained_iff hlisted.within]
  -- a deployment that leaves is neither retained nor the restored one
  by_cases hleaves : d ∈ p.retired.map DeploymentRecord.id
  · have hgone : d ∉ (Listing.deployments plan.tenantId).ids w :=
      Listing.not_mem_ids.2 (hcut.records d hleaves)
    rw [hlisted.leaving, List.mem_filter, decide_eq_true_eq] at hleaves
    refine iff_of_false hgone ?_
    rintro (⟨-, hretained⟩ | rfl)
    · exact hleaves.2 hretained
    · exact hleaves.2 (candidate_retained _ _)
  · have hkept : w.find? (.deployment plan.tenantId d) = v.find? (.deployment plan.tenantId d) := by
      refine hcut.files _ fun d' hd' heq => ?_
      simp only [FilePath.deployment.injEq, true_and] at heq
      rw [heq] at hleaves
      exact hleaves hd'
    rw [Listing.mem_ids, show (Listing.deployments plan.tenantId).path d =
      .deployment plan.tenantId d from rfl, hkept]
    by_cases hsame : d = plan.deployment.id
    · rw [hsame, hrecord]
      exact iff_of_true rfl (Or.inr rfl)
    · rw [hbeside d hsame]
      rw [hlisted.leaving, List.mem_filter, decide_eq_true_eq, not_and_not_right] at hleaves
      have hmem : d ∈ (Listing.deployments plan.tenantId).ids s ↔
          (s.find? (.deployment plan.tenantId d)).isSome = true := Listing.mem_ids
      rw [← hmem]
      exact ⟨fun hd => Or.inl ⟨hd, hleaves hd⟩, fun h => (h.resolve_right hsame).1⟩

/-- The planned tenant is in place and what leaves has left, before the end of the commit. -/
structure Reconciled (host : StateHost) (job : AuthorizationJob) (plan : DeploymentTransitionPlan)
    (s u : Store) : Prop where
  desired : u.find? (.desired plan.tenantId) = some (.site plan.manifest)
  observed : u.find? (.observed plan.tenantId) = some (.tenantObservedState plan.observedState)
  recorded : u.find? (.deployment plan.tenantId plan.deployment.id) =
    some (.deploymentRecord plan.deployment)
  release : u.releases.find? ⟨plan.tenantId, plan.deployment.id, none⟩ =
    s.releases.find? ⟨plan.tenantId, plan.deployment.id, none⟩
  audited : Recorded host plan.auditEntry u
  unbound : ∀ d, u.find? (.archive plan.tenantId d) = none
  history : ∀ d, d ∈ (Listing.deployments plan.tenantId).ids u ↔ d ∈ restoreRetained job plan
  released : ∀ d ∈ (Listing.deployments plan.tenantId).ids s, d ∉ restoreRetained job plan →
    u.releases.find? ⟨plan.tenantId, d, none⟩ = none
  others : ∀ q : FilePath, q.tenant? = none → u.find? q = s.find? q

/-- The four parts of a restore, one after the other, reconcile the tenant. -/
theorem restore_reconciles {p : RestoreProgress} {a : AuditStore} {w x : Store}
    (hprepared : RestorePrepared host expected job plan retirement p s)
    (hlisted : RestoreListed host job plan retirement p s)
    (hu : Beside (.deployment plan.tenantId plan.deployment.id) s u)
    (hrecord : u.find? (.deployment plan.tenantId plan.deployment.id) =
      some (.deploymentRecord plan.deployment))
    (hv : StatesMoved plan.tenantId plan.manifest plan.observedState u v)
    (hrecorded : Recorded host plan.auditEntry (v.setAudit a))
    (hw : Unbound plan.tenantId (v.setAudit a) w)
    (hx : HistoryCut plan.tenantId (p.retired.map DeploymentRecord.id) w x) :
    Reconciled host job plan s x := by
  -- the archive record and the deployments leave every other file as the states have it
  have hstates : ∀ q, (∀ d, q ≠ .archive plan.tenantId d) →
      (∀ d, q ≠ .deployment plan.tenantId d) → x.find? q = v.find? q := by
    intro q harchives hdeployments
    rw [hx.files q fun d _ => hdeployments d, hw.files q harchives, Store.setAudit_find?]
  have hdeployment : ∀ d, w.find? (.deployment plan.tenantId d) =
      u.find? (.deployment plan.tenantId d) := by
    intro d
    rw [hw.files _ (by simp), Store.setAudit_find?, hv.files _ (by simp) (by simp)]
  -- the restored deployment is not among those that leave
  have hstays : plan.deployment.id ∉ p.retired.map DeploymentRecord.id := by
    intro hmem
    obtain ⟨r, hr, heq⟩ := List.mem_map.1 hmem
    exact (hprepared.retired r hr).2 heq
  refine ⟨?_, ?_, ?_, ?_, hrecorded.same (hx.audit.trans hw.audit), fun d => ?_, fun d => ?_,
    fun d hd hleft => ?_, fun q hq => ?_⟩
  · rw [hstates _ (by simp) (by simp), hv.desired]
  · rw [hstates _ (by simp) (by simp), hv.observed]
  · rw [hx.files _ ?_, hdeployment, hrecord]
    intro d hd heq
    simp only [FilePath.deployment.injEq, true_and] at heq
    rw [heq] at hstays
    exact hstays hd
  · rw [hx.kept _ hstays, hw.releases, Store.setAudit_releases, hv.releases, hu.releases]
  · rw [hx.files _ (by simp), hw.archives]
  · refine restored_history hlisted ((hdeployment _).trans hrecord) (fun d' hd' => ?_) hx
    rw [hdeployment, hu.files _ (by simp [hd'])]
  · refine hx.gone d ?_
    rw [hlisted.leaving, List.mem_filter, decide_eq_true_eq]
    exact ⟨hd, hleft⟩
  · -- a file that is not the tenant's is none of those that the parts write or remove
    have hne : ∀ q' : FilePath, q'.tenant? = some plan.tenantId → q ≠ q' := by
      rintro q' hq' rfl
      rw [hq] at hq'
      cases hq'
    rw [hstates q (fun _ => hne _ rfl) (fun _ => hne _ rfl), hv.files q (hne _ rfl) (hne _ rfl),
      hu.files q (hne _ rfl)]

/-- The end of the commit touches no record of a tenant, and not the retirement journal. -/
theorem Reconciled.ended (h : Reconciled host job plan s u)
    (hdistinct : retirement.intentId ≠ plan.intentId)
    (hjournal : (s.find? (.intent retirement.intentId)).isSome = true)
    (hrelease : measureRelease plan.tenantId plan.deployment.id s =
      .ok plan.deployment.releaseTreeDigest)
    (hended : Ended job plan.result plan.intentId u v) :
    Restored host plan retirement job s v := by
  have hrest : ∀ q, q.tenant? = some plan.tenantId → v.find? q = u.find? q := fun q hq =>
    hended.tenant hq
  refine ⟨?_, ?_, ⟨?_, ?_⟩, h.audited.same hended.audit, fun d => ?_, fun d => ?_,
    fun d hd hleft => ?_, ?_, hended.result, hended.completed, hended.cleared⟩
  · rw [hrest _ rfl, h.desired]
  · rw [hrest _ rfl, h.observed]
  · rw [hrest _ rfl, h.recorded]
  · unfold measureRelease at hrelease ⊢
    rw [hended.releases, h.release]
    exact hrelease
  · rw [hrest _ rfl, h.unbound]
  · have hids : (Listing.deployments plan.tenantId).ids v =
        (Listing.deployments plan.tenantId).ids u := Listing.ids_congr fun d' => hrest _ rfl
    rw [hids]
    exact h.history d
  · rw [hended.releases]
    exact h.released d hd hleft
  · have hsame : v.find? (.intent retirement.intentId) = s.find? (.intent retirement.intentId) := by
      rw [hended.files _ (by simp) (by simp) (by simp [hdistinct]), h.others _ rfl]
    rw [hsame]
    exact ⟨rfl, hjournal⟩

theorem finalizeRestore_restores :
    Durable.Follows AnyChange s (finalizeRestore host limits expected plan retirement) fun o u =>
      ∃ job, routeSameJob host expected s = .ok job ∧ o.result = plan.result ∧
        Restored host plan retirement job s u := by
  unfold finalizeRestore
  refine Durable.Follows.query_bind ?_
  rintro ⟨job, p⟩ hvalid
  refine Durable.Follows.query_bind fun _ hmeasured => ?_
  have hprepared := validateRestoreTransition_prepared hvalid
  have hlisted := validateRestoreTransition_listed hvalid
  obtain ⟨hid, hjob⟩ := requireSameJob_scope hprepared.same
  obtain ⟨archive, harchive, honly⟩ := hlisted.archive
  have hrelease := requireRestoredRelease_eq_ok hmeasured
  refine Durable.Follows.bind (restoredRecord_beside hprepared) ?_
  rintro - u ⟨hu, hrecord⟩
  -- a state that is not written is the planned one already
  refine states_follow ((hu.files _ (by simp)).trans hprepared.desired)
    ((hu.files _ (by simp)).trans hprepared.observed)
    (fun hskip => not_not.1 (of_decide_eq_false hskip))
    (fun hskip => not_not.1 (of_decide_eq_false hskip)) (fun _ => trivial) (fun _ _ => trivial)
    fun v hv => ?_
  refine Durable.Follows.bind (ensureAudit_steps fun _ _ _ => trivial) ?_
  rintro - w ⟨a, rfl, hrecorded⟩
  have honly : ∀ d, ((v.setAudit a).find? (.archive plan.tenantId d)).isSome = true →
      d = archive.deploymentId := by
    intro d hd
    rw [Store.setAudit_find?, hv.files _ (by simp) (by simp), hu.files _ (by simp)] at hd
    exact honly d hd
  refine Durable.Follows.bind
    (removeRestoredArchive_unbinds hprepared.planned.retires harchive honly) ?_
  intro _ w hw
  refine Durable.Follows.bind
    (removeRestoredDeployments_cut fun r hr => (hprepared.retired r hr).1) ?_
  intro _ x hx
  have hreconciled := restore_reconciles hprepared hlisted hu hrecord hv hrecorded hw hx
  have hstored : x.find? (.job job.jobId) = some (.authorizationJob job) := by
    rw [hreconciled.others _ rfl, hid]
    exact hjob
  refine (ending_ends (fun _ _ _ _ => trivial) hstored).weaken ?_
  rintro o y ⟨rfl, hy⟩
  exact ⟨job, hprepared.same, rfl,
    hreconciled.ended hlisted.distinct hlisted.journal hrelease hy⟩

/-- What the finalizer of a restore leaves when it goes through, wherever it has started. -/
structure RestorationLaws (host : StateHost) : Prop where
  /-- The planned tenant, with exactly the retained history and the retirement still owed. -/
  restores : ∀ limits expected plan retirement s o,
    (finalizeRestore host limits expected plan retirement s).result = .ok o →
      ∃ job, routeSameJob host expected s = .ok job ∧ o.result = plan.result ∧
        Restored host plan retirement job s
          (finalizeRestore host limits expected plan retirement s).state
  /-- At most three deployments are retained, the restored one among them. -/
  retained : ∀ job plan, (restoreRetained job plan).length ≤ maximumRetainedDeployments ∧
    plan.deployment.id ∈ restoreRetained job plan

theorem restoration_laws (host : StateHost) : RestorationLaws host where
  restores := by
    intro limits expected plan retirement s o hok
    exact finalizeRestore_restores.post o hok
  retained := by
    intro job plan
    refine ⟨?_, candidate_retained _ _⟩
    unfold restoreRetained retainedRestored
    rw [List.length_drop]
    omega

end StaticHostAgent.Commit

/-! ## A restore that goes through -/

namespace StaticHostAgent.Commit.RestorationRun

open Library Contracts Host Audit State

def source : Site := sampleSite .archived (some (sampleId 5))

def sourceObserved : TenantObservedState :=
  sampleObserved (placeDigest .manifest 0) .archived none none

def archive : ArchiveRecord := sampleArchive (placeDigest .manifest 0) (sampleId 9)

def retirement : ArchiveRetirementIntent :=
  sampleRetirement .restore archive (placeDigest .archiveRecord 4)

def request : OperationRequest := sampleRequest .restore none

def restored : DeploymentRecord := sampleDeployment 8 sampleCorrelation

def candidate : Site := deploymentCandidate source .active restored

def observed : TenantObservedState :=
  sampleObserved (placeDigest .manifest 5) .active (some (sampleId 8)) (some (sampleId 7))

def plan : DeploymentTransitionPlan where
  tenantId := sampleTenant
  intentId := sampleIntentId
  manifest := candidate
  observedState := observed
  intent := sampleIntent .restore
    (some ⟨some sourceObserved, sampleId 6, .absent, some observed, sampleId 7, .both⟩)
    (some (source, 0)) (some (candidate, 5))
  result := sampleResult .restore candidate
  auditEntry := sampleEntry .restore (placeDigest .result 2)
  deployment := restored
  createsDeployment := true

def job : AuthorizationJob :=
  sampleJob request 1
    ⟨false, some .archived, some (placeDigest .manifest 0), some (placeDigest .deploymentRecord 3),
      some (placeDigest .archiveRecord 4), ⟨.platformState, 0⟩, none⟩
    (some ⟨source, some archive⟩)
    { sampleDispatch sourceObserved .absent [sampleId 5] [sampleId 5] with
      sourceReleaseTreeDigest := some ⟨.releaseTree, 0⟩ }

noncomputable def host : StateHost :=
  meteredHost (tableAuditHost [.site source, .operationRequest request,
    .operationResult plan.result, .deploymentRecord (sampleDeployment 5 (sampleId 9)),
    .archiveRecord archive, .site candidate, .auditEntry plan.auditEntry,
    .tenantObservedState sourceObserved, .tenantObservedState observed, .deploymentRecord restored,
    .archiveRetirementIntent retirement, .transactionIntent plan.intent, .authorizationJob job,
    .authorizationJob (completedJob job)]) (2 ^ 50) 0

/-- An archived tenant with its release, the release that was restored, the claimed job and its two
intents. -/
def store : Store :=
  sampleStore [(.desired sampleTenant, .site source),
    (.observed sampleTenant, .tenantObservedState sourceObserved),
    (.deployment sampleTenant (sampleId 5), .deploymentRecord (sampleDeployment 5 (sampleId 9))),
    (.archive sampleTenant (sampleId 5), .archiveRecord archive),
    (.job sampleJobId, .authorizationJob job),
    (.intent sampleIntentId, .transactionIntent plan.intent),
    (.intent (sampleId 12), .archiveRetirementIntent retirement)] [sampleId 5, sampleId 8]

example : (finalizeRestore host defaultHostCapacityLimits job plan retirement store).result =
    .ok ⟨plan.result, true⟩ := by decide +kernel

end StaticHostAgent.Commit.RestorationRun
