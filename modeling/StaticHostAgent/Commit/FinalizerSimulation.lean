import StaticHostAgent.Commit.Simulation
import StaticHostAgent.Commit.Archive
import StaticHostAgent.Commit.Create
import StaticHostAgent.Commit.DeploymentRuns
import StaticHostAgent.Contracts.IntentSoundness

/-!
# The finalizers follow the changes

The finalizers of the route changes, the creates, the archives and the deployments, from any state
and for any job and plan, make nothing durable but changes of their own scope, whether they go
through, fail or crash. Only the checks that a finalizer makes itself are used: what the documents
agree on, what the contracts of the intent bind, and what the admission has found.
-/

set_option autoImplicit false

namespace StaticHostAgent.Commit

open Library Contracts Host Audit State

variable {host : StateHost} {limits : HostCapacityLimits} {expected job : AuthorizationJob}
  {s : Store}

/-- A transition that is over changes nothing more. -/
theorem terminal_follows {R : Store → Store → Prop} {outcome : CommitOutcome} :
    Durable.Follows R s (pure outcome : Durable Store AgentError CommitOutcome)
      fun _ _ => True := Durable.Follows.pure trivial

/-! ## Route -/

section Route

variable {plan : TransitionPlan} {documents : RouteDocuments} {target : LifecycleState}

/-- A route transition selects what its source selects. -/
theorem routeCandidate_deployment (operation : Operation) (slug : Option String)
    (target : LifecycleState) (source : Site) :
    (routeCandidate operation slug target source).spec.desiredDeployment =
      source.spec.desiredDeployment := by
  unfold routeCandidate
  split
  · rfl
  · rfl

/-- An observed state that realises a manifest serves nothing but what the manifest selects. -/
theorem realises_active {e : Encoding} {o : TenantObservedState}
    {m : Site} (h : o.Realises e m) {d : Uuid7} (hd : o.activeDeploymentId = some d) :
    ∃ ref, m.spec.desiredDeployment = some ref ∧ ref.id = d := by
  have hdeployment := h.deployment
  rw [hd] at hdeployment
  split at hdeployment
  · obtain ⟨ref, href, hid⟩ := Option.map_eq_some_iff.1 hdeployment.symm
    exact ⟨ref, href, hid⟩
  · cases hdeployment

/-- A route transition archives nothing. -/
theorem RouteChecked.archived (h : RouteChecked host expected plan documents target)
    (harchived : documents.manifest.spec.desiredState = .archived) :
    documents.sourceManifest.spec.desiredState = .archived := by
  rw [h.agreement.candidate] at harchived
  unfold routeCandidate at harchived
  split at harchived
  · exact harchived
  · obtain rfl : target = .archived := harchived
    have hlifecycle := h.lifecycle
    have hoperation := h.operation
    simp only [List.mem_cons, List.not_mem_nil, or_false] at hoperation
    rcases hoperation with hop | hop | hop | hop <;> rw [hop] at hlifecycle <;>
      cases hstate : documents.sourceManifest.spec.desiredState <;> rw [hstate] at hlifecycle <;>
      simp [lifecycleMatrix] at hlifecycle

theorem RouteChecked.realises (h : RouteChecked host expected plan documents target) :
    documents.observedState.Realises host.encoding documents.manifest := by
  obtain rfl := h.planned
  have hvalid : ValidContract host.encoding (.transactionIntent documents.intent) :=
    h.valid _ (by simp [RouteDocuments.contracts])
  have hchecked := lifecycleChecked_of_valid hvalid h.agreement.intentBound.version h.recovery
  exact hchecked.candidate _ h.agreement.recoveryBound.candidate _
    h.agreement.intentBound.candidateBound

theorem commitRoute_follows {c : CommitScope}
    (hchecked : RouteChecked host expected plan documents target)
    (htenant : documents.tenantId = c.tenantId) (hintent : documents.intentId = c.intentId)
    (hid : job.jobId = c.jobId) (hjob : s.find? (.job c.jobId) = some (.authorizationJob job)) :
    Durable.Follows (CommitChange host c) s (commitRoute host limits job documents)
      fun _ _ => True := by
  unfold commitRoute
  refine Durable.Follows.query_bind fun removal hexact => ?_
  refine Durable.Follows.query_bind fun p hadmission => ?_
  obtain ⟨-, -, rfl⟩ := requireExactIntent_eq_ok.1 hexact
  obtain ⟨auditMissing, hadmitted⟩ := admitRouteTransition_eq_ok.1 hadmission
  have hdesired := (readLocked_eq_ok.1 hadmitted.states.desiredRead).1
  have hobserved := (readLocked_eq_ok.1 hadmitted.states.observedRead).1
  refine states_follow hdesired hobserved hadmitted.desired_of_not_write
    hadmitted.observed_of_not_write (fun hwrite => ?_) (fun u hplanned => ?_) fun u hmoved => ?_
  · -- the source manifest is the stored one
    have hsource : p.desired = .site documents.sourceManifest := by
      rcases hadmitted.states.desiredKnown with hsource | hplanned
      · exact hsource
      · rw [hadmitted.writeDesired, hplanned] at hwrite
        simp at hwrite
    rw [hsource] at hdesired
    have hkeep := hchecked.agreement.candidate
    refine htenant ▸ CommitChange.keep documents.manifest documents.sourceManifest ?_ ?_ ?_
    · exact htenant ▸ hdesired
    · rw [hkeep, routeCandidate_deployment]
    · exact fun harchived => Or.inl (hchecked.archived harchived)
  · refine htenant ▸ CommitChange.observe documents.observedState fun d hd => ?_
    obtain ⟨ref, href, hrefId⟩ := realises_active hchecked.realises hd
    exact ⟨documents.manifest, ref, htenant ▸ hplanned, href, hrefId⟩
  · refine closing_follows hid ?_ hchecked.agreement.terminal.auditDigest fun v hclosed => ?_
    · rw [hmoved.files _ (by simp) (by simp), hjob]
    · have hpath : (exactRemoval host documents.intentId documents.intent).path =
          .transactionIntent c.intentId := by rw [← hintent]; rfl
      rw [hpath]
      exact removeReconciledIntent_follows hclosed

theorem finalizeRoute_follows :
    Durable.Follows (CommitChange host ⟨plan.tenantId, expected.jobId, plan.intentId⟩) s
      (finalizeRoute host limits expected plan) fun _ _ => True := by
  refine Durable.Follows.query_bind fun documents hfrozen => ?_
  refine Durable.Follows.query_bind fun job hsame => ?_
  refine Durable.Follows.query_bind fun terminal _ => ?_
  obtain ⟨⟨target, hchecked⟩, -⟩ := (freezeRoute_eq_ok host).1 hfrozen
  obtain ⟨hid, hjob⟩ := requireSameJob_scope hsame
  have hplanned := hchecked.planned
  cases terminal with
  | some result => exact terminal_follows
  | none => exact commitRoute_follows hchecked (by rw [← hplanned]) (by rw [← hplanned]) hid hjob

end Route

/-! ## Create -/

section Create

variable {plan : TransitionPlan} {t : Uuid7}

theorem ensureTenantChild_follows {c : CommitScope} (htenant : t = c.tenantId)
    (child : TenantChild) :
    Durable.Follows (CommitChange host c) s (ensureTenantChild t child)
      fun _ u => u.files = s.files := by
  refine Durable.Follows.query_bind fun missing _ => ?_
  refine Durable.Follows.when (fun _ => ?_) fun _ => rfl
  refine Durable.Follows.effect (htenant ▸ CommitChange.child child) ?_
  unfold makeTenantChild
  split
  · rfl
  · rfl

theorem ensureCreateTenantNamespace_follows {c : CommitScope} (htenant : t = c.tenantId) :
    Durable.Follows (CommitChange host c) s (ensureCreateTenantNamespace host t)
      fun _ u => u.files = s.files := by
  refine Durable.Follows.query_bind fun _ _ => ?_
  refine Durable.Follows.query_bind fun _ _ => ?_
  refine Durable.Follows.query_bind fun missing hmissing => ?_
  refine Durable.Follows.bind (M := fun _ u => u.files = s.files) ?_ ?_
  · refine Durable.Follows.when (fun hwrite => ?_) fun _ => rfl
    have habsent : s.tenants.find? t = none := by
      rw [← pure_eq_ok.1 hmissing] at hwrite
      exact Option.isNone_iff_eq_none.1 hwrite
    exact Durable.Follows.effect (htenant ▸ CommitChange.found (htenant ▸ habsent)) rfl
  · intro _ u hu
    refine Durable.Follows.bind (ensureTenantChild_follows htenant .archives) ?_
    intro _ v hv
    refine (ensureTenantChild_follows htenant .deployments).weaken ?_
    intro _ w hw
    exact hw.trans (hv.trans hu)

/-- A record that is there is left as it is. -/
theorem ensureImmutableExact_follows {c : CommitScope} {path : StateRecordPath}
    {document : Document} (hstep : CommitChange host c s (s.put path.components document)) :
    Durable.Follows (CommitChange host c) s (ensureImmutableExact host path document)
      fun _ u => u = s ∨ u = s.put path.components document := by
  refine Durable.Follows.query_bind fun _ _ => ?_
  refine Durable.Follows.query_bind fun found _ => ?_
  cases found with
  | none => exact (createImmutableBytes_follows fun _ => hstep).weaken fun _ _ hu => Or.inr hu
  | some current =>
      refine Durable.Follows.query_bind fun _ _ => ?_
      exact Durable.Follows.pure (Or.inl rfl)

/-- The first state of a tenant selects nothing and serves nothing. -/
theorem ensureCreateTenantState_follows {c : CommitScope} {m : Site} {o : TenantObservedState}
    (htenant : t = c.tenantId) (hundeployed : m.spec.desiredDeployment = none)
    (hinactive : o.activeDeploymentId = none) :
    Durable.Follows (CommitChange host c) s (ensureCreateTenantState host t m o)
      fun _ u => u.find? (.job c.jobId) = s.find? (.job c.jobId) := by
  subst htenant
  refine Durable.Follows.query_bind fun _ _ => ?_
  refine Durable.Follows.query_bind fun _ _ => ?_
  refine Durable.Follows.bind (ensureCreateTenantNamespace_follows rfl) ?_
  intro _ u hu
  have hkept : u.find? (.job c.jobId) = s.find? (.job c.jobId) := by
    unfold Store.find?
    rw [hu]
  refine Durable.Follows.query_bind fun _ _ => ?_
  refine Durable.Follows.bind (ensureImmutableExact_follows (.undeployed m hundeployed)) ?_
  intro _ v hv
  have hkept : v.find? (.job c.jobId) = s.find? (.job c.jobId) := by
    rcases hv with rfl | rfl
    · exact hkept
    · rw [← hkept]
      exact Store.find?_put_of_ne (show FilePath.job c.jobId ≠ .desired c.tenantId by simp) _ _
  have hobserve : CommitChange host c v (v.put (.observed c.tenantId) (.tenantObservedState o)) := by
    refine .observe o fun d hd => ?_
    rw [hinactive] at hd
    cases hd
  refine Durable.Follows.bind (ensureImmutableExact_follows hobserve) ?_
  intro _ w hw
  refine Durable.Follows.pure ?_
  rcases hw with rfl | rfl
  · exact hkept
  · rw [← hkept]
    exact Store.find?_put_of_ne (show FilePath.job c.jobId ≠ .observed c.tenantId by simp) _ _

theorem finalizeCreate_follows :
    Durable.Follows (CommitChange host ⟨plan.tenantId, expected.jobId, plan.intentId⟩) s
      (finalizeCreate host limits expected plan) fun _ _ => True := by
  refine Durable.Follows.query_bind fun documents hfrozen => ?_
  refine Durable.Follows.query_bind fun job hsame => ?_
  refine Durable.Follows.query_bind fun terminal _ => ?_
  obtain ⟨⟨⟨recovery, hchecked⟩, -⟩, rfl⟩ := freezeCreate_eq_ok.1 hfrozen
  obtain ⟨hid, hjob⟩ := requireSameJob_scope hsame
  cases terminal with
  | some result => exact terminal_follows
  | none =>
      refine Durable.Follows.query_bind fun removal hexact => ?_
      refine Durable.Follows.query_bind fun missing _ => ?_
      obtain ⟨-, -, rfl⟩ := requireExactIntent_eq_ok.1 hexact
      refine Durable.Follows.bind (ensureCreateTenantState_follows rfl
        hchecked.agreement.undeployed hchecked.agreement.noActive) ?_
      intro _ u hu
      refine closing_follows hid (hu.trans hjob) hchecked.agreement.terminal.auditDigest
        fun v hclosed => ?_
      exact removeReconciledIntent_follows hclosed

end Create

/-! ## Archive -/

section Archive

variable {plan : ArchiveTransitionPlan}

/-- What the revalidated plan of an archive is known to be. -/
structure ArchiveRevalidated (e : Encoding) (job : AuthorizationJob) (plan : ArchiveTransitionPlan)
    (source : Site) : Prop where
  manifest : plan.manifest = archivedManifest source
  inactive : plan.observedState.activeDeploymentId = none
  requested : job.request.tenantId = some plan.tenantId
  selected : ∃ desired, source.spec.desiredDeployment = some desired ∧
    plan.archiveRecord.deploymentId = desired.id
  vouched : plan.auditEntry.resultDigest = resultDigest e plan.result

/-- An accepted source selects the deployment that is archived. -/
theorem requireArchiveSource_eq_ok {a : ArchiveAuthority} {desired : DeploymentReference}
    (h : requireArchiveSource host job a = .ok desired) :
    job.request.tenantId = some a.sourceManifest.metadata.id ∧
      a.sourceManifest.spec.desiredDeployment = some desired ∧
        a.sourceDeployment.id = desired.id := by
  obtain ⟨_, hrequested, h⟩ := bind_eq_ok.1 h
  simp only [require_eq_ok, Bool.and_eq_true, decide_eq_true_eq] at hrequested
  split at h
  · cases h
  · rename_i reference hselected
    simp only [bind_eq_ok, require_eq_ok, Bool.and_eq_true, decide_eq_true_eq, pure_eq_ok] at h
    obtain ⟨-, hdeployment, rfl⟩ := h
    exact ⟨hrequested.1.1.2, hselected, hdeployment.1.1.2⟩

/-- The archive record of an accepted construction is that of its deployment. -/
theorem requireArchiveConstruction_eq_ok {construction : ArchiveConstructionIntent}
    {archive : ArchiveRecord} {source candidate : Digest} {deployment : DeploymentRecord} {u : Unit}
    (h : requireArchiveConstruction host construction archive job source candidate deployment =
      .ok u) : archive.deploymentId = deployment.id := by
  unfold requireArchiveConstruction at h
  rw [require_eq_ok, Bool.and_eq_true, Option.any_eq_true] at h
  obtain ⟨-, versionId, -, hversion⟩ := h
  rw [Bool.and_eq_true, decide_eq_true_eq, decide_eq_true_eq] at hversion
  rw [hversion.2]
  rfl

theorem planArchiveTransition_revalidated {a : ArchiveAuthority} {sequence : Nat}
    {previous : Option Digest} {timestamp : Timestamp} {intentId : Uuid7}
    (h : planArchiveTransition host job a sequence previous timestamp intentId = .ok plan) :
    ArchiveRevalidated host.encoding job plan a.sourceManifest := by
  unfold planArchiveTransition at h
  simp only [bind_eq_ok, pure_eq_ok] at h
  obtain ⟨-, -, desired, hsource, _, hconstruction, -, -, -, -, -, -, rfl⟩ := h
  obtain ⟨hrequested, hselected, hdeployment⟩ := requireArchiveSource_eq_ok hsource
  have harchive := requireArchiveConstruction_eq_ok hconstruction
  exact ⟨rfl, rfl, hrequested, ⟨desired, hselected, harchive.trans hdeployment⟩, rfl⟩

theorem validateArchivePlan_revalidated {recovery : ArchiveRecovery}
    (h : validateArchivePlan host job plan s = .ok recovery) :
    ArchiveRevalidated host.encoding job plan recovery.sourceManifest := by
  obtain ⟨_, -, h⟩ := bind_eq_ok.1 h
  split at h
  · cases h
  · simp only [bind_eq_ok, require_eq_ok, decide_eq_true_eq, pure_eq_ok] at h
    obtain ⟨-, -, _, -, _, -, _, -, reconstructed, hplanned, -, heq, rfl⟩ := h
    rw [heq] at hplanned
    have hrevalidated := planArchiveTransition_revalidated hplanned
    exact ⟨hrevalidated.manifest, hrevalidated.inactive, hrevalidated.requested,
      hrevalidated.selected, hrevalidated.vouched⟩

/-- What the preparation of an archive commit has found. -/
structure ArchivePrepared (host : StateHost) (expected job : AuthorizationJob)
    (plan : ArchiveTransitionPlan) (p : ArchiveProgress) (source : Site) (s : Store) : Prop where
  same : routeSameJob host expected s = .ok job
  planned : ArchiveRevalidated host.encoding job plan source
  desired : s.find? (.desired plan.tenantId) = some p.desired
  observed : s.find? (.observed plan.tenantId) = some p.observed
  known : p.desired = .site source ∨ p.desired = .site plan.manifest
  recorded : p.archiveMissing = false →
    s.find? (.archive plan.tenantId plan.archiveRecord.deploymentId) =
      some (.archiveRecord plan.archiveRecord)

theorem prepareArchiveCommit_prepared {p : ArchiveProgress}
    (h : prepareArchiveCommit host limits expected plan s = .ok (job, p)) :
    ∃ source, ArchivePrepared host expected job plan p source s := by
  unfold prepareArchiveCommit at h
  simp only [bind_eq_ok, require_eq_ok, decide_eq_true_eq, pure_eq_ok, Prod.mk.injEq,
    List.mem_cons, List.not_mem_nil, or_false] at h
  obtain ⟨current, hsame, recovery, hplanned, removal, -, desired, hdesired, observed, hobserved,
    -, hknown, -, -, archiveMissing, harchive, _, -, _, -, -, -, _, -, -, -, _, -, -, -, _, -, -,
    -, rfl, rfl⟩ := h
  refine ⟨recovery.sourceManifest, hsame, validateArchivePlan_revalidated hplanned,
    (readLocked_eq_ok.1 hdesired).1, (readLocked_eq_ok.1 hobserved).1, hknown, ?_⟩
  rintro rfl
  rcases missingExact_eq_ok.1 harchive with ⟨-, hmissing⟩ | ⟨hread, -⟩
  · cases hmissing
  · exact (readLocked_eq_ok.1 hread).1

theorem removeArchiveIntent_follows {c : CommitScope} (hintent : plan.intentId = c.intentId)
    (removal : Option ExactIntent) (hclosed : c.Closed s) :
    Durable.Follows (CommitChange host c) s (removeArchiveIntent host plan removal)
      fun _ _ => True := by
  unfold removeArchiveIntent
  rw [hintent]
  cases removal with
  | none => exact Durable.Follows.pure trivial
  | some removal => exact removeReconciledIntent_follows hclosed

theorem finalizeArchive_follows :
    Durable.Follows (CommitChange host ⟨plan.tenantId, expected.jobId, plan.intentId⟩) s
      (finalizeArchive host limits expected plan) fun _ _ => True := by
  unfold finalizeArchive
  refine Durable.Follows.query_bind ?_
  rintro ⟨job, p⟩ hprepared
  obtain ⟨source, hprepared⟩ := prepareArchiveCommit_prepared hprepared
  obtain ⟨hid, hjob⟩ := requireSameJob_scope hprepared.same
  -- the archive record is the first write
  refine Durable.Follows.bind (M := fun _ u =>
    u.find? (.archive plan.tenantId plan.archiveRecord.deploymentId) =
      some (.archiveRecord plan.archiveRecord) ∧
    ∀ q, q ≠ .archive plan.tenantId plan.archiveRecord.deploymentId →
      u.find? q = s.find? q) ?_ ?_
  · refine Durable.Follows.when (fun _ => ?_) fun hskip =>
      ⟨hprepared.recorded hskip, fun _ _ => rfl⟩
    refine Durable.Follows.bind (createImmutable_follows fun habsent =>
      .archive plan.archiveRecord.deploymentId plan.archiveRecord habsent) ?_
    rintro - u rfl
    exact Durable.Follows.pure ⟨Store.find?_put_self _ _ _, fun q hq =>
      Store.find?_put_of_ne hq _ _⟩
  rintro - u ⟨hrecorded, hu⟩
  have hdesired : u.find? (.desired plan.tenantId) = some p.desired := by
    rw [hu _ (by simp), hprepared.desired]
  have hobserved : u.find? (.observed plan.tenantId) = some p.observed := by
    rw [hu _ (by simp), hprepared.observed]
  refine states_follow hdesired hobserved
    (fun hskip => not_not.1 (of_decide_eq_false hskip))
    (fun hskip => not_not.1 (of_decide_eq_false hskip)) (fun hwrite => ?_) (fun v _ => ?_) ?_
  · have hsource : p.desired = .site source :=
      hprepared.known.resolve_right (of_decide_eq_true hwrite)
    rw [hsource] at hdesired
    refine .keep plan.manifest source hdesired ?_ fun _ => Or.inr fun ref href => ?_
    · rw [hprepared.planned.manifest]
      rfl
    · -- the archive record is that of the selected deployment
      obtain ⟨selected, hselected, hid⟩ := hprepared.planned.selected
      rw [hprepared.planned.manifest] at href
      obtain rfl : selected = ref := Option.some.inj (hselected.symm.trans href)
      rw [← hid, hrecorded]
      rfl
  · refine .observe plan.observedState fun d hd => ?_
    rw [hprepared.planned.inactive] at hd
    cases hd
  · intro v hmoved
    refine Durable.Follows.query_bind fun _ _ => ?_
    refine closing_follows hid ?_ hprepared.planned.vouched fun w hclosed =>
      removeArchiveIntent_follows rfl _ hclosed
    rw [hmoved.files _ (by simp) (by simp), hu _ (by simp), hjob]

end Archive

/-! ## Deployment -/

section Deployment

variable {plan : DeploymentTransitionPlan} {documents : DeploymentDocuments}
  {target : LifecycleState} {retired : List DeploymentRecord}

/-- The states are those of the transition, which alone count for what may be retired. -/
structure Retiring (t : Uuid7) (m : Site) (o : TenantObservedState) (job : AuthorizationJob)
    (u : Store) : Prop where
  desired : u.find? (.desired t) = some (.site m)
  observed : u.find? (.observed t) = some (.tenantObservedState o)
  job : u.find? (.job job.jobId) = some (.authorizationJob job)

theorem Retiring.same {t : Uuid7} {m : Site} {o : TenantObservedState} {u v : Store}
    (h : Retiring t m o job u)
    (hfiles : ∀ p, (∀ t d, p ≠ .deployment t d) → v.find? p = u.find? p) : Retiring t m o job v :=
  ⟨(hfiles _ (by simp)).trans h.desired, (hfiles _ (by simp)).trans h.observed,
    (hfiles _ (by simp)).trans h.job⟩

/-- Only the selected deployment is in use. -/
theorem Retiring.unused {t d : Uuid7} {m : Site} {o : TenantObservedState} {u : Store}
    (h : Retiring t m o job u) {selected : DeploymentReference}
    (hselected : m.spec.desiredDeployment = some selected)
    (hactive : o.activeDeploymentId = some selected.id) (hother : d ≠ selected.id) :
    UnusedDeployment t d u := by
  refine ⟨fun m' ref hm href => ?_, fun o' ho => ?_⟩
  · rw [h.desired] at hm
    cases hm
    obtain rfl : selected = ref := Option.some.inj (hselected.symm.trans href)
    exact Ne.symm hother
  · rw [h.observed] at ho
    cases ho
    rw [hactive]
    simpa using Ne.symm hother

/-- The states are those of a deployment transition. -/
abbrev DeploymentRetiring (documents : DeploymentDocuments) (job : AuthorizationJob) :
    Store → Prop :=
  Retiring documents.tenantId documents.manifest documents.observedState job

/-- What a deployment transition retires is unused. -/
theorem DeploymentRetiring.unused {e : Encoding} {u : Store} {d : Uuid7}
    (h : DeploymentRetiring documents job u)
    (hagreement : DeploymentAgreement e expected documents target)
    (hother : d ≠ documents.deployment.id) : UnusedDeployment documents.tenantId d u :=
  Retiring.unused h (show documents.manifest.spec.desiredDeployment =
    some ⟨documents.deployment.id, documents.deployment.archiveSha256⟩ by
      rw [hagreement.candidate]; rfl) hagreement.active hother

/-- The published release is gone, and no other one has come. -/
structure ReleaseLost (t d : Uuid7) (u v : Store) : Prop where
  files : v.files = u.files
  audit : v.audit = u.audit
  gone : v.releases.find? ⟨t, d, none⟩ = none
  others : ∀ t' d', u.releases.find? ⟨t', d', none⟩ = none → v.releases.find? ⟨t', d', none⟩ = none

theorem removeRelease_follows {c : CommitScope} {d : Uuid7} {digest : Digest}
    (hmay : UnusedDeployment c.tenantId d s ∨ Tombstoned host c.tenantId s) :
    Durable.Follows (CommitChange host c) s (removeRelease c.tenantId d digest)
      fun _ => ReleaseLost c.tenantId d s := by
  refine Durable.Follows.query_bind fun found hfound => ?_
  obtain ⟨-, rfl⟩ := requireRemovableRelease_eq_ok.1 hfound
  refine Durable.Follows.bind (M := fun _ => ReleaseLost c.tenantId d s) ?_ ?_
  · refine Durable.Follows.when (fun _ => ?_) fun hskip => ?_
    · refine Durable.Follows.effect (.retire d digest hmay)
        ⟨rfl, rfl, ?_, fun t' d' hnone => ?_⟩
      · show ((s.releases.erase _).insert _ _).find? _ = none
        rw [Directory.find?_insert_of_ne _ (by simp), Directory.find?_erase_self]
      · show ((s.releases.erase _).insert _ _).find? _ = none
        rw [Directory.find?_insert_of_ne _ (by simp)]
        by_cases hsame : (⟨t', d', none⟩ : ReleaseName) = ⟨c.tenantId, d, none⟩
        · rw [hsame, Directory.find?_erase_self]
        · rw [Directory.find?_erase_of_ne _ hsame, hnone]
    · exact ⟨rfl, rfl, Option.isNone_iff_eq_none.1 (Option.isSome_eq_false_iff.1 hskip),
        fun _ _ hnone => hnone⟩
  · intro _ u hu
    refine Durable.Follows.when (fun _ => ?_) fun _ => hu
    have hkept : ∀ t' d', (u.discardRelease c.tenantId d digest).releases.find? ⟨t', d', none⟩ =
        u.releases.find? ⟨t', d', none⟩ :=
      fun t' d' => Directory.find?_erase_of_ne _ (by simp)
    refine Durable.Follows.effect (.discard d digest)
      ⟨hu.files, hu.audit, ?_, fun t' d' hnone => ?_⟩
    · rw [hkept, hu.gone]
    · rw [hkept, hu.others t' d' hnone]

/-- The releases of the records that leave go first. -/
theorem releases_follow {c : CommitScope} {e : Encoding}
    (hagreement : DeploymentAgreement e expected documents target)
    (htenant : documents.tenantId = c.tenantId) (hretirable : Retirable documents retired)
    (hs : DeploymentRetiring documents job s) :
    Durable.Follows (CommitChange host c) s
      (retired.mapM (removeRetiredRelease host documents.tenantId)) fun authorities u =>
        DeploymentRetiring documents job u ∧ authorities.map Prod.fst = retired ∧
          ∀ r ∈ retired, u.releases.find? ⟨documents.tenantId, r.id, none⟩ = none := by
  refine Durable.Follows.mapM (I := fun (pre : List DeploymentRecord) authorities u =>
    DeploymentRetiring documents job u ∧
    authorities.map Prod.fst = pre ∧
      ∀ r ∈ pre, u.releases.find? ⟨documents.tenantId, r.id, none⟩ = none) ⟨hs, rfl, by simp⟩ ?_
  rintro pre authorities r hr u ⟨hu, hpre, hgone⟩
  refine Durable.Follows.query_bind fun token _ => ?_
  have hunused := hu.unused hagreement (hretirable.other r hr)
  rw [htenant] at hunused ⊢
  refine Durable.Follows.bind (removeRelease_follows (Or.inl hunused)) ?_
  intro _ v hv
  refine Durable.Follows.pure ⟨hu.same fun p _ => ?_, by simp [hpre], fun r' hr' => ?_⟩
  · unfold Store.find?
    rw [hv.files]
  · rw [List.mem_append, List.mem_singleton] at hr'
    rcases hr' with hr' | rfl
    · exact hv.others _ _ (htenant ▸ hgone r' hr')
    · exact hv.gone

/-- Then the records go, each behind its release. -/
theorem records_follow {c : CommitScope} {e : Encoding}
    {authorities : List (DeploymentRecord × StateRevision)}
    (hagreement : DeploymentAgreement e expected documents target)
    (htenant : documents.tenantId = c.tenantId)
    (hretirable : Retirable documents (authorities.map Prod.fst))
    (hs : DeploymentRetiring documents job s) (hgone : ∀ r ∈ authorities.map Prod.fst,
      s.releases.find? ⟨documents.tenantId, r.id, none⟩ = none) :
    Durable.Follows (CommitChange host c) s
      (authorities.forM fun authority => removeExactDeployment host authority.1 authority.2)
      fun _ => DeploymentRetiring documents job := by
  have hloop : Durable.Follows (CommitChange host c) s
      (authorities.forM fun authority => removeExactDeployment host authority.1 authority.2)
      fun _ u => DeploymentRetiring documents job u ∧ u.releases = s.releases := by
    refine Durable.Follows.forM (I := fun _ u => DeploymentRetiring documents job u ∧
      u.releases = s.releases) ⟨hs, rfl⟩ ?_
    rintro pre authority hauthority u ⟨hu, hreleases⟩
    have hr : authority.1 ∈ authorities.map Prod.fst := List.mem_map_of_mem hauthority
    have hunused := hu.unused hagreement (hretirable.other _ hr)
    have habsent := hgone _ hr
    refine Durable.Follows.query_bind fun _ _ => ?_
    rw [← hreleases] at habsent
    rw [hretirable.tenant _ hr]
    rw [htenant] at hunused habsent ⊢
    refine Durable.Follows.effect (.forget authority.1.id hunused habsent) ⟨?_, hreleases⟩
    exact hu.same fun p hp => Store.find?_remove_of_ne (hp _ _) _
  exact hloop.weaken fun _ _ h => h.1

/-- The record is written only where it is missing and there is room for it. -/
theorem record_follows {c : CommitScope} {p : DeploymentProgress} {ids : List Uuid7}
    {auditMissing : Bool} (htenant : documents.tenantId = c.tenantId)
    (hplan : HistoryPlan documents)
    (hfound : DeploymentFound host job documents s p ids auditMissing)
    (hreleased : measureRelease documents.tenantId documents.deployment.id s =
      .ok documents.deployment.releaseTreeDigest) :
    Durable.Follows (CommitChange host c) s
      (Durable.when p.writeDeployment (writeDeploymentRecord host documents)) fun _ u =>
        StoredDeployment documents.tenantId documents.deployment u ∧
          ∀ q, (∀ t d, q ≠ .deployment t d) → u.find? q = s.find? q := by
  refine Durable.Follows.when (fun hwrite => ?_) fun hwrite => ?_
  · have habsent := (hfound.absent hwrite).2
    have hroom : ((Listing.deployments documents.tenantId).ids s).length ≤ 3 := by
      rw [hfound.writeDeployment, Bool.and_eq_true, decide_eq_true_eq] at hwrite
      rw [← hfound.ids_eq]
      rcases (tenantDeploymentTransitionIds_eq_ok.1 hfound.listed).2 with hshort | hlast
      · exact hshort
      · exact absurd (List.mem_of_getLast? hlast) hwrite.2
    have hchange : CommitChange host c s (s.put (.deployment documents.tenantId documents.deployment.id)
        (.deploymentRecord documents.deployment)) := by
      rw [htenant] at habsent hroom hreleased ⊢
      exact .record documents.deployment habsent hreleased hroom
    unfold writeDeploymentRecord
    refine Durable.Follows.bind (createImmutable_follows fun _ => hchange) ?_
    rintro - u rfl
    refine Durable.Follows.pure ⟨⟨Store.find?_put_self _ _ _, hreleased⟩, fun q hq => ?_⟩
    exact Store.find?_put_of_ne (hq _ _) _ _
  · -- a record that is there is the exact one
    exact ⟨⟨hfound.recorded_find hplan hwrite, hreleased⟩, fun _ _ => rfl⟩

/-- A deployment archives nothing. -/
theorem DeploymentChecked.live (h : DeploymentChecked host expected plan documents target) :
    documents.manifest.spec.desiredState ≠ .archived := by
  rw [h.agreement.candidate]
  intro harchived
  obtain rfl : target = .archived := harchived
  have hlifecycle := h.lifecycle
  have hoperation := h.operation
  simp only [List.mem_cons, List.not_mem_nil, or_false] at hoperation
  rcases hoperation with hop | hop | hop <;> rw [hop] at hlifecycle <;>
    cases hstate : documents.sourceManifest.spec.desiredState <;> rw [hstate] at hlifecycle <;>
    simp [lifecycleMatrix] at hlifecycle

theorem commitDeployment_follows {c : CommitScope}
    (hchecked : DeploymentChecked host expected plan documents target)
    (htenant : documents.tenantId = c.tenantId) (hintent : documents.intentId = c.intentId)
    (hid : job.jobId = c.jobId) (hjob : s.find? (.job c.jobId) = some (.authorizationJob job)) :
    Durable.Follows (CommitChange host c) s (commitDeployment host limits job documents)
      fun _ _ => True := by
  have hplan := historyPlan_of_agreement hchecked.agreement
  unfold commitDeployment
  refine Durable.Follows.query_bind fun removal hexact => ?_
  refine Durable.Follows.query_bind fun p hadmission => ?_
  refine Durable.Follows.query_bind fun _ hselected => ?_
  obtain ⟨-, -, rfl⟩ := requireExactIntent_eq_ok.1 hexact
  obtain ⟨ids, auditMissing, hadmitted⟩ := (admitDeploymentTransition_eq_ok hplan).1 hadmission
  have hfound := hadmitted.toDeploymentFound
  have hretirable := hfound.leaves.retirable hplan
  refine Durable.Follows.bind
    (record_follows htenant hplan hfound (requireSelectedRelease_eq_ok.1 hselected)) ?_
  rintro - u ⟨hstored, hfiles⟩
  have hdesired : u.find? (.desired documents.tenantId) = some p.desired :=
    (hfiles _ (by simp)).trans (readLocked_eq_ok.1 hadmitted.states.desiredRead).1
  have hobserved : u.find? (.observed documents.tenantId) = some p.observed :=
    (hfiles _ (by simp)).trans (readLocked_eq_ok.1 hadmitted.states.observedRead).1
  -- the record is stored, so the manifest may select it and the observation may name it
  refine states_follow hdesired hobserved hfound.desired_of_not_write
    hfound.observed_of_not_write (fun _ => ?_) (fun v hplanned => ?_) fun v hmoved => ?_
  · rw [htenant] at hstored ⊢
    refine .select documents.manifest documents.deployment hstored ?_ hchecked.live
    rw [hchecked.agreement.candidate]
    rfl
  · rw [htenant] at hplanned ⊢
    refine .observe documents.observedState fun d hd => ?_
    rw [hchecked.agreement.active] at hd
    refine ⟨documents.manifest, ⟨documents.deployment.id, documents.deployment.archiveSha256⟩,
      hplanned, ?_, Option.some.inj hd⟩
    rw [hchecked.agreement.candidate]
    rfl
  · -- nothing refers to the retired deployments any more: trees first, then records, then the end
    have hretiring : DeploymentRetiring documents job v := by
      refine ⟨hmoved.desired, hmoved.observed, ?_⟩
      rw [hmoved.files _ (by simp) (by simp), hfiles _ (by simp), hid, hjob]
    refine Durable.Follows.bind
      (releases_follow hchecked.agreement htenant hretirable hretiring) ?_
    rintro authorities w ⟨hw, hauthorities, hgone⟩
    rw [← hauthorities] at hretirable hgone
    refine Durable.Follows.bind
      (records_follow hchecked.agreement htenant hretirable hw hgone) ?_
    intro _ x hx
    refine closing_follows hid (hid ▸ hx.job) hchecked.agreement.terminal.auditDigest
      fun y hclosed => ?_
    have hpath : (exactRemoval host documents.intentId documents.intent).path =
        .transactionIntent c.intentId := by rw [← hintent]; rfl
    rw [hpath]
    exact removeReconciledIntent_follows hclosed

theorem finalizeDeployment_follows :
    Durable.Follows (CommitChange host ⟨plan.tenantId, expected.jobId, plan.intentId⟩) s
      (finalizeDeployment host limits expected plan) fun _ _ => True := by
  refine Durable.Follows.query_bind fun documents hfrozen => ?_
  refine Durable.Follows.query_bind fun job hsame => ?_
  refine Durable.Follows.query_bind fun terminal _ => ?_
  obtain ⟨⟨target, hchecked⟩, -⟩ := (freezeDeployment_eq_ok host).1 hfrozen
  obtain ⟨hid, hjob⟩ := requireSameJob_scope hsame
  have hplanned := hchecked.planned
  cases terminal with
  | some result => exact terminal_follows
  | none =>
      exact commitDeployment_follows hchecked (by rw [← hplanned]) (by rw [← hplanned]) hid hjob

end Deployment

end StaticHostAgent.Commit
