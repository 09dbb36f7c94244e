import StaticHostAgent.Commit.DeploymentHistory
import StaticHostAgent.Commit.TenantStates

/-!
# The steps of a deployment commit

A transition writes the record of a new deployment and both states, and then removes what leaves the
history: first every release, then every record. `Leaving` are the stored records that leave.
-/

set_option autoImplicit false

namespace StaticHostAgent.Commit

open Library Contracts Host Audit State

variable {host : StateHost}

/-! ## Steps -/

/-- The record of a new deployment. -/
def recordSteps (documents : DeploymentDocuments) : List CommitStep :=
  if documents.createsDeployment then
    [.put (.deployment documents.tenantId documents.deployment.id)
      (.deploymentRecord documents.deployment)]
  else []

/-- Remove the release of a deployment. -/
def releaseSteps (t : Uuid7) (record : DeploymentRecord) : List CommitStep :=
  [.retire t record.id record.releaseTreeDigest, .discard t record.id record.releaseTreeDigest]

/-- Remove the record of a deployment. -/
def forgetSteps (t : Uuid7) (record : DeploymentRecord) : List CommitStep :=
  [.remove (.deployment t record.id)]

/-- The steps that make the transition. -/
def transitionSteps (documents : DeploymentDocuments) : List CommitStep :=
  recordSteps documents ++ stateSteps documents.toTransitionPlan

/-- The steps that remove what leaves the history: first every release, then every record. -/
def retirementSteps (t : Uuid7) (retired : List DeploymentRecord) : List CommitStep :=
  retired.flatMap (releaseSteps t) ++ retired.flatMap (forgetSteps t)

/-- The durable steps of a deployment commit before its audit entry. -/
def deploymentBefore (documents : DeploymentDocuments) (retired : List DeploymentRecord) :
    List CommitStep :=
  transitionSteps documents ++ retirementSteps documents.tenantId retired

/-- The durable steps of a deployment commit, in order. -/
def deploymentSteps (documents : DeploymentDocuments) (job : AuthorizationJob)
    (retired : List DeploymentRecord) : List CommitStep :=
  (deploymentBefore documents retired ++ [.append documents.auditEntry]) ++
    closingSteps job documents.result documents.intentId

/-- Records of distinct deployments of the tenant other than the selected one. -/
structure Retirable (documents : DeploymentDocuments) (retired : List DeploymentRecord) : Prop where
  tenant : ∀ r ∈ retired, r.tenantId = documents.tenantId
  other : ∀ r ∈ retired, r.id ≠ documents.deployment.id
  distinct : retired.Pairwise fun r r' => r.id ≠ r'.id

theorem mem_recordSteps {documents : DeploymentDocuments} {e : CommitStep} :
    e ∈ recordSteps documents ↔ documents.createsDeployment = true ∧
      e = .put (.deployment documents.tenantId documents.deployment.id)
        (.deploymentRecord documents.deployment) := by
  unfold recordSteps
  split <;> rename_i hcreates <;> simp [hcreates]

theorem mem_releaseSteps {t : Uuid7} {retired : List DeploymentRecord} {e : CommitStep} :
    e ∈ retired.flatMap (releaseSteps t) ↔ ∃ r ∈ retired,
      e = .retire t r.id r.releaseTreeDigest ∨ e = .discard t r.id r.releaseTreeDigest := by
  simp [releaseSteps]

theorem mem_forgetSteps {t : Uuid7} {retired : List DeploymentRecord} {e : CommitStep} :
    e ∈ retired.flatMap (forgetSteps t) ↔ ∃ r ∈ retired, e = .remove (.deployment t r.id) := by
  simp [forgetSteps]

/-- The steps of the transition, by what they write. -/
theorem mem_transitionSteps {documents : DeploymentDocuments} {e : CommitStep} :
    e ∈ transitionSteps documents ↔
      (documents.createsDeployment = true ∧
        e = .put (.deployment documents.tenantId documents.deployment.id)
          (.deploymentRecord documents.deployment)) ∨
      e = .put (.desired documents.tenantId) (.site documents.manifest) ∨
      e = .put (.observed documents.tenantId) (.tenantObservedState documents.observedState) := by
  unfold transitionSteps
  rw [List.mem_append, mem_recordSteps]
  simp [stateSteps]

/-- Every step of a retirement, by what it removes. -/
theorem mem_retirementSteps {t : Uuid7} {retired : List DeploymentRecord} {e : CommitStep} :
    e ∈ retirementSteps t retired ↔ ∃ r ∈ retired,
      e = .retire t r.id r.releaseTreeDigest ∨ e = .discard t r.id r.releaseTreeDigest ∨
        e = .remove (.deployment t r.id) := by
  unfold retirementSteps
  rw [List.mem_append, mem_releaseSteps, mem_forgetSteps]
  constructor
  · rintro (⟨r, hr, h | h⟩ | ⟨r, hr, h⟩)
    · exact ⟨r, hr, Or.inl h⟩
    · exact ⟨r, hr, Or.inr (Or.inl h)⟩
    · exact ⟨r, hr, Or.inr (Or.inr h)⟩
  · rintro ⟨r, hr, h | h | h⟩
    · exact Or.inl ⟨r, hr, Or.inl h⟩
    · exact Or.inl ⟨r, hr, Or.inr h⟩
    · exact Or.inr ⟨r, hr, h⟩

section Steps

variable {documents : DeploymentDocuments} {job : AuthorizationJob}
  {retired : List DeploymentRecord}

theorem transitionSteps_separate (documents : DeploymentDocuments) :
    Separate host (transitionSteps documents) := by
  unfold transitionSteps recordSteps
  split <;> simp [Separate, stateSteps, CommitStep.observes, CommitStep.touches]

/-- The steps of different records are apart. -/
theorem releaseSteps_apart {t : Uuid7} {r r' : DeploymentRecord} (h : r.id ≠ r'.id) :
    ∀ f ∈ releaseSteps t r, ∀ e ∈ releaseSteps t r',
      f.observes ∉ e.touches ∧ e.observes ∉ f.touches := by
  simp [releaseSteps, CommitStep.observes, CommitStep.touches, h, h.symm]

theorem retirementSteps_separate (h : Retirable documents retired) :
    Separate host (retirementSteps documents.tenantId retired) := by
  refine List.pairwise_append.2 ⟨?_, ?_, fun f hf e he => ?_⟩
  · refine List.pairwise_flatMap.2 ⟨fun r _ => ?_, h.distinct.imp fun hne f hf e he => ?_⟩
    · simp [releaseSteps, CommitStep.observes, CommitStep.touches, CommitStep.bytes,
        CommitStep.inodes]
    · obtain ⟨hfree, hseen⟩ := releaseSteps_apart hne f hf e he
      exact ⟨hfree, fun hother => absurd hother hseen⟩
  · refine List.pairwise_flatMap.2 ⟨fun r _ => ?_, h.distinct.imp fun hne f hf e he => ?_⟩
    · simp [forgetSteps]
    · rw [List.mem_singleton.1 hf, List.mem_singleton.1 he]
      simp [CommitStep.observes, CommitStep.touches, hne, hne.symm]
  · obtain ⟨r, -, rfl | rfl⟩ := mem_releaseSteps.1 hf
    · obtain ⟨r', -, rfl⟩ := mem_forgetSteps.1 he
      simp [CommitStep.observes, CommitStep.touches]
    · obtain ⟨r', -, rfl⟩ := mem_forgetSteps.1 he
      simp [CommitStep.observes, CommitStep.touches]

theorem deploymentBefore_separate (h : Retirable documents retired) :
    Separate host (deploymentBefore documents retired) := by
  refine List.pairwise_append.2 ⟨transitionSteps_separate documents, retirementSteps_separate h,
    fun f hf e he => ?_⟩
  obtain ⟨r, hr, he⟩ := mem_retirementSteps.1 he
  have hother := h.other r hr
  rcases mem_transitionSteps.1 hf with ⟨-, rfl⟩ | rfl | rfl
  · rcases he with rfl | rfl | rfl <;>
      simp [CommitStep.observes, CommitStep.touches, hother, hother.symm]
  · rcases he with rfl | rfl | rfl <;> simp [CommitStep.observes, CommitStep.touches]
  · rcases he with rfl | rfl | rfl <;> simp [CommitStep.observes, CommitStep.touches]

/-- Where a step before the audit entry may write. -/
def transitionPlace (t : Uuid7) : Place → Bool
  | .file (.deployment t' _) => decide (t' = t)
  | .file (.desired t') | .file (.observed t') => decide (t' = t)
  | .release n => decide (n.tenantId = t)
  | _ => false

theorem deploymentBefore_places {e : CommitStep} (he : e ∈ deploymentBefore documents retired) :
    transitionPlace documents.tenantId e.observes = true ∧
      ∀ place ∈ e.touches, transitionPlace documents.tenantId place = true := by
  rcases List.mem_append.1 he with he | he
  · rcases mem_transitionSteps.1 he with ⟨-, rfl⟩ | rfl | rfl <;>
      simp [CommitStep.observes, CommitStep.touches, transitionPlace]
  · obtain ⟨r, -, rfl | rfl | rfl⟩ := mem_retirementSteps.1 he <;>
      simp [CommitStep.observes, CommitStep.touches, transitionPlace]

/-- What no step before the audit entry writes. -/
theorem deploymentBefore_free {place : Place}
    (h : transitionPlace documents.tenantId place = false) :
    ∀ e ∈ deploymentBefore documents retired, place ∉ e.touches := by
  intro e he htouched
  rw [(deploymentBefore_places he).2 place htouched] at h
  cases h

theorem deploymentSteps_split (documents : DeploymentDocuments) (job : AuthorizationJob)
    (retired : List DeploymentRecord) :
    deploymentSteps documents job retired = deploymentBefore documents retired ++
      .append documents.auditEntry :: closingSteps job documents.result documents.intentId :=
  List.append_assoc _ _ _

theorem deploymentSteps_separate (h : Retirable documents retired) :
    Separate host (deploymentSteps documents job retired) := by
  rw [deploymentSteps_split]
  refine List.pairwise_append.2 ⟨deploymentBefore_separate h, ?_, fun f hf e he => ?_⟩
  · simp [closingSteps, CommitStep.observes, CommitStep.touches]
  · obtain ⟨hobserves, htouches⟩ := deploymentBefore_places hf
    have hafter : ∀ place ∈ e.observes :: e.touches,
        transitionPlace documents.tenantId place = false := by
      simp only [closingSteps, List.mem_cons, List.not_mem_nil, or_false] at he
      rcases he with rfl | rfl | rfl | rfl <;>
        simp [CommitStep.observes, CommitStep.touches, transitionPlace]
    refine ⟨fun hseen => ?_, fun hseen => ?_⟩
    · rw [hafter _ (List.mem_cons_of_mem _ hseen)] at hobserves
      cases hobserves
    · have hplace := htouches _ hseen
      rw [hafter _ List.mem_cons_self] at hplace
      cases hplace

theorem deploymentSteps_only (documents : DeploymentDocuments) (job : AuthorizationJob)
    (retired : List DeploymentRecord) :
    ∀ e ∈ deploymentSteps documents job retired,
      appendsOnly documents.auditEntry e = true := by
  intro e he
  rw [deploymentSteps_split] at he
  rcases List.mem_append.1 he with he | he
  · have hfree := (@deploymentBefore_free documents retired .audit) rfl e he
    cases e with
    | append x => simp [CommitStep.touches] at hfree
    | _ => rfl
  · simp only [closingSteps, List.mem_cons, List.not_mem_nil, or_false] at he
    rcases he with rfl | rfl | rfl | rfl
    · exact decide_eq_true rfl
    · rfl
    · rfl
    · rfl

theorem deploymentBefore_avoid (documents : DeploymentDocuments) (job : AuthorizationJob)
    (retired : List DeploymentRecord) :
    ∀ e ∈ deploymentBefore documents retired ++ [.append documents.auditEntry],
      avoidsClosing job e = true := by
  intro e he
  rcases List.mem_append.1 he with he | he
  · rcases List.mem_append.1 he with he | he
    · rcases mem_transitionSteps.1 he with ⟨-, rfl⟩ | rfl | rfl <;> rfl
    · obtain ⟨r, -, rfl | rfl | rfl⟩ := mem_retirementSteps.1 he <;> rfl
  · rw [List.mem_singleton.1 he]
    rfl

theorem deploymentBefore_keeps (documents : DeploymentDocuments)
    (retired : List DeploymentRecord) :
    ∀ e ∈ deploymentBefore documents retired ++ [.append documents.auditEntry],
      e.keepsInventory = true := by
  intro e he
  rcases List.mem_append.1 he with he | he
  · rcases List.mem_append.1 he with he | he
    · rcases mem_transitionSteps.1 he with ⟨-, rfl⟩ | rfl | rfl <;> rfl
    · obtain ⟨r, -, rfl | rfl | rfl⟩ := mem_retirementSteps.1 he <;> rfl
  · rw [List.mem_singleton.1 he]
    rfl

theorem deploymentSteps_jobNow (documents : DeploymentDocuments) (job : AuthorizationJob)
    (s : Store) (retired : List DeploymentRecord) :
    deploymentSteps documents (jobNow job s) retired = deploymentSteps documents job retired := by
  unfold deploymentSteps
  rw [closingSteps_jobNow]

theorem deploymentBefore_ready (documents : DeploymentDocuments)
    (retired : List DeploymentRecord) :
    ∀ e ∈ deploymentBefore documents retired, ∀ u, e.Ready host u := by
  intro e he u
  rcases List.mem_append.1 he with he | he
  · rcases mem_transitionSteps.1 he with ⟨-, rfl⟩ | rfl | rfl <;> trivial
  · obtain ⟨r, -, rfl | rfl | rfl⟩ := mem_retirementSteps.1 he <;> trivial

variable (host) in
theorem deploymentBefore_audit (documents : DeploymentDocuments)
    (retired : List DeploymentRecord) (s : Store) :
    (settleAll (stepsOf host (deploymentBefore documents retired)) s).audit = s.audit :=
  (@CommitStep.settleAll_same _ _ _ .audit) (deploymentBefore_free rfl)

end Steps

/-! ## Readings -/

theorem readDeployment_same {t d : Uuid7} {s s' : Store}
    (h : s'.find? (.deployment t d) = s.find? (.deployment t d)) :
    readDeployment host t d s' = readDeployment host t d s := by
  unfold readDeployment
  rw [(@readLocked_same _ (.tenantDeployment t d)) h]

theorem requireExactDeployment_eq_ok {expected : DeploymentRecord} {s : Store} {u : Unit} :
    requireExactDeployment host expected s = .ok u ↔
      readDeployment host expected.tenantId expected.id s = .ok expected := by
  unfold requireExactDeployment
  simp only [bind_eq_ok, require_eq_ok, decide_eq_true_eq]
  constructor
  · rintro ⟨current, hread, rfl⟩
    exact hread
  · intro hread
    exact ⟨_, hread, rfl⟩

theorem requireSelectedRelease_eq_ok {documents : DeploymentDocuments} {s : Store} {u : Unit} :
    requireSelectedRelease documents s = .ok u ↔
      measureRelease documents.tenantId documents.deployment.id s =
        .ok documents.deployment.releaseTreeDigest := by
  unfold requireSelectedRelease
  simp only [bind_eq_ok, require_eq_ok, decide_eq_true_eq]
  constructor
  · rintro ⟨measured, hmeasured, rfl⟩
    exact hmeasured
  · intro hmeasured
    exact ⟨_, hmeasured, rfl⟩

/-- The record of the selected source deployment is the dispatched one. -/
structure SourceExact (host : StateHost) (documents : DeploymentDocuments)
    (selected : DeploymentReference) (source : DeploymentRecord) : Prop where
  archive : source.archiveSha256 = selected.archiveSha256
  releaseTree : some source.releaseTreeDigest = documents.sourceReleaseTreeDigest
  digest : some (deploymentRecordDigest host.encoding source) = documents.sourceDeploymentDigest

/-- What is required of the deployment selected in the source: it is there as dispatched, or it left
the history of a transition whose states are written. -/
theorem requireSourceDeployment_eq_ok {documents : DeploymentDocuments} {ids : List Uuid7}
    {committed : Bool} {s : Store} {u : Unit} (h : HistoryPlan documents) :
    requireSourceDeployment host documents ids committed s = .ok u ↔
      ∀ selected, documents.sourceManifest.spec.desiredDeployment = some selected →
        documents.intent.sourceManifestDigest =
            some (manifestDigest host.encoding documents.sourceManifest) ∧
          (selected.id ∈ ids → ∃ source,
            readDeployment host documents.tenantId selected.id s = .ok source ∧
              SourceExact host documents selected source) ∧
            (selected.id ∉ ids → selected.id ∉ retainedIds documents ∧ committed = true) := by
  unfold requireSourceDeployment
  cases hselected : documents.sourceManifest.spec.desiredDeployment with
  | none =>
      refine iff_of_true rfl fun selected h => ?_
      cases h
  | some selected =>
      simp only [bind_eq_ok, require_eq_ok, decide_eq_true_eq, Option.some.injEq, forall_eq']
      by_cases hlisted : selected.id ∈ ids
      · simp only [hlisted, if_true, not_true_eq_false, false_implies, and_true, true_implies,
          bind_eq_ok, require_eq_ok, Bool.and_eq_true, decide_eq_true_eq]
        constructor
        · rintro ⟨-, hdigest, source, hread, ⟨harchive, htree⟩, hsource⟩
          exact ⟨hdigest, source, hread, harchive, htree, hsource⟩
        · rintro ⟨hdigest, source, hread, harchive, htree, hsource⟩
          exact ⟨(), hdigest, source, hread, ⟨harchive, htree⟩, hsource⟩
      · simp only [hlisted, if_false, not_false_eq_true, false_implies, true_and, true_implies,
          bind_eq_ok, require_eq_ok, Bool.and_eq_true, decide_eq_true_eq, h.terminal_eq,
          Except.ok.injEq, exists_eq_left']
        exact ⟨fun ⟨_, hdigest, hgone⟩ => ⟨hdigest, hgone⟩,
          fun ⟨hdigest, hgone⟩ => ⟨(), hdigest, hgone⟩⟩

/-- The stored records that leave the history, in order. -/
structure Leaving (host : StateHost) (documents : DeploymentDocuments) (s : Store)
    (retired : List DeploymentRecord) : Prop where
  listed : ((Listing.deployments documents.tenantId).ids s).filter
    (fun d => decide (d ∉ retainedIds documents)) = retired.map DeploymentRecord.id
  stored : ∀ r ∈ retired, readDeployment host documents.tenantId r.id s = .ok r

theorem leaving_iff {documents : DeploymentDocuments} {s : Store}
    {retired : List DeploymentRecord} :
    Leaving host documents s retired ↔
      ((((Listing.deployments documents.tenantId).ids s).filter fun d =>
          decide (d ∉ retainedIds documents)).mapM fun d =>
        readDeployment host documents.tenantId d s) = .ok retired := by
  have hread : ∀ d r, readDeployment host documents.tenantId d s = .ok r → r.id = d :=
    fun d r h => (readDeployment_identity h).2
  rw [mapM_eq_ok hread]
  exact ⟨fun h => ⟨h.listed, h.stored⟩, fun h => ⟨h.1, h.2⟩⟩

/-- Exactly these records leave the history. -/
theorem Leaving.unique {documents : DeploymentDocuments} {s : Store}
    {retired retired' : List DeploymentRecord} (h : Leaving host documents s retired)
    (h' : Leaving host documents s retired') : retired = retired' := by
  have hread := leaving_iff.1 h
  rw [leaving_iff.1 h'] at hread
  exact (Except.ok.inj hread).symm

theorem Leaving.retirable {documents : DeploymentDocuments} {s : Store}
    {retired : List DeploymentRecord} (h : Leaving host documents s retired)
    (hplan : HistoryPlan documents) : Retirable documents retired := by
  have hnodup : (retired.map DeploymentRecord.id).Nodup := by
    rw [← h.listed]
    exact (Listing.ids_nodup s).filter _
  refine ⟨fun r hr => (readDeployment_identity (h.stored r hr)).1, fun r hr hsame => ?_,
    List.pairwise_map.1 hnodup⟩
  have hmem : r.id ∈ retired.map DeploymentRecord.id := List.mem_map_of_mem hr
  rw [← h.listed, List.mem_filter, decide_eq_true_eq, hsame] at hmem
  exact hmem.2 hplan.target_retained

end StaticHostAgent.Commit
