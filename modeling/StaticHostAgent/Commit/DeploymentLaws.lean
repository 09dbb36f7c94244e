import StaticHostAgent.Commit.DeploymentConvergence
import StaticHostAgent.State.MeteredHost

/-!
# The laws of the deployment commit

The finalizer of an import, a deploy or a rollback changes only a state of its own transition. A run
that goes through leaves the retained history, at most three deployments with the selected one among
them, and no release of a deployment that left. Crashed runs are completed by the next one exactly
while the audit append stays admitted.
-/

set_option autoImplicit false

namespace StaticHostAgent.Commit

open Library Contracts Host Audit State

variable {host : StateHost} {limits : HostCapacityLimits} {expected job : AuthorizationJob}
  {documents : DeploymentDocuments} {retired : List DeploymentRecord} {s₀ s : Store}

/-! ## The end -/

/-- The transition is finished: its intent is gone, everything is as planned, and the history is the
retained one. -/
structure DeploymentDone (host : StateHost) (job : AuthorizationJob)
    (documents : DeploymentDocuments) (s : Store) : Prop
    extends CommitDone host .deployment job documents.toTransitionPlan s where
  recorded : readLocked host (.tenantDeployment documents.tenantId documents.deployment.id) s =
    .ok (.deploymentRecord documents.deployment)
  retained : tenantDeploymentIds host documents.tenantId s = .ok (retainedIds documents)
  released : requireSelectedRelease documents s = .ok ()

theorem terminalTransitionWithoutIntent_eq_some {r : OperationResult}
    (hplan : HistoryPlan documents) :
    terminalTransitionWithoutIntent host job documents s = .ok (some r) ↔
      DeploymentDone host job documents s ∧ r = documents.result := by
  unfold terminalTransitionWithoutIntent
  rw [cleared_eq_some]
  simp only [bind_eq_ok, require_eq_ok, decide_eq_true_eq,
    requireTerminalRecords_eq_ok, Bool.not_eq_true', pure_eq_ok, List.forall_mem_cons,
    List.not_mem_nil, false_implies, implies_true, and_true, Option.some.injEq, hplan.terminal_eq,
    Except.ok.injEq, exists_eq_left']
  constructor
  · rintro ⟨hmeasured, -, hcompleted, -, ⟨hdesired, hobserved, hrecorded, hresult⟩, _, hhistory, -,
      rfl, _, hreleased, _, haudit, -, rfl, rfl⟩
    exact ⟨⟨⟨hmeasured, hcompleted, hdesired, hobserved, hresult, haudit⟩, hrecorded, hhistory,
      hreleased⟩, rfl⟩
  · rintro ⟨h, rfl⟩
    exact ⟨h.measured, (), h.completed, (), ⟨h.desired, h.observed, h.recorded, h.result⟩, _,
      h.retained, (), rfl, (), h.released, false, h.audit, (), rfl, rfl⟩

theorem terminalTransitionWithoutIntent_eq_none :
    terminalTransitionWithoutIntent host job documents s = .ok none ↔
      ∃ records, measureIntentRecords host s = .ok records ∧ records ≠ [] := by
  refine cleared_eq_none ?_
  simp only [ne_eq, bind_eq_ok, pure_eq_ok, reduceCtorEq, and_false, exists_false,
    not_false_eq_true]

/-- Where every step is done, the history is the retained one. -/
theorem DeploymentReady.history_done
    (h : DeploymentReady host limits expected documents job s₀) (hplan : HistoryPlan documents)
    (hleaving : Leaving host documents s₀ retired)
    (hs : OnTheWay host (deploymentSteps documents job retired) s₀ s)
    (hsettled : ∀ e ∈ deploymentSteps documents job retired, e.pending host s = false) :
    readDeployment host documents.tenantId documents.deployment.id s = .ok documents.deployment ∧
      (Listing.deployments documents.tenantId).ids s = retainedIds documents := by
  have hretirable := hleaving.retirable hplan
  obtain ⟨p, ids, auditMissing, hadmitted⟩ := h.admitted
  have hreplayable := hadmitted.replayable
  rw [hadmitted.ids_eq] at hreplayable
  have hnow := hreplayable.along hplan hleaving hs
  have hrecorded : readDeployment host documents.tenantId documents.deployment.id s =
      .ok documents.deployment := by
    refine (h.selected hplan hretirable hs).resolve_right fun hmissing => ?_
    have hput := put_settled.1 (hsettled _ (by
      rw [deploymentSteps_parts]
      exact List.mem_append_left _ (mem_recordSteps.2 ⟨hmissing.1, rfl⟩)))
    have hnone := Listing.not_mem_ids.1 hmissing.2
    rw [show s.find? ((Listing.deployments documents.tenantId).path documents.deployment.id) = _
      from hput] at hnone
    cases hnone
  refine ⟨hrecorded, Listing.eq_of_mem_iff (Listing.ids_sorted s) hplan.retained_sorted
    fun d => ⟨fun hd => ?_, fun hd => ?_⟩⟩
  · by_contra hleft
    -- a record that is not retained has been removed
    have hmem : d ∈ ((Listing.deployments documents.tenantId).ids s).filter
        fun d => decide (d ∉ retainedIds documents) :=
      List.mem_filter.2 ⟨hd, decide_eq_true hleft⟩
    rw [(hleaving.along hplan hs).listed] at hmem
    obtain ⟨r, hr, -⟩ := List.mem_map.1 hmem
    obtain ⟨hr, hpresent⟩ := List.mem_filter.1 hr
    have hremoved := remove_settled.1 (hsettled (.remove (.deployment documents.tenantId r.id)) (by
      rw [deploymentSteps_split]
      refine List.mem_append_left _ (List.mem_append_right _ ?_)
      exact mem_retirementSteps.2 ⟨r, hr, Or.inr (Or.inr rfl)⟩))
    unfold recordPresent at hpresent
    rw [hremoved] at hpresent
    cases hpresent
  · by_cases hnew : d = documents.deployment.id
    · rw [hnew]
      refine Listing.mem_ids.2 ?_
      exact congrArg Option.isSome (readDeployment_eq_ok.1 hrecorded).1
    · exact hnow.kept d hd fun _ => hnew

/-- When the intent of a transition is gone, the transition is finished. -/
theorem DeploymentReady.done (h : DeploymentReady host limits expected documents job s₀)
    (hplan : HistoryPlan documents) (hleaving : Leaving host documents s₀ retired)
    (hs : OnTheWay host (deploymentSteps documents job retired) s₀ s)
    (hcleared : s.find? (.intent documents.intentId) = none) :
    deploymentSameJob host expected s = .ok (jobNow job s) ∧
      DeploymentDone host (jobNow job s) documents s ∧
        ∀ e ∈ deploymentSteps documents job retired, e.pending host s = false := by
  have hretirable := hleaving.retirable hplan
  have havoid := deploymentBefore_avoid documents job retired
  obtain ⟨-, ⟨hintent, -⟩, -⟩ := requireExactIntent_eq_ok.1 h.exact
  have hsettled := settled_of_cleared hs havoid (by rw [hintent]; rfl) hcleared
  have hstates : ∀ e ∈ stateSteps documents.toTransitionPlan,
      e ∈ deploymentBefore documents retired ++ [.append documents.auditEntry] :=
    fun e he => List.mem_append_left _ (List.mem_append_left _ (List.mem_append_right _ he))
  obtain ⟨hsame, hdone⟩ := (@commitDone_of_settled _ _ _
    documents.toTransitionPlan) hs havoid
    hstates (List.mem_append_right _ List.mem_cons_self) h.same h.exact h.fit
    (h.appendable.along hs (deploymentSteps_only _ _ _)) h.resultReady h.jobReady hcleared
  obtain ⟨hrecorded, hhistory⟩ := h.history_done hplan hleaving hs hsettled
  obtain ⟨hdirectory, hreadable⟩ := h.directory hplan hretirable hs
  rw [hhistory] at hreadable
  refine ⟨hsame, ⟨hdone, readLocked_eq_ok.2 (readDeployment_eq_ok.1 hrecorded), ?_,
    selectedRelease_along hretirable hs h.released⟩, hsettled⟩
  exact boundedDeploymentIds_eq_ok.2 ⟨hdirectory, hhistory.symm, hplan.retained_length, hreadable⟩

/-- A finished transition has nothing left to do. -/
theorem DeploymentDone.settled (h : DeploymentDone host job documents s)
    (hread : readJob host job.jobId s = .ok job) :
    Leaving host documents s [] ∧
      ∀ e ∈ deploymentSteps documents job [], e.pending host s = false := by
  obtain ⟨-, hids, -, -⟩ := boundedDeploymentIds_eq_ok.1 h.retained
  refine ⟨⟨?_, fun r hr => by cases hr⟩, fun e he => ?_⟩
  · rw [← hids]
    refine List.filter_eq_nil_iff.2 fun d hd => ?_
    simp [hd]
  · have hcommon := h.toCommitDone.settled hread
    rw [deploymentSteps_parts] at he
    rcases List.mem_append.1 he with he | he
    · obtain ⟨-, rfl⟩ := mem_recordSteps.1 he
      exact put_settled.2 (readLocked_eq_ok.1 h.recorded).1
    · refine hcommon e ?_
      simpa using he

/-- The end of a deployment commit. -/
structure DeploymentCommitted (host : StateHost) (documents : DeploymentDocuments)
    (job : AuthorizationJob) (s : Store) : Prop
    extends Committed host documents.toTransitionPlan job s where
  recorded : s.find? (.deployment documents.tenantId documents.deployment.id) =
    some (.deploymentRecord documents.deployment)
  history : (Listing.deployments documents.tenantId).ids s = retainedIds documents
  released : measureRelease documents.tenantId documents.deployment.id s =
    .ok documents.deployment.releaseTreeDigest

theorem DeploymentDone.committed (h : DeploymentDone host job documents s)
    (hread : readJob host job.jobId s = .ok job) : DeploymentCommitted host documents job s :=
  ⟨h.toCommitDone.committed hread, (readLocked_eq_ok.1 h.recorded).1,
    (boundedDeploymentIds_eq_ok.1 h.retained).2.1.symm, requireSelectedRelease_eq_ok.1 h.released⟩

/-- No release of the deployments that left is there, neither under its own name nor retired. -/
def ReleasesGone (t : Uuid7) (retired : List DeploymentRecord) (s : Store) : Prop :=
  ∀ r ∈ retired, s.releases.find? ⟨t, r.id, none⟩ = none ∧
    s.releases.find? ⟨t, r.id, some r.releaseTreeDigest.value⟩ = none

/-- The end of an uninterrupted run. -/
theorem DeploymentReady.committed (h : DeploymentReady host limits expected documents job s)
    (hplan : HistoryPlan documents) (hleaving : Leaving host documents s retired)
    (happend : AppendAdmitted host documents.auditEntry (deploymentBefore documents retired) s) :
    DeploymentCommitted host documents job
        (settleAll (stepsOf host (deploymentSteps documents job retired)) s) ∧
      ReleasesGone documents.tenantId retired
        (settleAll (stepsOf host (deploymentSteps documents job retired)) s) := by
  have hretirable := hleaving.retirable hplan
  have hseparate := (@deploymentSteps_separate host documents job retired) hretirable
  have haudit := deploymentBefore_audit host documents retired s
  have hsettled : ∀ e ∈ deploymentSteps documents job retired, e.pending host
      (settleAll (stepsOf host (deploymentSteps documents job retired)) s) = false := by
    rw [deploymentSteps_split] at hseparate ⊢
    exact happend.settled hseparate (by rw [haudit]; exact h.appendable)
      (settled_settleAll (deploymentBefore_separate hretirable) (deploymentBefore_ready _ _))
      (closingSteps_ready _ _ _)
  have hend : OnTheWay host (deploymentSteps documents job retired) s
      (settleAll (stepsOf host (deploymentSteps documents job retired)) s) :=
    ⟨stepsOf host (deploymentSteps documents job retired), [], (List.append_nil _).symm, rfl,
      settled_stepsOf.2 hsettled⟩
  obtain ⟨hrecorded, hhistory⟩ := h.history_done hplan hleaving hend hsettled
  have hbefore : ∀ e ∈ deploymentBefore documents retired,
      e ∈ deploymentSteps documents job retired := fun e he => by
    rw [deploymentSteps_split]
    exact List.mem_append_left _ he
  have hstates : ∀ e ∈ stateSteps documents.toTransitionPlan,
      e ∈ deploymentSteps documents job retired :=
    fun e he => hbefore e (List.mem_append_left _ (List.mem_append_right _ he))
  have hclosing : ∀ e ∈ .append documents.auditEntry ::
      closingSteps job documents.result documents.intentId,
      e ∈ deploymentSteps documents job retired := fun e he => by
    rw [deploymentSteps_split]
    exact List.mem_append_right _ he
  refine ⟨⟨(@committed_of_settled _ _ _ documents.toTransitionPlan)
    (hsettled _ (hstates _ (by simp [stateSteps])))
    (hsettled _ (hstates _ (by simp [stateSteps])))
    (hsettled _ (hclosing _ List.mem_cons_self))
    (h.appendable.settleAll (deploymentSteps_only _ _ _))
    fun e he => hsettled e (hclosing e (List.mem_cons_of_mem _ he)),
    (readDeployment_eq_ok.1 hrecorded).1, hhistory, ?_⟩, fun r hr => ⟨?_, ?_⟩⟩
  · exact requireSelectedRelease_eq_ok.1 (selectedRelease_along hretirable hend h.released)
  · have hdone := hsettled (.retire documents.tenantId r.id r.releaseTreeDigest)
      (hbefore _ (List.mem_append_right _ (mem_retirementSteps.2 ⟨r, hr, Or.inl rfl⟩)))
    exact Option.isNone_iff_eq_none.1 (Option.isSome_eq_false_iff.1 hdone)
  · have hdone := hsettled (.discard documents.tenantId r.id r.releaseTreeDigest)
      (hbefore _ (List.mem_append_right _
        (mem_retirementSteps.2 ⟨r, hr, Or.inr (Or.inl rfl)⟩)))
    exact Option.isNone_iff_eq_none.1 (Option.isSome_eq_false_iff.1 hdone)

/-! ## Runs -/

section Runs

variable {plan : DeploymentTransitionPlan}

theorem finalizeDeployment_of_done (hplan : HistoryPlan documents)
    (hfrozen : freezeDeployment host expected plan = .ok documents)
    (hsame : deploymentSameJob host expected s = .ok job)
    (h : DeploymentDone host job documents s) :
    finalizeDeployment host limits expected plan s = ⟨[], s, .ok ⟨documents.result, false⟩⟩ := by
  unfold finalizeDeployment
  rw [Durable.query_bind_ok (f := fun _ => freezeDeployment host expected plan) hfrozen,
    Durable.query_bind_ok hsame,
    Durable.query_bind_ok (f := terminalTransitionWithoutIntent host job documents)
      ((terminalTransitionWithoutIntent_eq_some hplan).2 ⟨h, rfl⟩)]
  rfl

theorem finalizeDeployment_of_intent
    (hfrozen : freezeDeployment host expected plan = .ok documents)
    (hsame : deploymentSameJob host expected s = .ok job)
    (hterminal : terminalTransitionWithoutIntent host job documents s = .ok none) :
    finalizeDeployment host limits expected plan s =
      commitDeployment host limits job documents s := by
  unfold finalizeDeployment
  rw [Durable.query_bind_ok (f := fun _ => freezeDeployment host expected plan) hfrozen,
    Durable.query_bind_ok hsame, Durable.query_bind_ok hterminal]
  rfl

theorem historyPlan_of_frozen (hfrozen : freezeDeployment host expected plan = .ok documents) :
    documents.toDeploymentTransitionPlan = plan ∧ HistoryPlan documents := by
  obtain ⟨⟨target, hchecked⟩, -⟩ := (freezeDeployment_eq_ok host).1 hfrozen
  exact ⟨hchecked.planned, historyPlan_of_agreement hchecked.agreement⟩

/-- A run that went through found the transition finished, or was ready to make it. -/
theorem finalizeDeployment_cases {o : CommitOutcome}
    (hok : (finalizeDeployment host limits expected plan s).result = .ok o) :
    ∃ documents job, freezeDeployment host expected plan = .ok documents ∧
      HistoryPlan documents ∧ documents.toDeploymentTransitionPlan = plan ∧
      deploymentSameJob host expected s = .ok job ∧
      (DeploymentDone host job documents s ∨
        DeploymentReady host limits expected documents job s ∧ ∃ retired,
          Leaving host documents s retired ∧
            AppendAdmitted host documents.auditEntry (deploymentBefore documents retired) s) := by
  obtain ⟨documents, hfrozen, hok⟩ := Durable.query_bind_result_ok hok
  obtain ⟨job, hsame, hok⟩ := Durable.query_bind_result_ok hok
  obtain ⟨terminal, hterminal, hok⟩ := Durable.query_bind_result_ok hok
  obtain ⟨hplanned, hplan⟩ := historyPlan_of_frozen hfrozen
  refine ⟨documents, job, hfrozen, hplan, hplanned, hsame, ?_⟩
  cases terminal with
  | some r => exact Or.inl ((terminalTransitionWithoutIntent_eq_some hplan).1 hterminal).1
  | none => exact Or.inr (deploymentReady_of_ok hplan hsame hok)

/-- The append of every run that goes through was admitted at its start. -/
theorem finalizeDeployment_admits {o : CommitOutcome}
    (hok : (finalizeDeployment host limits expected plan s).result = .ok o)
    (hmissing : auditMissing host plan.auditEntry s = true) :
    admitMissingAudit host plan.auditEntry s = .ok () := by
  obtain ⟨documents, job, -, -, rfl, -, hdone | ⟨hready, -⟩⟩ := finalizeDeployment_cases hok
  · rw [← inspectNeedsAppend_value hdone.audit] at hmissing
    cases hmissing
  · obtain ⟨p, ids, missing, hadmitted⟩ := hready.admitted
    exact hadmitted.headroom ((inspectNeedsAppend_value hadmitted.audit).trans hmissing)

theorem DeploymentReady.orderly (h : DeploymentReady host limits expected documents job s₀)
    (hretirable : Retirable documents retired)
    (hkept : HeadroomKept host documents.auditEntry (deploymentSteps documents job retired) s₀) :
    Orderly (stepsOf host (deploymentSteps documents job retired))
      (OnTheWay host (deploymentSteps documents job retired) s₀) := by
  refine hkept.orderly (deploymentSteps_separate hretirable) h.appendable
    (deploymentSteps_only _ _ _) ?_
  intro before e after hsteps u _ _ hother
  have hmem : e ∈ deploymentSteps documents job retired := by
    rw [hsteps]
    exact List.mem_append_right _ List.mem_cons_self
  rw [deploymentSteps_split] at hmem
  rcases List.mem_append.1 hmem with hmem | hmem
  · exact deploymentBefore_ready _ _ e hmem u
  · rcases List.mem_cons.1 hmem with rfl | hmem
    · exact absurd rfl (hother documents.auditEntry)
    · exact closingSteps_ready _ _ _ e hmem u

/-- While the append stays admitted, every run on the way settles the same steps. -/
theorem DeploymentReady.settles (h : DeploymentReady host limits expected documents job s₀)
    (hfrozen : freezeDeployment host expected plan = .ok documents)
    (hleaving : Leaving host documents s₀ retired)
    (hkept : HeadroomKept host documents.auditEntry (deploymentSteps documents job retired) s₀)
    (hs : OnTheWay host (deploymentSteps documents job retired) s₀ s) :
    ∃ o : CommitOutcome, o.result = documents.result ∧
      Performs (finalizeDeployment host limits expected plan)
        (stepsOf host (deploymentSteps documents job retired)) s o := by
  obtain ⟨-, hplan⟩ := historyPlan_of_frozen hfrozen
  have hretirable := hleaving.retirable hplan
  have ho := h.orderly hretirable hkept
  cases hintent : s.find? (.intent documents.intentId) with
  | some d =>
      have hready := h.along hplan hleaving hs hkept (by rw [hintent]; rfl)
      obtain ⟨hmeasured, -⟩ := requireExactIntent_eq_ok.1 hready.exact
      have hgone : ∀ r ∈ retired, recordPresent documents.tenantId s r = false →
          s.find? (.deployment documents.tenantId r.id) = none ∧
            ∀ e ∈ releaseSteps documents.tenantId r, e.pending host s = false := by
        intro r hr habsent
        obtain ⟨hnone, hdone⟩ := hleaving.gone hplan hs hr habsent
        exact ⟨hnone, fun e he => hdone e (List.mem_append_right _
          (List.mem_flatMap.2 ⟨r, hr, he⟩))⟩
      obtain ⟨o, hresult, hperforms⟩ := hready.performs hplan hretirable
        (hleaving.along hplan hs) hgone (hkept.admitted ho (deploymentSteps_split _ _ _) hs)
      rw [deploymentSteps_jobNow] at hperforms
      exact ⟨o, hresult, hperforms.congr (finalizeDeployment_of_intent hfrozen hready.same
        (terminalTransitionWithoutIntent_eq_none.2 ⟨_, hmeasured, by simp⟩))⟩
  | none =>
      obtain ⟨hsame, hdone, hsettled⟩ := h.done hplan hleaving hs hintent
      exact ⟨⟨documents.result, false⟩, rfl, Performs.of_settled (settled_stepsOf.2 hsettled)
        (finalizeDeployment_of_done hplan hfrozen hsame hdone)⟩

/-- A run that was ready to make the transition performs its steps. -/
theorem finalizeDeployment_performs {o : CommitOutcome}
    (hfrozen : freezeDeployment host expected plan = .ok documents)
    (hready : DeploymentReady host limits expected documents job s)
    (hleaving : Leaving host documents s retired)
    (happend : AppendAdmitted host documents.auditEntry (deploymentBefore documents retired) s)
    (hok : (finalizeDeployment host limits expected plan s).result = .ok o) :
    o.result = documents.result ∧ Performs (finalizeDeployment host limits expected plan)
      (stepsOf host (deploymentSteps documents job retired)) s o := by
  obtain ⟨-, hplan⟩ := historyPlan_of_frozen hfrozen
  obtain ⟨hmeasured, -⟩ := requireExactIntent_eq_ok.1 hready.exact
  have hall : retired.filter (fun _ => true) = retired := List.filter_eq_self.2 fun _ _ => rfl
  obtain ⟨o', hresult, hperforms⟩ := (@DeploymentReady.performs _ _ _ _ _ _ (fun _ => true) _)
    hready hplan (hleaving.retirable hplan) (by rw [hall]; exact hleaving)
    (fun r _ hfalse => by cases hfalse) happend
  have hrun := hperforms.congr ((@finalizeDeployment_of_intent _ limits) hfrozen hready.same
    (terminalTransitionWithoutIntent_eq_none.2 ⟨_, hmeasured, by simp⟩))
  obtain rfl : o' = o := Except.ok.inj (hrun.result.symm.trans hok)
  exact ⟨hresult, hrun⟩

end Runs

/-! ## Laws -/

/-- A state that a deployment transition may have left behind, or that it may start from. -/
structure DeploymentOwn (host : StateHost) (expected : AuthorizationJob)
    (documents : DeploymentDocuments) (s : Store) : Prop where
  job : ∃ job, deploymentSameJob host expected s = .ok job ∧
    (s.find? (.result job.jobId) = none ∨
      s.find? (.result job.jobId) = some (.operationResult documents.result))
  intent : s.find? (.intent documents.intentId) = some (.transactionIntent documents.intent)
  desired : s.find? (.desired documents.tenantId) = some (.site documents.sourceManifest) ∨
    s.find? (.desired documents.tenantId) = some (.site documents.manifest)
  observed : s.find? (.observed documents.tenantId) =
      some (.tenantObservedState documents.sourceObservedState) ∨
    s.find? (.observed documents.tenantId) = some (.tenantObservedState documents.observedState)
  ordered : s.find? (.observed documents.tenantId) =
      some (.tenantObservedState documents.observedState) →
    s.find? (.desired documents.tenantId) = some (.site documents.manifest)
  history : Replayable documents ((Listing.deployments documents.tenantId).ids s)
  recorded : s.find? (.deployment documents.tenantId documents.deployment.id) =
      some (.deploymentRecord documents.deployment) ∨
    documents.createsDeployment = true ∧
      s.find? (.deployment documents.tenantId documents.deployment.id) = none
  released : measureRelease documents.tenantId documents.deployment.id s =
    .ok documents.deployment.releaseTreeDigest

/-- What the finalizer of a deployment transition does, whenever it is interrupted. -/
structure DeploymentCommitLaws (host : StateHost) (limits : HostCapacityLimits)
    (expected : AuthorizationJob) (plan : DeploymentTransitionPlan) (s : Store) : Prop where
  /-- It makes nothing durable in a state of another transition, nor without the release that the
  transition selects. -/
  own : (finalizeDeployment host limits expected plan s).trace ≠ [] → ∃ documents,
    freezeDeployment host expected plan = .ok documents ∧
      DeploymentOwn host expected documents s
  /-- At most three deployments are retained, the selected one among them. -/
  retains : ∀ documents, freezeDeployment host expected plan = .ok documents →
    (retainedIds documents).length ≤ maximumRetainedDeployments ∧
      plan.deployment.id ∈ retainedIds documents ∧
        (retainedIds documents).Sublist (transitionHistory documents)
  /-- A run that goes through returns the planned result and leaves the planned end, with the
  retained history and without the releases of the deployments that left it. -/
  ends : ∀ o, (finalizeDeployment host limits expected plan s).result = .ok o →
    ∃ documents job, freezeDeployment host expected plan = .ok documents ∧
      readJob host expected.jobId s = .ok job ∧ o.result = plan.result ∧
      DeploymentCommitted host documents job
        (finalizeDeployment host limits expected plan s).state ∧
      ∀ retired, Leaving host documents s retired →
        ReleasesGone plan.tenantId retired (finalizeDeployment host limits expected plan s).state
  /-- Crashed runs are completed by the next run, in the state of the uninterrupted one, exactly
  while the append stays admitted. -/
  converges : ∀ o, (finalizeDeployment host limits expected plan s).result = .ok o →
    ∃ documents job retired, freezeDeployment host expected plan = .ok documents ∧
      readJob host expected.jobId s = .ok job ∧ Leaving host documents s retired ∧
      ((finalizeDeployment host limits expected plan).Converges
          (fun o => o.result = plan.result) s ↔
        HeadroomKept host plan.auditEntry (deploymentSteps documents job retired) s)
  /-- Without an archive head they always are. -/
  headless : ∀ o, (finalizeDeployment host limits expected plan s).result = .ok o →
    Headless host s → (finalizeDeployment host limits expected plan).Converges
      (fun o => o.result = plan.result) s

section Laws

variable {plan : DeploymentTransitionPlan}

theorem finalizeDeployment_own
    (htrace : (finalizeDeployment host limits expected plan s).trace ≠ []) :
    ∃ documents, freezeDeployment host expected plan = .ok documents ∧
      DeploymentOwn host expected documents s := by
  obtain ⟨documents, hfrozen, htrace⟩ := query_bind_trace htrace
  obtain ⟨job, hsame, htrace⟩ := query_bind_trace htrace
  obtain ⟨terminal, -, htrace⟩ := query_bind_trace htrace
  obtain ⟨-, hplan⟩ := historyPlan_of_frozen hfrozen
  cases terminal with
  | some r => exact absurd rfl htrace
  | none =>
      obtain ⟨removal, hexact, htrace⟩ := query_bind_trace htrace
      obtain ⟨p, hadmission, htrace⟩ := query_bind_trace htrace
      obtain ⟨⟨⟩, hreleased, -⟩ := query_bind_trace htrace
      obtain ⟨ids, auditMissing, h⟩ := (admitDeploymentTransition_eq_ok hplan).1 hadmission
      obtain ⟨-, ⟨hintent, -⟩, -⟩ := requireExactIntent_eq_ok.1 hexact
      have hdesired : s.find? (.desired documents.tenantId) = some p.desired :=
        (readLocked_eq_ok.1 h.states.desiredRead).1
      have hobserved : s.find? (.observed documents.tenantId) = some p.observed :=
        (readLocked_eq_ok.1 h.states.observedRead).1
      have hhistory := h.replayable
      rw [h.ids_eq] at hhistory
      refine ⟨documents, hfrozen, ⟨job, hsame, ?_⟩, hintent, ?_, ?_, fun hplanned => ?_, hhistory,
        ?_, requireSelectedRelease_eq_ok.1 hreleased⟩
      · rcases missingExact_eq_ok.1 h.resultMissing with ⟨hnone, -⟩ | ⟨hread, -⟩
        · exact Or.inl hnone
        · exact Or.inr (readLocked_eq_ok.1 hread).1
      · rw [hdesired]
        exact h.states.desiredKnown.imp (congrArg some) (congrArg some)
      · rw [hobserved]
        exact h.states.observedKnown.imp (congrArg some) (congrArg some)
      · rw [hobserved] at hplanned
        rw [hdesired, h.states.order (Option.some.inj hplanned)]
      · cases hwrite : p.writeDeployment with
        | true => exact Or.inr (h.absent hwrite)
        | false => exact Or.inl (h.recorded_find hplan hwrite)

/-- A run that goes through converges exactly while the append stays admitted. -/
theorem finalizeDeployment_converges_iff {o : CommitOutcome}
    (hok : (finalizeDeployment host limits expected plan s).result = .ok o) :
    ∃ documents job retired, freezeDeployment host expected plan = .ok documents ∧
      readJob host expected.jobId s = .ok job ∧ o.result = plan.result ∧
      Leaving host documents s retired ∧
      DeploymentCommitted host documents job
        (finalizeDeployment host limits expected plan s).state ∧
      ReleasesGone plan.tenantId retired
        (finalizeDeployment host limits expected plan s).state ∧
      ((finalizeDeployment host limits expected plan).Converges
          (fun o => o.result = plan.result) s ↔
        HeadroomKept host plan.auditEntry (deploymentSteps documents job retired) s) := by
  obtain ⟨documents, job, hfrozen, hplan, rfl, hsame, hcases⟩ := finalizeDeployment_cases hok
  obtain ⟨hid, hread⟩ := requireSameJob_stored hsame
  rcases hcases with hdone | ⟨hready, retired, hleaving, happend⟩
  · have hrun := (@finalizeDeployment_of_done _ limits) hplan hfrozen hsame hdone
    obtain ⟨hleaving, hsettled⟩ := hdone.settled hread
    refine ⟨documents, job, [], hfrozen, by rw [hid]; exact hread, ?_, hleaving, ?_,
      fun r hr => (by cases hr), ?_⟩
    · rw [hrun] at hok
      rw [← Except.ok.inj hok]
    · rw [hrun]
      exact hdone.committed hread
    · refine iff_of_true (fun t ht => ?_) fun u hu hmissing => ?_
      · obtain rfl := ht.eq_start (by rw [hrun])
        exact ⟨_, rfl, by rw [hrun], rfl⟩
      · obtain rfl := onTheWay_of_settled hu hsettled
        rw [← inspectNeedsAppend_value hdone.audit] at hmissing
        cases hmissing
  · obtain ⟨hresult, hstart⟩ := finalizeDeployment_performs hfrozen hready hleaving happend hok
    obtain ⟨hcommitted, hgone⟩ := hready.committed hplan hleaving happend
    refine ⟨documents, job, retired, hfrozen, by rw [hid]; exact hread, hresult, hleaving, ?_, ?_,
      ?_⟩
    · rw [hstart.state]
      exact hcommitted
    · rw [hstart.state]
      exact hgone
    · exact converges_iff_headroomKept hstart
        (fun hkept => hready.orderly (hleaving.retirable hplan) hkept)
        (fun hkept u hu => hready.settles hfrozen hleaving hkept hu)
        fun u o hok hmissing => finalizeDeployment_admits hok hmissing

/-- The finalizer of an import, a deploy or a rollback is resumable. -/
theorem finalizeDeployment_laws (host : StateHost) (limits : HostCapacityLimits)
    (expected : AuthorizationJob) (plan : DeploymentTransitionPlan) (s : Store) :
    DeploymentCommitLaws host limits expected plan s where
  own := finalizeDeployment_own
  retains := by
    intro documents hfrozen
    obtain ⟨rfl, hplan⟩ := historyPlan_of_frozen hfrozen
    exact ⟨hplan.retained_length, hplan.target_retained, hplan.retained_sublist⟩
  ends := by
    intro o hok
    obtain ⟨documents, job, retired, hfrozen, hread, hresult, hleaving, hcommitted, hgone, -⟩ :=
      finalizeDeployment_converges_iff hok
    refine ⟨documents, job, hfrozen, hread, hresult, hcommitted, fun retired' hother => ?_⟩
    rw [hother.unique hleaving]
    exact hgone
  converges := by
    intro o hok
    obtain ⟨documents, job, retired, hfrozen, hread, -, hleaving, -, -, hiff⟩ :=
      finalizeDeployment_converges_iff hok
    exact ⟨documents, job, retired, hfrozen, hread, hleaving, hiff⟩
  headless := by
    intro o hok hhead
    obtain ⟨documents, job, retired, hfrozen, -, -, -, -, -, hiff⟩ :=
      finalizeDeployment_converges_iff hok
    refine hiff.2 ?_
    rw [← (historyPlan_of_frozen hfrozen).1, deploymentSteps_split]
    refine headroomKept_of_headless (deploymentBefore_free rfl) hhead ?_
    rw [(historyPlan_of_frozen hfrozen).1]
    exact finalizeDeployment_admits hok

end Laws

end StaticHostAgent.Commit

/-! ## A deploy that retires a release -/

namespace StaticHostAgent.Commit.DeploymentRun

open Library Contracts Host Audit State

def source : Site := sampleSite .active (some (sampleId 22))

def candidate : Site := sampleSite .active (some (sampleId 23))

def request : OperationRequest :=
  sampleRequest .deploy (some ⟨1, 0⟩)

def retained (n : Fin (2 ^ 48)) : DeploymentRecord := sampleDeployment n (sampleId 9)

def sourceObserved : TenantObservedState :=
  sampleObserved (placeDigest .manifest 0) .active (some (sampleId 22)) (some (sampleId 6))

def observed : TenantObservedState :=
  sampleObserved (placeDigest .manifest 1) .active (some (sampleId 23)) (some (sampleId 7))

def plan : DeploymentTransitionPlan where
  tenantId := sampleTenant
  intentId := sampleIntentId
  manifest := candidate
  observedState := observed
  intent := sampleIntent .deploy
    (some ⟨some sourceObserved, sampleId 6, .both, some observed, sampleId 7, .both⟩)
    (some (source, 0)) (some (candidate, 1))
  result := sampleResult .deploy candidate
  auditEntry := sampleEntry .deploy (placeDigest .result 3)
  deployment := sampleDeployment 23 sampleCorrelation
  createsDeployment := true

def job : AuthorizationJob :=
  sampleJob request 2
    ⟨false, some .active, some (placeDigest .manifest 0), some (placeDigest .deploymentRecord 4),
      none, ⟨.platformState, 0⟩, none⟩
    (some ⟨source, none⟩)
    { sampleDispatch sourceObserved .both [sampleId 20, sampleId 21, sampleId 22] [] with
      sourceReleaseTreeDigest := some ⟨.releaseTree, 0⟩
      artifactReleaseTreeDigest := some ⟨.releaseTree, 0⟩ }

noncomputable def host : StateHost :=
  meteredHost (tableAuditHost [.site source, .site candidate, .operationRequest request,
    .operationResult plan.result, .deploymentRecord (retained 22), .deploymentRecord (retained 21),
    .deploymentRecord (retained 20), .deploymentRecord plan.deployment,
    .tenantObservedState sourceObserved, .tenantObservedState observed,
    .transactionIntent plan.intent, .auditEntry plan.auditEntry, .authorizationJob job,
    .authorizationJob (completedJob job)]) (2 ^ 50) 0

/-- Three deployments are retained, and the release of the new one is published. -/
def store : Store :=
  sampleStore [(.desired sampleTenant, .site source),
    (.observed sampleTenant, .tenantObservedState sourceObserved),
    (.deployment sampleTenant (sampleId 20), .deploymentRecord (retained 20)),
    (.deployment sampleTenant (sampleId 21), .deploymentRecord (retained 21)),
    (.deployment sampleTenant (sampleId 22), .deploymentRecord (retained 22)),
    (.job sampleJobId, .authorizationJob job),
    (.intent sampleIntentId, .transactionIntent plan.intent)]
    [sampleId 20, sampleId 21, sampleId 22, sampleId 23]

example : (finalizeDeployment host defaultHostCapacityLimits job plan store).result =
    .ok ⟨plan.result, true⟩ := by decide +kernel

example : (finalizeDeployment host defaultHostCapacityLimits job plan store).state.releases.find?
    ⟨sampleTenant, sampleId 20, none⟩ = none := by decide +kernel

end StaticHostAgent.Commit.DeploymentRun
