import StaticHostAgent.Commit.Convergence
import StaticHostAgent.Commit.Route

/-!
# The desired and the observed state under a commit

Every commit replaces the desired state of its tenant and then the observed state. `StatesKnown` is
what the commits check about both: each is the source's or the planned one, and the observed state
is not ahead of the desired one. It holds in every state on the way if it holds at the start.
-/

set_option autoImplicit false

namespace StaticHostAgent.Commit

open Library Contracts Host Audit State

variable {host : StateHost}

/-- Replace the desired and the observed state of a tenant. -/
def stateSteps (plan : TransitionPlan) : List CommitStep :=
  [.put (.desired plan.tenantId) (.site plan.manifest),
    .put (.observed plan.tenantId) (.tenantObservedState plan.observedState)]

theorem stateSteps_ready (plan : TransitionPlan) :
    ∀ e ∈ stateSteps plan, ∀ u, e.Ready host u := by
  simp [stateSteps, CommitStep.Ready]

variable (host) in
theorem stateSteps_audit (plan : TransitionPlan) (s : Store) :
    (settleAll (stepsOf host (stateSteps plan)) s).audit = s.audit :=
  (@CommitStep.settleAll_same _ _ _ .audit) (by simp [stateSteps, CommitStep.touches])

/-! ## One state -/

/-- Replacing a state that was read performs its step, also when it is left out because the state is
the planned one. -/
theorem replaceState_when {record : StateRecordPath} {current candidate : Document} {s : Store}
    {write : Bool} (hmutable : record.allowsReplacement = true)
    (hread : readLocked host record s = .ok current) (hfits : record.Fits host.encoding candidate)
    (hretirement : validateRetirementReplacement current candidate = .ok ())
    (hphase : validateAuthorizationPhaseReplacement current candidate = .ok ())
    (hwrite : write = false → current = candidate) :
    Performs (Durable.when write (replaceState host record current candidate))
      (stepsOf host [.put record.components candidate]) s () := by
  cases write with
  | true =>
      exact (compareAndSwap_performs hfits
        ⟨hmutable, current, hread, rfl, hretirement, hphase⟩).dropped
  | false =>
      refine Performs.skip (e := CommitStep.toStep host (.put record.components candidate)) ?_
        (Performs.pure () s)
      show decide (s.find? record.components ≠ some candidate) = false
      rw [(readLocked_eq_ok.1 hread).1, hwrite rfl]
      simp

/-- A state that was replaced, or need not be, has a planned one that fits. -/
theorem replaceState_fits {record : StateRecordPath} {current candidate : Document} {s t : Store}
    {write : Bool} {u : Unit} (hread : readLocked host record s = .ok current)
    (hwrite : write = false → current = candidate)
    (h : (Durable.when write (replaceState host record current candidate) t).result = .ok u) :
    record.Fits host.encoding candidate := by
  cases write with
  | true =>
      obtain ⟨r, hswapped, -⟩ := Durable.bind_result_ok h
      exact (compareAndSwap_ok hswapped).1
  | false =>
      rw [← hwrite rfl]
      exact (readLocked_eq_ok.1 hread).2

/-! ## Both states -/

/-- Both states are known, and the observed one is not ahead of the desired one. -/
structure StatesKnown (host : StateHost) (plan : TransitionPlan) (source : Site)
    (sourceObserved : TenantObservedState) (s : Store) (desired observed : Document) : Prop where
  desiredRead : readLocked host (.tenantDesired plan.tenantId) s = .ok desired
  observedRead : readLocked host (.tenantObserved plan.tenantId) s = .ok observed
  desiredKnown : desired = .site source ∨ desired = .site plan.manifest
  observedKnown : observed = .tenantObservedState sourceObserved ∨
    observed = .tenantObservedState plan.observedState
  order : observed = .tenantObservedState plan.observedState → desired = .site plan.manifest

/-- Both planned states may be stored. -/
structure StatesFit (host : StateHost) (plan : TransitionPlan) : Prop where
  desired : StateRecordPath.Fits host.encoding (.tenantDesired plan.tenantId) (.site plan.manifest)
  observed : StateRecordPath.Fits host.encoding (.tenantObserved plan.tenantId)
    (.tenantObservedState plan.observedState)

section Known

variable {plan : TransitionPlan} {source : Site} {sourceObserved : TenantObservedState}
  {s₀ s : Store} {desired observed : Document}

theorem StatesKnown.desired_pending (h : StatesKnown host plan source sourceObserved s desired
    observed) : CommitStep.pending host (.put (.desired plan.tenantId) (.site plan.manifest)) s =
      decide (desired ≠ .site plan.manifest) := by
  show decide (s.find? (.desired plan.tenantId) ≠ _) = _
  rw [show s.find? (.desired plan.tenantId) = some desired from (readLocked_eq_ok.1 h.desiredRead).1]
  simp

theorem StatesKnown.observed_pending (h : StatesKnown host plan source sourceObserved s desired
    observed) :
    CommitStep.pending host
      (.put (.observed plan.tenantId) (.tenantObservedState plan.observedState)) s =
        decide (observed ≠ .tenantObservedState plan.observedState) := by
  show decide (s.find? (.observed plan.tenantId) ≠ _) = _
  rw [show s.find? (.observed plan.tenantId) = some observed from (readLocked_eq_ok.1 h.observedRead).1]
  simp

/-- Where the states have the old or the new content, in order, they are known again. -/
theorem StatesKnown.along (h : StatesKnown host plan source sourceObserved s₀ desired observed)
    (hfit : StatesFit host plan)
    (hdesired : s.find? (.desired plan.tenantId) = some (.site plan.manifest) ∨
      s.find? (.desired plan.tenantId) = s₀.find? (.desired plan.tenantId))
    (hobserved : (s.find? (.desired plan.tenantId) = some (.site plan.manifest) ∧
        s.find? (.observed plan.tenantId) = some (.tenantObservedState plan.observedState)) ∨
      s.find? (.observed plan.tenantId) = s₀.find? (.observed plan.tenantId)) :
    ∃ desired' observed', StatesKnown host plan source sourceObserved s desired' observed' := by
  have hd := readLocked_along h.desiredRead hfit.desired hdesired
  have ho := readLocked_along h.observedRead hfit.observed (hobserved.imp_left And.right)
  rcases hobserved with ⟨hplanned, hplanned'⟩ | hsame
  · exact ⟨_, _, readLocked_eq_ok.2 ⟨hplanned, hfit.desired⟩,
      readLocked_eq_ok.2 ⟨hplanned', hfit.observed⟩, Or.inr rfl, Or.inr rfl, fun _ => rfl⟩
  · have hobserved' : readLocked host (.tenantObserved plan.tenantId) s = .ok observed := by
      rw [(@readLocked_same _ (.tenantObserved plan.tenantId)) hsame]
      exact h.observedRead
    rcases hd with hd | hd
    · exact ⟨_, _, hd, hobserved', Or.inr rfl, h.observedKnown, fun _ => rfl⟩
    · exact ⟨_, _, hd, hobserved', h.desiredKnown, h.observedKnown, h.order⟩

theorem StatesKnown.desired_performs
    (h : StatesKnown host plan source sourceObserved s desired observed)
    (hfit : StatesFit host plan) {write : Bool}
    (hwrite : write = false → desired = .site plan.manifest) :
    Performs (Durable.when write
        (replaceState host (.tenantDesired plan.tenantId) desired (.site plan.manifest)))
      (stepsOf host [.put (.desired plan.tenantId) (.site plan.manifest)]) s () := by
  refine replaceState_when rfl h.desiredRead hfit.desired ?_ ?_ hwrite
  · rcases h.desiredKnown with hd | hd
    · rw [hd]
      rfl
    · rw [hd]
      rfl
  · rcases h.desiredKnown with hd | hd
    · rw [hd]
      rfl
    · rw [hd]
      rfl

theorem StatesKnown.observed_performs
    (h : StatesKnown host plan source sourceObserved s desired observed)
    (hfit : StatesFit host plan) {write : Bool}
    (hwrite : write = false → observed = .tenantObservedState plan.observedState) :
    Performs (Durable.when write
        (replaceState host (.tenantObserved plan.tenantId) observed
          (.tenantObservedState plan.observedState)))
      (stepsOf host [.put (.observed plan.tenantId) (.tenantObservedState plan.observedState)])
      (settleAll (stepsOf host [.put (.desired plan.tenantId) (.site plan.manifest)]) s) () := by
  refine (@replaceState_when _ _ observed) rfl ?_ hfit.observed ?_ ?_ hwrite
  · rw [← h.observedRead]
    exact readLocked_same ((@CommitStep.settleAll_same _ _ _ (.file (.observed plan.tenantId)))
      (by simp [CommitStep.touches]))
  · rcases h.observedKnown with ho | ho
    · rw [ho]
      rfl
    · rw [ho]
      rfl
  · rcases h.observedKnown with ho | ho
    · rw [ho]
      rfl
    · rw [ho]
      rfl

/-- Both writes in front of the rest of a commit. -/
theorem StatesKnown.performs {α : Type} {rest : Durable Store AgentError α}
    {steps : List CommitStep} {outcome : α} {writeDesired writeObserved : Bool}
    (h : StatesKnown host plan source sourceObserved s desired observed)
    (hfit : StatesFit host plan) (hdesired : writeDesired = false → desired = .site plan.manifest)
    (hobserved : writeObserved = false → observed = .tenantObservedState plan.observedState)
    (hrest : Performs rest (stepsOf host steps) (settleAll (stepsOf host (stateSteps plan)) s)
      outcome) :
    Performs (do
      Durable.when writeDesired
        (replaceState host (.tenantDesired plan.tenantId) desired (.site plan.manifest))
      Durable.when writeObserved
        (replaceState host (.tenantObserved plan.tenantId) observed
          (.tenantObservedState plan.observedState))
      rest : Durable Store AgentError α) (stepsOf host (stateSteps plan ++ steps)) s outcome :=
  (h.desired_performs hfit hdesired).bind ((h.observed_performs hfit hobserved).bind hrest)

/-- If both writes and the rest went through, the planned states fit, and the rest ran where both
are settled. -/
theorem StatesKnown.of_ok {α : Type} {rest : Durable Store AgentError α} {outcome : α}
    {writeDesired writeObserved : Bool}
    (h : StatesKnown host plan source sourceObserved s desired observed)
    (hdesired : writeDesired = false → desired = .site plan.manifest)
    (hobserved : writeObserved = false → observed = .tenantObservedState plan.observedState)
    (hok : ((do
      Durable.when writeDesired
        (replaceState host (.tenantDesired plan.tenantId) desired (.site plan.manifest))
      Durable.when writeObserved
        (replaceState host (.tenantObserved plan.tenantId) observed
          (.tenantObservedState plan.observedState))
      rest : Durable Store AgentError α) s).result = .ok outcome) :
    StatesFit host plan ∧
      (rest (settleAll (stepsOf host (stateSteps plan)) s)).result = .ok outcome := by
  obtain ⟨⟨⟩, hd, hok⟩ := Durable.bind_result_ok hok
  obtain ⟨⟨⟩, ho, hok⟩ := Durable.bind_result_ok hok
  have hfit : StatesFit host plan :=
    ⟨replaceState_fits h.desiredRead hdesired hd, replaceState_fits h.observedRead hobserved ho⟩
  refine ⟨hfit, ?_⟩
  rw [(h.desired_performs hfit hdesired).state] at hok
  rw [(h.observed_performs hfit hobserved).state] at hok
  exact hok

end Known

/-! ## The end -/

section Done

variable {path : CommitPath} {job : AuthorizationJob} {plan : TransitionPlan} {s : Store}

/-- A finished commit has nothing left to do. -/
theorem CommitDone.settled (h : CommitDone host path job plan s)
    (hread : readJob host job.jobId s = .ok job) :
    ∀ e ∈ (stateSteps plan ++ [.append plan.auditEntry]) ++
      closingSteps job plan.result plan.intentId, e.pending host s = false := by
  intro e he
  simp only [stateSteps, closingSteps, List.cons_append, List.nil_append, List.mem_cons,
    List.not_mem_nil, or_false] at he
  rcases he with rfl | rfl | rfl | rfl | rfl | rfl
  · exact put_settled.2 (readLocked_eq_ok.1 h.desired).1
  · exact put_settled.2 (readLocked_eq_ok.1 h.observed).1
  · exact (inspectNeedsAppend_value h.audit).symm
  · exact put_settled.2 (readLocked_eq_ok.1 h.result).1
  · rw [put_settled, completedJob_of_completed h.completed]
    exact (readJob_eq_ok.1 hread).1
  · exact remove_settled.2 (intent_cleared h.measured plan.intentId)

theorem CommitDone.committed (h : CommitDone host path job plan s)
    (hread : readJob host job.jobId s = .ok job) : Committed host plan job s := by
  have hsettled := h.settled hread
  exact committed_of_settled (hsettled _ (by simp [stateSteps])) (hsettled _ (by simp [stateSteps]))
    (hsettled _ (by simp)) (appendable_of_ended h.audit)
    fun e he => hsettled e (List.mem_append_right _ he)

/-- When the sole intent of a commit is gone and all its steps are done, the commit is finished. -/
theorem commitDone_of_settled {expected : AuthorizationJob} {intent : TransactionIntent}
    {forget : Dispatch → Dispatch} {before : List CommitStep} {s₀ : Store}
    (hs : OnTheWay host (before ++ closingSteps job plan.result plan.intentId) s₀ s)
    (havoid : ∀ e ∈ before, avoidsClosing job e = true)
    (hstates : ∀ e ∈ stateSteps plan, e ∈ before) (haudit : .append plan.auditEntry ∈ before)
    (hsame : requireSameJob host path forget expected s₀ = .ok job)
    (hexact : requireExactIntent host path plan.intentId intent s₀ =
      .ok (exactRemoval host plan.intentId intent))
    (hfit : StatesFit host plan) (happendable : Appendable host plan.auditEntry s.audit)
    (hresult : ResultReady host job plan.result s₀) (hjob : JobReady host job s₀)
    (hcleared : s.find? (.intent plan.intentId) = none) :
    requireSameJob host path forget expected s = .ok (jobNow job s) ∧
      CommitDone host path (jobNow job s) plan s := by
  obtain ⟨hmeasured, ⟨hintent, -⟩, -⟩ := requireExactIntent_eq_ok.1 hexact
  have hsettled := settled_of_cleared hs havoid (by rw [hintent]; rfl) hcleared
  have hneeds := @Appendable.needsAppend _ path _ _ happendable
  have hbefore : ∀ e ∈ before, e.pending host s = false :=
    fun e he => hsettled e (List.mem_append_left _ he)
  have hnow : jobNow job s = completedJob job := by
    unfold jobNow
    rw [if_pos (put_settled.1 (hsettled _ (by simp [closingSteps])))]
  rw [show auditMissing host plan.auditEntry s = false from hbefore _ haudit] at hneeds
  refine ⟨requireSameJob_along hsame (closing_along hs havoid hresult hjob).2, ?_,
    by rw [hnow]; rfl, ?_, ?_, ?_, hneeds⟩
  · exact measureIntentRecords_cleared hmeasured
      (fun i hi => otherIntents_along hs havoid hi) hcleared
  · exact read_of_settled hfit.desired
      (hbefore (.put (.desired _) _) (hstates _ (by simp [stateSteps])))
  · exact read_of_settled hfit.observed
      (hbefore (.put (.observed _) _) (hstates _ (by simp [stateSteps])))
  · rw [jobNow_jobId]
    exact read_of_settled hresult.fits (hsettled (.put (.result _) _) (by simp [closingSteps]))

end Done

end StaticHostAgent.Commit
