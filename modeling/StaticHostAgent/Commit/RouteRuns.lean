import StaticHostAgent.Commit.TenantStates

/-!
# Crashes of the route commit

`RouteReady` is what a state must offer for the commit to go through. It holds where a run succeeded
(`routeReady_of_ok`) and, while the append stays admitted, in every state on the way until the
intent is gone (`RouteReady.along`).
-/

set_option autoImplicit false

namespace StaticHostAgent.Commit

open Library Contracts Host Audit State

variable {host : StateHost} {limits : HostCapacityLimits}

/-- The durable steps of a route commit, in order. -/
def routeSteps (plan : TransitionPlan) (job : AuthorizationJob) : List CommitStep :=
  (stateSteps plan ++ [.append plan.auditEntry]) ++ closingSteps job plan.result plan.intentId

variable (host) in
theorem routeSteps_separate (plan : TransitionPlan) (job : AuthorizationJob) :
    Separate host (routeSteps plan job) := by
  simp [Separate, routeSteps, stateSteps, closingSteps, CommitStep.observes, CommitStep.touches]

/-! ## Admission -/

/-- What the admission of a route transition finds on the way. -/
structure RouteFound (host : StateHost) (job : AuthorizationJob) (documents : RouteDocuments)
    (s : Store) (p : RouteProgress) (auditMissing : Bool) : Prop where
  states : StatesKnown host documents.toTransitionPlan documents.sourceManifest
    documents.sourceObservedState s p.desired p.observed
  writeDesired : p.writeDesired = (decide (p.desired = .site documents.sourceManifest) &&
    decide (p.desired ≠ .site documents.manifest))
  writeObserved : p.writeObserved =
    decide (p.observed = .tenantObservedState documents.sourceObservedState)
  resultMissing : missingExact host "existing route result disagrees"
    (.authorizationResult job.jobId) (.operationResult documents.result) s = .ok p.resultMissing
  audit : inspectNeedsAppend host .route documents.auditEntry s = .ok auditMissing

/-- What the admission of a route transition admits. -/
structure RouteAdmitted (host : StateHost) (limits : HostCapacityLimits) (job : AuthorizationJob)
    (documents : RouteDocuments) (s : Store) (p : RouteProgress) (auditMissing : Bool) : Prop
    extends RouteFound host job documents s p auditMissing where
  headroom : auditMissing = true → admitMissingAudit host documents.auditEntry s = .ok ()
  inventory : p.resultMissing = true → admitResult host documents.result s = .ok ()
  capacity : admitRemaining host limits (flagged (routeWrites job documents p)) auditMissing s =
    .ok ()

theorem admitRouteTransition_eq_ok {job : AuthorizationJob} {documents : RouteDocuments} {s : Store}
    {p : RouteProgress} :
    admitRouteTransition host limits job documents s = .ok p ↔
      ∃ auditMissing, RouteAdmitted host limits job documents s p auditMissing := by
  unfold admitRouteTransition
  simp only [bind_eq_ok, require_eq_ok, decide_eq_true_eq, pure_eq_ok, checkIf_eq_ok,
    List.mem_cons, List.not_mem_nil, or_false, Bool.not_eq_true', Bool.and_eq_false_iff,
    decide_eq_false_iff_not]
  constructor
  · rintro ⟨desired, hdesired, observed, hobserved, -, hdesiredKnown, -, hobservedKnown, -, horder,
      missing, hmissing, audit, haudit, ⟨⟩, hheadroom, ⟨⟩, hinventory, ⟨⟩, hcapacity, rfl⟩
    refine ⟨audit, ⟨⟨hdesired, hobserved, hdesiredKnown, hobservedKnown, fun h => ?_⟩, rfl, rfl,
      hmissing, haudit⟩, hheadroom, hinventory, hcapacity⟩
    exact not_not.1 (horder.resolve_left fun hne => hne h)
  · rintro ⟨audit, h⟩
    have hp : (⟨p.desired, p.observed, decide (p.desired = .site documents.sourceManifest) &&
        decide (p.desired ≠ .site documents.manifest),
        decide (p.observed = .tenantObservedState documents.sourceObservedState),
        p.resultMissing⟩ : RouteProgress) = p := by
      rw [← h.writeDesired, ← h.writeObserved]
    refine ⟨_, h.states.desiredRead, _, h.states.observedRead, (), h.states.desiredKnown, (),
      h.states.observedKnown, (), ?_, _, h.resultMissing, audit, h.audit, (), h.headroom, (),
      h.inventory, (), ?_, hp⟩
    · by_cases hobserved : p.observed = .tenantObservedState documents.observedState
      · exact Or.inr (not_not.2 (h.states.order hobserved))
      · exact Or.inl hobserved
    · rw [hp]
      exact h.capacity

section Found

variable {job : AuthorizationJob} {documents : RouteDocuments} {s : Store} {p : RouteProgress}
  {auditMissing : Bool}
  (h : RouteFound host job documents s p auditMissing)

include h

/-- The desired state is written exactly while it is pending. -/
theorem RouteFound.writeDesired_eq :
    p.writeDesired = decide (p.desired ≠ .site documents.manifest) := by
  rw [h.writeDesired]
  rcases h.states.desiredKnown with hsource | hplanned
  · simp [hsource]
  · simp [hplanned]

/-- The observed state is written while it is pending, and always if it is the source's. -/
theorem RouteFound.writeObserved_eq :
    p.writeObserved = (decide (p.observed ≠ .tenantObservedState documents.observedState) ||
      decide (documents.sourceObservedState = documents.observedState)) := by
  rw [h.writeObserved]
  by_cases hsame : documents.sourceObservedState = documents.observedState
  · have hobserved : p.observed = .tenantObservedState documents.observedState := by
      rcases h.states.observedKnown with ho | ho
      · rw [ho, hsame]
      · exact ho
    simp [hobserved, hsame]
  · rcases h.states.observedKnown with hsource | hplanned
    · simp [hsource, hsame]
    · rw [hplanned]
      simp [hsame, eq_comm]

theorem RouteFound.desired_of_not_write (hwrite : p.writeDesired = false) :
    p.desired = .site documents.manifest := by
  rw [h.writeDesired_eq, decide_eq_false_iff_not] at hwrite
  exact not_not.1 hwrite

theorem RouteFound.observed_of_not_write (hwrite : p.writeObserved = false) :
    p.observed = .tenantObservedState documents.observedState := by
  rw [h.writeObserved, decide_eq_false_iff_not] at hwrite
  exact h.states.observedKnown.resolve_left hwrite

/-- The observed state's write that is reserved although it is not pending. -/
def observedSpare (documents : RouteDocuments) (weight : CommitStep → Nat) : Nat :=
  if documents.sourceObservedState = documents.observedState then
    weight (.put (.observed documents.tenantId) (.tenantObservedState documents.observedState))
  else 0

theorem RouteFound.observed_reserved (weight : CommitStep → Nat) :
    (if p.writeObserved then weight (.put (.observed documents.tenantId)
      (.tenantObservedState documents.observedState)) else 0) =
      (if p.observed ≠ .tenantObservedState documents.observedState then
        weight (.put (.observed documents.tenantId)
          (.tenantObservedState documents.observedState)) else 0) +
        observedSpare documents weight := by
  rw [h.writeObserved_eq]
  unfold observedSpare
  by_cases hsame : documents.sourceObservedState = documents.observedState
  · have hobserved : p.observed = .tenantObservedState documents.observedState := by
      rcases h.states.observedKnown with ho | ho
      · rw [ho, hsame]
      · exact ho
    simp [hsame, hobserved]
  · simp [hsame]

/-- The remaining writes are the pending steps and the spare write of the observed state. -/
theorem RouteFound.reserved (hresult : ResultReady host job documents.result s)
    (hjob : JobReady host job s)
    (hphase : job.phase ∈ [JobPhase.claimed, .completed]) {weight : CommitStep → Nat}
    (hremove : ∀ p, weight (.remove p) = 0) :
    ((if p.writeDesired then weight (.put (.desired documents.tenantId) (.site documents.manifest))
        else 0) +
      ((if p.writeObserved then weight (.put (.observed documents.tenantId)
          (.tenantObservedState documents.observedState)) else 0) +
      ((if p.resultMissing then weight (.put (.result job.jobId)
          (.operationResult documents.result)) else 0) +
      (if job.phase = .claimed then weight (.put (.job job.jobId)
          (.authorizationJob (completedJob job))) else 0)))) +
      (if auditMissing then weight (.append documents.auditEntry) else 0) =
        pendingSum host weight (routeSteps documents.toTransitionPlan job) s +
          observedSpare documents weight := by
  have hmissing : p.resultMissing = (s.find? (.result job.jobId)).isNone :=
    missingExact_value h.resultMissing
  have haudit : auditMissing = CommitStep.pending host (.append documents.auditEntry) s :=
    inspectNeedsAppend_value h.audit
  rw [h.observed_reserved, h.writeDesired_eq, hmissing, haudit]
  unfold routeSteps stateSteps
  rw [List.append_assoc, pendingSum_append, pendingSum_cons, pendingSum_cons, List.singleton_append,
    pendingSum_cons,
    closing_reserved hresult hjob hphase hremove, h.states.desired_pending,
    h.states.observed_pending]
  simp only [pendingSum, List.map_nil, List.sum_nil, decide_eq_true_eq]
  omega

theorem RouteFound.reservedBytes_eq (hresult : ResultReady host job documents.result s)
    (hjob : JobReady host job s)
    (hphase : job.phase ∈ [JobPhase.claimed, .completed]) :
    reservedBytes host (routeWrites job documents p) auditMissing =
      pendingSum host (CommitStep.bytes host) (routeSteps documents.toTransitionPlan job) s +
        observedSpare documents (CommitStep.bytes host) := by
  rw [← h.reserved hresult hjob hphase fun _ => rfl]
  simp [reservedBytes, routeWrites, flaggedBytes, CommitStep.bytes]

theorem RouteFound.reservedInodes_eq (hresult : ResultReady host job documents.result s)
    (hjob : JobReady host job s)
    (hphase : job.phase ∈ [JobPhase.claimed, .completed]) :
    reservedInodes (routeWrites job documents p) auditMissing =
      pendingSum host CommitStep.inodes (routeSteps documents.toTransitionPlan job) s +
        observedSpare documents CommitStep.inodes := by
  rw [← h.reserved hresult hjob hphase fun _ => rfl]
  simp [reservedInodes, routeWrites, CommitStep.inodes, toNat_eq_ite]

end Found

/-! ## Readiness -/

/-- A state in which the commit goes through. -/
structure RouteReady (host : StateHost) (limits : HostCapacityLimits) (expected : AuthorizationJob)
    (documents : RouteDocuments) (job : AuthorizationJob) (s : Store) : Prop where
  same : routeSameJob host expected s = .ok job
  exact : routeExactIntent host documents s =
    .ok (exactRemoval host documents.intentId documents.intent)
  admitted : ∃ p auditMissing, RouteAdmitted host limits job documents s p auditMissing
  fit : StatesFit host documents.toTransitionPlan
  appendable : Appendable host documents.auditEntry s.audit
  resultReady : ResultReady host job documents.result s
  jobReady : JobReady host job s

section Ready

variable {expected job : AuthorizationJob} {documents : RouteDocuments} {s₀ s : Store}

theorem routeSteps_only (plan : TransitionPlan) (job : AuthorizationJob) :
    ∀ e ∈ routeSteps plan job, appendsOnly plan.auditEntry e = true := by
  simp [routeSteps, stateSteps, closingSteps, appendsOnly]

theorem routeSteps_jobNow (plan : TransitionPlan) (job : AuthorizationJob) (s : Store) :
    routeSteps plan (jobNow job s) = routeSteps plan job := by
  unfold routeSteps
  rw [closingSteps_jobNow]

/-- Every document that is written may be stored, so it is within its bound. -/
theorem routeWrites_bounded {p : RouteProgress} (hfit : StatesFit host documents.toTransitionPlan)
    (hresult : ResultReady host job documents.result s) (hjob : JobReady host job s) :
    FlaggedBounded host (routeWrites job documents p) := by
  intro record hrecord _
  simp only [routeWrites, List.mem_cons, List.not_mem_nil, or_false] at hrecord
  rcases hrecord with rfl | rfl | rfl | rfl
  · exact hfit.desired.valid.2.2
  · exact hfit.observed.valid.2.2
  · exact hresult.fits.valid.2.2
  · exact hjob.completes.valid.2.2

theorem routeSteps_avoid (plan : TransitionPlan) :
    ∀ e ∈ stateSteps plan ++ [.append plan.auditEntry], avoidsClosing job e = true := by
  simp [stateSteps, avoidsClosing, closingFiles]

theorem RouteReady.closing (h : RouteReady host limits expected documents job s) :
    ClosingReady host job documents.result documents.intentId documents.intent s := by
  obtain ⟨hmeasured, ⟨hintent, hfits⟩, -⟩ := requireExactIntent_eq_ok.1 h.exact
  exact ⟨h.resultReady, h.jobReady, reconciled_of_exact hmeasured hintent hfits⟩

theorem RouteReady.performs (h : RouteReady host limits expected documents job s)
    (happend : AppendAdmitted host documents.auditEntry (stateSteps documents.toTransitionPlan) s) :
    ∃ o : CommitOutcome, o.result = documents.result ∧
      Performs (commitRoute host limits job documents)
        (stepsOf host (routeSteps documents.toTransitionPlan job)) s o := by
  obtain ⟨p, auditMissing, hadmitted⟩ := h.admitted
  have hmissing : p.resultMissing = (s.find? (.result job.jobId)).isNone :=
    missingExact_value hadmitted.resultMissing
  refine ⟨⟨documents.result, p.resultMissing⟩, rfl, ?_⟩
  unfold commitRoute
  refine Performs.query_bind h.exact
    (Performs.query_bind (admitRouteTransition_eq_ok.2 ⟨auditMissing, hadmitted⟩) ?_)
  rw [routeSteps, List.append_assoc]
  refine hadmitted.states.performs h.fit hadmitted.desired_of_not_write
    hadmitted.observed_of_not_write ?_
  have haudit := stateSteps_audit host documents.toTransitionPlan s
  refine (ensureAudit_performs (by rw [haudit]; exact h.appendable) happend).bind ?_
  have havoid := (@routeSteps_avoid job) documents.toTransitionPlan
  rw [← settleAll_append, ← stepsOf_append]
  refine closing_performs _ (h.closing.settle havoid) ?_
  rw [hmissing, settleAll_closingFiles havoid (closingFiles_result job)]

/-- The states on the way are known. -/
theorem RouteReady.states_along (h : RouteReady host limits expected documents job s₀)
    (hs : OnTheWay host (routeSteps documents.toTransitionPlan job) s₀ s) :
    ∃ desired observed, StatesKnown host documents.toTransitionPlan documents.sourceManifest
      documents.sourceObservedState s desired observed := by
  obtain ⟨p, auditMissing, hadmitted⟩ := h.admitted
  refine hadmitted.states.along h.fit (((@put_along _ _ []) hs rfl (by simp)).imp_left
    And.right) ?_
  refine ((@put_along _ _ [.put (.desired documents.tenantId) (.site documents.manifest)])
    hs rfl (by simp [CommitStep.touches])).imp_left fun hdone => ⟨?_, hdone.2⟩
  exact put_settled.1 (hdone.1 _ List.mem_cons_self)

/-- While the intent is there and the append stays admitted, the commit goes through. -/
theorem RouteReady.along (h : RouteReady host limits expected documents job s₀)
    (hkept : HeadroomKept host documents.auditEntry (routeSteps documents.toTransitionPlan job) s₀)
    (hs : OnTheWay host (routeSteps documents.toTransitionPlan job) s₀ s)
    (hintent : (s.find? (.intent documents.intentId)).isSome = true) :
    RouteReady host limits expected documents (jobNow job s) s := by
  obtain ⟨p₀, auditMissing₀, hadmitted⟩ := h.admitted
  obtain ⟨-, -, hphase⟩ := requireSameJob_eq_ok.1 h.same
  have havoid := (@routeSteps_avoid job) documents.toTransitionPlan
  have hkeeps : ∀ e ∈ stateSteps documents.toTransitionPlan ++ [.append documents.auditEntry],
      e.keepsInventory = true := by
    simp [stateSteps, CommitStep.keepsInventory, FilePath.isAuthorization]
  obtain ⟨hresult, hjob⟩ := closing_along hs havoid h.resultReady h.jobReady
  have hsame := requireSameJob_along h.same hjob
  have hphaseNow := (requireSameJob_eq_ok.1 hsame).2.2
  have happendable := h.appendable.along hs (routeSteps_only _ _)
  obtain ⟨desired, observed, hstates⟩ := h.states_along hs
  let p : RouteProgress := ⟨desired, observed,
    decide (desired = .site documents.sourceManifest) && decide (desired ≠ .site documents.manifest),
    decide (observed = .tenantObservedState documents.sourceObservedState),
    (s.find? (.result job.jobId)).isNone⟩
  have hfound : RouteFound host (jobNow job s) documents s p
      (auditMissing host documents.auditEntry s) := by
    refine ⟨hstates, rfl, rfl, ?_, happendable.needsAppend⟩
    show _ = Except.ok (s.find? (.result job.jobId)).isNone
    rw [hresult.missing, jobNow_jobId]
  have hresult₀ : p₀.resultMissing = (s₀.find? (.result job.jobId)).isNone :=
    missingExact_value hadmitted.resultMissing
  refine ⟨hsame, ?_, ⟨p, _, hfound, hkept s hs, fun hmissing => ?_, ?_⟩, h.fit, happendable,
    hresult, hjob⟩
  · rw [← h.exact]
    exact requireExactIntent_same (intents_along hs havoid hintent)
  · refine admitResult_missing hs havoid hkeeps (fun hnone => ?_) hmissing
    exact hadmitted.inventory (hresult₀.trans hnone)
  · have hbytes := hfound.reservedBytes_eq hresult hjob hphaseNow
    have hinodes := hfound.reservedInodes_eq hresult hjob hphaseNow
    rw [routeSteps_jobNow] at hbytes hinodes
    refine admitRemaining_along hs (routeSteps_separate _ _ _)
      (hadmitted.reservedBytes_eq h.resultReady h.jobReady hphase)
      (hadmitted.reservedInodes_eq h.resultReady h.jobReady hphase) hbytes hinodes
      (fun _ => ?_) hadmitted.capacity
    exact routeWrites_bounded h.fit hresult hjob

/-- A run that went through with its intent had what it needs. -/
theorem routeReady_of_ok {o : CommitOutcome} (hsame : routeSameJob host expected s = .ok job)
    (hok : (commitRoute host limits job documents s).result = .ok o) :
    RouteReady host limits expected documents job s ∧
      AppendAdmitted host documents.auditEntry (stateSteps documents.toTransitionPlan) s := by
  obtain ⟨removal, hexact, hok⟩ := Durable.query_bind_result_ok hok
  obtain ⟨p, hadmission, hok⟩ := Durable.query_bind_result_ok hok
  obtain ⟨auditMissing, hadmitted⟩ := admitRouteTransition_eq_ok.1 hadmission
  obtain ⟨hfit, hok⟩ := hadmitted.states.of_ok hadmitted.desired_of_not_write
    hadmitted.observed_of_not_write hok
  obtain ⟨⟨⟩, haudit, hok⟩ := Durable.bind_result_ok hok
  obtain ⟨happendable, happend⟩ := ensureAudit_ok haudit
  rw [(ensureAudit_performs happendable happend).state, ← settleAll_append, ← stepsOf_append] at hok
  have havoid := (@routeSteps_avoid job) documents.toTransitionPlan
  have hmissing : p.resultMissing = (s.find? (.result job.jobId)).isNone :=
    missingExact_value hadmitted.resultMissing
  have hresultSame := (@settleAll_closingFiles host _ s) havoid
    (closingFiles_result job)
  have hjobSame := (@settleAll_closingFiles host _ s) havoid (closingFiles_job job)
  obtain ⟨-, hread⟩ := requireSameJob_stored hsame
  obtain ⟨hresult, hjob⟩ := closing_ok hok (by rw [hmissing, hresultSame]) (by
    rw [readJob_eq_ok, hjobSame]
    exact readJob_eq_ok.1 hread)
  obtain ⟨-, -, rfl⟩ := requireExactIntent_eq_ok.1 hexact
  have haudit := stateSteps_audit host documents.toTransitionPlan s
  rw [haudit] at happendable
  exact ⟨⟨hsame, hexact, ⟨p, auditMissing, hadmitted⟩, hfit, happendable,
    hresult.along (Or.inr hresultSame.symm), ⟨hread, hjob.completes⟩⟩, happend⟩

/-! ## The end -/

/-- When the intent of a commit is gone, the commit is finished. -/
theorem RouteReady.done (h : RouteReady host limits expected documents job s₀)
    (hs : OnTheWay host (routeSteps documents.toTransitionPlan job) s₀ s)
    (hcleared : s.find? (.intent documents.intentId) = none) :
    routeSameJob host expected s = .ok (jobNow job s) ∧
      CommitDone host .route (jobNow job s) documents.toTransitionPlan s :=
  commitDone_of_settled hs (routeSteps_avoid _) (fun _ he => List.mem_append_left _ he) (by simp) h.same h.exact h.fit
    (h.appendable.along hs (routeSteps_only _ _)) h.resultReady h.jobReady hcleared

/-! ## Runs -/

section Runs

variable {plan : TransitionPlan}

theorem finalizeRoute_of_done (hfrozen : freezeRoute host expected plan = .ok documents)
    (hsame : routeSameJob host expected s = .ok job) (h : CommitDone host .route job documents.toTransitionPlan s) :
    finalizeRoute host limits expected plan s = ⟨[], s, .ok ⟨documents.result, false⟩⟩ := by
  unfold finalizeRoute
  rw [Durable.query_bind_ok (f := fun _ => freezeRoute host expected plan) hfrozen,
    Durable.query_bind_ok hsame,
    Durable.query_bind_ok (f := terminalRouteWithoutIntent host job documents)
      (terminalWithoutIntent_eq_some.2 ⟨h, rfl⟩)]
  rfl

theorem finalizeRoute_of_intent (hfrozen : freezeRoute host expected plan = .ok documents)
    (hsame : routeSameJob host expected s = .ok job)
    (hterminal : terminalRouteWithoutIntent host job documents s = .ok none) :
    finalizeRoute host limits expected plan s = commitRoute host limits job documents s := by
  unfold finalizeRoute
  rw [Durable.query_bind_ok (f := fun _ => freezeRoute host expected plan) hfrozen,
    Durable.query_bind_ok hsame, Durable.query_bind_ok hterminal]

/-- The append of every run that goes through with its intent was admitted at its start. -/
theorem finalizeRoute_admits {o : CommitOutcome}
    (hfrozen : freezeRoute host expected plan = .ok documents)
    (hok : (finalizeRoute host limits expected plan s).result = .ok o)
    (hmissing : auditMissing host documents.auditEntry s = true) :
    admitMissingAudit host documents.auditEntry s = .ok () := by
  obtain ⟨documents', hfrozen', hok⟩ := Durable.query_bind_result_ok hok
  obtain rfl : documents = documents' := Except.ok.inj (hfrozen.symm.trans hfrozen')
  obtain ⟨job, hsame, hok⟩ := Durable.query_bind_result_ok hok
  obtain ⟨terminal, hterminal, hok⟩ := Durable.query_bind_result_ok hok
  cases terminal with
  | some r =>
      obtain ⟨hdone, -⟩ := terminalWithoutIntent_eq_some.1 hterminal
      rw [← inspectNeedsAppend_value hdone.audit] at hmissing
      cases hmissing
  | none =>
      obtain ⟨hready, -⟩ := routeReady_of_ok hsame hok
      obtain ⟨p, missing, hadmitted⟩ := hready.admitted
      exact hadmitted.headroom ((inspectNeedsAppend_value hadmitted.audit).trans hmissing)

/-- While the append stays admitted, every run on the way settles the same steps. -/
theorem RouteReady.settles (h : RouteReady host limits expected documents job s₀)
    (hfrozen : freezeRoute host expected plan = .ok documents)
    (hkept : HeadroomKept host documents.auditEntry (routeSteps documents.toTransitionPlan job) s₀)
    (ho : Orderly (stepsOf host (routeSteps documents.toTransitionPlan job))
      (OnTheWay host (routeSteps documents.toTransitionPlan job) s₀))
    (hs : OnTheWay host (routeSteps documents.toTransitionPlan job) s₀ s) :
    ∃ o : CommitOutcome, o.result = documents.result ∧
      Performs (finalizeRoute host limits expected plan)
        (stepsOf host (routeSteps documents.toTransitionPlan job)) s o := by
  cases hintent : s.find? (.intent documents.intentId) with
  | some d =>
      have hready := h.along hkept hs (by rw [hintent]; rfl)
      obtain ⟨hmeasured, -⟩ := requireExactIntent_eq_ok.1 hready.exact
      obtain ⟨o, ho, hperforms⟩ := hready.performs
        (hkept.admitted ho (List.append_assoc _ _ _) hs)
      rw [routeSteps_jobNow] at hperforms
      exact ⟨o, ho, hperforms.congr (finalizeRoute_of_intent hfrozen hready.same
        (terminalWithoutIntent_eq_none.2 ⟨_, hmeasured, by simp⟩))⟩
  | none =>
      obtain ⟨hsame, hdone⟩ := h.done hs hintent
      have hsettled := hdone.settled (requireSameJob_stored hsame).2
      rw [closingSteps_jobNow] at hsettled
      exact ⟨⟨documents.result, false⟩, rfl, Performs.of_settled (settled_stepsOf.2 hsettled)
        (finalizeRoute_of_done hfrozen hsame hdone)⟩

theorem RouteReady.orderly (h : RouteReady host limits expected documents job s₀)
    (hkept : HeadroomKept host documents.auditEntry (routeSteps documents.toTransitionPlan job)
      s₀) : Orderly (stepsOf host (routeSteps documents.toTransitionPlan job))
        (OnTheWay host (routeSteps documents.toTransitionPlan job) s₀) := by
  refine hkept.orderly (routeSteps_separate _ _ _) h.appendable (routeSteps_only _ _) ?_
  intro before e after hsteps s hs _ hother
  have hmem : e ∈ routeSteps documents.toTransitionPlan job := by
    rw [hsteps]
    exact List.mem_append_right _ List.mem_cons_self
  simp only [routeSteps, stateSteps, closingSteps, List.cons_append, List.nil_append,
    List.mem_cons, List.not_mem_nil, or_false] at hmem
  rcases hmem with rfl | rfl | rfl | rfl | rfl | rfl
  · trivial
  · trivial
  · exact absurd rfl (hother documents.auditEntry)
  · trivial
  · trivial
  · trivial

/-- The end of an uninterrupted run. -/
theorem RouteReady.committed (h : RouteReady host limits expected documents job s)
    (happend : AppendAdmitted host documents.auditEntry (stateSteps documents.toTransitionPlan) s) :
    Committed host documents.toTransitionPlan job
      (settleAll (stepsOf host (routeSteps documents.toTransitionPlan job)) s) := by
  have hsplit : routeSteps documents.toTransitionPlan job =
      stateSteps documents.toTransitionPlan ++ .append documents.auditEntry ::
        closingSteps job documents.result documents.intentId := List.append_assoc _ _ _
  have hseparate := routeSteps_separate host documents.toTransitionPlan job
  have haudit := stateSteps_audit host documents.toTransitionPlan s
  rw [hsplit] at hseparate ⊢
  have hsettled := happend.settled hseparate (by rw [haudit]; exact h.appendable)
    (settled_settleAll (List.pairwise_append.1 hseparate).1 (stateSteps_ready _))
    (closingSteps_ready _ _ _)
  refine committed_of_settled (hsettled _ (by simp [stateSteps]))
    (hsettled _ (by simp [stateSteps])) (hsettled _ (by simp)) ?_ fun e he => hsettled e (by simp [he])
  rw [← hsplit]
  exact h.appendable.settleAll (routeSteps_only _ _)

theorem finalizeRoute_converges_iff {o : CommitOutcome}
    (hok : (finalizeRoute host limits expected plan s₀).result = .ok o) :
    ∃ job, readJob host expected.jobId s₀ = .ok job ∧ o.result = plan.result ∧
      Committed host plan job (finalizeRoute host limits expected plan s₀).state ∧
        ((finalizeRoute host limits expected plan).Converges (fun o => o.result = plan.result) s₀ ↔
          HeadroomKept host plan.auditEntry (routeSteps plan job) s₀) := by
  obtain ⟨documents, hfrozen, hrest⟩ := Durable.query_bind_result_ok hok
  obtain ⟨job, hsame, hrest⟩ := Durable.query_bind_result_ok hrest
  obtain ⟨terminal, hterminal, hrest⟩ := Durable.query_bind_result_ok hrest
  obtain ⟨⟨target, hchecked⟩, -⟩ := (freezeRoute_eq_ok host).1 hfrozen
  obtain rfl : documents.toTransitionPlan = plan := hchecked.planned
  obtain ⟨hid, hread⟩ := requireSameJob_stored hsame
  refine ⟨job, by rw [hid]; exact hread, ?_⟩
  cases terminal with
  | some r =>
      obtain ⟨hdone, rfl⟩ := terminalWithoutIntent_eq_some.1 hterminal
      have hrun := (@finalizeRoute_of_done _ limits) hfrozen hsame hdone
      have hsettled := hdone.settled hread
      refine ⟨?_, ?_, ?_⟩
      · rw [hrun] at hok
        rw [← Except.ok.inj hok]
      · rw [hrun]
        exact hdone.committed hread
      · refine iff_of_true (fun t ht => ?_) fun s hs hmissing => ?_
        · obtain rfl := ht.eq_start (by rw [hrun])
          exact ⟨_, rfl, by rw [hrun], rfl⟩
        · obtain rfl := onTheWay_of_settled hs hsettled
          rw [← inspectNeedsAppend_value hdone.audit] at hmissing
          cases hmissing
  | none =>
      obtain ⟨hready, happend⟩ := routeReady_of_ok hsame hrest
      obtain ⟨o', ho', hperforms⟩ := hready.performs happend
      have hrun := (@finalizeRoute_of_intent _ limits) hfrozen hsame hterminal
      have hstart := hperforms.congr hrun
      refine ⟨?_, ?_, ?_⟩
      · obtain rfl : o' = o := Except.ok.inj (hstart.result.symm.trans hok)
        exact ho'
      · rw [hstart.state]
        exact hready.committed happend
      · exact converges_iff_headroomKept hstart hready.orderly
          (fun hkept s hs => hready.settles hfrozen hkept (hready.orderly hkept) hs)
          fun s o hok hmissing => finalizeRoute_admits hfrozen hok hmissing

end Runs

end Ready

end StaticHostAgent.Commit
