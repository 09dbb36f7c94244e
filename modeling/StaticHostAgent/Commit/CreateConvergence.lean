import StaticHostAgent.Commit.CreateRuns
import StaticHostAgent.Commit.Laws
import StaticHostAgent.State.MeteredHost

/-!
# Convergence of the create commit

A later run of a create measures the inventory again, also when nothing is left to be admitted, so
`CreateNeeds` asks for more than the headroom of the append. `CreateReady` holds in every state on
the way until the intent is gone, if `CreateKept` says that the needs are met there.
-/

set_option autoImplicit false

namespace StaticHostAgent.Commit

open Library Contracts Host Audit State

variable {host : StateHost} {limits : HostCapacityLimits}

/-- The inventory can be measured, and what is missing of the create is admitted to it. -/
structure InventoryAdmits (host : StateHost) (plan : TransitionPlan) (job : AuthorizationJob)
    (s : Store) : Prop where
  measured : measureInventory host s = .ok (inventoryOf host s)
  admitted : pendingSum host CommitStep.inodes (createSteps plan job) s = 0 ∨
    admitStateInventory (inventoryOf host s) (createGrowth host plan
      (s.tenants.find? plan.tenantId).isNone (s.find? (.result job.jobId)).isNone) = .ok ()

/-- What a later run of a create needs of a state. -/
structure CreateNeeds (host : StateHost) (plan : TransitionPlan) (job : AuthorizationJob)
    (s : Store) : Prop where
  headroom : AppendAdmitted host plan.auditEntry
    (namespaceSteps plan.tenantId ++ stateSteps plan) s
  inventory : (s.find? (.intent plan.intentId)).isSome = true → InventoryAdmits host plan job s

/-- Every state on the way meets the needs of a later run, which finds its job there. -/
def CreateKept (host : StateHost) (expected : AuthorizationJob) (plan : TransitionPlan)
    (job : AuthorizationJob) (s₀ : Store) : Prop :=
  ∀ s, OnTheWay host (createSteps plan job) s₀ s → ∀ job',
    createSameJob host expected s = .ok job' → CreateNeeds host plan job' s

section Ready

variable {expected job : AuthorizationJob} {plan : TransitionPlan} {s₀ s : Store}

/-- Every document that a create writes may be stored, so it is within its bound. -/
theorem createWrites_bounded {missing : MissingState} (hfit : StatesFit host plan)
    (hresult : ResultReady host job plan.result s) (hjob : JobReady host job s) :
    FlaggedBounded host (createWrites job plan missing) := by
  intro record hrecord _
  simp only [createWrites, List.mem_cons, List.not_mem_nil, or_false] at hrecord
  rcases hrecord with rfl | rfl | rfl | rfl
  · exact hfit.desired.valid.2.2
  · exact hfit.observed.valid.2.2
  · exact hresult.fits.valid.2.2
  · exact hjob.completes.valid.2.2

/-- A file of the tenant that a create writes is as at the start or as planned. -/
theorem CreateReady.records_along (h : CreateReady host limits expected plan job s₀)
    (hs : OnTheWay host (createSteps plan job) s₀ s) :
    MissingOrExact host (.tenantDesired plan.tenantId) (.site plan.manifest) s ∧
      MissingOrExact host (.tenantObserved plan.tenantId)
        (.tenantObservedState plan.observedState) s := by
  have hfit := h.state.creatable.fit
  have hdesired : createSteps plan job = namespaceSteps plan.tenantId ++
      .put (.desired plan.tenantId) (.site plan.manifest) ::
        (.put (.observed plan.tenantId) (.tenantObservedState plan.observedState) ::
          .append plan.auditEntry :: closingSteps job plan.result plan.intentId) := by
    simp [createSteps_split, stateSteps]
  have hobserved : createSteps plan job = (namespaceSteps plan.tenantId ++
      [.put (.desired plan.tenantId) (.site plan.manifest)]) ++
        .put (.observed plan.tenantId) (.tenantObservedState plan.observedState) ::
          (.append plan.auditEntry :: closingSteps job plan.result plan.intentId) := by
    simp [createSteps_split, stateSteps]
  constructor
  · exact h.state.desired.along hfit.desired ((put_along hs hdesired
      (by simp [namespaceSteps, CommitStep.touches])).imp_left And.right)
  · exact h.state.observed.along hfit.observed ((put_along hs hobserved
      (by simp [namespaceSteps, CommitStep.touches])).imp_left And.right)

/-- No step of a create writes the history of its tenant. -/
theorem CreateReady.history_along (h : CreateReady host limits expected plan job s₀)
    (hs : OnTheWay host (createSteps plan job) s₀ s) : NoHistory plan.tenantId s := by
  have hfree : ∀ p, (∀ e ∈ createSteps plan job, Place.file p ∉ e.touches) →
      s.find? p = s₀.find? p := fun p hp => (@along_same _ _ _ _ (.file p)) hs hp
  refine h.state.history.same fun d => ⟨hfree _ ?_, hfree _ ?_⟩
  · simp [createSteps, createBefore, namespaceSteps, stateSteps, closingSteps, CommitStep.touches]
  · simp [createSteps, createBefore, namespaceSteps, stateSteps, closingSteps, CommitStep.touches]

/-- A tenant that is admitted with its records is admitted. -/
theorem InventoryAdmits.identity (h : InventoryAdmits host plan job s) :
    admitCreateTenantIdentity host plan.tenantId s = .ok () := by
  refine admitCreateTenantIdentity_eq_ok.2 ⟨_, h.measured, fun habsent => ?_⟩
  have hmissing : (s.tenants.find? plan.tenantId).isNone = true := by
    rw [← tenantMissing_eq]
    exact decide_eq_true habsent
  rcases h.admitted with hzero | hadmitted
  · have hpending : CommitStep.pending host (.makeTenant plan.tenantId) s = true := hmissing
    rw [createSteps_split, pendingSum_append, pendingSum_append] at hzero
    unfold namespaceSteps at hzero
    rw [pendingSum_cons, hpending] at hzero
    simp [CommitStep.inodes] at hzero
  · rw [hmissing] at hadmitted
    obtain ⟨htenants, hrecords, hbytes⟩ := admitStateInventory_eq_ok.1 hadmitted
    simp only [createGrowth, Bool.toNat_true] at htenants hrecords hbytes
    exact admitStateInventory_eq_ok.2 ⟨htenants, by simp only; omega, by simp only; omega⟩

/-- While the intent is there and the needs are met, the create goes through. -/
theorem CreateReady.along (h : CreateReady host limits expected plan job s₀)
    (hkept : CreateKept host expected plan job s₀)
    (hs : OnTheWay host (createSteps plan job) s₀ s)
    (hintent : (s.find? (.intent plan.intentId)).isSome = true) :
    CreateReady host limits expected plan (jobNow job s) s := by
  obtain ⟨missing₀, auditMissing₀, hadmitted⟩ := h.admitted
  obtain ⟨-, -, hphase⟩ := requireSameJob_eq_ok.1 h.same
  obtain ⟨hresult, hjob⟩ := closing_along hs (createBefore_avoid plan job) h.resultReady h.jobReady
  have hsame := requireSameJob_along h.same hjob
  have hphaseNow := (requireSameJob_eq_ok.1 hsame).2.2
  have happendable := h.appendable.along hs (createSteps_only _ _)
  have hintents := intents_along hs (createBefore_avoid plan job) hintent
  obtain ⟨hdesired, hobserved⟩ := h.records_along hs
  have hinventory := (hkept s hs _ hsame).inventory hintent
  obtain ⟨intent, hauthorized, hauthority⟩ := h.state.authorized
  rw [← requireCreateIntent_same hintents] at hauthorized
  let missing : MissingState := ⟨(s.find? (.desired plan.tenantId)).isNone,
    (s.find? (.observed plan.tenantId)).isNone, (s.find? (.result job.jobId)).isNone⟩
  have hfound : CreateFound host (jobNow job s) plan s missing
      (auditMissing host plan.auditEntry s) := by
    refine ⟨hdesired.missing, hobserved.missing, ?_, happendable.needsAppend⟩
    show _ = Except.ok (s.find? (.result job.jobId)).isNone
    rw [hresult.missing, jobNow_jobId]
  have hinodes₀ := hadmitted.reservedInodes_eq h.resultReady h.jobReady hphase
  have hbytes₀ := hadmitted.reservedBytes_eq h.resultReady h.jobReady hphase
  have hinodes := hfound.reservedInodes_eq hresult hjob hphaseNow
  have hbytes := hfound.reservedBytes_eq hresult hjob hphaseNow
  refine ⟨hsame, ?_, ⟨missing, _, hfound, ⟨intent, hauthorized⟩, hinventory.measured,
    createWrites_bounded h.state.creatable.fit hresult hjob, ?_⟩,
    ⟨⟨intent, hauthorized, hauthority⟩, hinventory.identity, h.history_along hs,
      h.state.creatable, hdesired, hobserved⟩, happendable, hresult, hjob⟩
  · rw [← h.exact]
    exact requireExactIntent_same hintents
  · rw [hinodes, hbytes]
    have hadmits := hinventory.admitted
    rw [createSteps_jobNow, jobNow_jobId] at hadmits
    rw [createSteps_jobNow]
    rcases hadmits with hzero | hadmits
    · exact Or.inl hzero
    · have hle := pendingSum_inodes_le hs (createSteps_separate plan job)
      rcases hadmitted.fits with hzero | ⟨-, hcapacity⟩
      · left
        omega
      · rw [hinodes₀, hbytes₀] at hcapacity
        refine Or.inr ⟨hadmits, ?_⟩
        exact (@admits_along _ _ _ _ _ 0 0) hs (createSteps_separate plan job) hcapacity

/-- A create that goes through had what it needs. -/
theorem CreateReady.needs (h : CreateReady host limits expected plan job s)
    (happend : AppendAdmitted host plan.auditEntry
      (namespaceSteps plan.tenantId ++ stateSteps plan) s) : CreateNeeds host plan job s := by
  obtain ⟨missing, auditMissing, hadmitted⟩ := h.admitted
  obtain ⟨-, -, hphase⟩ := requireSameJob_eq_ok.1 h.same
  have hinodes := hadmitted.reservedInodes_eq h.resultReady h.jobReady hphase
  refine ⟨happend, fun _ => ⟨hadmitted.measured, ?_⟩⟩
  rw [← hinodes]
  have hmissing : missing.result = (s.find? (.result job.jobId)).isNone :=
    missingExact_value hadmitted.result
  rw [← hmissing]
  exact hadmitted.fits.imp id And.left

/-- While the needs are met, the steps of a create are orderly. -/
theorem CreateReady.orderly (h : CreateReady host limits expected plan job s₀)
    (hkept : CreateKept host expected plan job s₀) :
    Orderly (stepsOf host (createSteps plan job)) (OnTheWay host (createSteps plan job) s₀) := by
  refine orderly_along (createSteps_separate plan job) ?_
  intro before e after hsteps s hs hbefore hpending
  cases e with
  | append x =>
      have hx := createSteps_only plan job (.append x)
        (hsteps ▸ List.mem_append_right _ List.mem_cons_self)
      obtain rfl : x = plan.auditEntry := of_decide_eq_true hx
      -- the steps before the append are settled, so it is made in this very state
      have hstates : ∀ f ∈ namespaceSteps plan.tenantId ++ stateSteps plan, f ∈ before := by
        intro f hf
        rcases List.append_eq_append_iff.1 ((createSteps_split plan job).symm.trans hsteps) with
          ⟨mid, hmid, -⟩ | ⟨mid, hmid, htail⟩
        · rw [hmid]
          exact List.mem_append_left _ hf
        · cases mid with
          | nil =>
              rw [List.append_nil] at hmid
              rwa [← hmid]
          | cons g mid =>
              have hg : .append plan.auditEntry = g := (List.cons.inj htail).1
              have hmem : g ∈ namespaceSteps plan.tenantId ++ stateSteps plan := by
                rw [hmid]
                exact List.mem_append_right _ List.mem_cons_self
              rw [← hg] at hmem
              simp [namespaceSteps, stateSteps] at hmem
      have hhere : settleAll (stepsOf host (namespaceSteps plan.tenantId ++ stateSteps plan)) s =
          s := settleAll_of_settled (settled_stepsOf.2 fun f hf => hbefore f (hstates f hf))
      obtain ⟨-, hjob⟩ := closing_along hs (createBefore_avoid plan job) h.resultReady h.jobReady
      have happend := (hkept s hs _ (requireSameJob_along h.same hjob)).headroom
      unfold AppendAdmitted at happend
      rw [hhere] at happend
      exact (h.appendable.along hs (createSteps_only _ _)).ready (happend hpending)
  | makeChild t c =>
      have hmem : CommitStep.makeChild t c ∈ createSteps plan job := by
        rw [hsteps]
        exact List.mem_append_right _ List.mem_cons_self
      have ht : t = plan.tenantId := by
        simp only [createSteps, createBefore, namespaceSteps, stateSteps, closingSteps,
          List.cons_append, List.nil_append, List.mem_cons, reduceCtorEq, false_or, or_false,
          CommitStep.makeChild.injEq, List.not_mem_nil] at hmem
        exact hmem.elim And.left And.left
      have hmade : CommitStep.makeTenant plan.tenantId ∈ before := by
        cases before with
        | nil =>
            have hhead := (List.cons.inj hsteps).1
            cases hhead
        | cons f before =>
            have hhead : CommitStep.makeTenant plan.tenantId = f := (List.cons.inj hsteps).1
            rw [← hhead]
            exact List.mem_cons_self
      have hdone : (s.tenants.find? plan.tenantId).isNone = false := hbefore _ hmade
      show (s.tenants.find? t).isSome = true
      rw [ht, ← Option.not_isNone, hdone]
      rfl
  | _ => trivial

/-- When the intent of a create is gone, the create is finished. -/
theorem CreateReady.done (h : CreateReady host limits expected plan job s₀)
    (hs : OnTheWay host (createSteps plan job) s₀ s)
    (hcleared : s.find? (.intent plan.intentId) = none) :
    createSameJob host expected s = .ok (jobNow job s) ∧
      CommitDone host .create (jobNow job s) plan s ∧
        ∀ e ∈ createSteps plan job, e.pending host s = false := by
  obtain ⟨-, ⟨hintent, -⟩, -⟩ := requireExactIntent_eq_ok.1 h.exact
  obtain ⟨hsame, hdone⟩ := commitDone_of_settled hs (createBefore_avoid plan job)
    (fun e he => by simp only [createBefore, List.mem_append]; exact .inr (.inl he))
    (by simp [createBefore]) h.same h.exact h.state.creatable.fit
    (h.appendable.along hs (createSteps_only _ _)) h.resultReady h.jobReady hcleared
  exact ⟨hsame, hdone, settled_of_cleared hs (createBefore_avoid plan job) (by rw [hintent]; rfl)
    hcleared⟩

/-! ## Runs -/

theorem finalizeCreate_of_done (hfrozen : freezeCreate host expected plan = .ok plan)
    (hsame : createSameJob host expected s = .ok job) (h : CommitDone host .create job plan s) :
    finalizeCreate host limits expected plan s = ⟨[], s, .ok ⟨plan.result, false⟩⟩ := by
  unfold finalizeCreate
  rw [Durable.query_bind_ok (f := fun _ => freezeCreate host expected plan) hfrozen,
    Durable.query_bind_ok hsame,
    Durable.query_bind_ok (f := terminalCreateWithoutIntent host job plan)
      (terminalWithoutIntent_eq_some.2 ⟨h, rfl⟩)]
  rfl

theorem finalizeCreate_of_intent (hfrozen : freezeCreate host expected plan = .ok plan)
    (hsame : createSameJob host expected s = .ok job)
    (hterminal : terminalCreateWithoutIntent host job plan s = .ok none) :
    finalizeCreate host limits expected plan s = commitCreate host limits job plan s := by
  unfold finalizeCreate
  rw [Durable.query_bind_ok (f := fun _ => freezeCreate host expected plan) hfrozen,
    Durable.query_bind_ok hsame, Durable.query_bind_ok hterminal]

/-- While the needs are met, every run on the way settles the same steps. -/
theorem CreateReady.settles (h : CreateReady host limits expected plan job s₀)
    (hfrozen : freezeCreate host expected plan = .ok plan)
    (hkept : CreateKept host expected plan job s₀)
    (hs : OnTheWay host (createSteps plan job) s₀ s) :
    ∃ o : CommitOutcome, o.result = plan.result ∧
      Performs (finalizeCreate host limits expected plan)
        (stepsOf host (createSteps plan job)) s o := by
  cases hintent : s.find? (.intent plan.intentId) with
  | some d =>
      have hready := h.along hkept hs (by rw [hintent]; rfl)
      obtain ⟨hmeasured, -⟩ := requireExactIntent_eq_ok.1 hready.exact
      obtain ⟨o, ho, hperforms⟩ := hready.performs (hkept s hs _ hready.same).headroom
      rw [createSteps_jobNow] at hperforms
      exact ⟨o, ho, hperforms.congr (finalizeCreate_of_intent hfrozen hready.same
        (terminalWithoutIntent_eq_none.2 ⟨_, hmeasured, by simp⟩))⟩
  | none =>
      obtain ⟨hsame, hdone, hsettled⟩ := h.done hs hintent
      exact ⟨⟨plan.result, false⟩, rfl, Performs.of_settled (settled_stepsOf.2 hsettled)
        (finalizeCreate_of_done hfrozen hsame hdone)⟩

/-- Every run that goes through with its intent met the needs. -/
theorem finalizeCreate_needs {o : CommitOutcome}
    (hok : (finalizeCreate host limits expected plan s).result = .ok o)
    (hintent : (s.find? (.intent plan.intentId)).isSome = true) :
    ∃ job, createSameJob host expected s = .ok job ∧
      CreateReady host limits expected plan job s ∧
        AppendAdmitted host plan.auditEntry
          (namespaceSteps plan.tenantId ++ stateSteps plan) s := by
  obtain ⟨documents, hfrozen, hrest⟩ := Durable.query_bind_result_ok hok
  obtain ⟨-, rfl⟩ := freezeCreate_eq_ok.1 hfrozen
  obtain ⟨job, hsame, hrest⟩ := Durable.query_bind_result_ok hrest
  obtain ⟨terminal, hterminal, hrest⟩ := Durable.query_bind_result_ok hrest
  cases terminal with
  | some r =>
      obtain ⟨hdone, -⟩ := terminalWithoutIntent_eq_some.1 hterminal
      rw [intent_cleared hdone.measured] at hintent
      cases hintent
  | none =>
      obtain ⟨hready, happend⟩ := createReady_of_ok hsame hrest
      exact ⟨job, hsame, hready, happend⟩

/-- The namespace is complete exactly if its steps are settled. -/
theorem namespace_settled {t : Uuid7} :
    (∀ e ∈ namespaceSteps t, e.pending host s = false) ↔
      s.tenants.find? t = some ⟨true, true⟩ := by
  simp only [namespaceSteps, List.forall_mem_cons, List.not_mem_nil, false_implies, implies_true,
    and_true, CommitStep.pending]
  cases hfind : s.tenants.find? t with
  | none => simp
  | some n =>
      obtain ⟨archives, deployments⟩ := n
      simp [TenantNamespace.has]

/-- The end of an uninterrupted create. -/
theorem CreateReady.committed (h : CreateReady host limits expected plan job s)
    (happend : AppendAdmitted host plan.auditEntry
      (namespaceSteps plan.tenantId ++ stateSteps plan) s) :
    Committed host plan job (settleAll (stepsOf host (createSteps plan job)) s) ∧
      (settleAll (stepsOf host (createSteps plan job)) s).tenants.find? plan.tenantId =
        some ⟨true, true⟩ := by
  have hseparate : Separate host (createSteps plan job) := createSteps_separate plan job
  have honly := createSteps_only plan job
  rw [createSteps_split] at hseparate honly ⊢
  have hstates : ∀ e ∈ namespaceSteps plan.tenantId ++ stateSteps plan, e.pending host
      (settleAll (stepsOf host (namespaceSteps plan.tenantId ++ stateSteps plan)) s) = false := by
    have hbefore := (List.pairwise_append.1 hseparate).1
    refine settled_settleAll_append hbefore (namespace_settled.2 (namespace_complete host s)) ?_
    exact settled_settleAll (List.pairwise_append.1 hbefore).2.1 (stateSteps_ready plan)
  have hsettled := happend.settled hseparate (by rw [createStates_audit]; exact h.appendable)
    hstates (closingSteps_ready _ _ _)
  refine ⟨committed_of_settled (hsettled _ (by simp [stateSteps]))
    (hsettled _ (by simp [stateSteps])) (hsettled _ (by simp)) ?_
    fun e he => hsettled e (by simp [he]), namespace_settled.1 fun e he => hsettled e (by simp [he])⟩
  exact h.appendable.settleAll honly

end Ready

/-- A state that a create may have left behind, or that it may start from. -/
structure CreateOwn (host : StateHost) (expected : AuthorizationJob) (plan : TransitionPlan)
    (s : Store) : Prop where
  job : ∃ job, createSameJob host expected s = .ok job ∧
    (s.find? (.result job.jobId) = none ∨
      s.find? (.result job.jobId) = some (.operationResult plan.result))
  intent : s.find? (.intent plan.intentId) = some (.transactionIntent plan.intent)
  desired : s.find? (.desired plan.tenantId) = none ∨
    s.find? (.desired plan.tenantId) = some (.site plan.manifest)
  observed : s.find? (.observed plan.tenantId) = none ∨
    s.find? (.observed plan.tenantId) = some (.tenantObservedState plan.observedState)

/-- What the finalizer of a create does, whenever it is interrupted. -/
structure CreateCommitLaws (host : StateHost) (limits : HostCapacityLimits)
    (expected : AuthorizationJob) (plan : TransitionPlan) (s : Store) : Prop where
  /-- It makes nothing durable in a state of another transition. -/
  own : (finalizeCreate host limits expected plan s).trace ≠ [] →
    freezeCreate host expected plan = .ok plan ∧ CreateOwn host expected plan s
  /-- A run that goes through returns the planned result and leaves the planned end, with the whole
  namespace of the tenant if it found the intent. -/
  ends : ∀ o, (finalizeCreate host limits expected plan s).result = .ok o →
    ∃ job, readJob host expected.jobId s = .ok job ∧ o.result = plan.result ∧
      Committed host plan job (finalizeCreate host limits expected plan s).state ∧
        ((s.find? (.intent plan.intentId)).isSome = true →
          (finalizeCreate host limits expected plan s).state.tenants.find? plan.tenantId =
            some ⟨true, true⟩)
  /-- Crashed runs are completed by the next run, in the state of the uninterrupted one, exactly
  while the append and the inventory of what is missing stay admitted. -/
  converges : ∀ o, (finalizeCreate host limits expected plan s).result = .ok o →
    ∃ job, readJob host expected.jobId s = .ok job ∧
      ((finalizeCreate host limits expected plan).Converges (fun o => o.result = plan.result) s ↔
        ((s.find? (.intent plan.intentId)).isSome = true →
          CreateKept host expected plan job s))

section Laws

variable {expected job : AuthorizationJob} {plan : TransitionPlan} {s : Store}

theorem finalizeCreate_own (htrace : (finalizeCreate host limits expected plan s).trace ≠ []) :
    freezeCreate host expected plan = .ok plan ∧ CreateOwn host expected plan s := by
  obtain ⟨documents, hfrozen, hrest⟩ := query_bind_trace htrace
  have hplan := (freezeCreate_eq_ok.1 hfrozen).2
  rw [hplan] at hfrozen hrest
  obtain ⟨job, hsame, hrest⟩ := query_bind_trace hrest
  obtain ⟨terminal, -, hrest⟩ := query_bind_trace hrest
  cases terminal with
  | some r => exact absurd rfl hrest
  | none =>
      obtain ⟨removal, hexact, hrest⟩ := query_bind_trace hrest
      obtain ⟨missing, hadmission, -⟩ := query_bind_trace hrest
      obtain ⟨auditMissing, hadmitted⟩ := admitMissingState_eq_ok.1 hadmission
      obtain ⟨-, ⟨hintent, -⟩, -⟩ := requireExactIntent_eq_ok.1 hexact
      refine ⟨hfrozen, ⟨job, hsame, ?_⟩, hintent, ?_, ?_⟩
      · exact (missingOrExact_of_missing hadmitted.result).imp id fun hread =>
          (readLocked_eq_ok.1 hread).1
      · exact (missingOrExact_of_missing hadmitted.desired).imp id fun hread =>
          (readLocked_eq_ok.1 hread).1
      · exact (missingOrExact_of_missing hadmitted.observed).imp id fun hread =>
          (readLocked_eq_ok.1 hread).1

/-- A run that found the commit done changes nothing. -/
theorem finalizeCreate_of_cleared {o : CommitOutcome}
    (hok : (finalizeCreate host limits expected plan s).result = .ok o)
    (hcleared : ¬ (s.find? (.intent plan.intentId)).isSome = true) :
    ∃ job, createSameJob host expected s = .ok job ∧ CommitDone host .create job plan s ∧
      finalizeCreate host limits expected plan s = ⟨[], s, .ok ⟨plan.result, false⟩⟩ := by
  obtain ⟨documents, hfrozen, hrest⟩ := Durable.query_bind_result_ok hok
  have hplan := (freezeCreate_eq_ok.1 hfrozen).2
  rw [hplan] at hfrozen hrest
  obtain ⟨job, hsame, hrest⟩ := Durable.query_bind_result_ok hrest
  obtain ⟨terminal, hterminal, hrest⟩ := Durable.query_bind_result_ok hrest
  cases terminal with
  | some r =>
      obtain ⟨hdone, -⟩ := terminalWithoutIntent_eq_some.1 hterminal
      exact ⟨job, hsame, hdone, finalizeCreate_of_done hfrozen hsame hdone⟩
  | none =>
      obtain ⟨removal, hexact, -⟩ := Durable.query_bind_result_ok hrest
      obtain ⟨-, ⟨hintent, -⟩, -⟩ := requireExactIntent_eq_ok.1 hexact
      rw [hintent] at hcleared
      exact absurd rfl hcleared

/-- A run with its intent. -/
theorem finalizeCreate_of_ready {o : CommitOutcome}
    (hok : (finalizeCreate host limits expected plan s).result = .ok o)
    (hready : CreateReady host limits expected plan job s)
    (happend : AppendAdmitted host plan.auditEntry
      (namespaceSteps plan.tenantId ++ stateSteps plan) s) :
    freezeCreate host expected plan = .ok plan ∧ o.result = plan.result ∧
      Performs (finalizeCreate host limits expected plan) (stepsOf host (createSteps plan job)) s
        o := by
  obtain ⟨documents, hfrozen, -⟩ := Durable.query_bind_result_ok hok
  have hplan := (freezeCreate_eq_ok.1 hfrozen).2
  rw [hplan] at hfrozen
  obtain ⟨hmeasured, -⟩ := requireExactIntent_eq_ok.1 hready.exact
  obtain ⟨o', ho, hperforms⟩ := hready.performs happend
  have hrun : Performs (finalizeCreate host limits expected plan) _ s o' :=
    hperforms.congr (finalizeCreate_of_intent hfrozen hready.same
      (terminalWithoutIntent_eq_none.2 ⟨_, hmeasured, by simp⟩))
  obtain rfl : o' = o := Except.ok.inj (hrun.result.symm.trans hok)
  exact ⟨hfrozen, ho, hrun⟩

/-- The finalizer of a create is resumable. -/
theorem finalizeCreate_laws (host : StateHost) (limits : HostCapacityLimits)
    (expected : AuthorizationJob) (plan : TransitionPlan) (s : Store) :
    CreateCommitLaws host limits expected plan s where
  own := finalizeCreate_own
  ends := by
    intro o hok
    by_cases hintent : (s.find? (.intent plan.intentId)).isSome = true
    · obtain ⟨job, hsame, hready, happend⟩ := finalizeCreate_needs hok hintent
      obtain ⟨hid, hread⟩ := requireSameJob_stored hsame
      obtain ⟨-, hresult, hperforms⟩ := finalizeCreate_of_ready hok hready happend
      obtain ⟨hcommitted, hcomplete⟩ := hready.committed happend
      refine ⟨job, by rw [hid]; exact hread, hresult, ?_, fun _ => ?_⟩
      · rw [hperforms.state]
        exact hcommitted
      · rw [hperforms.state]
        exact hcomplete
    · obtain ⟨job, hsame, hdone, hrun⟩ := finalizeCreate_of_cleared hok hintent
      obtain ⟨hid, hread⟩ := requireSameJob_stored hsame
      rw [hrun] at hok
      refine ⟨job, by rw [hid]; exact hread, ?_, ?_, fun h => absurd h hintent⟩
      · rw [← Except.ok.inj hok]
      · rw [hrun]
        exact hdone.committed hread
  converges := by
    intro o hok
    by_cases hintent : (s.find? (.intent plan.intentId)).isSome = true
    · obtain ⟨job, hsame, hready, happend⟩ := finalizeCreate_needs hok hintent
      obtain ⟨hid, hread⟩ := requireSameJob_stored hsame
      obtain ⟨hfrozen, -, hperforms⟩ := finalizeCreate_of_ready hok hready happend
      refine ⟨job, by rw [hid]; exact hread, ?_⟩
      rw [forall_prop_of_true hintent]
      -- what a retry needs is stated for the job it finds, which an earlier run may have completed
      refine converges_iff (N := fun t => ∀ job', createSameJob host expected t = .ok job' →
        CreateNeeds host plan job' t) hperforms ?_ ?_
      · intro hkept
        exact ⟨hready.orderly hkept, fun t ht => hready.settles hfrozen hkept ht⟩
      · intro t o' hok' job' hsame'
        by_cases hintent' : (t.find? (.intent plan.intentId)).isSome = true
        · obtain ⟨found, hfound, hready', happend'⟩ := finalizeCreate_needs hok' hintent'
          obtain rfl : found = job' := Except.ok.inj (hfound.symm.trans hsame')
          exact hready'.needs happend'
        · obtain ⟨found, hfound, hdone, -⟩ := finalizeCreate_of_cleared hok' hintent'
          refine ⟨fun hmissing => ?_, fun h => absurd h hintent'⟩
          have hsame : auditMissing host plan.auditEntry (settleAll (stepsOf host
              (namespaceSteps plan.tenantId ++ stateSteps plan)) t) =
                auditMissing host plan.auditEntry t :=
            CommitStep.pending_same (e := .append plan.auditEntry) (createStates_audit plan t)
          rw [hsame, ← inspectNeedsAppend_value hdone.audit] at hmissing
          cases hmissing
    · obtain ⟨job, hsame, hdone, hrun⟩ := finalizeCreate_of_cleared hok hintent
      obtain ⟨hid, hread⟩ := requireSameJob_stored hsame
      refine ⟨job, by rw [hid]; exact hread, iff_of_true (fun t ht => ?_) fun h => absurd h hintent⟩
      obtain rfl := ht.eq_start (by rw [hrun])
      exact ⟨_, rfl, by rw [hrun], rfl⟩

end Laws

end StaticHostAgent.Commit

/-! ## A create that goes through -/

namespace StaticHostAgent.Commit.CreateRun

open Library Contracts Host Audit State

def site : Site := sampleSite .undeployed none

def request : OperationRequest :=
  ⟨.create, sampleCorrelation, none, some "site", some ⟨1, 1⟩, none, none⟩

def observed : TenantObservedState := sampleObserved (placeDigest .manifest 0) .undeployed none none

def plan : TransitionPlan where
  tenantId := sampleTenant
  intentId := sampleIntentId
  manifest := site
  observedState := observed
  intent := sampleIntent .create
    (some ⟨none, sampleId 6, .absent, some observed, sampleId 7, .absent⟩) none (some (site, 0))
  result := sampleResult .create site
  auditEntry := sampleEntry .create (placeDigest .result 2)

def job : AuthorizationJob :=
  sampleJob request 1 ⟨true, none, none, none, none, ⟨.platformState, 0⟩, none⟩ none
    { Dispatch.none with sourceRuntimeGenerationId := some (sampleId 6) }

noncomputable def host : StateHost :=
  meteredHost (tableAuditHost [.site site, .operationRequest request, .operationResult plan.result,
    .tenantObservedState observed, .transactionIntent plan.intent, .auditEntry plan.auditEntry,
    .authorizationJob job, .authorizationJob (completedJob job)]) (2 ^ 40) 0

/-- Nothing but the claimed job and its intent. -/
def store : Store :=
  { sampleStore [(.job sampleJobId, .authorizationJob job),
      (.intent sampleIntentId, .transactionIntent plan.intent)] [] with
    tenants := Directory.empty, platformState := none }

example : (finalizeCreate host defaultHostCapacityLimits job plan store).result =
    .ok ⟨plan.result, true⟩ := by decide +kernel

end StaticHostAgent.Commit.CreateRun
