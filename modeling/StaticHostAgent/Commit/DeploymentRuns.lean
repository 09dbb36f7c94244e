import StaticHostAgent.Commit.DeploymentSteps

/-!
# Crashes of the deployment commit

`DeploymentReady` is what a state must offer for the commit to go through. It holds where a run
succeeded (`deploymentReady_of_ok`), and where it holds the commit performs its steps, also for a
list of records of which some are gone already (`DeploymentReady.performs`).
-/

set_option autoImplicit false

namespace StaticHostAgent.Commit

open Library Contracts Host Audit State

variable {host : StateHost} {limits : HostCapacityLimits}

/-! ## Admission -/

/-- What the admission of a deployment transition finds on the way. -/
structure DeploymentFound (host : StateHost) (job : AuthorizationJob)
    (documents : DeploymentDocuments) (s : Store) (p : DeploymentProgress) (ids : List Uuid7)
    (auditMissing : Bool) : Prop where
  states : StatesKnown host documents.toTransitionPlan documents.sourceManifest
    documents.sourceObservedState s p.desired p.observed
  writeDesired : p.writeDesired = (decide (p.desired = .site documents.sourceManifest) &&
    decide (p.desired ≠ .site documents.manifest))
  writeObserved : p.writeObserved =
    decide (p.observed = .tenantObservedState documents.sourceObservedState)
  listed : tenantDeploymentTransitionIds host documents.tenantId documents.deployment.id s =
    .ok ids
  replayable : Replayable documents ids
  writeDeployment : p.writeDeployment =
    (documents.createsDeployment && decide (documents.deployment.id ∉ ids))
  recorded : p.writeDeployment = false →
    requireExactDeployment host documents.deployment s = .ok ()
  leaving : ((ids.filter fun d => decide (d ∉ retainedIds documents)).mapM fun d =>
    readDeployment host documents.tenantId d s) = .ok p.retired
  source : requireSourceDeployment host documents ids (!p.writeDesired && !p.writeObserved) s =
    .ok ()
  resultMissing : missingExact host "existing deployment result disagrees"
    (.authorizationResult job.jobId) (.operationResult documents.result) s = .ok p.resultMissing
  audit : inspectNeedsAppend host .deployment documents.auditEntry s = .ok auditMissing

/-- What the admission of a deployment transition admits. -/
structure DeploymentAdmitted (host : StateHost) (limits : HostCapacityLimits)
    (job : AuthorizationJob) (documents : DeploymentDocuments) (s : Store) (p : DeploymentProgress)
    (ids : List Uuid7) (auditMissing : Bool) : Prop
    extends DeploymentFound host job documents s p ids auditMissing where
  headroom : auditMissing = true → admitMissingAudit host documents.auditEntry s = .ok ()
  inventory : p.resultMissing = true → admitResult host documents.result s = .ok ()
  capacity : admitRemaining host limits (flagged (deploymentWrites job documents p)) auditMissing
    s = .ok ()

theorem admitDeploymentTransition_eq_ok {job : AuthorizationJob} {documents : DeploymentDocuments}
    {s : Store} {p : DeploymentProgress} (hplan : HistoryPlan documents) :
    admitDeploymentTransition host limits job documents s = .ok p ↔
      ∃ ids auditMissing, DeploymentAdmitted host limits job documents s p ids auditMissing := by
  unfold admitDeploymentTransition
  simp only [bind_eq_ok, require_eq_ok, decide_eq_true_eq, pure_eq_ok, checkIf_eq_ok,
    List.mem_cons, List.not_mem_nil, or_false, Bool.not_eq_true', Bool.and_eq_false_iff,
    decide_eq_false_iff_not, hplan.terminal_eq, Except.ok.injEq, exists_eq_left',
    historyIsReplayable_iff hplan]
  constructor
  · rintro ⟨desired, hdesired, observed, hobserved, -, hdesiredKnown, -, hobservedKnown, -, horder,
      ids, hids, -, hreplayable, ⟨⟩, hexact, retired, hretired, ⟨⟩, hsource, missing, hmissing,
      audit, haudit, ⟨⟩, hheadroom, ⟨⟩, hinventory, ⟨⟩, hcapacity, rfl⟩
    refine ⟨ids, audit, ⟨⟨hdesired, hobserved, hdesiredKnown, hobservedKnown, fun h => ?_⟩, rfl, rfl,
      hids, hreplayable, rfl, fun hwritten => hexact ?_, hretired, hsource, hmissing, haudit⟩,
      hheadroom, hinventory, hcapacity⟩
    · exact not_not.1 (horder.resolve_left fun hne => hne h)
    · simpa only [Bool.and_eq_false_iff, decide_eq_false_iff_not] using hwritten
  · rintro ⟨ids, audit, h⟩
    have hp : (⟨p.desired, p.observed, p.retired,
        documents.createsDeployment && decide (documents.deployment.id ∉ ids),
        decide (p.desired = .site documents.sourceManifest) &&
          decide (p.desired ≠ .site documents.manifest),
        decide (p.observed = .tenantObservedState documents.sourceObservedState),
        p.resultMissing⟩ : DeploymentProgress) = p := by
      rw [← h.writeDesired, ← h.writeObserved, ← h.writeDeployment]
    have hexact := h.recorded
    have hsource := h.source
    rw [h.writeDeployment] at hexact
    simp only [Bool.and_eq_false_iff, decide_eq_false_iff_not] at hexact
    rw [h.writeDesired, h.writeObserved] at hsource
    refine ⟨_, h.states.desiredRead, _, h.states.observedRead, (), h.states.desiredKnown, (),
      h.states.observedKnown, (), ?_, ids, h.listed, (), h.replayable, (), hexact, _, h.leaving, (),
      hsource, _, h.resultMissing, audit, h.audit, (), h.headroom, (), h.inventory, (), ?_, hp⟩
    · by_cases hobserved : p.observed = .tenantObservedState documents.observedState
      · exact Or.inr (not_not.2 (h.states.order hobserved))
      · exact Or.inl hobserved
    · rw [hp]
      exact h.capacity

section Found

theorem pendingSum_of_zero {weight : CommitStep → Nat} {es : List CommitStep}
    (h : ∀ e ∈ es, weight e = 0) (s : Store) : pendingSum host weight es s = 0 := by
  induction es with
  | nil => rfl
  | cons e es ih =>
      rw [pendingSum_cons, h e List.mem_cons_self, ih fun f hf => h f (List.mem_cons_of_mem e hf)]
      simp

variable {job : AuthorizationJob} {documents : DeploymentDocuments} {s : Store}
  {p : DeploymentProgress} {ids : List Uuid7} {auditMissing : Bool}
  (h : DeploymentFound host job documents s p ids auditMissing)

include h

theorem DeploymentFound.ids_eq :
    ids = (Listing.deployments documents.tenantId).ids s :=
  (boundedDeploymentIds_eq_ok.1 (tenantDeploymentTransitionIds_eq_ok.1 h.listed).1).2.1

theorem DeploymentFound.leaves :
    Leaving host documents s p.retired := by
  have hread := h.leaving
  rw [h.ids_eq] at hread
  exact leaving_iff.2 hread

/-- The desired state is written exactly while it is pending. -/
theorem DeploymentFound.writeDesired_eq :
    p.writeDesired = decide (p.desired ≠ .site documents.manifest) := by
  rw [h.writeDesired]
  rcases h.states.desiredKnown with hsource | hplanned
  · simp [hsource]
  · simp [hplanned]

/-- The observed state is written exactly while it is pending: a transition changes it. -/
theorem DeploymentFound.writeObserved_eq (hplan : HistoryPlan documents) :
    p.writeObserved = decide (p.observed ≠ .tenantObservedState documents.observedState) := by
  rw [h.writeObserved]
  rcases h.states.observedKnown with hsource | hplanned
  · simp [hsource, hplan.changes]
  · simp [hplanned, Ne.symm hplan.changes]

theorem DeploymentFound.desired_of_not_write (hwrite : p.writeDesired = false) :
    p.desired = .site documents.manifest := by
  rw [h.writeDesired_eq, decide_eq_false_iff_not] at hwrite
  exact not_not.1 hwrite

theorem DeploymentFound.observed_of_not_write (hwrite : p.writeObserved = false) :
    p.observed = .tenantObservedState documents.observedState := by
  rw [h.writeObserved, decide_eq_false_iff_not] at hwrite
  exact h.states.observedKnown.resolve_left hwrite

/-- Where the record of the selected deployment is not written, it is there. -/
theorem DeploymentFound.recorded_find (hplan : HistoryPlan documents)
    (hwrite : p.writeDeployment = false) :
    s.find? (.deployment documents.tenantId documents.deployment.id) =
      some (.deploymentRecord documents.deployment) := by
  have hread := requireExactDeployment_eq_ok.1 (h.recorded hwrite)
  rw [hplan.tenant] at hread
  exact (readDeployment_eq_ok.1 hread).1

/-- The record of a new deployment is written while it is absent. -/
theorem DeploymentFound.absent (hwrite : p.writeDeployment = true) :
    documents.createsDeployment = true ∧
      s.find? (.deployment documents.tenantId documents.deployment.id) = none := by
  rw [h.writeDeployment, Bool.and_eq_true, decide_eq_true_eq] at hwrite
  obtain ⟨hcreates, habsent⟩ := hwrite
  rw [h.ids_eq] at habsent
  exact ⟨hcreates, Listing.not_mem_ids.1 habsent⟩

theorem DeploymentFound.record_reserved (hplan : HistoryPlan documents)
    (weight : CommitStep → Nat) :
    pendingSum host weight (recordSteps documents) s =
      if p.writeDeployment then
        weight (.put (.deployment documents.tenantId documents.deployment.id)
          (.deploymentRecord documents.deployment))
      else 0 := by
  cases hwrite : p.writeDeployment with
  | true =>
      obtain ⟨hcreates, habsent⟩ := h.absent hwrite
      unfold recordSteps
      rw [if_pos hcreates, pendingSum_cons]
      simp [pendingSum, CommitStep.pending, habsent]
  | false =>
      have hfind := h.recorded_find hplan hwrite
      unfold recordSteps
      split
      · rw [pendingSum_cons]
        simp [pendingSum, CommitStep.pending, hfind]
      · rfl

/-- The remaining writes are the pending steps. -/
theorem DeploymentFound.reserved (hplan : HistoryPlan documents)
    (hresult : ResultReady host job documents.result s) (hjob : JobReady host job s)
    (hphase : job.phase ∈ [JobPhase.claimed, .completed]) (retired : List DeploymentRecord)
    {weight : CommitStep → Nat} (hremove : ∀ p, weight (.remove p) = 0)
    (hretire : ∀ t d g, weight (.retire t d g) = 0)
    (hdiscard : ∀ t d g, weight (.discard t d g) = 0) :
    ((if p.writeDeployment then
        weight (.put (.deployment documents.tenantId documents.deployment.id)
          (.deploymentRecord documents.deployment)) else 0) +
      ((if p.writeDesired then
          weight (.put (.desired documents.tenantId) (.site documents.manifest)) else 0) +
        ((if p.writeObserved then weight (.put (.observed documents.tenantId)
            (.tenantObservedState documents.observedState)) else 0) +
          ((if p.resultMissing then weight (.put (.result job.jobId)
              (.operationResult documents.result)) else 0) +
            (if job.phase = .claimed then weight (.put (.job job.jobId)
              (.authorizationJob (completedJob job))) else 0))))) +
      (if auditMissing then weight (.append documents.auditEntry) else 0) =
        pendingSum host weight (deploymentSteps documents job retired) s := by
  have hmissing : p.resultMissing = (s.find? (.result job.jobId)).isNone :=
    missingExact_value h.resultMissing
  have haudit : auditMissing = CommitStep.pending host (.append documents.auditEntry) s :=
    inspectNeedsAppend_value h.audit
  -- what leaves the history reserves nothing
  have hnothing : pendingSum host weight (retirementSteps documents.tenantId retired) s = 0 := by
    refine pendingSum_of_zero (fun e he => ?_) s
    obtain ⟨r, -, rfl | rfl | rfl⟩ := mem_retirementSteps.1 he
    · exact hretire _ _ _
    · exact hdiscard _ _ _
    · exact hremove _
  rw [deploymentSteps_split]
  unfold deploymentBefore transitionSteps stateSteps
  rw [pendingSum_append, pendingSum_append, pendingSum_append, hnothing,
    h.record_reserved hplan, pendingSum_cons, pendingSum_cons, pendingSum_cons,
    closing_reserved hresult hjob hphase hremove, h.writeDesired_eq, h.writeObserved_eq hplan,
    hmissing, haudit, h.states.desired_pending, h.states.observed_pending]
  simp only [pendingSum, List.map_nil, List.sum_nil, decide_eq_true_eq]
  omega

theorem DeploymentFound.reservedBytes_eq (hplan : HistoryPlan documents)
    (hresult : ResultReady host job documents.result s) (hjob : JobReady host job s)
    (hphase : job.phase ∈ [JobPhase.claimed, .completed]) (retired : List DeploymentRecord) :
    reservedBytes host (deploymentWrites job documents p) auditMissing =
      pendingSum host (CommitStep.bytes host) (deploymentSteps documents job retired) s := by
  rw [← h.reserved hplan hresult hjob hphase retired (fun _ => rfl) (fun _ _ _ => rfl)
    fun _ _ _ => rfl]
  simp [reservedBytes, deploymentWrites, flaggedBytes, CommitStep.bytes]

theorem DeploymentFound.reservedInodes_eq (hplan : HistoryPlan documents)
    (hresult : ResultReady host job documents.result s) (hjob : JobReady host job s)
    (hphase : job.phase ∈ [JobPhase.claimed, .completed]) (retired : List DeploymentRecord) :
    reservedInodes (deploymentWrites job documents p) auditMissing =
      pendingSum host CommitStep.inodes (deploymentSteps documents job retired) s := by
  rw [← h.reserved hplan hresult hjob hphase retired (fun _ => rfl) (fun _ _ _ => rfl)
    fun _ _ _ => rfl]
  simp [reservedInodes, deploymentWrites, CommitStep.inodes, toNat_eq_ite]

end Found

/-! ## Retirement -/

theorem stepsOf_flatMap {β : Type} (f : β → List CommitStep) (xs : List β) :
    stepsOf host (xs.flatMap f) = xs.flatMap fun x => stepsOf host (f x) := List.map_flatMap

/-- Removing a release writes no file. -/
theorem releaseSteps_file {t : Uuid7} {retired : List DeploymentRecord} (p : FilePath) (s : Store) :
    (settleAll (stepsOf host (retired.flatMap (releaseSteps t))) s).find? p = s.find? p := by
  refine (@CommitStep.settleAll_same _ _ _ (.file p)) fun e he => ?_
  obtain ⟨r, -, rfl | rfl⟩ := mem_releaseSteps.1 he <;> simp [CommitStep.touches]

theorem removeRetiredRelease_performs {t : Uuid7} {record : DeploymentRecord} {s : Store}
    (hread : readDeployment host t record.id s = .ok record)
    (h : Removable t record.id record.releaseTreeDigest s) :
    Performs (removeRetiredRelease host t record) (stepsOf host (releaseSteps t record)) s
      (record, revision host (.deploymentRecord record)) := by
  obtain ⟨hfind, hfits⟩ := readDeployment_eq_ok.1 hread
  have hpath : recordPath record = .tenantDeployment t record.id := by
    unfold recordPath
    rw [(readDeployment_identity hread).1]
  have htoken : deploymentRemovalToken host record s =
      .ok (revision host (.deploymentRecord record)) :=
    deploymentRemovalToken_of_find? (by rw [hpath]; exact hfits) (by rw [hpath]; exact hfind)
  have hrun := (removeRelease_performs h).bind
    (f := fun _ => (pure (record, revision host (.deploymentRecord record)) :
      Durable Store AgentError (DeploymentRecord × StateRevision)))
    (Performs.pure _ (settleAll (stepsOf host (releaseSteps t record)) s))
  rw [List.append_nil] at hrun
  exact Performs.query_bind htoken hrun

section Retire

variable {documents : DeploymentDocuments} {retired : List DeploymentRecord}
  {keep : DeploymentRecord → Bool} {s : Store}

/-- Removing the releases of the kept records performs the steps of all, where those of the others
are made already. -/
theorem releases_performs (hretirable : Retirable documents retired)
    (hkept : ∀ r ∈ retired, keep r = true →
      readDeployment host documents.tenantId r.id s = .ok r ∧
        Removable documents.tenantId r.id r.releaseTreeDigest s)
    (hgone : ∀ r ∈ retired, keep r = false →
      ∀ e ∈ releaseSteps documents.tenantId r, e.pending host s = false) :
    Performs ((retired.filter keep).mapM (removeRetiredRelease host documents.tenantId))
      (stepsOf host (retired.flatMap (releaseSteps documents.tenantId))) s
      ((retired.filter keep).map fun r => (r, revision host (.deploymentRecord r))) := by
  rw [stepsOf_flatMap]
  refine Performs.mapM fun before r after hsplit => ?_
  have hr : r ∈ retired := hsplit ▸ List.mem_append_right _ List.mem_cons_self
  rw [← stepsOf_flatMap]
  constructor
  · intro hkeep
    obtain ⟨hread, hremovable⟩ := hkept r hr hkeep
    refine removeRetiredRelease_performs ?_ hremovable.settleAll
    rw [readDeployment_same (releaseSteps_file _ s)]
    exact hread
  · intro hkeep
    refine settled_stepsOf.2 fun e he => ?_
    rw [← hgone r hr hkeep e he]
    -- the records before this one are other ones
    refine CommitStep.pending_same (CommitStep.settleAll_same fun f hf => ?_)
    obtain ⟨r', hr', hf⟩ := List.mem_flatMap.1 hf
    have hdistinct := hretirable.distinct
    rw [hsplit] at hdistinct
    have hne : r'.id ≠ r.id :=
      (List.pairwise_append.1 hdistinct).2.2 r' hr' r List.mem_cons_self
    exact (releaseSteps_apart hne f hf e he).2

theorem forM_mapped {β γ : Type} {f : γ → Durable Store AgentError Unit} {g : β → γ} {xs : List β} :
    (xs.map g).forM f = xs.forM fun x => f (g x) := by
  induction xs with
  | nil => rfl
  | cons x xs ih =>
      show (f (g x) >>= fun _ => (xs.map g).forM f) = (f (g x) >>= fun _ => xs.forM _)
      rw [ih]

/-- Removing the kept records performs the steps of all, where the others are gone already. -/
theorem forgets_performs (hretirable : Retirable documents retired)
    (hkept : ∀ r ∈ retired, keep r = true →
      readDeployment host documents.tenantId r.id s = .ok r)
    (hgone : ∀ r ∈ retired, keep r = false →
      s.find? (.deployment documents.tenantId r.id) = none) :
    Performs (((retired.filter keep).map fun r => (r, revision host (.deploymentRecord r))).forM
        fun authority => removeExactDeployment host authority.1 authority.2)
      (stepsOf host (retired.flatMap (forgetSteps documents.tenantId))) s () := by
  rw [stepsOf_flatMap, forM_mapped]
  refine Performs.forM fun before r after hsplit => ?_
  have hr : r ∈ retired := hsplit ▸ List.mem_append_right _ List.mem_cons_self
  rw [← stepsOf_flatMap]
  -- the records before this one are other ones
  have hsame : (settleAll (stepsOf host (before.flatMap (forgetSteps documents.tenantId)))
      s).find? (.deployment documents.tenantId r.id) =
        s.find? (.deployment documents.tenantId r.id) := by
    refine (@CommitStep.settleAll_same _ _ _ (.file _)) fun e he => ?_
    obtain ⟨r', hr', rfl⟩ := mem_forgetSteps.1 he
    have hdistinct := hretirable.distinct
    rw [hsplit] at hdistinct
    have hne : r'.id ≠ r.id :=
      (List.pairwise_append.1 hdistinct).2.2 r' hr' r List.mem_cons_self
    simp [CommitStep.touches, hne.symm]
  constructor
  · intro hkeep
    obtain ⟨hfind, hfits⟩ := readDeployment_eq_ok.1 (hkept r hr hkeep)
    have hpath : recordPath r = .tenantDeployment documents.tenantId r.id := by
      unfold recordPath
      rw [hretirable.tenant r hr]
    have hrun := (@removeExactDeployment_performs host r
      (settleAll (stepsOf host (before.flatMap (forgetSteps documents.tenantId))) s))
      (by rw [hpath]; exact hfits) (by rw [hpath]; exact hsame.trans hfind)
    rw [hpath] at hrun
    exact hrun
  · intro hkeep
    refine settled_stepsOf.2 fun e he => ?_
    rw [List.mem_singleton.1 he, remove_settled, hsame]
    exact hgone r hr hkeep

/-- Releases that were removed could be. -/
theorem removable_of_ok {authorities : List (DeploymentRecord × StateRevision)}
    (hretirable : Retirable documents retired)
    (hstored : ∀ r ∈ retired, readDeployment host documents.tenantId r.id s = .ok r)
    (hok : (retired.mapM (removeRetiredRelease host documents.tenantId) s).result =
      .ok authorities) :
    ∀ r ∈ retired, Removable documents.tenantId r.id r.releaseTreeDigest s := by
  induction retired generalizing s authorities with
  | nil =>
      intro r hr
      cases hr
  | cons r retired ih =>
      rw [List.mapM_cons] at hok
      obtain ⟨authority, hfirst, hok⟩ := Durable.bind_result_ok hok
      obtain ⟨rest, hrest, -⟩ := Durable.bind_result_ok hok
      obtain ⟨token, -, hremoved⟩ := Durable.query_bind_result_ok hfirst
      obtain ⟨⟨⟩, hremoved, -⟩ := Durable.bind_result_ok hremoved
      have hremovable : Removable documents.tenantId r.id r.releaseTreeDigest s :=
        removeRelease_ok hremoved
      have hread := hstored r List.mem_cons_self
      rw [(removeRetiredRelease_performs hread hremovable).state] at hrest
      obtain ⟨hne, hdistinct⟩ := List.pairwise_cons.1 hretirable.distinct
      have hretirable' : Retirable documents retired :=
        ⟨fun r' hr' => hretirable.tenant r' (List.mem_cons_of_mem r hr'),
          fun r' hr' => hretirable.other r' (List.mem_cons_of_mem r hr'), hdistinct⟩
      have hlater := ih hretirable' (fun r' hr' => ?_) hrest
      · intro r' hr'
        rcases List.mem_cons.1 hr' with rfl | hr'
        · exact hremovable
        · -- the names of a later release are as before the first removal
          have hfree : ∀ retiredName, (settleAll (stepsOf host
              (releaseSteps documents.tenantId r)) s).releases.find?
                ⟨documents.tenantId, r'.id, retiredName⟩ =
              s.releases.find? ⟨documents.tenantId, r'.id, retiredName⟩ := by
            intro retiredName
            refine (@CommitStep.settleAll_same _ _ _ (.release _)) ?_
            simp [releaseSteps, CommitStep.touches, (hne r' hr').symm]
          exact (hlater r' hr').same (hfree none).symm (hfree _).symm
      · rw [← hstored r' (List.mem_cons_of_mem r hr')]
        refine readDeployment_same ?_
        refine (@CommitStep.settleAll_same _ _ _ (.file _)) ?_
        simp [releaseSteps, CommitStep.touches]

end Retire

/-! ## Readiness -/

/-- The writes of a deployment transition whose intent is there. -/
def commitDeployment (host : StateHost) (limits : HostCapacityLimits) (job : AuthorizationJob)
    (documents : DeploymentDocuments) : Durable Store AgentError CommitOutcome := do
  let intentRemoval ← Durable.query (deploymentExactIntent host documents)
  let progress ← Durable.query (admitDeploymentTransition host limits job documents)
  Durable.query (requireSelectedRelease documents)
  Durable.when progress.writeDeployment (writeDeploymentRecord host documents)
  Durable.when progress.writeDesired
    (replaceState host (.tenantDesired documents.tenantId) progress.desired
      (.site documents.manifest))
  Durable.when progress.writeObserved
    (replaceState host (.tenantObserved documents.tenantId) progress.observed
      (.tenantObservedState documents.observedState))
  let removalAuthorities ← progress.retired.mapM (removeRetiredRelease host documents.tenantId)
  removalAuthorities.forM fun authority => removeExactDeployment host authority.1 authority.2
  ensureAudit host .deployment documents.auditEntry
  ensureResult host .deployment job documents.result progress.resultMissing
  ensureCompletedJob host job
  removeReconciledIntent host intentRemoval.path intentRemoval.token
  pure ⟨documents.result, progress.resultMissing⟩

/-- A state in which the commit goes through. -/
structure DeploymentReady (host : StateHost) (limits : HostCapacityLimits)
    (expected : AuthorizationJob) (documents : DeploymentDocuments) (job : AuthorizationJob)
    (s : Store) : Prop where
  same : deploymentSameJob host expected s = .ok job
  exact : deploymentExactIntent host documents s =
    .ok (exactRemoval host documents.intentId documents.intent)
  admitted : ∃ p ids auditMissing,
    DeploymentAdmitted host limits job documents s p ids auditMissing
  released : requireSelectedRelease documents s = .ok ()
  recordable : documents.createsDeployment = true →
    s.find? (.deployment documents.tenantId documents.deployment.id) = none →
      encodeNew host (.tenantDeployment documents.tenantId documents.deployment.id)
          (.deploymentRecord documents.deployment) = .ok () ∧
        hasParent s (.deployment documents.tenantId documents.deployment.id) = true
  fit : StatesFit host documents.toTransitionPlan
  removable : ∀ retired, Leaving host documents s retired → ∀ r ∈ retired,
    Removable documents.tenantId r.id r.releaseTreeDigest s
  appendable : Appendable host documents.auditEntry s.audit
  resultReady : ResultReady host job documents.result s
  jobReady : JobReady host job s

/-- What is known of the states depends on their files alone. -/
theorem StatesKnown.same {plan : TransitionPlan} {source : Site}
    {sourceObserved : TenantObservedState} {s s' : Store} {desired observed : Document}
    (h : StatesKnown host plan source sourceObserved s desired observed)
    (hdesired : s'.find? (.desired plan.tenantId) = s.find? (.desired plan.tenantId))
    (hobserved : s'.find? (.observed plan.tenantId) = s.find? (.observed plan.tenantId)) :
    StatesKnown host plan source sourceObserved s' desired observed :=
  ⟨((@readLocked_same _ (.tenantDesired plan.tenantId)) hdesired).trans h.desiredRead,
    ((@readLocked_same _ (.tenantObserved plan.tenantId)) hobserved).trans h.observedRead,
    h.desiredKnown, h.observedKnown, h.order⟩

section Ready

variable {expected job : AuthorizationJob} {documents : DeploymentDocuments}
  {retired : List DeploymentRecord} {keep : DeploymentRecord → Bool} {s : Store}

theorem deploymentBefore_settle (documents : DeploymentDocuments)
    (retired : List DeploymentRecord) (s : Store) :
    settleAll (stepsOf host (deploymentBefore documents retired)) s =
      settleAll (stepsOf host (retired.flatMap (forgetSteps documents.tenantId)))
        (settleAll (stepsOf host (retired.flatMap (releaseSteps documents.tenantId)))
          (settleAll (stepsOf host (stateSteps documents.toTransitionPlan))
            (settleAll (stepsOf host (recordSteps documents)) s))) := by
  unfold deploymentBefore transitionSteps retirementSteps
  simp only [stepsOf_append, settleAll_append]

/-- The transition writes its own files alone. -/
theorem transitionSteps_same {place : Place}
    (hdeployment : place ≠ .file (.deployment documents.tenantId documents.deployment.id))
    (hdesired : place ≠ .file (.desired documents.tenantId))
    (hobserved : place ≠ .file (.observed documents.tenantId)) :
    place.Same s (settleAll (stepsOf host (stateSteps documents.toTransitionPlan))
      (settleAll (stepsOf host (recordSteps documents)) s)) := by
  have hstate : settleAll (stepsOf host (stateSteps documents.toTransitionPlan))
      (settleAll (stepsOf host (recordSteps documents)) s) =
        settleAll (stepsOf host (transitionSteps documents)) s := by
    unfold transitionSteps
    rw [stepsOf_append, settleAll_append]
  rw [hstate]
  refine CommitStep.settleAll_same fun e he => ?_
  rcases mem_transitionSteps.1 he with ⟨-, rfl⟩ | rfl | rfl
  · simpa [CommitStep.touches] using hdeployment
  · simpa [CommitStep.touches] using hdesired
  · simpa [CommitStep.touches] using hobserved

theorem recordSteps_same {place : Place}
    (h : place ≠ .file (.deployment documents.tenantId documents.deployment.id)) :
    place.Same s (settleAll (stepsOf host (recordSteps documents)) s) := by
  refine CommitStep.settleAll_same fun e he => ?_
  obtain ⟨-, rfl⟩ := mem_recordSteps.1 he
  simpa [CommitStep.touches] using h

/-- The record of a new deployment leaves both states alone. -/
theorem recorded_states {desired observed : Document}
    (h : StatesKnown host documents.toTransitionPlan documents.sourceManifest
      documents.sourceObservedState s desired observed) :
    StatesKnown host documents.toTransitionPlan documents.sourceManifest
      documents.sourceObservedState (settleAll (stepsOf host (recordSteps documents)) s) desired
        observed :=
  h.same ((@recordSteps_same host documents s (.file (.desired documents.tenantId))) (by simp))
    ((@recordSteps_same host documents s (.file (.observed documents.tenantId))) (by simp))

theorem record_performs {p : DeploymentProgress} {ids : List Uuid7} {auditMissing : Bool}
    (h : DeploymentFound host job documents s p ids auditMissing) (hplan : HistoryPlan documents)
    (hrecordable : p.writeDeployment = true →
      encodeNew host (.tenantDeployment documents.tenantId documents.deployment.id)
          (.deploymentRecord documents.deployment) = .ok () ∧
        hasParent s (.deployment documents.tenantId documents.deployment.id) = true) :
    Performs (Durable.when p.writeDeployment (writeDeploymentRecord host documents))
      (stepsOf host (recordSteps documents)) s () := by
  cases hwrite : p.writeDeployment with
  | true =>
      obtain ⟨hcreates, habsent⟩ := h.absent hwrite
      obtain ⟨hencode, hparent⟩ := hrecordable hwrite
      unfold recordSteps
      rw [if_pos hcreates]
      exact ((@createImmutable_performs _
        (.tenantDeployment documents.tenantId documents.deployment.id)) hencode hparent
          habsent).dropped
  | false =>
      refine Performs.of_settled (settled_stepsOf.2 fun e he => ?_) rfl
      obtain ⟨-, rfl⟩ := mem_recordSteps.1 he
      exact put_settled.2 (h.recorded_find hplan hwrite)

/-- The steps of a deployment commit, one part after the other. -/
theorem deploymentSteps_parts (documents : DeploymentDocuments) (job : AuthorizationJob)
    (retired : List DeploymentRecord) :
    deploymentSteps documents job retired = recordSteps documents ++
      (stateSteps documents.toTransitionPlan ++
        (retired.flatMap (releaseSteps documents.tenantId) ++
          (retired.flatMap (forgetSteps documents.tenantId) ++
            ([.append documents.auditEntry] ++
              closingSteps job documents.result documents.intentId)))) := by
  unfold deploymentSteps deploymentBefore transitionSteps retirementSteps
  simp only [List.append_assoc]

theorem DeploymentReady.closing (h : DeploymentReady host limits expected documents job s) :
    ClosingReady host job documents.result documents.intentId documents.intent s := by
  obtain ⟨hmeasured, ⟨hintent, hfits⟩, -⟩ := requireExactIntent_eq_ok.1 h.exact
  exact ⟨h.resultReady, h.jobReady, reconciled_of_exact hmeasured hintent hfits⟩

/-- The commit performs the steps for all records of a list of which some are gone already. -/
theorem DeploymentReady.performs (h : DeploymentReady host limits expected documents job s)
    (hplan : HistoryPlan documents) (hretirable : Retirable documents retired)
    (hleaving : Leaving host documents s (retired.filter keep))
    (hgone : ∀ r ∈ retired, keep r = false →
      s.find? (.deployment documents.tenantId r.id) = none ∧
        ∀ e ∈ releaseSteps documents.tenantId r, e.pending host s = false)
    (happend : AppendAdmitted host documents.auditEntry (deploymentBefore documents retired) s) :
    ∃ o : CommitOutcome, o.result = documents.result ∧
      Performs (commitDeployment host limits job documents)
        (stepsOf host (deploymentSteps documents job retired)) s o := by
  obtain ⟨p, ids, auditMissing, hadmitted⟩ := h.admitted
  have hmissing : p.resultMissing = (s.find? (.result job.jobId)).isNone :=
    missingExact_value hadmitted.resultMissing
  have hretired : p.retired = retired.filter keep :=
    hadmitted.toDeploymentFound.leaves.unique hleaving
  have hrecordable : p.writeDeployment = true → _ := fun hwrite =>
    h.recordable (hadmitted.absent hwrite).1 (hadmitted.absent hwrite).2
  refine ⟨⟨documents.result, p.resultMissing⟩, rfl, ?_⟩
  unfold commitDeployment
  refine Performs.query_bind h.exact (Performs.query_bind
    ((admitDeploymentTransition_eq_ok hplan).2 ⟨ids, auditMissing, hadmitted⟩)
    (Performs.query_bind (a := ()) h.released ?_))
  rw [deploymentSteps_parts, stepsOf_append, hretired]
  refine (record_performs hadmitted.toDeploymentFound hplan hrecordable).bind ?_
  have hstates := recorded_states hadmitted.states
  refine hstates.performs h.fit hadmitted.desired_of_not_write hadmitted.observed_of_not_write ?_
  -- the records that leave and their releases are as before the transition
  have hfile : ∀ r ∈ retired, (settleAll (stepsOf host (stateSteps documents.toTransitionPlan))
      (settleAll (stepsOf host (recordSteps documents)) s)).find?
        (.deployment documents.tenantId r.id) =
      s.find? (.deployment documents.tenantId r.id) := fun r hr =>
    (@transitionSteps_same _ _ _ (.file (.deployment documents.tenantId r.id)))
      (by simpa using hretirable.other r hr) (by simp) (by simp)
  have hread : ∀ r ∈ retired, keep r = true →
      readDeployment host documents.tenantId r.id
        (settleAll (stepsOf host (stateSteps documents.toTransitionPlan))
          (settleAll (stepsOf host (recordSteps documents)) s)) = .ok r := by
    intro r hr hkeep
    rw [readDeployment_same (hfile r hr)]
    exact hleaving.stored r (List.mem_filter.2 ⟨hr, hkeep⟩)
  rw [stepsOf_append]
  refine (releases_performs hretirable (fun r hr hkeep => ⟨hread r hr hkeep, ?_⟩)
    fun r hr hkeep e he => ?_).bind ?_
  · exact (h.removable _ hleaving r (List.mem_filter.2 ⟨hr, hkeep⟩)).settleAll.settleAll
  · rw [← (hgone r hr hkeep).2 e he]
    refine CommitStep.pending_same (transitionSteps_same ?_ ?_ ?_) <;>
      · simp only [releaseSteps, List.mem_cons, List.not_mem_nil, or_false] at he
        rcases he with rfl | rfl <;> simp [CommitStep.observes]
  rw [stepsOf_append]
  refine (forgets_performs hretirable (fun r hr hkeep => ?_) fun r hr hkeep => ?_).bind ?_
  · rw [readDeployment_same (releaseSteps_file _ _)]
    exact hread r hr hkeep
  · rw [releaseSteps_file, hfile r hr]
    exact (hgone r hr hkeep).1
  -- the rest starts where everything before the append is settled
  rw [← deploymentBefore_settle, stepsOf_append]
  have haudit := deploymentBefore_audit host documents retired s
  refine (ensureAudit_performs (by rw [haudit]; exact h.appendable) happend).bind ?_
  have havoid := deploymentBefore_avoid documents job retired
  rw [← settleAll_append, ← stepsOf_append]
  refine closing_performs _ (h.closing.settle havoid) ?_
  rw [hmissing, settleAll_closingFiles havoid (closingFiles_result job)]

/-- A run that went through with its intent had what it needs. -/
theorem deploymentReady_of_ok {o : CommitOutcome} (hplan : HistoryPlan documents)
    (hsame : deploymentSameJob host expected s = .ok job)
    (hok : (commitDeployment host limits job documents s).result = .ok o) :
    DeploymentReady host limits expected documents job s ∧ ∃ retired,
      Leaving host documents s retired ∧
        AppendAdmitted host documents.auditEntry (deploymentBefore documents retired) s := by
  obtain ⟨removal, hexact, hok⟩ := Durable.query_bind_result_ok hok
  obtain ⟨p, hadmission, hok⟩ := Durable.query_bind_result_ok hok
  obtain ⟨⟨⟩, hreleased, hok⟩ := Durable.query_bind_result_ok hok
  obtain ⟨ids, auditMissing, hadmitted⟩ := (admitDeploymentTransition_eq_ok hplan).1 hadmission
  have hleaving := hadmitted.toDeploymentFound.leaves
  have hretirable := hleaving.retirable hplan
  obtain ⟨⟨⟩, hrecord, hok⟩ := Durable.bind_result_ok hok
  have hrecordable : p.writeDeployment = true →
      encodeNew host (.tenantDeployment documents.tenantId documents.deployment.id)
          (.deploymentRecord documents.deployment) = .ok () ∧
        hasParent s (.deployment documents.tenantId documents.deployment.id) = true := by
    intro hwrite
    rw [hwrite] at hrecord
    obtain ⟨r, hcreated, -⟩ := Durable.bind_result_ok hrecord
    obtain ⟨hencode, hparent, -⟩ := createImmutable_ok hcreated
    exact ⟨hencode, hparent⟩
  rw [(record_performs hadmitted.toDeploymentFound hplan hrecordable).state] at hok
  have hstates := recorded_states hadmitted.states
  obtain ⟨hfit, hok⟩ := hstates.of_ok hadmitted.desired_of_not_write
    hadmitted.observed_of_not_write hok
  -- the records that leave and their releases are as before the transition
  have hplace : ∀ (place : Place), (∀ p', place ≠ .file p') → place.Same
      (settleAll (stepsOf host (stateSteps documents.toTransitionPlan))
        (settleAll (stepsOf host (recordSteps documents)) s)) s := fun place hp => by
    have hsame := (@transitionSteps_same host documents s place) (hp _) (hp _) (hp _)
    cases place <;> exact hsame.symm
  have hread : ∀ r ∈ p.retired, readDeployment host documents.tenantId r.id
      (settleAll (stepsOf host (stateSteps documents.toTransitionPlan))
        (settleAll (stepsOf host (recordSteps documents)) s)) = .ok r := by
    intro r hr
    rw [← hleaving.stored r hr]
    exact readDeployment_same ((@transitionSteps_same _ _ _
      (.file (.deployment documents.tenantId r.id)))
      (by simpa using hretirable.other r hr) (by simp) (by simp))
  have hall : p.retired.filter (fun _ => true) = p.retired :=
    List.filter_eq_self.2 fun _ _ => rfl
  obtain ⟨authorities, hreleases, hok⟩ := Durable.bind_result_ok hok
  have hremovable := removable_of_ok hretirable hread hreleases
  have hreleased' := (@releases_performs host documents p.retired (fun _ => true) _) hretirable
    (fun r hr _ => ⟨hread r hr, hremovable r hr⟩) (fun r _ hfalse => by cases hfalse)
  rw [hall] at hreleased'
  obtain rfl := Except.ok.inj (hreleased'.result.symm.trans hreleases)
  rw [hreleased'.state] at hok
  obtain ⟨⟨⟩, hforgets, hok⟩ := Durable.bind_result_ok hok
  have hforgotten := (@forgets_performs host documents p.retired (fun _ => true) (settleAll
      (stepsOf host (p.retired.flatMap (releaseSteps documents.tenantId)))
        (settleAll (stepsOf host (stateSteps documents.toTransitionPlan))
          (settleAll (stepsOf host (recordSteps documents)) s)))) hretirable
    (fun r hr _ => by rw [readDeployment_same (releaseSteps_file _ _)]; exact hread r hr)
    (fun r _ hfalse => by cases hfalse)
  rw [hall] at hforgotten
  rw [hforgotten.state, ← deploymentBefore_settle] at hok
  obtain ⟨⟨⟩, haudit, hok⟩ := Durable.bind_result_ok hok
  obtain ⟨happendable, happend⟩ := ensureAudit_ok haudit
  rw [(ensureAudit_performs happendable happend).state, ← settleAll_append, ← stepsOf_append] at hok
  have havoid := deploymentBefore_avoid documents job p.retired
  have hmissing : p.resultMissing = (s.find? (.result job.jobId)).isNone :=
    missingExact_value hadmitted.resultMissing
  have hresultSame := (@settleAll_closingFiles host _ s) havoid (closingFiles_result job)
  have hjobSame := (@settleAll_closingFiles host _ s) havoid (closingFiles_job job)
  obtain ⟨-, hstored⟩ := requireSameJob_stored hsame
  obtain ⟨hresult, hjob⟩ := closing_ok hok (by rw [hmissing, hresultSame]) (by
    rw [readJob_eq_ok, hjobSame]
    exact readJob_eq_ok.1 hstored)
  obtain ⟨-, -, rfl⟩ := requireExactIntent_eq_ok.1 hexact
  rw [deploymentBefore_audit] at happendable
  refine ⟨⟨hsame, hexact, ⟨p, ids, auditMissing, hadmitted⟩, hreleased, fun hcreates habsent => ?_,
    hfit, fun retired hother r hr => ?_, happendable, hresult.along (Or.inr hresultSame.symm),
      ⟨hstored, hjob.completes⟩⟩, p.retired, hleaving, happend⟩
  · refine hrecordable ?_
    rw [hadmitted.writeDeployment, hcreates, Bool.true_and, decide_eq_true_eq, hadmitted.ids_eq]
    exact Listing.not_mem_ids.2 habsent
  · rw [← hleaving.unique hother] at hr
    exact (hremovable r hr).same (hplace (.release ⟨_, _, none⟩) fun _ => by simp)
      (hplace (.release ⟨_, _, some _⟩) fun _ => by simp)

end Ready

end StaticHostAgent.Commit
