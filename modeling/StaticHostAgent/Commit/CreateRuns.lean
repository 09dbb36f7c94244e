import StaticHostAgent.Commit.Create
import StaticHostAgent.Commit.TenantStates

/-!
# Crashes of the create commit

`CreateReady` is what a state must offer for a create to go through. A later run measures the
inventory again, also when nothing is left to be admitted, so the create converges exactly while the
inventory stays within its ceilings (`InventoryKept`).
-/

set_option autoImplicit false

namespace StaticHostAgent.Commit

open Library Contracts Host Audit State

variable {host : StateHost} {limits : HostCapacityLimits}

/-- The durable steps of a create before its result. -/
def createBefore (plan : TransitionPlan) : List CommitStep :=
  namespaceSteps plan.tenantId ++ (stateSteps plan ++ [.append plan.auditEntry])

/-- The durable steps of a create, in order. -/
def createSteps (plan : TransitionPlan) (job : AuthorizationJob) : List CommitStep :=
  createBefore plan ++ closingSteps job plan.result plan.intentId

theorem createSteps_separate (plan : TransitionPlan) (job : AuthorizationJob) :
    Separate host (createSteps plan job) := by
  simp [Separate, createSteps, createBefore, namespaceSteps, stateSteps, closingSteps,
    CommitStep.observes, CommitStep.touches]

theorem createSteps_only (plan : TransitionPlan) (job : AuthorizationJob) :
    ∀ e ∈ createSteps plan job, appendsOnly plan.auditEntry e = true := by
  simp [createSteps, createBefore, namespaceSteps, stateSteps, closingSteps, appendsOnly]

theorem createBefore_avoid (plan : TransitionPlan) (job : AuthorizationJob) :
    ∀ e ∈ createBefore plan, avoidsClosing job e = true := by
  simp [createBefore, namespaceSteps, stateSteps, avoidsClosing, closingFiles]

theorem createSteps_jobNow (plan : TransitionPlan) (job : AuthorizationJob) (s : Store) :
    createSteps plan (jobNow job s) = createSteps plan job := by
  unfold createSteps
  rw [closingSteps_jobNow]

/-! ## Admission -/

/-- What the admission of a create finds missing. -/
structure CreateFound (host : StateHost) (job : AuthorizationJob) (plan : TransitionPlan)
    (s : Store) (missing : MissingState) (auditMissing : Bool) : Prop where
  desired : missingExact host "existing create terminal state disagrees"
    (.tenantDesired plan.tenantId) (.site plan.manifest) s = .ok missing.desired
  observed : missingExact host "existing create terminal state disagrees"
    (.tenantObserved plan.tenantId) (.tenantObservedState plan.observedState) s =
      .ok missing.observed
  result : missingExact host "existing create terminal state disagrees"
    (.authorizationResult job.jobId) (.operationResult plan.result) s = .ok missing.result
  audit : inspectNeedsAppend host .create plan.auditEntry s = .ok auditMissing

/-- The bytes that the remaining writes and directories reserve. -/
def createBytes (host : StateHost) (job : AuthorizationJob) (plan : TransitionPlan) (s : Store)
    (missing : MissingState) (auditMissing : Bool) : Nat :=
  reservedBytes host (createWrites job plan missing) auditMissing +
    host.allocation.namespaceAllocationUpperBound
      (pendingSum host CommitStep.inodes (namespaceSteps plan.tenantId) s)

def createInodes (host : StateHost) (job : AuthorizationJob) (plan : TransitionPlan) (s : Store)
    (missing : MissingState) (auditMissing : Bool) : Nat :=
  reservedInodes (createWrites job plan missing) auditMissing +
    pendingSum host CommitStep.inodes (namespaceSteps plan.tenantId) s

/-- What the admission of a create admits. -/
structure CreateAdmitted (host : StateHost) (limits : HostCapacityLimits) (job : AuthorizationJob)
    (plan : TransitionPlan) (s : Store) (missing : MissingState) (auditMissing : Bool) : Prop
    extends CreateFound host job plan s missing auditMissing where
  authorized : ∃ intent, requireCreateIntent host plan.tenantId s = .ok intent
  measured : measureInventory host s = .ok (inventoryOf host s)
  bounded : FlaggedBounded host (createWrites job plan missing)
  fits : createInodes host job plan s missing auditMissing = 0 ∨
    (admitStateInventory (inventoryOf host s)
        (createGrowth host plan (s.tenants.find? plan.tenantId).isNone missing.result) = .ok () ∧
      Admits limits ⟨createBytes host job plan s missing auditMissing,
        createInodes host job plan s missing auditMissing⟩ (host.capacity s))

/-- The directories are reserved beside the remaining writes. -/
theorem createReservation_eq {writes : List Document} {directories : Nat} {auditMissing : Bool} :
    createReservation host writes directories auditMissing =
      (remainingReservation host writes auditMissing >>= fun reservation =>
        pure ⟨reservation.allocatedBytes +
            host.allocation.namespaceAllocationUpperBound directories,
          reservation.uniqueInodes + directories⟩) := by
  unfold createReservation remainingReservation
  simp only [bind_assoc, pure_bind, Allocation.namespaceAllocationUpperBound_add, Nat.add_assoc,
    Nat.add_comm, Nat.add_left_comm]

theorem createReservation_eq_ok {job : AuthorizationJob} {plan : TransitionPlan}
    {missing : MissingState} {auditMissing : Bool} {s : Store}
    {reservation : CapacityReservation} :
    createReservation host (flagged (createWrites job plan missing))
        (pendingSum host CommitStep.inodes (namespaceSteps plan.tenantId) s) auditMissing =
        .ok reservation ↔
      FlaggedBounded host (createWrites job plan missing) ∧
        reservation = ⟨createBytes host job plan s missing auditMissing,
          createInodes host job plan s missing auditMissing⟩ := by
  rw [createReservation_eq, bind_eq_ok]
  simp only [remainingReservation_flagged_eq_ok, pure_eq_ok]
  constructor
  · rintro ⟨-, ⟨hbounded, rfl⟩, rfl⟩
    exact ⟨hbounded, rfl⟩
  · rintro ⟨hbounded, rfl⟩
    exact ⟨_, ⟨hbounded, rfl⟩, rfl⟩

theorem tenantMissing_eq (t : Uuid7) (s : Store) :
    decide (t ∉ (inventoryOf host s).tenantIds) = (s.tenants.find? t).isNone := by
  show decide (t ∉ s.tenants.keys) = _
  rw [decide_not, ← Option.not_isSome]
  cases hfind : (s.tenants.find? t).isSome with
  | true => simp [Directory.mem_keys.2 hfind]
  | false =>
      have hmem : t ∉ s.tenants.keys := fun h => by
        rw [Directory.mem_keys.1 h] at hfind
        cases hfind
      simp [hmem]

theorem admitMissingState_eq_ok {job : AuthorizationJob} {plan : TransitionPlan} {s : Store}
    {missing : MissingState} :
    admitMissingState host limits job plan s = .ok missing ↔
      ∃ auditMissing, CreateAdmitted host limits job plan s missing auditMissing := by
  unfold admitMissingState
  simp only [bind_eq_ok, require_eq_ok, decide_eq_true_eq]
  constructor
  · rintro ⟨desired, hdesired, observed, hobserved, result, hresult, audit, haudit, inventory,
      hmeasured, directories, hgrowth, ⟨⟩, -, reservation, hreservation, h⟩
    obtain ⟨rfl, -⟩ := measureInventory_value hmeasured
    obtain ⟨hauthorized, rfl⟩ := measureGrowth_eq_ok.1 hgrowth
    obtain ⟨hbounded, rfl⟩ := createReservation_eq_ok.1 hreservation
    rw [tenantMissing_eq] at h
    by_cases hzero : createInodes host job plan s ⟨desired, observed, result⟩ audit = 0
    · simp only [hzero, if_true, pure_eq_ok] at h
      exact ⟨audit, h ▸ ⟨⟨hdesired, hobserved, hresult, haudit⟩, hauthorized, hmeasured, hbounded,
        Or.inl hzero⟩⟩
    · simp only [hzero, if_false, bind_eq_ok, admitInventory_eq_ok, admitReleaseCapacity_eq_ok,
        pure_eq_ok] at h
      obtain ⟨⟨⟩, ⟨inventory, hinventory, hadmitted⟩, ⟨⟩, hcapacity, rfl⟩ := h
      obtain rfl : inventoryOf host s = inventory := Except.ok.inj (hmeasured.symm.trans hinventory)
      exact ⟨audit, ⟨⟨hdesired, hobserved, hresult, haudit⟩, hauthorized, hmeasured, hbounded,
        Or.inr ⟨hadmitted, hcapacity⟩⟩⟩
  · rintro ⟨audit, h⟩
    refine ⟨_, h.desired, _, h.observed, _, h.result, audit, h.audit, _, h.measured, _,
      measureGrowth_eq_ok.2 ⟨h.authorized, rfl⟩, (), ?_, _,
      createReservation_eq_ok.2 ⟨h.bounded, rfl⟩, ?_⟩
    · rw [tenantMissing_eq]
      simp only [growth_eq_three]
      rw [Bool.eq_iff_iff]
      simp
    · rw [tenantMissing_eq]
      rcases h.fits with hzero | ⟨hadmitted, hcapacity⟩
      · simp only [hzero, if_true]
        rfl
      · by_cases hzero : createInodes host job plan s missing audit = 0
        · simp only [hzero, if_true]
          rfl
        · simp only [hzero, if_false, bind_eq_ok, admitInventory_eq_ok, admitReleaseCapacity_eq_ok,
            pure_eq_ok]
          exact ⟨(), ⟨_, h.measured, hadmitted⟩, (), hcapacity, trivial⟩

/-! ## The state of the tenant -/

/-- The planned states may be created. -/
structure StatesCreatable (host : StateHost) (plan : TransitionPlan) : Prop where
  desired : encodeNew host (.tenantDesired plan.tenantId) (.site plan.manifest) = .ok ()
  observed : encodeNew host (.tenantObserved plan.tenantId)
    (.tenantObservedState plan.observedState) = .ok ()

theorem StatesCreatable.fit {plan : TransitionPlan} (h : StatesCreatable host plan) :
    StatesFit host plan := ⟨encodeNew_fits h.desired, encodeNew_fits h.observed⟩

/-- A record is missing or exact. -/
def MissingOrExact (host : StateHost) (record : StateRecordPath) (d : Document) (s : Store) :
    Prop :=
  s.find? record.components = none ∨ readLocked host record s = .ok d

theorem missingOrExact_of_missing {message : String} {record : StateRecordPath} {d : Document}
    {s : Store} {missing : Bool} (h : missingExact host message record d s = .ok missing) :
    MissingOrExact host record d s :=
  (missingExact_eq_ok.1 h).imp And.left And.left

theorem MissingOrExact.missing {message : String} {record : StateRecordPath} {d : Document}
    {s : Store} (h : MissingOrExact host record d s) :
    missingExact host message record d s = .ok (s.find? record.components).isNone := by
  rw [missingExact_eq_ok]
  rcases h with hnone | hread
  · exact Or.inl ⟨hnone, by rw [hnone]; rfl⟩
  · exact Or.inr ⟨hread, by rw [(readLocked_eq_ok.1 hread).1]; rfl⟩

theorem MissingOrExact.pending {record : StateRecordPath} {d : Document} {s : Store}
    (h : MissingOrExact host record d s) :
    CommitStep.pending host (.put record.components d) s = (s.find? record.components).isNone := by
  show decide (s.find? record.components ≠ _) = _
  rcases h with hnone | hread
  · rw [hnone]
    simp
  · rw [(readLocked_eq_ok.1 hread).1]
    simp

theorem MissingOrExact.along {record : StateRecordPath} {d : Document} {s₀ s : Store}
    (h : MissingOrExact host record d s₀) (hfits : record.Fits host.encoding d)
    (hs : s.find? record.components = some d ∨
      s.find? record.components = s₀.find? record.components) : MissingOrExact host record d s := by
  rcases hs with hs | hs
  · exact Or.inr (readLocked_eq_ok.2 ⟨hs, hfits⟩)
  · rcases h with hnone | hread
    · exact Or.inl (hs.trans hnone)
    · right
      rw [readLocked_same hs]
      exact hread

/-- What making the state of a tenant needs. -/
structure CreatableState (host : StateHost) (plan : TransitionPlan) (s : Store) : Prop where
  authorized : ∃ intent, requireCreateIntent host plan.tenantId s = .ok intent ∧
    requireCreateAuthority host intent plan.manifest plan.observedState = .ok ()
  identity : admitCreateTenantIdentity host plan.tenantId s = .ok ()
  history : NoHistory plan.tenantId s
  creatable : StatesCreatable host plan
  desired : MissingOrExact host (.tenantDesired plan.tenantId) (.site plan.manifest) s
  observed : MissingOrExact host (.tenantObserved plan.tenantId)
    (.tenantObservedState plan.observedState) s

variable (host) in
theorem namespaceSteps_find? (t : Uuid7) (s : Store) (p : FilePath) :
    (settleAll (stepsOf host (namespaceSteps t)) s).find? p = s.find? p :=
  (@CommitStep.settleAll_same _ _ _ (.file p)) (by simp [namespaceSteps, CommitStep.touches])

theorem CreatableState.performs {plan : TransitionPlan} {s : Store}
    (h : CreatableState host plan s) :
    Performs (ensureCreateTenantState host plan.tenantId plan.manifest plan.observedState)
      (stepsOf host (namespaceSteps plan.tenantId ++ stateSteps plan)) s () := by
  obtain ⟨intent, hintent, hauthority⟩ := h.authorized
  have hcomplete := namespace_complete host (t := plan.tenantId) s
  have hfind := namespaceSteps_find? host plan.tenantId s
  have hempty : requireEmptyCreateNamespace plan.tenantId
      (settleAll (stepsOf host (namespaceSteps plan.tenantId)) s) = .ok () :=
    requireEmptyCreateNamespace_eq_ok.2
      ⟨hcomplete, h.history.same fun d => ⟨hfind _, hfind _⟩⟩
  refine Performs.query_bind hintent (Performs.query_bind (a := ()) hauthority ?_)
  rw [stepsOf_append]
  refine (ensureCreateTenantNamespace_performs hintent h.identity).bind
    (Performs.query_bind (a := ()) hempty ?_)
  -- the files are as before the namespace, and the directory is there
  have hdesired : MissingOrExact host (.tenantDesired plan.tenantId) (.site plan.manifest)
      (settleAll (stepsOf host (namespaceSteps plan.tenantId)) s) :=
    h.desired.along h.creatable.fit.desired (Or.inr (hfind _))
  have hobserved : MissingOrExact host (.tenantObserved plan.tenantId)
      (.tenantObservedState plan.observedState)
      (settleAll (stepsOf host [.put (.desired plan.tenantId) (.site plan.manifest)])
        (settleAll (stepsOf host (namespaceSteps plan.tenantId)) s)) := by
    refine h.observed.along h.creatable.fit.observed (Or.inr ((Eq.trans ?_ (hfind _))))
    exact (@CommitStep.settleAll_same _ _ _ (.file (.observed plan.tenantId)))
      (by simp [CommitStep.touches])
  have hparent : ((settleAll (stepsOf host (namespaceSteps plan.tenantId)) s).tenants.find?
      plan.tenantId).isSome = true := by rw [hcomplete]; rfl
  have hparent' : ((settleAll
      (stepsOf host [.put (.desired plan.tenantId) (.site plan.manifest)])
      (settleAll (stepsOf host (namespaceSteps plan.tenantId)) s)).tenants.find?
        plan.tenantId).isSome = true := by
    rw [← hparent]
    exact (@CommitStep.settleAll_same _ _ _ (.tenant plan.tenantId)) (by simp [CommitStep.touches])
  refine ((@ensureImmutableExact_performs _ _ (.tenantDesired plan.tenantId)) h.creatable.desired
    hparent hdesired).bind ?_
  exact ((@ensureImmutableExact_performs _ _ (.tenantObserved plan.tenantId)) h.creatable.observed
    hparent' hobserved).dropped

/-- A state that was made for a tenant could be made. -/
theorem creatableState_of_ok {plan : TransitionPlan} {s : Store} {u : Unit}
    (h : (ensureCreateTenantState host plan.tenantId plan.manifest plan.observedState s).result =
      .ok u)
    (hdesired : MissingOrExact host (.tenantDesired plan.tenantId) (.site plan.manifest) s)
    (hobserved : MissingOrExact host (.tenantObserved plan.tenantId)
      (.tenantObservedState plan.observedState) s) : CreatableState host plan s := by
  obtain ⟨intent, hintent, h⟩ := Durable.query_bind_result_ok h
  obtain ⟨⟨⟩, hauthority, h⟩ := Durable.query_bind_result_ok h
  obtain ⟨⟨⟩, hnamespace, h⟩ := Durable.bind_result_ok h
  have hidentity := ensureCreateTenantNamespace_ok hnamespace
  rw [(ensureCreateTenantNamespace_performs hintent hidentity).state] at h
  obtain ⟨⟨⟩, hempty, h⟩ := Durable.query_bind_result_ok h
  obtain ⟨r, hmadeDesired, h⟩ := Durable.bind_result_ok h
  obtain ⟨r', hmadeObserved, -⟩ := Durable.bind_result_ok h
  have hfind := namespaceSteps_find? host plan.tenantId s
  refine ⟨⟨intent, hintent, hauthority⟩, hidentity, ?_,
    ⟨ensureImmutableExact_ok hmadeDesired, ensureImmutableExact_ok hmadeObserved⟩, hdesired,
    hobserved⟩
  exact (requireEmptyCreateNamespace_eq_ok.1 hempty).2.same
    fun d => ⟨(hfind _).symm, (hfind _).symm⟩

/-! ## Readiness -/

/-- A state in which a create goes through. -/
structure CreateReady (host : StateHost) (limits : HostCapacityLimits) (expected : AuthorizationJob)
    (plan : TransitionPlan) (job : AuthorizationJob) (s : Store) : Prop where
  same : createSameJob host expected s = .ok job
  exact : createExactIntent host plan s = .ok (exactRemoval host plan.intentId plan.intent)
  admitted : ∃ missing auditMissing, CreateAdmitted host limits job plan s missing auditMissing
  state : CreatableState host plan s
  appendable : Appendable host plan.auditEntry s.audit
  resultReady : ResultReady host job plan.result s
  jobReady : JobReady host job s

section Ready

variable {expected job : AuthorizationJob} {plan : TransitionPlan} {s₀ s : Store}

/-- The steps of a create up to its append. -/
theorem createSteps_split (plan : TransitionPlan) (job : AuthorizationJob) :
    createSteps plan job = (namespaceSteps plan.tenantId ++ stateSteps plan) ++
      .append plan.auditEntry :: closingSteps job plan.result plan.intentId := by
  simp [createSteps, createBefore]

theorem createStates_audit (plan : TransitionPlan) (s : Store) :
    (settleAll (stepsOf host (namespaceSteps plan.tenantId ++ stateSteps plan)) s).audit =
      s.audit :=
  (@CommitStep.settleAll_same _ _ _ .audit)
    (by simp [namespaceSteps, stateSteps, CommitStep.touches])

theorem createStates_avoid (plan : TransitionPlan) (job : AuthorizationJob) :
    ∀ e ∈ namespaceSteps plan.tenantId ++ stateSteps plan, avoidsClosing job e = true := by
  simp [namespaceSteps, stateSteps, avoidsClosing, closingFiles]

theorem CreateReady.performs (h : CreateReady host limits expected plan job s)
    (happend : AppendAdmitted host plan.auditEntry
      (namespaceSteps plan.tenantId ++ stateSteps plan) s) :
    ∃ o : CommitOutcome, o.result = plan.result ∧
      Performs (commitCreate host limits job plan) (stepsOf host (createSteps plan job)) s o := by
  obtain ⟨missing, auditMissing, hadmitted⟩ := h.admitted
  obtain ⟨hmeasured, ⟨hintent, hfits⟩, -⟩ := requireExactIntent_eq_ok.1 h.exact
  have hclosing : ClosingReady host job plan.result plan.intentId plan.intent s :=
    ⟨h.resultReady, h.jobReady, reconciled_of_exact hmeasured hintent hfits⟩
  refine ⟨⟨plan.result, missing.result⟩, rfl, ?_⟩
  unfold commitCreate
  refine Performs.query_bind h.exact
    (Performs.query_bind (admitMissingState_eq_ok.2 ⟨auditMissing, hadmitted⟩) ?_)
  rw [createSteps_split, stepsOf_append]
  refine h.state.performs.bind ?_
  refine (@Performs.bind _ _ _ _ _ _ (stepsOf host [.append plan.auditEntry]))
    (ensureAudit_performs (by rw [createStates_audit]; exact h.appendable) happend) ?_
  have hstates := createStates_avoid plan job
  have happended : ∀ e ∈ [CommitStep.append plan.auditEntry], avoidsClosing job e = true := by
    simp [avoidsClosing]
  refine closing_performs _ ((hclosing.settle hstates).settle happended) ?_
  rw [missingExact_value hadmitted.result,
    settleAll_closingFiles happended (closingFiles_result job),
    settleAll_closingFiles hstates (closingFiles_result job)]
  rfl

/-- A run that went through with its intent had what it needs. -/
theorem createReady_of_ok {o : CommitOutcome} (hsame : createSameJob host expected s = .ok job)
    (hok : (commitCreate host limits job plan s).result = .ok o) :
    CreateReady host limits expected plan job s ∧ AppendAdmitted host plan.auditEntry
      (namespaceSteps plan.tenantId ++ stateSteps plan) s := by
  obtain ⟨removal, hexact, hok⟩ := Durable.query_bind_result_ok hok
  obtain ⟨missing, hadmission, hok⟩ := Durable.query_bind_result_ok hok
  obtain ⟨auditMissing, hadmitted⟩ := admitMissingState_eq_ok.1 hadmission
  obtain ⟨⟨⟩, hstate, hok⟩ := Durable.bind_result_ok hok
  have hcreatable := creatableState_of_ok hstate (missingOrExact_of_missing hadmitted.desired)
    (missingOrExact_of_missing hadmitted.observed)
  rw [hcreatable.performs.state] at hok
  obtain ⟨⟨⟩, haudit, hok⟩ := Durable.bind_result_ok hok
  obtain ⟨happendable, happend⟩ := ensureAudit_ok haudit
  rw [(ensureAudit_performs happendable happend).state] at hok
  rw [createStates_audit] at happendable
  have hstates := createStates_avoid plan job
  have happended : ∀ e ∈ [CommitStep.append plan.auditEntry], avoidsClosing job e = true := by
    simp [avoidsClosing]
  have hresultSame := ((@settleAll_closingFiles host _ (settleAll (stepsOf host
    (namespaceSteps plan.tenantId ++ stateSteps plan)) s)) happended (closingFiles_result job)).trans
      (settleAll_closingFiles hstates (closingFiles_result job))
  have hjobSame := ((@settleAll_closingFiles host _ (settleAll (stepsOf host
    (namespaceSteps plan.tenantId ++ stateSteps plan)) s)) happended (closingFiles_job job)).trans
      (settleAll_closingFiles hstates (closingFiles_job job))
  obtain ⟨-, hread⟩ := requireSameJob_stored hsame
  obtain ⟨hresult, hjob⟩ := closing_ok hok
    (by rw [missingExact_value hadmitted.result, hresultSame]; rfl) (by
    rw [readJob_eq_ok, hjobSame]
    exact readJob_eq_ok.1 hread)
  obtain ⟨-, -, rfl⟩ := requireExactIntent_eq_ok.1 hexact
  exact ⟨⟨hsame, hexact, ⟨missing, auditMissing, hadmitted⟩, hcreatable, happendable,
    hresult.along (Or.inr hresultSame.symm), ⟨hread, hjob.completes⟩⟩, happend⟩

/-! ## What remains to be reserved -/

theorem namespace_reserved (t : Uuid7) (s : Store) :
    pendingSum host (CommitStep.bytes host) (namespaceSteps t) s =
      host.allocation.namespaceAllocationUpperBound
        (pendingSum host CommitStep.inodes (namespaceSteps t) s) := by
  have hcount : ∀ b : Bool, (if b then host.allocation.namespaceAllocationUpperBound 1 else 0) =
      host.allocation.namespaceAllocationUpperBound (if b then 1 else 0) := by
    intro b
    cases b with
    | true => rfl
    | false => simp [Allocation.namespaceAllocationUpperBound]
  unfold namespaceSteps
  simp only [pendingSum_cons, CommitStep.bytes, CommitStep.inodes, hcount]
  simp [pendingSum, Allocation.namespaceAllocationUpperBound_add]

/-- The remaining writes are the pending steps after the namespace. -/
theorem CreateFound.reserved {missing : MissingState} {auditMissing : Bool}
    (h : CreateFound host job plan s missing auditMissing)
    (hresult : ResultReady host job plan.result s) (hjob : JobReady host job s)
    (hphase : job.phase ∈ [JobPhase.claimed, .completed]) {weight : CommitStep → Nat}
    (hremove : ∀ p, weight (.remove p) = 0) :
    ((if missing.desired then weight (.put (.desired plan.tenantId) (.site plan.manifest)) else 0) +
      ((if missing.observed then weight (.put (.observed plan.tenantId)
          (.tenantObservedState plan.observedState)) else 0) +
      ((if missing.result then weight (.put (.result job.jobId)
          (.operationResult plan.result)) else 0) +
      (if job.phase = .claimed then weight (.put (.job job.jobId)
          (.authorizationJob (completedJob job))) else 0)))) +
      (if auditMissing then weight (.append plan.auditEntry) else 0) +
        pendingSum host weight (namespaceSteps plan.tenantId) s =
          pendingSum host weight (createSteps plan job) s := by
  have hmissing : missing.result = (s.find? (.result job.jobId)).isNone :=
    missingExact_value h.result
  have haudit : auditMissing = CommitStep.pending host (.append plan.auditEntry) s :=
    inspectNeedsAppend_value h.audit
  have hdesired := (missingOrExact_of_missing h.desired).pending
  have hobserved := (missingOrExact_of_missing h.observed).pending
  rw [← missingExact_value h.desired] at hdesired
  rw [← missingExact_value h.observed] at hobserved
  rw [createSteps_split, pendingSum_append, pendingSum_append, pendingSum_cons,
    closing_reserved hresult hjob hphase hremove]
  unfold stateSteps
  rw [pendingSum_cons, pendingSum_cons, hmissing, haudit, ← hdesired, ← hobserved]
  simp only [pendingSum, List.map_nil, List.sum_nil]
  show _ + _ = _
  have hd : CommitStep.pending host (.put (StateRecordPath.tenantDesired plan.tenantId).components
      (.site plan.manifest)) s = CommitStep.pending host (.put (.desired plan.tenantId)
        (.site plan.manifest)) s := rfl
  have ho : CommitStep.pending host (.put (StateRecordPath.tenantObserved plan.tenantId).components
      (.tenantObservedState plan.observedState)) s = CommitStep.pending host
        (.put (.observed plan.tenantId) (.tenantObservedState plan.observedState)) s := rfl
  rw [hd, ho]
  omega

theorem CreateFound.reservedBytes_eq {missing : MissingState} {auditMissing : Bool}
    (h : CreateFound host job plan s missing auditMissing)
    (hresult : ResultReady host job plan.result s) (hjob : JobReady host job s)
    (hphase : job.phase ∈ [JobPhase.claimed, .completed]) :
    createBytes host job plan s missing auditMissing =
      pendingSum host (CommitStep.bytes host) (createSteps plan job) s := by
  rw [← h.reserved hresult hjob hphase fun _ => rfl]
  unfold createBytes
  rw [namespace_reserved]
  simp [reservedBytes, createWrites, flaggedBytes, CommitStep.bytes]

theorem CreateFound.reservedInodes_eq {missing : MissingState} {auditMissing : Bool}
    (h : CreateFound host job plan s missing auditMissing)
    (hresult : ResultReady host job plan.result s) (hjob : JobReady host job s)
    (hphase : job.phase ∈ [JobPhase.claimed, .completed]) :
    createInodes host job plan s missing auditMissing =
      pendingSum host CommitStep.inodes (createSteps plan job) s := by
  rw [← h.reserved hresult hjob hphase fun _ => rfl]
  simp [createInodes, reservedInodes, createWrites, CommitStep.inodes,
    toNat_eq_ite]

end Ready

end StaticHostAgent.Commit
