import StaticHostAgent.Commit.SharedFacts

/-!
# The steps the parts of the terminal commits perform

Every shared write performs one step (`_performs`), and a write that succeeded had what it needs
(`_ok`). `Appendable` is the invariant of the audit chain under a commit: it ends with the entry, or
a verified plan appends it. `HeadroomKept` says that the append stays admitted on the way, which the
other writes of the commit may use up.
-/

set_option autoImplicit false

namespace StaticHostAgent.Commit

open Library Contracts Host Audit State

variable {host : StateHost} {path : CommitPath} {job : AuthorizationJob}
  {entry : AuditEntry} {s : Store}

/-! ## The audit chain -/

/-- The chain ends with the entry, or a verified plan for some filesystem appends it. -/
def Appendable (host : StateHost) (entry : AuditEntry) (a : AuditStore) : Prop :=
  ∃ state, inspectAudit host.toAuditHost defaultAuditLimits a = .ok state ∧
    ((state.entryCount = entry.sequence + 1 ∧
        state.terminalDigest = some (auditEntryDigest host.encoding entry)) ∨
      (state.entryCount = entry.sequence ∧ entry.previousEntryDigest = state.terminalDigest ∧
        ∃ capacity plan appended,
          planAppend host.toAuditHost defaultAuditLimits capacity entry false a = .ok plan ∧
            verifyAppend host.toAuditHost defaultAuditLimits entry false (a.write plan) =
              .ok appended))

theorem Appendable.needsAppend (h : Appendable host entry s.audit) :
    inspectNeedsAppend host path entry s = .ok (auditMissing host entry s) := by
  obtain ⟨state, hinspect, hstate⟩ := h
  have hneeds : ∃ missing, inspectNeedsAppend host path entry s = .ok missing := by
    rcases hstate with hended | ⟨hcount, hprevious, -⟩
    · exact ⟨false, inspectNeedsAppend_eq_ok.2 ⟨state, hinspect,
        auditNeedsAppend_eq_ok.2 (Or.inr ⟨hended, rfl⟩)⟩⟩
    · exact ⟨true, inspectNeedsAppend_eq_ok.2 ⟨state, hinspect,
        auditNeedsAppend_eq_ok.2 (Or.inl ⟨⟨hcount, hprevious⟩, rfl⟩)⟩⟩
  obtain ⟨missing, hmissing⟩ := hneeds
  rw [hmissing, inspectNeedsAppend_value hmissing]

/-- Any plan for the entry is the verified one, and writing it ends the chain with the entry. -/
theorem Appendable.write {a : AuditStore} {capacity : FilesystemCapacity} {plan : AuditAppendPlan}
    (h : Appendable host entry a)
    (hplan : planAppend host.toAuditHost defaultAuditLimits capacity entry false a = .ok plan) :
    ∃ appended,
      verifyAppend host.toAuditHost defaultAuditLimits entry false (a.write plan) =
          .ok appended ∧
        inspectAudit host.toAuditHost defaultAuditLimits (a.write plan) = .ok appended.state ∧
          appended.state.entryCount = entry.sequence + 1 ∧
            appended.state.terminalDigest = some (auditEntryDigest host.encoding entry) := by
  obtain ⟨state, hinspect, hstate⟩ := h
  obtain ⟨hplanned, hcount, -⟩ := inspectAudit_of_plan hplan
  have hsame : state = plan.state := Except.ok.inj (hinspect.symm.trans hplanned)
  rcases hstate with ⟨hended, -⟩ | ⟨-, -, capacity', plan', appended, hplan', hverify⟩
  · rw [hsame] at hended
    omega
  · rw [planAppend_unique hplan hplan'] at hverify
    exact ⟨appended, hverify, verifyAppend_position hplan hverify⟩

theorem Appendable.written {a : AuditStore} {capacity : FilesystemCapacity} {plan : AuditAppendPlan}
    (h : Appendable host entry a)
    (hplan : planAppend host.toAuditHost defaultAuditLimits capacity entry false a = .ok plan) :
    Appendable host entry (a.write plan) := by
  obtain ⟨appended, -, hinspect, hended⟩ := h.write hplan
  exact ⟨appended.state, hinspect, Or.inl hended⟩

/-- A step appends no other entry. -/
def appendsOnly (entry : AuditEntry) : CommitStep → Bool
  | .append x => decide (x = entry)
  | _ => true

/-- No step of the commit makes the chain unable to end with the entry. -/
theorem Appendable.apply {e : CommitStep} (h : Appendable host entry s.audit)
    (he : appendsOnly entry e = true) :
    Appendable host entry (e.apply host s).audit := by
  cases e with
  | append x =>
      obtain rfl : x = entry := of_decide_eq_true he
      simp only [CommitStep.apply, CommitStep.appended]
      split
      · rename_i plan hplan
        exact h.written hplan
      · exact h
  | makeChild t c =>
      simp only [CommitStep.apply]
      split <;> exact h
  | _ => exact h

theorem Appendable.settleAll {steps : List CommitStep} (h : Appendable host entry s.audit)
    (honly : ∀ e ∈ steps, appendsOnly entry e = true) :
    Appendable host entry (settleAll (stepsOf host steps) s).audit := by
  refine settleAll_invariant (P := fun u : Store => Appendable host entry u.audit)
    (fun e he u hu => ?_) h
  obtain ⟨c, hc, rfl⟩ := List.mem_map.1 he
  exact Appendable.apply hu (honly c hc)

theorem Appendable.along {steps : List CommitStep} {s₀ s : Store} (h : OnTheWay host steps s₀ s)
    (honly : ∀ e ∈ steps, appendsOnly entry e = true)
    (hstart : Appendable host entry s₀.audit) : Appendable host entry s.audit := by
  obtain ⟨pre, post, rfl, rfl, -⟩ := onTheWay_cases h
  exact hstart.settleAll fun e he => honly e (List.mem_append_left _ he)

theorem admitMissingAudit_eq_ok {u : Unit} :
    admitMissingAudit host entry s = .ok u ↔
      ∃ plan, planAppend host.toAuditHost defaultAuditLimits (host.capacity s) entry false
        s.audit = .ok plan := by
  unfold admitMissingAudit admitStateAuditAppend admitAuditAppend
  simp only [bind_eq_ok, pure_eq_ok]
  constructor
  · rintro ⟨-, ⟨plan, hplan, -⟩, -⟩
    exact ⟨plan, hplan⟩
  · rintro ⟨plan, hplan⟩
    exact ⟨_, ⟨plan, hplan, rfl⟩, trivial⟩

/-- In every state on the way whose chain lacks the entry, the append is admitted. -/
def HeadroomKept (host : StateHost) (entry : AuditEntry) (steps : List CommitStep) (s₀ : Store) :
    Prop :=
  ∀ s, OnTheWay host steps s₀ s → auditMissing host entry s = true →
    admitMissingAudit host entry s = .ok ()

/-- A chain without an archive head needs no headroom beyond the append itself. -/
theorem planAppend_of_headless {a : AuditStore} {capacity capacity' : FilesystemCapacity}
    {plan : AuditAppendPlan}
    (hhead : ∀ archive segments,
      readSegments host.toAuditHost defaultAuditLimits a = .ok (archive, segments) →
        archive.head = none)
    (hplan : planAppend host.toAuditHost defaultAuditLimits capacity entry false a = .ok plan) :
    planAppend host.toAuditHost defaultAuditLimits capacity' entry false a = .ok plan := by
  obtain ⟨archive, segments, scan, headroom, hp⟩ := planAppend_eq_ok.1 hplan
  have hadmitted := hp.admitted
  unfold appendHeadroom admitArchiveAppend at hadmitted
  rw [hhead archive segments hp.read] at hadmitted
  refine planAppend_eq_ok.2 ⟨archive, segments, scan, headroom, hp.valid, hp.read, hp.scanned,
    hp.bounded, hp.state, hp.sequence, hp.previous, hp.target, ?_, hp.ceiling⟩
  unfold appendHeadroom admitArchiveAppend
  rw [hhead archive segments hp.read]
  exact hadmitted

theorem appendStateAudit_run {run : Run AuditStore AgentError AuditAppend}
    (h : appendAudit host.toAuditHost defaultAuditLimits .written (host.capacity s) entry false
      s.audit = run) :
    appendStateAudit host entry s =
      ⟨run.trace.map fun a => s.setAudit a, s.setAudit run.state, run.result⟩ := by
  rw [← h]
  rfl

theorem appendStateAudit_of_plan {plan : AuditAppendPlan}
    (hplan : planAppend host.toAuditHost defaultAuditLimits (host.capacity s) entry false s.audit =
      .ok plan) :
    appendStateAudit host entry s =
      ⟨[s.setAudit (s.audit.write plan)], s.setAudit (s.audit.write plan),
        verifyAppend host.toAuditHost defaultAuditLimits entry false (s.audit.write plan)⟩ := by
  rcases appendAudit_run (host.capacity s) entry false s.audit with
    ⟨error, herror, -⟩ | ⟨plan', hplan', hrun⟩
  · rw [hplan] at herror
    cases herror
  · obtain rfl := planAppend_unique hplan hplan'
    exact appendStateAudit_run hrun

theorem appendStateAudit_ok {appended : AuditAppend}
    (h : (appendStateAudit host entry s).result = .ok appended) :
    ∃ plan,
      planAppend host.toAuditHost defaultAuditLimits (host.capacity s) entry false s.audit =
          .ok plan ∧
        verifyAppend host.toAuditHost defaultAuditLimits entry false (s.audit.write plan) =
          .ok appended := by
  rcases appendAudit_run (host.capacity s) entry false s.audit with
    ⟨error, -, hrun⟩ | ⟨plan, hplan, hrun⟩
  · rw [appendStateAudit_run hrun] at h
    cases h
  · rw [appendStateAudit_run hrun] at h
    exact ⟨plan, hplan, h⟩

/-- An append that is admitted is ready. -/
theorem Appendable.ready (h : Appendable host entry s.audit)
    (hadmitted : admitMissingAudit host entry s = .ok ()) :
    CommitStep.Ready host (.append entry) s := by
  obtain ⟨plan, hplan⟩ := admitMissingAudit_eq_ok.1 hadmitted
  obtain ⟨appended, -, hinspect, hcount, -⟩ := h.write hplan
  show auditMissing host entry (CommitStep.appended host entry s) = false
  unfold CommitStep.appended auditMissing inspectStateAudit
  rw [hplan]
  simp [hinspect, hcount]

theorem ensureAudit_performs (h : Appendable host entry s.audit)
    (hadmitted : auditMissing host entry s = true → admitMissingAudit host entry s = .ok ()) :
    Performs (ensureAudit host path entry) (stepsOf host [.append entry]) s () := by
  unfold ensureAudit
  refine Performs.query_bind h.needsAppend ?_
  refine Performs.when (e := CommitStep.toStep host (.append entry)) (fun hmissing => ?_) id
  obtain ⟨plan, hplan⟩ := admitMissingAudit_eq_ok.1 (hadmitted hmissing)
  obtain ⟨appended, hverify, -⟩ := h.write hplan
  have hrun := appendStateAudit_of_plan hplan
  have happly : CommitStep.appended host entry s = s.setAudit (s.audit.write plan) := by
    unfold CommitStep.appended
    rw [hplan]
  refine Performs.dropped (a := appended) ?_
  have htrace : settleTrace [CommitStep.toStep host (.append entry)] s =
      [s.setAudit (s.audit.write plan)] := by
    show Step.trace _ s ++ [] = _
    rw [Step.trace_of_pending (e := CommitStep.toStep host (.append entry)) hmissing,
      List.append_nil]
    exact congrArg (· :: []) happly
  refine ⟨by rw [hrun]; exact hverify, ?_, fun t ht => Or.inr ?_, fun t ht => ?_⟩
  · rw [hrun]
    show _ = Step.settle (CommitStep.toStep host (.append entry)) s
    rw [Step.settle_of_pending (e := CommitStep.toStep host (.append entry)) hmissing]
    exact happly.symm
  · rw [hrun] at ht
    rw [htrace]
    exact ht
  · rw [htrace] at ht
    rw [hrun]
    exact ht

/-- A chain that was extended was appendable, and the append was admitted. -/
theorem ensureAudit_ok {u : Unit} (h : (ensureAudit host path entry s).result = .ok u) :
    Appendable host entry s.audit ∧
      (auditMissing host entry s = true → admitMissingAudit host entry s = .ok ()) := by
  obtain ⟨missing, hneeds, h⟩ := Durable.bind_result_ok h
  obtain ⟨state, hinspect, hstate⟩ := inspectNeedsAppend_eq_ok.1 hneeds
  have hvalue := inspectNeedsAppend_value hneeds
  rcases auditNeedsAppend_eq_ok.1 hstate with ⟨⟨hcount, hprevious⟩, hmissing⟩ |
    ⟨hended, hmissing⟩
  · rw [hmissing] at h
    obtain ⟨appended, happended, -⟩ := Durable.bind_result_ok h
    obtain ⟨plan, hplan, hverify⟩ := appendStateAudit_ok happended
    exact ⟨⟨state, hinspect, Or.inr ⟨hcount, hprevious, host.capacity s, plan, appended, hplan,
      hverify⟩⟩, fun _ => admitMissingAudit_eq_ok.2 ⟨plan, hplan⟩⟩
  · refine ⟨⟨state, hinspect, Or.inl hended⟩, fun h' => ?_⟩
    rw [← hvalue, hmissing] at h'
    cases h'

/-! ## Records -/

/-- A published result is the planned one, a missing one can be published. -/
structure ResultReady (host : StateHost) (job : AuthorizationJob) (result : OperationResult)
    (s : Store) : Prop where
  publishable : s.find? (.result job.jobId) = none →
    encodeNew host (.authorizationResult job.jobId) (.operationResult result) = .ok ()
  published : s.find? (.result job.jobId) ≠ none →
    readLocked host (.authorizationResult job.jobId) s = .ok (.operationResult result)

theorem ensureResult_performs {result : OperationResult} {missing : Bool}
    (h : ResultReady host job result s)
    (hmissing : missing = (s.find? (.result job.jobId)).isNone) :
    Performs (ensureResult host path job result missing)
      (stepsOf host [.put (.result job.jobId) (.operationResult result)]) s () := by
  unfold ensureResult
  cases hfind : s.find? (.result job.jobId) with
  | none =>
      rw [hmissing, hfind]
      exact ((@createImmutable_performs _ (.authorizationResult job.jobId)) (h.publishable hfind)
        rfl hfind).dropped
  | some d =>
      rw [hmissing, hfind]
      have hread := h.published (by rw [hfind]; simp)
      have hsame := (readLocked_eq_ok.1 hread).1
      refine Performs.skip (e := CommitStep.toStep host
        (.put (.result job.jobId) (.operationResult result))) ?_ ?_
      · show decide (s.find? (.result job.jobId) ≠ _) = false
        rw [show s.find? (.result job.jobId) = _ from hsame]
        simp
      · exact Performs.query (by rw [hread, ok_bind, decide_eq_true rfl]; rfl)

theorem ensureResult_ok {result : OperationResult} {u : Unit} {missing : Bool}
    (h : (ensureResult host path job result missing s).result = .ok u)
    (hmissing : missing = (s.find? (.result job.jobId)).isNone) : ResultReady host job result s := by
  unfold ensureResult at h
  cases hfind : s.find? (.result job.jobId) with
  | none =>
      rw [hmissing, hfind] at h
      obtain ⟨r, hcreated, -⟩ := Durable.bind_result_ok h
      exact ⟨fun _ => (createImmutable_ok hcreated).1, fun hne => absurd hfind hne⟩
  | some d =>
      rw [hmissing, hfind] at h
      refine ⟨fun hnone => ?_, fun _ => ?_⟩
      · rw [hfind] at hnone
        cases hnone
      · obtain ⟨current, hread, hrequire⟩ := bind_eq_ok.1 h
        rw [require_eq_ok, decide_eq_true_eq] at hrequire
        rw [← hrequire]
        exact hread

/-- The stored job is the expected one, and it may be completed. -/
structure JobReady (host : StateHost) (job : AuthorizationJob) (s : Store) : Prop where
  stored : readJob host job.jobId s = .ok job
  completes : StateRecordPath.Fits host.encoding (.authorizationJob job.jobId)
    (.authorizationJob (completedJob job))

theorem completedJob_replaces (job : AuthorizationJob) :
    validateAuthorizationPhaseReplacement (.authorizationJob job)
      (.authorizationJob (completedJob job)) = .ok () := by
  show require (decide (jobAuthority job = jobAuthority job)) _ = _
  rw [decide_eq_true rfl]
  rfl

theorem completedJob_of_completed (h : job.phase = .completed) :
    completedJob job = job := by
  cases job
  cases h
  rfl

theorem JobReady.replaceable (h : JobReady host job s) :
    Replaceable host (.authorizationJob job.jobId) (revision host (.authorizationJob job))
      (.authorizationJob (completedJob job)) s := by
  exact ⟨rfl, .authorizationJob job, readLocked_eq_ok.2 (readJob_eq_ok.1 h.stored), rfl, rfl,
    completedJob_replaces job⟩

theorem ensureCompletedJob_performs (h : JobReady host job s) :
    Performs (ensureCompletedJob host job)
      (stepsOf host [.put (.job job.jobId) (.authorizationJob (completedJob job))]) s () := by
  unfold ensureCompletedJob
  by_cases hphase : job.phase = .completed
  · rw [if_pos hphase]
    refine Performs.skip (e := CommitStep.toStep host
      (.put (.job job.jobId) (.authorizationJob (completedJob job)))) ?_ (Performs.pure () s)
    show decide (s.find? (.job job.jobId) ≠ _) = false
    rw [completedJob_of_completed hphase, (readJob_eq_ok.1 h.stored).1]
    simp
  · rw [if_neg hphase]
    exact (compareAndSwap_performs h.completes h.replaceable).dropped

theorem ensureCompletedJob_ok {s t : Store} {u : Unit}
    (h : (ensureCompletedJob host job t).result = .ok u)
    (hstored : readJob host job.jobId s = .ok job) : JobReady host job s := by
  unfold ensureCompletedJob at h
  refine ⟨hstored, ?_⟩
  by_cases hphase : job.phase = .completed
  · rw [completedJob_of_completed hphase]
    exact (readJob_eq_ok.1 hstored).2
  · rw [if_neg hphase] at h
    obtain ⟨r, hswapped, -⟩ := Durable.bind_result_ok h
    exact (compareAndSwap_ok hswapped).1

end StaticHostAgent.Commit
