import StaticHostAgent.Commit.Simulation

/-!
# What the end of a commit leaves

The end that the commits share publishes the result, completes the job and clears the intent. It
changes these three files and nothing else, whatever relation the changes are to follow, as long as
that relation allows what leaves the audit chain alone.
-/

set_option autoImplicit false

namespace StaticHostAgent.Commit

open Library Contracts Host Audit State

variable {host : StateHost} {R : Store → Store → Prop} {path : CommitPath}
  {job : AuthorizationJob} {result : OperationResult} {resultMissing : Bool} {s u : Store}

/-- Only one file has changed. -/
structure Beside (p : FilePath) (s u : Store) : Prop where
  files : ∀ q, q ≠ p → u.find? q = s.find? q
  tenants : u.tenants = s.tenants
  releases : u.releases = s.releases
  audit : u.audit = s.audit

theorem Beside.put (p : FilePath) (document : Document) (s : Store) :
    Beside p s (s.put p document) := ⟨fun _ hq => Store.find?_put_of_ne hq _ _, rfl, rfl, rfl⟩

/-- What leaves the audit chain alone is allowed. -/
def AllowsBeside (R : Store → Store → Prop) (s : Store) : Prop :=
  ∀ v w : Store, v.audit = s.audit → w.audit = s.audit → R v w

theorem AllowsBeside.same (h : AllowsBeside R s) (haudit : u.audit = s.audit) :
    AllowsBeside R u := fun v w hv hw => h v w (hv.trans haudit) (hw.trans haudit)

theorem ensureResult_ends (hR : AllowsBeside R s) :
    Durable.Follows R s (ensureResult host path job result resultMissing)
      fun _ u => u.find? (.result job.jobId) = some (.operationResult result) ∧
        Beside (.result job.jobId) s u := by
  unfold ensureResult
  split
  · refine Durable.Follows.bind (createImmutable_follows fun _ => hR _ _ rfl rfl) ?_
    rintro - u rfl
    exact Durable.Follows.pure ⟨Store.find?_put_self _ _ _, Beside.put _ _ s⟩
  · -- a result that is not missing must be the planned one
    refine Durable.Follows.query fun _ hread => ?_
    obtain ⟨current, hcurrent, heq⟩ := bind_eq_ok.1 hread
    rw [require_eq_ok, decide_eq_true_eq] at heq
    rw [heq] at hcurrent
    exact ⟨(readLocked_eq_ok.1 hcurrent).1, fun _ _ => rfl, rfl, rfl, rfl⟩

theorem ensureCompletedJob_ends (hR : AllowsBeside R s)
    (hjob : s.find? (.job job.jobId) = some (.authorizationJob job)) :
    Durable.Follows R s (ensureCompletedJob host job)
      fun _ u => (∃ terminal, u.find? (.job job.jobId) = some (.authorizationJob terminal) ∧
        terminal.phase = .completed) ∧ Beside (.job job.jobId) s u := by
  unfold ensureCompletedJob
  split
  · rename_i hcompleted
    exact Durable.Follows.pure ⟨⟨job, hjob, hcompleted⟩, fun _ _ => rfl, rfl, rfl, rfl⟩
  · have hswap : Durable.Follows R s
        (replaceState host (.authorizationJob job.jobId) (.authorizationJob job)
          (.authorizationJob (completedJob job))) fun _ u =>
            u = s.put (.job job.jobId) (.authorizationJob (completedJob job)) :=
      replaceState_follows (hR _ _ rfl rfl)
    refine hswap.weaken ?_
    rintro - u rfl
    exact ⟨⟨completedJob job, Store.find?_put_self _ _ _, rfl⟩, Beside.put _ _ s⟩

/-- The result is published, the job completed and the intent cleared, and nothing else has
changed. -/
structure Ended (job : AuthorizationJob) (result : OperationResult) (intentId : Uuid7)
    (s u : Store) : Prop where
  result : u.find? (.result job.jobId) = some (.operationResult result)
  completed : ∃ terminal, u.find? (.job job.jobId) = some (.authorizationJob terminal) ∧
    terminal.phase = .completed
  cleared : u.find? (.intent intentId) = none
  files : ∀ p, p ≠ .result job.jobId → p ≠ .job job.jobId → p ≠ .intent intentId →
    u.find? p = s.find? p
  tenants : u.tenants = s.tenants
  releases : u.releases = s.releases
  audit : u.audit = s.audit

/-- The records of tenants are not among the three files. -/
theorem Ended.tenant {intentId : Uuid7} (h : Ended job result intentId s u) {p : FilePath}
    {t : Uuid7} (hp : p.tenant? = some t) : u.find? p = s.find? p := by
  have hne : ∀ q : FilePath, q.tenant? = none → p ≠ q := by
    rintro q hq rfl
    rw [hq] at hp
    cases hp
  exact h.files p (hne _ rfl) (hne _ rfl) (hne _ rfl)

theorem ending_ends {outcome : CommitOutcome} {intentId : Uuid7} {token : StateRevision}
    (hR : AllowsBeside R s) (hjob : s.find? (.job job.jobId) = some (.authorizationJob job)) :
    Durable.Follows R s (do
      ensureResult host path job result resultMissing
      ensureCompletedJob host job
      removeReconciledIntent host (.transactionIntent intentId) token
      pure outcome) fun o u => o = outcome ∧ Ended job result intentId s u := by
  refine Durable.Follows.bind (ensureResult_ends hR) ?_
  rintro - v ⟨hresult, hv⟩
  have hkept : v.find? (.job job.jobId) = some (.authorizationJob job) :=
    (hv.files _ (by simp)).trans hjob
  have hR := hR.same hv.audit
  refine Durable.Follows.bind (ensureCompletedJob_ends hR hkept) ?_
  rintro - w ⟨⟨terminal, hterminal, hcompleted⟩, hw⟩
  have hR := hR.same hw.audit
  refine Durable.Follows.bind (M := fun _ x => x = w.remove (.intent intentId)) ?_ ?_
  · refine Durable.Follows.query_bind fun _ _ => ?_
    exact Durable.Follows.effect (hR _ _ rfl rfl) rfl
  · rintro - x rfl
    refine Durable.Follows.pure ⟨rfl, ?_, ⟨terminal, ?_, hcompleted⟩, ?_, fun q hr hj hi => ?_,
      hw.tenants.trans hv.tenants, hw.releases.trans hv.releases, hw.audit.trans hv.audit⟩
    · rw [Store.find?_remove_of_ne (by simp), hw.files _ (by simp), hresult]
    · rw [Store.find?_remove_of_ne (by simp), hterminal]
    · exact Store.find?_remove_self _ _
    · rw [Store.find?_remove_of_ne hi, hw.files _ hj, hv.files _ hr]

end StaticHostAgent.Commit
