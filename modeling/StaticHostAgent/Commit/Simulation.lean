import StaticHostAgent.Commit.Changes
import StaticHostAgent.Commit.RouteRuns
import StaticHostAgent.Library.Following

/-!
# The parts of the commits follow the changes

What each part that the commits share makes durable is a change that the abstract machine allows:
the replacement of the two states, and the end of a commit with its audit entry, its result, its
completed job and its cleared intent. No part of a commit relies on more than what the commit has
checked itself.
-/

set_option autoImplicit false

namespace StaticHostAgent.Commit

open Library Contracts Host Audit State

variable {host : StateHost} {c : CommitScope} {s : Store}

/-! ## Writes -/

section Writes

variable {R : Store → Store → Prop}

theorem replaceState_follows {record : StateRecordPath} {current candidate : Document}
    (hstep : R s (s.put record.components candidate)) :
    Durable.Follows R s (replaceState host record current candidate)
      fun _ u => u = s.put record.components candidate := by
  unfold replaceState
  refine Durable.Follows.bind (M := fun _ u => u = s.put record.components candidate) ?_ ?_
  · refine Durable.Follows.query_bind fun _ _ => ?_
    refine Durable.Follows.query_bind fun _ _ => ?_
    refine Durable.Follows.bind (Durable.Follows.effect
      (Q := fun _ u => u = s.put record.components candidate) hstep rfl) ?_
    rintro - u rfl
    exact Durable.Follows.query fun _ _ => rfl
  · intro _ _ hu
    exact Durable.Follows.pure hu

/-- A file is created only where there is none. -/
theorem createImmutableBytes_follows {path : StateRecordPath} {document : Document}
    (hstep : s.find? path.components = none → R s (s.put path.components document)) :
    Durable.Follows R s (createImmutableBytes host path document)
      fun _ u => u = s.put path.components document := by
  refine Durable.Follows.query_bind fun _ habsent => ?_
  have habsent : s.find? path.components = none := by
    obtain ⟨_, -, hfree⟩ := bind_eq_ok.1 habsent
    exact Option.isNone_iff_eq_none.1 (require_eq_ok.1 hfree)
  refine Durable.Follows.bind (Durable.Follows.effect
    (Q := fun _ u => u = s.put path.components document) (hstep habsent) rfl) ?_
  rintro - u rfl
  exact Durable.Follows.query fun _ _ => rfl

theorem createImmutable_follows {path : StateRecordPath} {document : Document}
    (hstep : s.find? path.components = none → R s (s.put path.components document)) :
    Durable.Follows R s (createImmutable host path document)
      fun _ u => u = s.put path.components document :=
  Durable.Follows.query_bind fun _ _ => createImmutableBytes_follows hstep

end Writes

/-! ## The two states -/

/-- Both states are the planned ones, and nothing else has changed. -/
structure StatesMoved (t : Uuid7) (m : Site) (o : TenantObservedState) (s u : Store) : Prop where
  desired : u.find? (.desired t) = some (.site m)
  observed : u.find? (.observed t) = some (.tenantObservedState o)
  files : ∀ p, p ≠ .desired t → p ≠ .observed t → u.find? p = s.find? p
  releases : u.releases = s.releases

/-- The desired state is written before the observed one, which may follow it. -/
theorem states_follow {α : Type} {R : Store → Store → Prop} {Post : α → Store → Prop}
    {rest : Durable Store AgentError α} {t : Uuid7} {m : Site} {o : TenantObservedState}
    {desired observed : Document} {writeDesired writeObserved : Bool}
    (hdesired : s.find? (.desired t) = some desired)
    (hobserved : s.find? (.observed t) = some observed)
    (hskip : writeDesired = false → desired = .site m)
    (hskip' : writeObserved = false → observed = .tenantObservedState o)
    (hselect : writeDesired = true → R s (s.put (.desired t) (.site m)))
    (hobserve : ∀ u, u.find? (.desired t) = some (.site m) →
      R u (u.put (.observed t) (.tenantObservedState o)))
    (hrest : ∀ u, StatesMoved t m o s u → Durable.Follows R u rest Post) :
    Durable.Follows R s (do
      Durable.when writeDesired (replaceState host (.tenantDesired t) desired (.site m))
      Durable.when writeObserved
        (replaceState host (.tenantObserved t) observed (.tenantObservedState o))
      rest) Post := by
  refine Durable.Follows.bind (M := fun _ u => u.find? (.desired t) = some (.site m) ∧
    (∀ p, p ≠ .desired t → u.find? p = s.find? p) ∧ u.releases = s.releases) ?_ ?_
  · refine Durable.Follows.when (fun hwrite => ?_) fun hwrite => ?_
    · refine (replaceState_follows (hselect hwrite)).weaken ?_
      rintro - u rfl
      exact ⟨Store.find?_put_self _ _ _, fun p hp => Store.find?_put_of_ne hp _ _, rfl⟩
    · rw [hskip hwrite] at hdesired
      exact ⟨hdesired, fun _ _ => rfl, rfl⟩
  · rintro - u ⟨hplanned, hfiles, hreleases⟩
    refine Durable.Follows.bind (M := fun _ => StatesMoved t m o s) ?_ fun _ v hv => hrest v hv
    refine Durable.Follows.when (fun _ => ?_) fun hwrite => ?_
    · refine (replaceState_follows (hobserve u hplanned)).weaken ?_
      rintro - v rfl
      refine ⟨?_, Store.find?_put_self _ _ _, fun p hp hp' => ?_, hreleases⟩
      · rw [← hplanned]
        exact Store.find?_put_of_ne (show FilePath.desired t ≠ .observed t by simp) _ _
      · rw [← hfiles p hp]
        exact Store.find?_put_of_ne hp' _ _
    · refine ⟨hplanned, ?_, fun p hp _ => hfiles p hp, hreleases⟩
      rw [hfiles _ (by simp), hobserved, hskip' hwrite]

/-! ## The end of a commit -/

section Closing

variable {path : CommitPath} {entry : AuditEntry} {job : AuthorizationJob}
  {result : OperationResult} {resultMissing : Bool}

/-- An append is one change, behind which the entry is recorded. -/
theorem appendStateAudit_follows {R : Store → Store → Prop}
    (hstep : ∀ (u : Store) (a : AuditStore),
      auditTrail host (u.setAudit a) = auditTrail host u ++ [entry] → R u (u.setAudit a)) :
    Durable.Follows R s (appendStateAudit host entry)
      fun _ u => ∃ a, u = s.setAudit a ∧ Recorded host entry u := by
  have happend : Durable.Follows (fun a b : AuditStore =>
      flatEntries host.toAuditHost defaultAuditLimits b =
        flatEntries host.toAuditHost defaultAuditLimits a ++ [entry]) s.audit
      (appendAudit host.toAuditHost defaultAuditLimits .written (host.capacity s) entry false)
      fun _ b => flatEntries host.toAuditHost defaultAuditLimits b =
        flatEntries host.toAuditHost defaultAuditLimits s.audit ++ [entry] := by
    have hrun := appendAudit_trail host.toAuditHost defaultAuditLimits (host.capacity s) entry
      false s.audit
    rcases hrun with ⟨htrace, hstate, hfails⟩ | ⟨b, htrace, hstate, hentries⟩
    · refine ⟨fun t ht => ?_, ?_, fun appended hok => absurd hok (hfails appended)⟩
      · rw [htrace] at ht
        cases ht
      · rw [hstate]
    · refine ⟨fun t ht => ?_, ?_, fun _ _ => ?_⟩
      · rw [htrace, List.mem_singleton] at ht
        rw [ht]
        exact .single hentries
      · rw [hstate]
        exact .single hentries
      · rw [hstate]
        exact hentries
  unfold appendStateAudit
  refine (Durable.Follows.zoom rfl (fun a b hentries => ?_) happend).weaken ?_
  · exact hstep (s.setAudit a) b hentries
  · rintro _ u ⟨a, rfl, hentries⟩
    exact ⟨a, rfl, Recorded.of_append hentries⟩

/-- Behind the audit step of a commit its entry is recorded. -/
theorem ensureAudit_steps {R : Store → Store → Prop}
    (hstep : ∀ (u : Store) (a : AuditStore),
      auditTrail host (u.setAudit a) = auditTrail host u ++ [entry] → R u (u.setAudit a)) :
    Durable.Follows R s (ensureAudit host path entry)
      fun _ u => ∃ a, u = s.setAudit a ∧ Recorded host entry u := by
  refine Durable.Follows.query_bind fun missing hmissing => ?_
  refine Durable.Follows.when (fun _ => ?_) fun hskip => ?_
  · refine Durable.Follows.bind (M := fun _ u => ∃ a, u = s.setAudit a ∧ Recorded host entry u)
      ?_ fun _ _ hu => Durable.Follows.pure hu
    exact appendStateAudit_follows hstep
  · subst hskip
    exact ⟨s.audit, rfl, recorded_of_appended hmissing⟩

theorem ensureAudit_follows :
    Durable.Follows (CommitChange host c) s (ensureAudit host path entry)
      fun _ u => ∃ a, u = s.setAudit a ∧ Recorded host entry u :=
  ensureAudit_steps fun _ a hentries => .append entry a hentries

/-- A result that is not missing was found. -/
theorem ensureResult_follows (hid : job.jobId = c.jobId) (hrecorded : Recorded host entry s)
    (hvouched : entry.resultDigest = resultDigest host.encoding result) :
    Durable.Follows (CommitChange host c) s (ensureResult host path job result resultMissing)
      fun _ u => (u.find? (.result c.jobId)).isSome = true ∧
        u.find? (.job c.jobId) = s.find? (.job c.jobId) := by
  unfold ensureResult
  rw [hid]
  split
  · refine Durable.Follows.bind (createImmutable_follows fun habsent =>
      .answer result entry habsent hrecorded hvouched) ?_
    rintro - u rfl
    refine Durable.Follows.pure ⟨?_, ?_⟩
    · show ((s.put (.result c.jobId) _).find? (.result c.jobId)).isSome = true
      rw [Store.find?_put_self]
      rfl
    · exact Store.find?_put_of_ne (show FilePath.job c.jobId ≠ .result c.jobId by simp) _ _
  · refine Durable.Follows.query fun _ hread => ⟨?_, rfl⟩
    obtain ⟨current, hcurrent, -⟩ := bind_eq_ok.1 hread
    have hfound := (readLocked_eq_ok.1 hcurrent).1
    rw [show s.find? (.result c.jobId) = some current from hfound]
    rfl

theorem ensureCompletedJob_follows (hid : job.jobId = c.jobId)
    (hjob : s.find? (.job c.jobId) = some (.authorizationJob job))
    (hanswered : (s.find? (.result c.jobId)).isSome = true) :
    Durable.Follows (CommitChange host c) s (ensureCompletedJob host job) fun _ => c.Closed := by
  unfold ensureCompletedJob
  rw [hid]
  split
  · rename_i hcompleted
    exact Durable.Follows.pure ⟨⟨job, hjob, hcompleted⟩, hanswered⟩
  · -- the swap writes the completed job behind its result
    have hswap : Durable.Follows (CommitChange host c) s
        (replaceState host (.authorizationJob c.jobId) (.authorizationJob job)
          (.authorizationJob (completedJob job))) fun _ u =>
            u = s.put (.job c.jobId) (.authorizationJob (completedJob job)) :=
      replaceState_follows (.complete job hjob hanswered)
    refine hswap.weaken ?_
    rintro - u rfl
    refine ⟨⟨completedJob job, Store.find?_put_self _ _ _, rfl⟩, ?_⟩
    rw [Store.find?_put_of_ne (by simp), hanswered]

theorem removeReconciledIntent_follows {token : StateRevision} (hclosed : c.Closed s) :
    Durable.Follows (CommitChange host c) s
      (removeReconciledIntent host (.transactionIntent c.intentId) token) fun _ _ => True :=
  Durable.Follows.query_bind fun _ _ => Durable.Follows.effect (.clear hclosed) trivial

/-- The end of a commit behind its audit entry, whatever removes its intent. -/
theorem ending_follows {outcome : CommitOutcome} {removal : Durable Store AgentError Unit}
    (hid : job.jobId = c.jobId) (hjob : s.find? (.job c.jobId) = some (.authorizationJob job))
    (hrecorded : Recorded host entry s)
    (hvouched : entry.resultDigest = resultDigest host.encoding result)
    (hremoval : ∀ u, c.Closed u →
      Durable.Follows (CommitChange host c) u removal fun _ _ => True) :
    Durable.Follows (CommitChange host c) s (do
      ensureResult host path job result resultMissing
      ensureCompletedJob host job
      removal
      pure outcome) fun _ _ => True := by
  refine Durable.Follows.bind (ensureResult_follows hid hrecorded hvouched) ?_
  rintro - v ⟨hanswered, hsame⟩
  have hkept : v.find? (.job c.jobId) = some (.authorizationJob job) := hsame.trans hjob
  refine Durable.Follows.bind (ensureCompletedJob_follows hid hkept hanswered) ?_
  intro _ w hclosed
  refine Durable.Follows.bind (hremoval w hclosed) ?_
  intro _ _ _
  exact Durable.Follows.pure trivial

/-- The end of a commit with its audit entry. -/
theorem closing_follows {outcome : CommitOutcome} {removal : Durable Store AgentError Unit}
    (hid : job.jobId = c.jobId) (hjob : s.find? (.job c.jobId) = some (.authorizationJob job))
    (hvouched : entry.resultDigest = resultDigest host.encoding result)
    (hremoval : ∀ u, c.Closed u →
      Durable.Follows (CommitChange host c) u removal fun _ _ => True) :
    Durable.Follows (CommitChange host c) s (do
      ensureAudit host path entry
      ensureResult host path job result resultMissing
      ensureCompletedJob host job
      removal
      pure outcome) fun _ _ => True := by
  refine Durable.Follows.bind ensureAudit_follows ?_
  rintro - u ⟨a, rfl, hrecorded⟩
  exact ending_follows hid hjob hrecorded hvouched hremoval

end Closing

/-! ## Authority -/

/-- The accepted job is stored under the identity of the expected one. -/
theorem requireSameJob_scope {path : CommitPath} {forget : Dispatch → Dispatch}
    {expected job : AuthorizationJob} (h : requireSameJob host path forget expected s = .ok job) :
    job.jobId = expected.jobId ∧
      s.find? (.job expected.jobId) = some (.authorizationJob job) := by
  obtain ⟨hread, -, -⟩ := requireSameJob_eq_ok.1 h
  exact ⟨(requireSameJob_stored h).1.symm, (readJob_eq_ok.1 hread).1⟩

end StaticHostAgent.Commit
