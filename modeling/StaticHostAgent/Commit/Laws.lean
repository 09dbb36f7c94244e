import StaticHostAgent.Commit.RouteRuns

/-!
# The laws of the commits

A finalizer changes only a state of its own transition, a run that goes through ends where the plan
says, and crashed runs are completed by the next one exactly while the audit append stays admitted.
A chain without an archive head needs no headroom, so there the append does stay admitted.
-/

set_option autoImplicit false

namespace StaticHostAgent.Commit

open Library Contracts Host Audit State

variable {host : StateHost} {limits : HostCapacityLimits}

/-- A reading in front of a program that made something durable went through. -/
theorem query_bind_trace {ε α β : Type} {f : Store → Except ε α} {g : α → Durable Store ε β}
    {s : Store}
    (h : ((Durable.query f >>= g) s).trace ≠ []) : ∃ a, f s = .ok a ∧ (g a s).trace ≠ [] := by
  cases hf : f s with
  | error e =>
      rw [Durable.query_bind_error hf] at h
      exact absurd rfl h
  | ok a =>
      rw [Durable.query_bind_ok hf] at h
      exact ⟨a, rfl, h⟩

/-- The audit chain has no archive head. -/
def Headless (host : StateHost) (s : Store) : Prop :=
  ∀ archive segments, readSegments host.toAuditHost defaultAuditLimits s.audit =
    .ok (archive, segments) → archive.head = none

/-- Without an archive head an append that was admitted stays admitted. -/
theorem headroomKept_of_headless {entry : AuditEntry} {before after : List CommitStep}
    {s₀ : Store} (hfree : ∀ e ∈ before, Place.audit ∉ e.touches) (hhead : Headless host s₀)
    (hstart : auditMissing host entry s₀ = true → admitMissingAudit host entry s₀ = .ok ()) :
    HeadroomKept host entry (before ++ .append entry :: after) s₀ := by
  intro s hs hmissing
  rcases along_split hs rfl hfree with ⟨-, hdone⟩ | hsame
  · rw [show auditMissing host entry s = false from hdone] at hmissing
    cases hmissing
  · have haudit : s.audit = s₀.audit := hsame
    have hmissing₀ : auditMissing host entry s₀ = true := by
      rw [← hmissing]
      exact (CommitStep.pending_same (e := .append entry) hsame).symm
    obtain ⟨plan, hplan⟩ := admitMissingAudit_eq_ok.1 (hstart hmissing₀)
    refine admitMissingAudit_eq_ok.2 ⟨plan, ?_⟩
    rw [haudit]
    exact planAppend_of_headless hhead hplan

/-! ## Route transitions -/

/-- A state that a route transition may have left behind, or that it may start from. -/
structure RouteOwn (host : StateHost) (expected : AuthorizationJob) (documents : RouteDocuments)
    (s : Store) : Prop where
  job : ∃ job, routeSameJob host expected s = .ok job ∧
    (s.find? (.result job.jobId) = none ∨
      s.find? (.result job.jobId) = some (.operationResult documents.result))
  intent : s.find? (.intent documents.intentId) = some (.transactionIntent documents.intent)
  desired : s.find? (.desired documents.tenantId) = some (.site documents.sourceManifest) ∨
    s.find? (.desired documents.tenantId) = some (.site documents.manifest)
  observed : s.find? (.observed documents.tenantId) =
      some (.tenantObservedState documents.sourceObservedState) ∨
    s.find? (.observed documents.tenantId) = some (.tenantObservedState documents.observedState)
  ordered : s.find? (.observed documents.tenantId) =
      some (.tenantObservedState documents.observedState) →
    s.find? (.desired documents.tenantId) = some (.site documents.manifest)

/-- What the finalizer of a route transition does, whenever it is interrupted. -/
structure RouteCommitLaws (host : StateHost) (limits : HostCapacityLimits)
    (expected : AuthorizationJob) (plan : TransitionPlan) (s : Store) : Prop where
  /-- It makes nothing durable in a state of another transition. -/
  own : (finalizeRoute host limits expected plan s).trace ≠ [] → ∃ documents,
    freezeRoute host expected plan = .ok documents ∧ RouteOwn host expected documents s
  /-- A run that goes through returns the planned result and leaves the planned end. -/
  ends : ∀ o, (finalizeRoute host limits expected plan s).result = .ok o →
    ∃ job, readJob host expected.jobId s = .ok job ∧ o.result = plan.result ∧
      Committed host plan job (finalizeRoute host limits expected plan s).state
  /-- Crashed runs are completed by the next run, in the state of the uninterrupted one, exactly
  while the append stays admitted. -/
  converges : ∀ o, (finalizeRoute host limits expected plan s).result = .ok o →
    ∃ job, readJob host expected.jobId s = .ok job ∧
      ((finalizeRoute host limits expected plan).Converges (fun o => o.result = plan.result) s ↔
        HeadroomKept host plan.auditEntry (routeSteps plan job) s)
  /-- Without an archive head they always are. -/
  headless : ∀ o, (finalizeRoute host limits expected plan s).result = .ok o → Headless host s →
    (finalizeRoute host limits expected plan).Converges (fun o => o.result = plan.result) s

section Route

variable {expected job : AuthorizationJob} {documents : RouteDocuments} {plan : TransitionPlan}
  {s : Store}

theorem RouteAdmitted.own {p : RouteProgress} {auditMissing : Bool}
    (hsame : routeSameJob host expected s = .ok job)
    (hexact : ∃ removal, routeExactIntent host documents s = .ok removal)
    (h : RouteAdmitted host limits job documents s p auditMissing) :
    RouteOwn host expected documents s := by
  obtain ⟨removal, hexact⟩ := hexact
  obtain ⟨-, ⟨hintent, -⟩, -⟩ := requireExactIntent_eq_ok.1 hexact
  have hdesired : s.find? (.desired documents.tenantId) = some p.desired :=
    (readLocked_eq_ok.1 h.states.desiredRead).1
  have hobserved : s.find? (.observed documents.tenantId) = some p.observed :=
    (readLocked_eq_ok.1 h.states.observedRead).1
  refine ⟨⟨job, hsame, ?_⟩, hintent, ?_, ?_, fun hplanned => ?_⟩
  · rcases missingExact_eq_ok.1 h.resultMissing with ⟨hnone, -⟩ | ⟨hread, -⟩
    · exact .inl hnone
    · exact .inr (readLocked_eq_ok.1 hread).1
  · rw [hdesired]
    exact h.states.desiredKnown.imp (congrArg some) (congrArg some)
  · rw [hobserved]
    exact h.states.observedKnown.imp (congrArg some) (congrArg some)
  · rw [hobserved] at hplanned
    rw [hdesired, h.states.order (Option.some.inj hplanned)]

theorem finalizeRoute_own (htrace : (finalizeRoute host limits expected plan s).trace ≠ []) :
    ∃ documents, freezeRoute host expected plan = .ok documents ∧
      RouteOwn host expected documents s := by
  obtain ⟨documents, hfrozen, htrace⟩ := query_bind_trace htrace
  obtain ⟨job, hsame, htrace⟩ := query_bind_trace htrace
  obtain ⟨terminal, -, htrace⟩ := query_bind_trace htrace
  cases terminal with
  | some r => exact absurd rfl htrace
  | none =>
      obtain ⟨removal, hexact, htrace⟩ := query_bind_trace htrace
      obtain ⟨p, hadmission, -⟩ := query_bind_trace htrace
      obtain ⟨auditMissing, hadmitted⟩ := admitRouteTransition_eq_ok.1 hadmission
      exact ⟨documents, hfrozen, hadmitted.own hsame ⟨removal, hexact⟩⟩

/-- The finalizer of a route transition is resumable. -/
theorem finalizeRoute_laws (host : StateHost) (limits : HostCapacityLimits)
    (expected : AuthorizationJob) (plan : TransitionPlan) (s : Store) :
    RouteCommitLaws host limits expected plan s where
  own := finalizeRoute_own
  ends := by
    intro o hok
    obtain ⟨job, hread, hresult, hcommitted, -⟩ := finalizeRoute_converges_iff hok
    exact ⟨job, hread, hresult, hcommitted⟩
  converges := by
    intro o hok
    obtain ⟨job, hread, -, -, hiff⟩ := finalizeRoute_converges_iff hok
    exact ⟨job, hread, hiff⟩
  headless := by
    intro o hok hhead
    obtain ⟨documents, hfrozen, -⟩ := Durable.query_bind_result_ok hok
    obtain ⟨⟨target, hchecked⟩, -⟩ := (freezeRoute_eq_ok host).1 hfrozen
    obtain rfl : documents.toTransitionPlan = plan := hchecked.planned
    obtain ⟨job, -, -, -, hiff⟩ := finalizeRoute_converges_iff hok
    refine hiff.2 ?_
    have hsplit : routeSteps documents.toTransitionPlan job =
        stateSteps documents.toTransitionPlan ++ .append documents.auditEntry ::
          closingSteps job documents.result documents.intentId := List.append_assoc _ _ _
    rw [hsplit]
    exact headroomKept_of_headless (by simp [stateSteps, CommitStep.touches]) hhead
      (finalizeRoute_admits hfrozen hok)

end Route

end StaticHostAgent.Commit
