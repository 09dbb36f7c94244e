import StaticHostAgent.Commit.Agreement
import StaticHostAgent.Commit.SharedFacts

/-!
# The end of a commit

What the create and the route path return when the intent of the transition is gone already: the
planned result, if everything else is as planned.
-/

set_option autoImplicit false

namespace StaticHostAgent.Commit

open Library Contracts Host Audit State

/-- The texts of a path for the end of its commit. -/
structure TerminalTexts where
  lost : String
  disagrees : String
  incomplete : String
  absent : String

/-- The result of a finished transition, or `none` while an intent is there. -/
def terminalWithoutIntent (host : StateHost) (path : CommitPath) (texts : TerminalTexts)
    (job : AuthorizationJob) (plan : TransitionPlan) (s : Store) :
    Except AgentError (Option OperationResult) := do
  let records ← measureIntentRecords host s
  if records ≠ [] then pure none else do
    require (decide (job.phase = .completed)) (.commit path texts.lost)
    requireTerminalRecords host path texts.disagrees texts.incomplete
      [(.tenantDesired plan.tenantId, .site plan.manifest),
        (.tenantObserved plan.tenantId, .tenantObservedState plan.observedState),
        (.authorizationResult job.jobId, .operationResult plan.result)] s
    let auditMissing ← inspectNeedsAppend host path plan.auditEntry s
    require (!auditMissing) (.commit path texts.absent)
    pure (some plan.result)

/-- The commit is finished: its intent is gone and everything is as planned. -/
structure CommitDone (host : StateHost) (path : CommitPath) (job : AuthorizationJob)
    (plan : TransitionPlan) (s : Store) : Prop where
  measured : measureIntentRecords host s = .ok []
  completed : job.phase = .completed
  desired : readLocked host (.tenantDesired plan.tenantId) s = .ok (.site plan.manifest)
  observed : readLocked host (.tenantObserved plan.tenantId) s =
    .ok (.tenantObservedState plan.observedState)
  result : readLocked host (.authorizationResult job.jobId) s = .ok (.operationResult plan.result)
  audit : inspectNeedsAppend host path plan.auditEntry s = .ok false

variable {host : StateHost} {path : CommitPath} {texts : TerminalTexts} {job : AuthorizationJob}
  {plan : TransitionPlan} {s : Store}

/-- What is looked at where no intent is there any more. -/
theorem cleared_eq_some {terminal : Except AgentError (Option OperationResult)}
    {r : OperationResult} :
    (do
      let records ← measureIntentRecords host s
      if records ≠ [] then pure none else terminal) = .ok (some r) ↔
      measureIntentRecords host s = .ok [] ∧ terminal = .ok (some r) := by
  rw [bind_eq_ok]
  constructor
  · rintro ⟨records, hmeasured, h⟩
    by_cases hrecords : records = []
    · rw [if_neg (not_not.2 hrecords)] at h
      exact ⟨hrecords ▸ hmeasured, h⟩
    · rw [if_pos hrecords] at h
      cases h
  · rintro ⟨hmeasured, h⟩
    exact ⟨[], hmeasured, h⟩

/-- The end of a commit answers `none` only while an intent is there. -/
theorem cleared_eq_none {terminal : Except AgentError (Option OperationResult)}
    (hterminal : terminal ≠ .ok none) :
    (do
      let records ← measureIntentRecords host s
      if records ≠ [] then pure none else terminal) = .ok none ↔
      ∃ records, measureIntentRecords host s = .ok records ∧ records ≠ [] := by
  rw [bind_eq_ok]
  refine exists_congr fun records => and_congr_right fun _ => ⟨fun h hrecords => ?_, fun h => ?_⟩
  · rw [if_neg (not_not.2 hrecords)] at h
    exact hterminal h
  · rw [if_pos h]
    rfl

theorem terminalWithoutIntent_eq_some {r : OperationResult} :
    terminalWithoutIntent host path texts job plan s = .ok (some r) ↔
      CommitDone host path job plan s ∧ r = plan.result := by
  unfold terminalWithoutIntent
  rw [cleared_eq_some]
  simp only [bind_eq_ok, require_eq_ok, decide_eq_true_eq,
    requireTerminalRecords_eq_ok, Bool.not_eq_true', pure_eq_ok, List.forall_mem_cons,
    List.not_mem_nil, false_implies, implies_true, and_true, Option.some.injEq]
  constructor
  · rintro ⟨hmeasured, -, hcompleted, -, ⟨hdesired, hobserved, hresult⟩, _, haudit, -, rfl, rfl⟩
    exact ⟨⟨hmeasured, hcompleted, hdesired, hobserved, hresult, haudit⟩, rfl⟩
  · rintro ⟨h, rfl⟩
    exact ⟨h.measured, (), h.completed, (), ⟨h.desired, h.observed, h.result⟩, false, h.audit, (),
      rfl, rfl⟩

theorem terminalWithoutIntent_eq_none :
    terminalWithoutIntent host path texts job plan s = .ok none ↔
      ∃ records, measureIntentRecords host s = .ok records ∧ records ≠ [] := by
  refine cleared_eq_none ?_
  simp only [ne_eq, bind_eq_ok, pure_eq_ok, reduceCtorEq, and_false, exists_false,
    not_false_eq_true]

end StaticHostAgent.Commit
