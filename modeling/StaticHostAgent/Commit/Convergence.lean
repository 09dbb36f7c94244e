import StaticHostAgent.Commit.SharedAlong

/-!
# Convergence of a commit

A commit that performs its steps wherever the append stays admitted converges exactly if the append
does stay admitted (`converges_iff_headroomKept`). The terminal commits differ in their steps and in
their own checks, not in this argument. `Foreign` is what tells a state of another transition.
-/

set_option autoImplicit false

namespace StaticHostAgent.Commit

open Library Contracts Host Audit State

variable {host : StateHost} {α : Type}

/-- The append is admitted where it is made: after the steps before it. -/
def AppendAdmitted (host : StateHost) (entry : AuditEntry) (before : List CommitStep) (s : Store) :
    Prop :=
  auditMissing host entry (settleAll (stepsOf host before) s) = true →
    admitMissingAudit host entry (settleAll (stepsOf host before) s) = .ok ()

/-- While the append stays admitted, the steps of a commit are orderly. -/
theorem HeadroomKept.orderly {entry : AuditEntry} {steps : List CommitStep} {s₀ : Store}
    (hkept : HeadroomKept host entry steps s₀) (hseparate : Separate host steps)
    (hstart : Appendable host entry s₀.audit)
    (honly : ∀ e ∈ steps, appendsOnly entry e = true)
    (hready : ∀ before e after, steps = before ++ e :: after → ∀ s, OnTheWay host steps s₀ s →
      (∀ f ∈ before, f.pending host s = false) → (∀ x, e ≠ .append x) → e.Ready host s) :
    Orderly (stepsOf host steps) (OnTheWay host steps s₀) := by
  refine orderly_along hseparate fun before e after hsteps s hs hbefore hpending => ?_
  cases e with
  | append x =>
      have hx : appendsOnly entry (.append x) = true :=
        honly _ (hsteps ▸ List.mem_append_right _ List.mem_cons_self)
      obtain rfl : x = entry := of_decide_eq_true hx
      exact (hstart.along hs honly).ready (hkept s hs hpending)
  | _ => exact hready before _ after hsteps s hs hbefore (by simp)

/-- If the append is admitted where it is made, all steps are settled in the end. -/
theorem AppendAdmitted.settled {entry : AuditEntry} {before after : List CommitStep} {s : Store}
    (happend : AppendAdmitted host entry before s)
    (hseparate : Separate host (before ++ .append entry :: after))
    (happendable : Appendable host entry (settleAll (stepsOf host before) s).audit)
    (hbefore : ∀ e ∈ before, e.pending host (settleAll (stepsOf host before) s) = false)
    (hafter : ∀ e ∈ after, ∀ u, e.Ready host u) :
    ∀ e ∈ before ++ .append entry :: after, e.pending host
      (settleAll (stepsOf host (before ++ .append entry :: after)) s) = false := by
  obtain ⟨-, hrest, -⟩ := List.pairwise_append.1 hseparate
  refine settled_settleAll_append hseparate hbefore ?_
  refine (@settled_settleAll_append _ [.append entry]) hrest ?_ ?_
  · exact settled_single fun hpending => happendable.ready (happend hpending)
  · exact settled_settleAll (List.pairwise_cons.1 hrest).2 hafter

/-- While the append stays admitted, it is admitted where a later run makes it. -/
theorem HeadroomKept.admitted {entry : AuditEntry} {steps before after : List CommitStep}
    {s₀ s : Store} (hkept : HeadroomKept host entry steps s₀)
    (ho : Orderly (stepsOf host steps) (OnTheWay host steps s₀))
    (hsteps : steps = before ++ after) (hs : OnTheWay host steps s₀ s) :
    AppendAdmitted host entry before s :=
  fun hmissing => hkept _ (onTheWay_settleAll ho hsteps hs) hmissing

/-- A commit whose later runs need the append to stay admitted. -/
theorem converges_iff_headroomKept {p : Durable Store AgentError α} {Post : α → Prop}
    {entry : AuditEntry} {steps : List CommitStep} {s₀ : Store} {a : α}
    (hstart : Performs p (stepsOf host steps) s₀ a)
    (horderly : HeadroomKept host entry steps s₀ →
      Orderly (stepsOf host steps) (OnTheWay host steps s₀))
    (hperforms : HeadroomKept host entry steps s₀ → ∀ s, OnTheWay host steps s₀ s →
      ∃ b, Post b ∧ Performs p (stepsOf host steps) s b)
    (hadmits : ∀ s b, (p s).result = .ok b → auditMissing host entry s = true →
      admitMissingAudit host entry s = .ok ()) :
    p.Converges Post s₀ ↔ HeadroomKept host entry steps s₀ :=
  converges_iff (N := fun s => auditMissing host entry s = true →
    admitMissingAudit host entry s = .ok ()) hstart
    (fun hkept => ⟨horderly hkept, hperforms hkept⟩) hadmits

/-! ## What remains to be reserved -/

theorem pendingSum_append (weight : CommitStep → Nat) (es fs : List CommitStep) (s : Store) :
    pendingSum host weight (es ++ fs) s =
      pendingSum host weight es s + pendingSum host weight fs s := by
  simp [pendingSum]

theorem pendingSum_cons (weight : CommitStep → Nat) (e : CommitStep) (es : List CommitStep)
    (s : Store) : pendingSum host weight (e :: es) s =
      (if e.pending host s then weight e else 0) + pendingSum host weight es s := List.sum_cons

/-- The writes that close a commit reserve what their pending steps do. -/
theorem closing_reserved {job : AuthorizationJob} {result : OperationResult} {intentId : Uuid7}
    {s : Store} {weight : CommitStep → Nat} (hresult : ResultReady host job result s)
    (hjob : JobReady host job s) (hphase : job.phase ∈ [JobPhase.claimed, .completed])
    (hremove : ∀ p, weight (.remove p) = 0) :
    pendingSum host weight (closingSteps job result intentId) s =
      (if (s.find? (.result job.jobId)).isNone then
        weight (.put (.result job.jobId) (.operationResult result)) else 0) +
      (if job.phase = .claimed then
        weight (.put (.job job.jobId) (.authorizationJob (completedJob job))) else 0) := by
  unfold closingSteps
  rw [pendingSum_cons, pendingSum_cons, pendingSum_cons, hresult.pending, hjob.pending hphase,
    hremove]
  simp [pendingSum]

end StaticHostAgent.Commit
