import StaticHostAgent.Commit.Route
import StaticHostAgent.State.CreateNamespace

/-!
# The create commit

Commit or replay one create: make the namespace and the undeployed state of the tenant, append the
audit entry, publish the result, complete the job and clear the intent.
-/

set_option autoImplicit false

namespace StaticHostAgent.Commit

open Library Contracts Host Audit State

section Create

variable (host : StateHost)

def createSameJob : AuthorizationJob → Store → Except AgentError AuthorizationJob :=
  requireSameJob host .create withoutEvidence

def createExactIntent (plan : TransitionPlan) : Store → Except AgentError ExactIntent :=
  requireExactIntent host .create plan.intentId plan.intent

/-- The result of a finished create, or `none` while its intent is there. -/
def terminalCreateWithoutIntent (job : AuthorizationJob) (plan : TransitionPlan) (s : Store) :
    Except AgentError (Option OperationResult) :=
  terminalWithoutIntent host .create
    ⟨"nonterminal create lost its durable intent", "terminal create state disagrees with its plan",
      "terminal create state is incomplete", "terminal create audit entry is absent"⟩ job plan s

/-- Which records of a create are missing. -/
structure MissingState where
  desired : Bool
  observed : Bool
  result : Bool

/-- The writes that remain. -/
def createWrites (job : AuthorizationJob) (plan : TransitionPlan) (missing : MissingState) :
    List (Bool × Document) :=
  [(missing.desired, .site plan.manifest),
    (missing.observed, .tenantObservedState plan.observedState),
    (missing.result, .operationResult plan.result),
    (decide (job.phase = .claimed), .authorizationJob (completedJob job))]

/-- What the remaining writes and directories may allocate. -/
def createReservation (writes : List Document) (directories : Nat) (auditMissing : Bool) :
    Except AgentError CapacityReservation := do
  let allocations ← writes.mapM fun document => do
    let raw ← liftContract (canonicalJsonBytes host.encoding document)
    pure (host.allocation.allocationUpperBound raw.length)
  let entries := writes.length + directories + auditMissing.toNat
  let segment := if auditMissing then
    host.allocation.allocationUpperBound defaultAuditLimits.maximumSegmentBytes else 0
  pure ⟨allocations.sum + segment + host.allocation.namespaceAllocationUpperBound entries, entries⟩

/-- What a create adds to the inventory. -/
def createGrowth (plan : TransitionPlan) (tenantMissing resultMissing : Bool) :
    StateInventoryReservation :=
  ⟨tenantMissing.toNat, resultMissing.toNat, if resultMissing then
    host.allocation.allocationUpperBound
      (host.encoding.canonical (.operationResult plan.result)).length else 0⟩

/-- Every record is missing or exact, and what is missing fits. The result is looked up under the
job, which its provenance names. -/
def admitMissingState (limits : HostCapacityLimits) (job : AuthorizationJob) (plan : TransitionPlan)
    (s : Store) : Except AgentError MissingState := do
  let disagrees := "existing create terminal state disagrees"
  let desired ← missingExact host disagrees (.tenantDesired plan.tenantId) (.site plan.manifest) s
  let observed ← missingExact host disagrees (.tenantObserved plan.tenantId)
    (.tenantObservedState plan.observedState) s
  let result ← missingExact host disagrees (.authorizationResult job.jobId)
    (.operationResult plan.result) s
  let missing : MissingState := ⟨desired, observed, result⟩
  let auditMissing ← inspectNeedsAppend host .create plan.auditEntry s
  let inventory ← measureInventory host s
  let tenantMissing := decide (plan.tenantId ∉ inventory.tenantIds)
  let directories ← measureCreateTenantNamespaceGrowth host plan.tenantId s
  require (decide (tenantMissing = decide (directories = 3)))
    (.commit .create "create tenant inventory and namespace shape disagree")
  let reservation ← createReservation host (flagged (createWrites job plan missing)) directories
    auditMissing
  if reservation.uniqueInodes = 0 then pure missing else do
    admitInventory host (createGrowth host plan tenantMissing result) s
    admitReleaseCapacity limits reservation (host.capacity s)
    pure missing

/-- The writes of a create whose intent is there. -/
def commitCreate (limits : HostCapacityLimits) (job : AuthorizationJob) (plan : TransitionPlan) :
    Durable Store AgentError CommitOutcome := do
  let intentRemoval ← Durable.query (createExactIntent host plan)
  let missing ← Durable.query (admitMissingState host limits job plan)
  ensureCreateTenantState host plan.tenantId plan.manifest plan.observedState
  ensureAudit host .create plan.auditEntry
  ensureResult host .create job plan.result missing.result
  ensureCompletedJob host job
  removeReconciledIntent host intentRemoval.path intentRemoval.token
  pure ⟨plan.result, missing.result⟩

/-- Commit or replay a create. -/
def finalizeCreate (limits : HostCapacityLimits) (job : AuthorizationJob) (plan : TransitionPlan) :
    Durable Store AgentError CommitOutcome := do
  let documents ← Durable.query fun _ => freezeCreate host job plan
  let currentJob ← Durable.query (createSameJob host job)
  match ← Durable.query (terminalCreateWithoutIntent host currentJob documents) with
  | some terminal => pure ⟨terminal, false⟩
  | none => commitCreate host limits currentJob documents

end Create

end StaticHostAgent.Commit
