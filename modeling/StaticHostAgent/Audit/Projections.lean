import StaticHostAgent.Audit.AppendInvariant
import StaticHostAgent.Audit.Linked
import StaticHostAgent.Library.EarlyReturn

/-!
# Projections of the audit chain

After the validation pass the segments are walked again: for the transition before an entry, for the
position a dispatch boundary names, and for the transitions behind either. Every walk is a loop over
the lines of the segments that may return early.
-/

set_option autoImplicit false

namespace StaticHostAgent.Audit

open Library Contracts Host

/-- One bounded projection of a successful transition. -/
structure AuditTransition where
  sequence : Nat
  correlationId : Uuid7
  tenantId : Uuid7
  operation : Operation
  resultDigest : Digest
  deriving DecidableEq

section Walks

variable (host : AuditHost)

/-- Walk over the lines of all segments. -/
def walkLines {ρ σ : Type} (body : σ → AuditEntry → Except AgentError (Control ρ σ))
    (segments : List Segment) (state : σ) : Except AgentError (Control ρ σ) :=
  loopUntil (fun state segment =>
    loopUntil (fun state line => do
      let document ← liftContract (decodeAuditEntry host.encoding line)
      body state document) (splitLines segment.data) state) segments state

/-- One line of `_previous_tenant_state_transition`. -/
def previousBody (tenantId : Uuid7) (matchingSequence : Nat) (previous : Option AuditEntry)
    (document : AuditEntry) :
    Except AgentError (Control (Option AuditEntry) (Option AuditEntry)) :=
  if document.sequence = matchingSequence then .ok (.finished previous)
  else if isTenantStateTransition document (some tenantId) then .ok (.running (some document))
  else .ok (.running previous)

/-- `_previous_tenant_state_transition` -/
def walkPreviousTransition (segments : List Segment) (matching : Option AuditEntry) :
    Except AgentError (Option AuditEntry) :=
  match matching with
  | none => .ok none
  | some entry =>
      match entry.tenantId with
      | none => .ok none
      | some tenantId => do
          let walked ← walkLines host (previousBody tenantId entry.sequence) segments none
          match walked with
          | .finished previous => pure previous
          | .running previous => pure previous

/-- One line of `_dispatch_transition_start`. -/
def dispatchBody (boundary : AuditBoundary) (_ : Unit) (document : AuditEntry) :
    Except AgentError (Control Nat Unit) :=
  if document.sequence = boundary.entryCount - 1 then do
    require (decide (boundary.terminalDigest = some (auditEntryDigest host.encoding document)))
      (.audit "dispatch audit boundary digest disagrees with history")
    pure (.finished boundary.entryCount)
  else .ok (.running ())

/-- `_dispatch_transition_start` -/
def dispatchTransitionStart (segments : List Segment) (boundary : AuditBoundary) (stop : Nat) :
    Except AgentError Nat := do
  require (decide (boundary.entryCount ≤ stop))
    (.audit "dispatch audit boundary is outside its rejection prefix")
  if boundary.entryCount = 0 then do
    require boundary.terminalDigest.isNone
      (.audit "empty dispatch audit boundary has a terminal digest")
    pure 0
  else do
    let walked ← walkLines host (dispatchBody host boundary) segments ()
    match walked with
    | .finished start => pure start
    | .running _ => throw (.audit "dispatch audit boundary is unavailable")

/-- The transitions collected so far, and their correlations. -/
structure TransitionScan where
  transitions : List AuditTransition
  correlations : List Uuid7

/-- The transition that an entry is projected to, if it is a successful one of some tenant. -/
def projectTransition (document : AuditEntry) : Option AuditTransition :=
  match document.tenantId with
  | none => none
  | some tenantId =>
      if document.resultStatus = .succeeded ∧ document.operation ∈ tenantStateTransitions then
        some ⟨document.sequence, document.correlationId, tenantId, document.operation,
          document.resultDigest⟩
      else none

/-- Collect the transition of an entry, if it is one. -/
def collectTransition (maximumTransitions : Nat) (scan : TransitionScan) (document : AuditEntry) :
    Except AgentError TransitionScan :=
  match projectTransition document with
  | none => .ok scan
  | some transition => do
      require (decide (document.correlationId ∉ scan.correlations))
        (.audit "later audit transition correlation appears multiple times")
      require (decide (scan.transitions.length < maximumTransitions))
        (.auditCapacity "later audit transitions exceed their result bound")
      pure ⟨scan.transitions ++ [transition], document.correlationId :: scan.correlations⟩

/-- One line of `_later_audit_transitions`. -/
def laterBody (start : Nat) (stop : Option Nat) (maximumTransitions : Nat) (scan : TransitionScan)
    (document : AuditEntry) : Except AgentError (Control (List AuditTransition) TransitionScan) :=
  if document.sequence < start then .ok (.running scan)
  else if stop.any fun stop => decide (stop ≤ document.sequence) then
    .ok (.finished scan.transitions)
  else do
    let scan ← collectTransition maximumTransitions scan document
    pure (.running scan)

/-- Where the projection of an entry starts. -/
def transitionStart (segments : List Segment) (entry : AuditEntry)
    (dispatchBoundary : Option AuditBoundary) : Except AgentError Nat :=
  match dispatchBoundary with
  | none => .ok (entry.sequence + 1)
  | some boundary => dispatchTransitionStart host segments boundary entry.sequence

/-- `_later_audit_transitions` -/
def laterAuditTransitions (segments : List Segment) (matching : Option AuditEntry)
    (maximumTransitions : Nat) (dispatchBoundary : Option AuditBoundary) :
    Except AgentError (List AuditTransition) :=
  match matching with
  | none => do
      require dispatchBoundary.isNone (.audit "dispatch audit projection has no rejection entry")
      pure []
  | some entry => do
      let start ← transitionStart host segments entry dispatchBoundary
      let stop := dispatchBoundary.map fun _ => entry.sequence
      let walked ← walkLines host (laterBody start stop maximumTransitions) segments ⟨[], []⟩
      match walked with
      | .finished transitions => pure transitions
      | .running scan => pure scan.transitions

end Walks

section Reads

variable (host : AuditHost) (limits : AuditLimits)

/-- `inspect_audit_correlation`, with the walk for the previous transition as the source makes
it. -/
def inspectAuditCorrelationWalk (correlationId : Uuid7) (a : AuditStore) :
    Except AgentError AuditCorrelationSnapshot := do
  let (archive, segments) ← readSegments host limits a
  let scan ← validateChainRecords host limits (.correlation correlationId) archive segments
  let previous ← walkPreviousTransition host segments scan.matchingEntry
  pure ⟨scan.state segments, scan.matchingEntry, previous, scan.hasLaterTenantStateTransition⟩

/-- `inspect_later_audit_transitions`, for a maximum within the committed boundary. -/
def inspectLaterAuditTransitions (correlationId : Uuid7) (maximumTransitions : Nat)
    (dispatchBoundary : Option AuditBoundary) (a : AuditStore) :
    Except AgentError (List AuditTransition) := do
  let (archive, segments) ← readSegments host limits a
  let scan ← validateChainRecords host limits (.correlation correlationId) archive segments
  laterAuditTransitions host segments scan.matchingEntry maximumTransitions dispatchBoundary

end Reads

end StaticHostAgent.Audit
