import StaticHostAgent.Audit.Lookup
import StaticHostAgent.State.MeteredHost

/-!
# Whether a result is the latest of its tenant

The audit entry of a result is looked up and compared with it. The verdict is taken from the
transitions around the entry: one behind it supersedes the result, and for a failure of the executor
also one between the position the failure was published at and the entry.
-/

set_option autoImplicit false

namespace StaticHostAgent.Jobs

open Library Contracts Host Audit State

inductive ResultAuditError where
  | execution (message : String)
  | agent (error : AgentError)
  deriving DecidableEq

/-- `_is_executor_failure`: the publisher and the position are members of one result only
together. -/
def isExecutorFailure (result : OperationResult) : Bool :=
  result.failureAudit.isSome && decide (result.status = .failed)

/-- `_validate_failure_audit_position` -/
def validateFailureAuditPosition (result : OperationResult) (entry : AuditEntry) :
    Except ResultAuditError (Option Nat) :=
  match result.failureAudit with
  | none => .ok none
  | some position =>
      if result.status = .failed then do
        require (decide (position.sequence ≤ entry.sequence))
          (.execution "executor failure audit position exceeds its durable entry")
        require (decide (entry.sequence ≠ position.sequence) ||
            decide (entry.previousEntryDigest = position.predecessorDigest))
          (.execution "executor failure audit predecessor changed")
        pure (some position.sequence)
      else .ok none

/-- `_validate_delete_audit_evidence` -/
def validateDeleteAuditEvidence (job : AuthorizationJob) (entry : AuditEntry) :
    Except ResultAuditError Unit :=
  require (entry.deletionEvidence.isSome &&
      decide (job.expectedSource.deletionEvidence = some entry.deletionEvidence))
    (.execution "successful delete audit disagrees with source authority")

/-- The operations that leave their time in the observed state. -/
def observedTransitions : List Operation :=
  [.archive, .create, .deploy, .import, .reconcile, .rename, .restore, .resume, .rollback, .suspend]

section Verdict

variable (host : StateHost)

/-- The observed state of the tenant that a transition left its time in. -/
def readObserved (tenantId : Option Uuid7) (s : Store) :
    Except ResultAuditError TenantObservedState :=
  match tenantId with
  | none => .error (.agent (.contract (schemaInvalid "value must be a UUIDv7")))
  | some t =>
      match readLocked host (.tenantObserved t) s with
      | .error .fileNotFound =>
          .error (.execution "successful lifecycle audit has no observed tenant state")
      | .error e => .error (.agent e)
      | .ok (.tenantObservedState observed) => .ok observed
      | .ok _ => .error (.agent (.contract (schemaInvalid "contract kind does not match")))

/-- `_validate_result_audit_timestamp` -/
def validateResultAuditTimestamp (job : AuthorizationJob) (result : OperationResult)
    (entry : AuditEntry) (snapshot : AuditCorrelationSnapshot) (s : Store) :
    Except ResultAuditError Unit :=
  if job.compatibilityVersion = .staticJobV1 then .ok ()
  else if result.status = .succeeded ∧ result.operation ∈ observedTransitions ∧
      result.manifest.isSome ∧ snapshot.hasLaterTenantStateTransition = false then do
    let observed ← readObserved host result.tenantId s
    require (decide (entry.timestamp = observed.reconciledAt))
      (.execution "lifecycle audit disagrees with durable transition time")
  else .ok ()

/-- The members of an entry that have to agree with its job and its result. -/
def entryAgrees (job : AuthorizationJob) (result : OperationResult) (entry : AuditEntry) : Bool :=
  decide (entry.operatorPrincipal = job.operatorPrincipal) &&
    decide (entry.operation = result.operation) && decide (entry.tenantId = result.tenantId) &&
    decide (entry.correlationId = result.correlationId) &&
    decide (entry.resultDigest = resultDigest host.encoding result) &&
    decide (entry.resultStatus = result.status)

/-- The audit lookup of a transaction, where an audit error is one of the execution. -/
def lookupAudit (c : Uuid7) (s : Store) : Except ResultAuditError AuditCorrelationSnapshot :=
  match inspectAuditCorrelationWalk host.toAuditHost defaultAuditLimits c s.audit with
  | .ok snapshot => .ok snapshot
  | .error (.audit _) | .error (.auditCapacity _) =>
      .error (.execution "lifecycle audit authority is invalid")
  | .error e => .error (.agent e)

/-- A transition between the published position of a failure and its entry. -/
def repairedAfterSuperseding (position : Option Nat) (previous : Option AuditEntry) : Bool :=
  match position, previous with
  | some sequence, some transition => decide (sequence ≤ transition.sequence)
  | _, _ => false

/-- A result whose entry is not looked at. -/
def unaudited (job : AuthorizationJob) (result : OperationResult) (requireFailure : Bool) : Prop :=
  result.status = .failed ∧ requireFailure = false ∧ job.compatibilityVersion = .staticJobV1

instance (job : AuthorizationJob) (result : OperationResult) (requireFailure : Bool) :
    Decidable (unaudited job result requireFailure) := inferInstanceAs (Decidable (_ ∧ _))

/-- `_validate_result_audit` -/
def validateResultAudit (job : AuthorizationJob) (result : OperationResult) (requireFailure : Bool)
    (s : Store) : Except ResultAuditError Bool :=
  if unaudited job result requireFailure then .ok false
  else do
    let snapshot ← lookupAudit host result.correlationId s
    match snapshot.entry with
    | none => .error (.execution "lifecycle result has no durable audit authority")
    | some entry => do
        require (entryAgrees host job result entry)
          (.execution "lifecycle result disagrees with durable audit authority")
        validateResultAuditTimestamp host job result entry snapshot s
        checkIf (decide (result.operation = .delete) && decide (result.status = .succeeded))
          (validateDeleteAuditEvidence job entry)
        let position ← validateFailureAuditPosition result entry
        pure (!(snapshot.hasLaterTenantStateTransition ||
          repairedAfterSuperseding position snapshot.previousTenantStateTransition))

end Verdict

/-! ## The verdict as a filter -/

/-- The position from which on a transition supersedes a result: where a failure of the executor was
published, or behind the entry. -/
def supersededFrom (result : OperationResult) (entry : AuditEntry) : Nat :=
  if isExecutorFailure result then (result.failureAudit.map FailureAudit.sequence).getD 0
  else entry.sequence + 1

/-- The successful transitions of the tenant that supersede its result. -/
def superseding (entries : List AuditEntry) (result : OperationResult) (entry : AuditEntry) :
    List AuditEntry :=
  entries.filter fun x => decide (supersededFrom result entry ≤ x.sequence) &&
    (result.tenantId.isSome && isTenantStateTransition x result.tenantId)

theorem sequence_le_getLast? {entries : List AuditEntry} {last : AuditEntry}
    (increasing : Increasing entries) (hlast : entries.getLast? = some last) :
    ∀ x ∈ entries, x.sequence ≤ last.sequence := by
  obtain ⟨front, rfl⟩ := List.getLast?_eq_some_iff.1 hlast
  intro x hx
  rcases List.mem_append.1 hx with hx | hx
  · exact Nat.le_of_lt ((List.pairwise_append.1 increasing).2.2 x hx last List.mem_cons_self)
  · rw [List.mem_singleton.1 hx]

/-- Numbered entries are told apart by their numbers. -/
theorem eq_of_sequence {entries : List AuditEntry} (increasing : Increasing entries)
    {x y : AuditEntry} (hx : x ∈ entries) (hy : y ∈ entries) (h : x.sequence = y.sequence) :
    x = y := by
  induction entries with
  | nil => cases hx
  | cons z entries ih =>
      obtain ⟨hfirst, hrest⟩ := List.pairwise_cons.1 increasing
      rcases List.mem_cons.1 hx with rfl | hxrest
      · rcases List.mem_cons.1 hy with rfl | hyrest
        · rfl
        · have hlt := hfirst y hyrest
          omega
      · rcases List.mem_cons.1 hy with rfl | hyrest
        · have hlt := hfirst x hxrest
          omega
        · exact ih hrest hxrest hyrest

/-- What the position check returns. -/
theorem validateFailureAuditPosition_ok {result : OperationResult} {entry : AuditEntry}
    {position : Option Nat} (h : validateFailureAuditPosition result entry = .ok position) :
    (position = none ∧ supersededFrom result entry = entry.sequence + 1) ∨
    (position = some (supersededFrom result entry) ∧ supersededFrom result entry ≤ entry.sequence ∧
      result.status = .failed) := by
  unfold validateFailureAuditPosition at h
  unfold supersededFrom isExecutorFailure
  cases hfailure : result.failureAudit with
  | none =>
      rw [hfailure] at h
      exact .inl ⟨(Except.ok.inj h).symm, rfl⟩
  | some published =>
      rw [hfailure] at h
      dsimp only at h
      by_cases hfailed : result.status = .failed
      · rw [if_pos hfailed] at h
        obtain ⟨_, hle, h⟩ := bind_eq_ok.1 h
        obtain ⟨_, _, h⟩ := bind_eq_ok.1 h
        rw [Option.isSome_some, decide_eq_true hfailed, Bool.true_and, if_pos rfl, Option.map_some,
          Option.getD_some]
        exact .inr ⟨(pure_eq_ok.1 h).symm, of_decide_eq_true (require_eq_ok.1 hle), hfailed⟩
      · rw [if_neg hfailed] at h
        rw [decide_eq_false hfailed, Bool.and_false, if_neg Bool.false_ne_true]
        exact .inl ⟨(Except.ok.inj h).symm, rfl⟩

theorem mem_superseding {entries : List AuditEntry} {result : OperationResult}
    {entry x : AuditEntry} (htenant : entry.tenantId = result.tenantId) :
    x ∈ superseding entries result entry ↔
      x ∈ entries ∧ supersededFrom result entry ≤ x.sequence ∧ sharesTenant entry x = true := by
  unfold superseding sharesTenant
  rw [List.mem_filter, Bool.and_eq_true, decide_eq_true_eq, htenant]

theorem mem_transitionsBehind {entries : List AuditEntry} {entry x : AuditEntry} :
    x ∈ transitionsBehind entries entry ↔
      x ∈ entries ∧ entry.sequence < x.sequence ∧ sharesTenant entry x = true := by
  unfold transitionsBehind
  rw [List.mem_filter, Bool.and_eq_true, decide_eq_true_eq]

theorem mem_transitionsBefore {entries : List AuditEntry} {entry x : AuditEntry} :
    x ∈ transitionsBefore entries entry ↔
      x ∈ entries ∧ x.sequence < entry.sequence ∧ sharesTenant entry x = true := by
  unfold transitionsBefore
  rw [List.mem_filter, Bool.and_eq_true, decide_eq_true_eq]

theorem nonempty_iff {α : Type} {list : List α} : (!list.isEmpty) = true ↔ ∃ x, x ∈ list := by
  cases list with
  | nil => exact ⟨fun h => (nomatch h), fun ⟨_, h⟩ => (nomatch h)⟩
  | cons x list => exact ⟨fun _ => ⟨x, List.mem_cons_self⟩, fun _ => rfl⟩

/-- The two tests of the verdict find a superseding transition exactly if there is one. -/
theorem superseded_iff {entries : List AuditEntry} {result : OperationResult} {entry : AuditEntry}
    {position : Option Nat} (increasing : Increasing entries) (hmem : entry ∈ entries)
    (htenant : entry.tenantId = result.tenantId) (hstatus : entry.resultStatus = result.status)
    (hposition : validateFailureAuditPosition result entry = .ok position) :
    (!(transitionsBehind entries entry).isEmpty ||
      repairedAfterSuperseding position (transitionsBefore entries entry).getLast?) =
        !(superseding entries result entry).isEmpty := by
  rw [Bool.eq_iff_iff, Bool.or_eq_true, nonempty_iff, nonempty_iff]
  rcases validateFailureAuditPosition_ok hposition with
    ⟨rfl, hfrom⟩ | ⟨rfl, hfrom, hfailed⟩
  · -- only what is behind the entry counts
    constructor
    · rintro (⟨x, hx⟩ | hrepaired)
      · obtain ⟨hin, hlt, hshares⟩ := mem_transitionsBehind.1 hx
        exact ⟨x, (mem_superseding htenant).2 ⟨hin, by omega, hshares⟩⟩
      · cases hrepaired
    · rintro ⟨x, hx⟩
      obtain ⟨hin, hle, hshares⟩ := (mem_superseding htenant).1 hx
      exact .inl ⟨x, mem_transitionsBehind.2 ⟨hin, by omega, hshares⟩⟩
  · constructor
    · rintro (⟨x, hx⟩ | hrepaired)
      · obtain ⟨hin, hlt, hshares⟩ := mem_transitionsBehind.1 hx
        exact ⟨x, (mem_superseding htenant).2 ⟨hin, by omega, hshares⟩⟩
      · -- the last transition before the entry lies behind the published position
        cases hlast : (transitionsBefore entries entry).getLast? with
        | none =>
            rw [hlast] at hrepaired
            cases hrepaired
        | some last =>
            rw [hlast] at hrepaired
            obtain ⟨hin, _, hshares⟩ := mem_transitionsBefore.1 (List.mem_of_getLast? hlast)
            exact ⟨last, (mem_superseding htenant).2 ⟨hin, of_decide_eq_true hrepaired, hshares⟩⟩
    · rintro ⟨x, hx⟩
      obtain ⟨hin, hle, hshares⟩ := (mem_superseding htenant).1 hx
      rcases Nat.lt_trichotomy x.sequence entry.sequence with hlt | heq | hgt
      · have hbefore := mem_transitionsBefore.2 ⟨hin, hlt, hshares⟩
        obtain ⟨last, hlast⟩ : ∃ last, (transitionsBefore entries entry).getLast? = some last :=
          Option.isSome_iff_exists.1
            (List.getLast?_isSome.2 (List.ne_nil_of_mem hbefore))
        have hsorted : Increasing (transitionsBefore entries entry) :=
          List.Pairwise.filter _ increasing
        have hmax := sequence_le_getLast? hsorted hlast x hbefore
        refine .inr ?_
        rw [hlast]
        exact decide_eq_true (hle.trans hmax)
      · -- the entry itself is no transition: it failed
        obtain rfl := eq_of_sequence increasing hin hmem heq
        have htransition := (Bool.and_eq_true_iff.1 hshares).2
        have hsucceeded := (Bool.and_eq_true_iff.1 (Bool.and_eq_true_iff.1 htransition).1).2
        rw [hstatus, hfailed] at hsucceeded
        cases of_decide_eq_true hsucceeded
      · exact .inl ⟨x, mem_transitionsBehind.2 ⟨hin, hgt, hshares⟩⟩

section Exact

variable {host : StateHost} {job : AuthorizationJob} {result : OperationResult}
  {requireFailure : Bool} {s : Store} {verdict : Bool}

/-- A result that is looked at has one entry, which agrees with it; the verdict is whether nothing
supersedes it. -/
theorem validateResultAudit_ok {state : AuditState} (haudited : ¬ unaudited job result requireFailure)
    (haccepted : inspectAudit host.toAuditHost defaultAuditLimits s.audit = .ok state)
    (h : validateResultAudit host job result requireFailure s = .ok verdict) :
    ∃ entry, carrying (flatEntries host.toAuditHost defaultAuditLimits s.audit)
        result.correlationId = [entry] ∧ entryAgrees host job result entry = true ∧
      verdict = (superseding (flatEntries host.toAuditHost defaultAuditLimits s.audit) result
        entry).isEmpty := by
  let log : AcceptedLog host.toAuditHost defaultAuditLimits := ⟨s.audit, state, haccepted⟩
  unfold validateResultAudit at h
  rw [if_neg haudited] at h
  obtain ⟨snapshot, hlookup, h⟩ := bind_eq_ok.1 h
  have hwalk : inspectAuditCorrelationWalk host.toAuditHost defaultAuditLimits result.correlationId
      s.audit = .ok snapshot := by
    unfold lookupAudit at hlookup
    split at hlookup
    · rename_i found hfound
      rw [← Except.ok.inj hlookup]
      exact hfound
    · cases hlookup
    · cases hlookup
    · cases hlookup
  rw [log.inspectAuditCorrelationWalk_eq] at hwalk
  -- two entries of one correlation are refused by the walk
  by_cases hone : (carrying log.entries result.correlationId).length ≤ 1
  · rw [if_pos hone] at hwalk
    obtain rfl := (Except.ok.inj hwalk).symm
    cases hentry : (carrying log.entries result.correlationId).head? with
    | none =>
        unfold snapshotOf at h
        rw [hentry] at h
        cases h
    | some entry =>
        have hcarrying := (head?_of_length hone).1 hentry
        have hmem : entry ∈ log.entries := (List.mem_filter.1 (List.mem_of_head? hentry)).1
        obtain ⟨archive, segments, scan, hread⟩ := log.exists_read
        unfold snapshotOf at h
        rw [hentry] at h
        obtain ⟨_, hagrees, h⟩ := bind_eq_ok.1 h
        obtain ⟨_, _, h⟩ := bind_eq_ok.1 h
        obtain ⟨_, _, h⟩ := bind_eq_ok.1 h
        obtain ⟨position, hposition, h⟩ := bind_eq_ok.1 h
        have hagrees := require_eq_ok.1 hagrees
        refine ⟨entry, hcarrying, hagrees, ?_⟩
        have hparts := hagrees
        unfold entryAgrees at hparts
        simp only [Bool.and_eq_true, decide_eq_true_eq] at hparts
        have hsuperseded := superseded_iff hread.flat.increasing hmem hparts.1.1.1.2 hparts.2
          hposition
        rw [← pure_eq_ok.1 h]
        exact (congrArg (fun superseded => !superseded) hsuperseded).trans (Bool.not_not _)
  · rw [if_neg hone] at hwalk
    cases hwalk

end Exact

/-! ## All projections -/

/-- A state whose audit log the chain validator accepts. -/
structure AcceptedState (host : StateHost) where
  store : Store
  position : AuditState
  accepted : inspectAudit host.toAuditHost defaultAuditLimits store.audit = .ok position

def AcceptedState.entries {host : StateHost} (accepted : AcceptedState host) : List AuditEntry :=
  flatEntries host.toAuditHost defaultAuditLimits accepted.store.audit

/-- The verdict of a result is the filter, if its entry is looked at. -/
def VerdictExact {host : StateHost} (accepted : AcceptedState host) (job : AuthorizationJob)
    (result : OperationResult) (requireFailure : Bool) : Prop :=
  ∀ verdict, validateResultAudit host job result requireFailure accepted.store = .ok verdict →
    ∃ entry, carrying accepted.entries result.correlationId = [entry] ∧
      (verdict = true ↔ superseding accepted.entries result entry = [])

/-- The answers of the reads are those of the filters over the flat list. -/
structure ProjectionsExact {host : AuditHost} {limits : AuditLimits}
    (log : AcceptedLog host limits) : Prop where
  /-- The entry of a correlation, the previous transition and whether there is a later one. -/
  lookup : ∀ c, inspectAuditCorrelationWalk host limits c log.store =
    if (carrying log.entries c).length ≤ 1 then .ok (snapshotOf log.state log.entries c)
    else .error repeatedCorrelation
  /-- The position that a dispatch boundary names. -/
  dispatch : ∀ archive segments, readSegments host limits log.store = .ok (archive, segments) →
    ∀ boundary stop start, stop ≤ log.entries.length →
      (dispatchTransitionStart host segments boundary stop = .ok start ↔
        start = boundary.entryCount ∧ boundary.entryCount ≤ stop ∧
          boundary.terminalDigest =
            terminalBehind host.encoding none (log.entries.take boundary.entryCount))
  /-- The transitions behind an entry, or from a dispatch boundary up to it. -/
  later : ∀ c maximum boundary transitions,
    inspectLaterAuditTransitions host limits c maximum boundary log.store = .ok transitions ↔
      (carrying log.entries c = [] ∧ boundary = none ∧ transitions = []) ∨
      ∃ entry start, carrying log.entries c = [entry] ∧
        StartsAt host log.entries entry start boundary ∧
        transitions = transitionsBetween log.entries start (boundary.map fun _ => entry.sequence) ∧
        (transitions.map AuditTransition.correlationId).Nodup ∧ transitions.length ≤ maximum

theorem projectionsExact {host : AuditHost} {limits : AuditLimits}
    (log : AcceptedLog host limits) : ProjectionsExact log where
  lookup := log.inspectAuditCorrelationWalk_eq
  dispatch := by
    intro archive segments hread boundary stop start hstop
    obtain ⟨archive', segments', scan, h⟩ := log.exists_read
    have hsame := hread.symm.trans h.read
    cases hsame
    exact dispatchTransitionStart_iff h.flat hstop start
  later := log.inspectLaterAuditTransitions_iff

theorem verdictExact {host : StateHost} (accepted : AcceptedState host) {job : AuthorizationJob}
    {result : OperationResult} {requireFailure : Bool}
    (haudited : ¬ unaudited job result requireFailure) :
    VerdictExact accepted job result requireFailure := by
  intro verdict h
  obtain ⟨entry, hcarrying, _, rfl⟩ := validateResultAudit_ok haudited accepted.accepted h
  exact ⟨entry, hcarrying, List.isEmpty_iff⟩

/-- The reads of every accepted log answer with the filters, and so does the verdict of every result
whose entry is looked at; the verdict of the others is negative. -/
theorem audit_projections_exact :
    (∀ (host : AuditHost) (limits : AuditLimits) (log : AcceptedLog host limits),
      ProjectionsExact log) ∧
    ∀ (host : StateHost) (accepted : AcceptedState host) (job : AuthorizationJob)
      (result : OperationResult) (requireFailure : Bool),
      (¬ unaudited job result requireFailure → VerdictExact accepted job result requireFailure) ∧
      (unaudited job result requireFailure →
        validateResultAudit host job result requireFailure accepted.store = .ok false) := by
  refine ⟨fun host limits log => projectionsExact log, ?_⟩
  intro host accepted job result requireFailure
  exact ⟨fun haudited => verdictExact accepted haudited, fun hunaudited => if_pos hunaudited⟩

/-! ## A failure that is not looked at -/

/-- The entry of a failed deployment. -/
def failedEntry : AuditEntry :=
  { sampleEntry .deploy (placeDigest .result 1) with resultStatus := .failed }

noncomputable def failedHost : StateHost :=
  meteredHost (tableAuditHost [.auditEntry failedEntry]) 0 0

noncomputable def failedStore : Store where
  files := Directory.empty
  tenants := Directory.empty
  platformState := none
  releases := Directory.empty
  audit := ⟨none, Directory.empty.insert 0 (failedHost.encoding.canonical (.auditEntry failedEntry))⟩

def failedOperation : OperationResult :=
  ⟨.authorizationJob sampleJobId, sampleCorrelation, .deploy, .failed, some sampleTenant, none, none,
    none, none, some .unavailable, none⟩

/-- A job of the first version. -/
def firstVersionJob : AuthorizationJob :=
  ⟨.staticJobV1, sampleJobId, "operator",
    ⟨.deploy, sampleCorrelation, some sampleTenant, none, none, none, none⟩, placeDigest .request 2,
    none, ⟨false, some .active, none, none, none, ⟨.platformState, 0⟩, none⟩, none, sampleTime,
    .failed, none, none, Dispatch.none⟩

/-- The failure of a first version job has an entry, nothing stands behind it, and the verdict is
negative. -/
theorem verdict_unaudited :
    ¬ ∀ (host : StateHost) (accepted : AcceptedState host) (job : AuthorizationJob)
      (result : OperationResult) (requireFailure : Bool),
      VerdictExact accepted job result requireFailure := by
  intro h
  have haccepted : (inspectAudit failedHost.toAuditHost defaultAuditLimits failedStore.audit).isOk =
      true := by rfl
  cases hposition : inspectAudit failedHost.toAuditHost defaultAuditLimits failedStore.audit with
  | error e =>
      rw [hposition] at haccepted
      cases haccepted
  | ok position =>
      obtain ⟨entry, hcarrying, hverdict⟩ := h failedHost ⟨failedStore, position, hposition⟩
        firstVersionJob failedOperation false false rfl
      have hentries : flatEntries failedHost.toAuditHost defaultAuditLimits failedStore.audit =
          [failedEntry] := by rfl
      have hnothing : ∀ entry, superseding [failedEntry] failedOperation entry = [] := by
        intro entry
        unfold superseding
        rw [List.filter_eq_nil_iff]
        intro x hx
        obtain rfl := List.mem_singleton.1 hx
        have hfailed : isTenantStateTransition failedEntry failedOperation.tenantId = false := by
          decide
        rw [hfailed, Bool.and_false, Bool.and_false]
        exact Bool.false_ne_true
      have hnone : superseding (AcceptedState.entries ⟨failedStore, position, hposition⟩)
          failedOperation entry = [] := by
        unfold AcceptedState.entries
        rw [hentries]
        exact hnothing entry
      cases hverdict.2 hnone

end StaticHostAgent.Jobs
