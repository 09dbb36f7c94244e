import StaticHostAgent.Activation.Route
import StaticHostAgent.Library.Restartable
import StaticHostAgent.Commit.RouteRuns

/-!
# What a commit leaves when it fails

Every part of a commit keeps an invariant of the records it does not touch, and raises a capacity
error only from its admission or from the audit append. From this follow, for the route commit, that
a failed run still has its intent and, if the append raises no capacity error, that a capacity error
comes before the first write; and for the archive commit, that every write leaves the archive record.
-/

set_option autoImplicit false

namespace StaticHostAgent.Activation

open Library Contracts Host Audit State Commit

/-- No capacity error. -/
def Ordinary (e : AgentError) : Prop := isCapacityError e = false

/-! ## Readings -/

section Readings

variable {host : StateHost}

theorem liftContract_ordinary {α : Type} (x : Except ContractError α) :
    Raises Ordinary (liftContract x) := Raises.mapError fun _ => rfl

theorem validateBinding_ordinary (path : StateRecordPath) (document : Document) :
    Raises Ordinary (path.validateBinding document) := Raises.require rfl

theorem readLocked_ordinary (path : StateRecordPath) (s : Store) :
    Raises Ordinary (readLocked host path s) := by
  unfold readLocked
  split
  · exact Raises.throw rfl
  · refine Raises.bind (Raises.require rfl) fun _ _ => ?_
    refine Raises.bind (liftContract_ordinary _) fun _ _ => ?_
    exact Raises.bind (validateBinding_ordinary _ _) fun _ _ => Raises.pure _

theorem readIntent_ordinary (intentId : Uuid7) (s : Store) :
    Raises Ordinary (readIntent host intentId s) := by
  unfold readIntent
  split
  · exact Raises.throw rfl
  · refine Raises.bind (liftContract_ordinary _) fun _ _ => ?_
    split
    · exact Raises.throw rfl
    · exact Raises.bind (validateBinding_ordinary _ _) fun _ _ => Raises.pure _

theorem readJob_ordinary (jobId : Uuid7) (s : Store) : Raises Ordinary (readJob host jobId s) := by
  refine Raises.bind (readLocked_ordinary _ _) fun document _ => ?_
  cases document with
  | authorizationJob job => exact Raises.pure job
  | _ => exact Raises.throw rfl

theorem encode_ordinary (path : StateRecordPath) (document : Document) :
    Raises Ordinary (encode host path document) := by
  refine Raises.bind (Raises.require rfl) fun _ _ => ?_
  exact Raises.bind (liftContract_ordinary _) fun _ _ => validateBinding_ordinary _ _

theorem encodeNew_ordinary (path : StateRecordPath) (document : Document) :
    Raises Ordinary (encodeNew host path document) := by
  refine Raises.bind (encode_ordinary path document) fun _ _ => ?_
  refine Raises.bind ?_ fun _ _ => ?_
  · unfold validateNewResultShape
    split
    · exact Raises.bind (Raises.require rfl) fun _ _ => Raises.require rfl
    · exact Raises.pure _
  · unfold validateNewArchiveRetirementShape
    split
    · exact Raises.require rfl
    · exact Raises.pure _

theorem requireReplaceable_ordinary (path : StateRecordPath) (expected : StateRevision)
    (candidate : Document) (s : Store) :
    Raises Ordinary (requireReplaceable host path expected candidate s) := by
  refine Raises.bind (Raises.require rfl) fun _ _ => ?_
  refine Raises.bind (readLocked_ordinary path s) fun current _ => ?_
  refine Raises.bind (Raises.require rfl) fun _ _ => Raises.bind ?_ fun _ _ => ?_
  · unfold validateRetirementReplacement
    split
    · exact Raises.require rfl
    · exact Raises.pure _
  · unfold validateAuthorizationPhaseReplacement
    split
    · exact Raises.require rfl
    · exact Raises.pure _

theorem requireReconciledIntent_ordinary {path : StateRecordPath} {expected : StateRevision}
    {s : Store} {records : List Uuid7} (hmeasured : measureIntentRecords host s = .ok records) :
    Raises Ordinary (requireReconciledIntent host path expected s) := by
  unfold requireReconciledIntent
  refine Raises.bind (Raises.require rfl) fun _ _ => ?_
  refine Raises.bind (readLocked_ordinary path s) fun _ _ => ?_
  refine Raises.bind (Raises.require rfl) fun _ _ => ?_
  rw [hmeasured]
  exact Raises.ok ()

theorem requireAbsent_ordinary (path : FilePath) (s : Store) :
    Raises Ordinary (requireAbsent path s) :=
  Raises.bind (Raises.require rfl) fun _ _ => Raises.require rfl

theorem validateAll_ordinary (documents : List Document) :
    Raises Ordinary (validateAll host documents) :=
  Raises.forM fun _ _ => Raises.bind (liftContract_ordinary _) fun _ _ => Raises.pure _

theorem freezeRoute_ordinary (job : AuthorizationJob) (plan : TransitionPlan) :
    Raises Ordinary (freezeRoute host job plan) := by
  unfold freezeRoute
  split
  · split
    · exact Raises.throw rfl
    · refine Raises.bind (validateAll_ordinary _) fun _ _ => Raises.bind ?_ fun _ _ => Raises.pure _
      refine Raises.bind (Raises.bind (Raises.require rfl) fun _ _ => Raises.pure _) fun _ _ => ?_
      split
      · exact Raises.throw rfl
      · exact Raises.require rfl
  · exact Raises.throw rfl

theorem requireSameJob_ordinary (path : CommitPath) (forget : Dispatch → Dispatch)
    (expected : AuthorizationJob) (s : Store) :
    Raises Ordinary (requireSameJob host path forget expected s) := by
  refine Raises.bind (readJob_ordinary _ s) fun _ _ => ?_
  exact Raises.bind (Raises.require rfl) fun _ _ => Raises.pure _

end Readings

/-! ## Writes -/

section Writes

variable {host : StateHost} {I : Store → Prop} {s : Store}

theorem compareAndSwap_spec {path : StateRecordPath} {candidate : Document} (hs : I s)
    (hput : I (s.put path.components candidate)) (expected : StateRevision) :
    Durable.Spec s (compareAndSwap host path expected candidate) I
      (fun _ u => u = s.put path.components candidate) (fun e u => I u ∧ Ordinary e) := by
  refine Durable.Spec.query_bind (fun e he => ⟨hs, encode_ordinary _ _ e he⟩) fun _ _ => ?_
  refine Durable.Spec.query_bind
    (fun e he => ⟨hs, requireReplaceable_ordinary _ _ _ _ e he⟩) fun _ _ => ?_
  refine Durable.Spec.bind
    (Durable.Spec.effect (Q := fun _ u => u = s.put path.components candidate) hput rfl) ?_
  rintro - t rfl
  exact Durable.Spec.query (fun _ _ => rfl) fun e he => ⟨hput, readLocked_ordinary _ _ e he⟩

/-- A creation makes its file durable, or nothing. -/
theorem createImmutable_exact (path : StateRecordPath) (document : Document) :
    Durable.Spec s (createImmutable host path document)
      (fun u => u = s.put path.components document)
      (fun _ u => u = s.put path.components document)
      (fun e u => (u = s ∨ u = s.put path.components document) ∧ Ordinary e) := by
  refine Durable.Spec.query_bind
    (fun e he => ⟨Or.inl rfl, encodeNew_ordinary _ _ e he⟩) fun _ _ => ?_
  refine Durable.Spec.query_bind
    (fun e he => ⟨Or.inl rfl, requireAbsent_ordinary _ _ e he⟩) fun _ _ => ?_
  refine Durable.Spec.bind
    (Durable.Spec.effect (Q := fun _ u => u = s.put path.components document) rfl rfl) ?_
  rintro - t rfl
  exact Durable.Spec.query (fun _ _ => rfl) fun e he => ⟨Or.inr rfl, readLocked_ordinary _ _ e he⟩

theorem createImmutable_spec {path : StateRecordPath} {document : Document} (hs : I s)
    (hput : I (s.put path.components document)) :
    Durable.Spec s (createImmutable host path document) I
      (fun _ u => u = s.put path.components document) (fun e u => I u ∧ Ordinary e) := by
  refine (createImmutable_exact path document).weaken ?_ (fun _ _ h => h) ?_
  · rintro u rfl
    exact hput
  · rintro e u ⟨rfl | rfl, he⟩
    · exact ⟨hs, he⟩
    · exact ⟨hput, he⟩

theorem replaceState_spec {record : StateRecordPath} {candidate : Document} (hs : I s)
    (hput : I (s.put record.components candidate)) (current : Document) :
    Durable.Spec s (replaceState host record current candidate) I
      (fun _ u => u = s.put record.components candidate) (fun e u => I u ∧ Ordinary e) :=
  Durable.Spec.bind (compareAndSwap_spec hs hput _) fun _ _ ht => Durable.Spec.pure ht

/-- The append changes the audit directory alone. -/
theorem appendStateAudit_spec {entry : AuditEntry} (hset : ∀ a, I (s.setAudit a)) :
    Durable.Spec s (appendStateAudit host entry) I (fun _ u => I u)
      (fun e u => I u ∧ (appendStateAudit host entry s).result = .error e) := by
  unfold appendStateAudit
  exact Durable.Spec.zoom_kept hset

theorem ensureAudit_spec {path : CommitPath} {entry : AuditEntry} (hs : I s)
    (hset : ∀ a, I (s.setAudit a)) :
    Durable.Spec s (ensureAudit host path entry) I (fun _ u => I u)
      (fun e u => I u ∧ (inspectNeedsAppend host path entry s = .error e ∨
        (appendStateAudit host entry s).result = .error e)) := by
  refine Durable.Spec.query_bind (fun e he => ⟨hs, Or.inl he⟩) fun missing _ => ?_
  refine Durable.Spec.when (fun _ => ?_) fun _ => hs
  refine Durable.Spec.bind ((appendStateAudit_spec hset).weaken (fun _ h => h) (fun _ _ h => h)
    fun _ _ h => ⟨h.1, Or.inr h.2⟩) fun _ _ ht => Durable.Spec.pure ht

theorem ensureResult_spec {path : CommitPath} {job : AuthorizationJob} {result : OperationResult}
    (hs : I s) (hput : I (s.put (.result job.jobId) (.operationResult result)))
    (resultMissing : Bool) :
    Durable.Spec s (ensureResult host path job result resultMissing) I (fun _ u => I u)
      (fun e u => I u ∧ Ordinary e) := by
  unfold ensureResult
  split
  · refine Durable.Spec.bind (createImmutable_spec hs hput) ?_
    rintro - t rfl
    exact Durable.Spec.pure hput
  · refine Durable.Spec.query (fun _ _ => hs) fun e he => ⟨hs, ?_⟩
    have hread : Raises Ordinary (readLocked host (.authorizationResult job.jobId) s) :=
      readLocked_ordinary _ s
    refine Raises.bind hread (fun current _ => ?_) e he
    exact Raises.require rfl

theorem ensureCompletedJob_spec {job : AuthorizationJob} (hs : I s)
    (hput : I (s.put (.job job.jobId) (.authorizationJob (completedJob job)))) :
    Durable.Spec s (ensureCompletedJob host job) I (fun _ u => I u)
      (fun e u => I u ∧ Ordinary e) := by
  unfold ensureCompletedJob
  split
  · exact Durable.Spec.pure hs
  · have hswap := @compareAndSwap_spec host I s (.authorizationJob job.jobId)
      (.authorizationJob (completedJob job)) hs hput (revision host (.authorizationJob job))
    refine Durable.Spec.bind hswap ?_
    rintro - t rfl
    exact Durable.Spec.pure hput

theorem removeReconciledIntent_spec {path : StateRecordPath} {expected : StateRevision}
    {Visited : Store → Prop} (hvisited : Visited (s.remove path.components)) :
    Durable.Spec s (removeReconciledIntent host path expected) Visited
      (fun _ u => Visited u)
      (fun e u => u = s ∧ requireReconciledIntent host path expected s = .error e) := by
  refine Durable.Spec.query_bind (fun e he => ⟨rfl, he⟩) fun _ _ => ?_
  exact Durable.Spec.effect hvisited hvisited

end Writes

/-! ## The route commit -/

section Route

variable {host : StateHost} {limits : HostCapacityLimits} {documents : RouteDocuments}
  {job : AuthorizationJob} {s : Store}

/-- The intents of two states are the same. -/
def SameIntents (s u : Store) : Prop := ∀ i, u.find? (.intent i) = s.find? (.intent i)

theorem SameIntents.refl (s : Store) : SameIntents s s := fun _ => rfl

theorem SameIntents.put {u : Store} (h : SameIntents s u) {p : FilePath}
    (hp : ∀ i, p ≠ .intent i) (d : Document) : SameIntents s (u.put p d) := by
  intro i
  rw [Store.find?_put_of_ne (fun hi => hp i hi.symm), h i]

theorem SameIntents.measured {u : Store} (h : SameIntents s u) :
    measureIntentRecords host u = measureIntentRecords host s := measureRecords_same h

/-- The state behind the two state writes that an admission asks for. -/
def behindStates (documents : RouteDocuments) (p : RouteProgress) (s : Store) : Store :=
  let desired := if p.writeDesired then
    s.put (.desired documents.tenantId) (.site documents.manifest) else s
  if p.writeObserved then
    desired.put (.observed documents.tenantId) (.tenantObservedState documents.observedState)
  else desired

/-- The append of an admitted transition raises no capacity error where it is made. -/
def AppendSpared (host : StateHost) (limits : HostCapacityLimits) (job : AuthorizationJob)
    (documents : RouteDocuments) (s : Store) : Prop :=
  ∀ p, admitRouteTransition host limits job documents s = .ok p →
    ∀ e, (appendStateAudit host documents.auditEntry (behindStates documents p s)).result =
      .error e → Ordinary e

/-- What an error of the route commit leaves behind. -/
structure RouteFailed (host : StateHost) (limits : HostCapacityLimits) (job : AuthorizationJob)
    (documents : RouteDocuments) (s : Store) (e : AgentError) (u : Store) : Prop where
  intents : SameIntents s u
  spared : AppendSpared host limits job documents s → ∀ removal p,
    routeExactIntent host documents s = .ok removal →
      admitRouteTransition host limits job documents s = .ok p → Ordinary e

theorem RouteFailed.ordinary {e : AgentError} {u : Store} (h : SameIntents s u ∧ Ordinary e) :
    RouteFailed host limits job documents s e u := ⟨h.1, fun _ _ _ _ _ => h.2⟩

theorem commitRoute_spec :
    Durable.Spec s (commitRoute host limits job documents) (fun _ => True) (fun _ _ => True)
      (RouteFailed host limits job documents s) := by
  unfold commitRoute
  refine Durable.Spec.query_bind (fun e he => ⟨SameIntents.refl s, ?_⟩) fun removal hexact => ?_
  · intro _ removal _ hexact
    rw [he] at hexact
    cases hexact
  refine Durable.Spec.query_bind (fun e he => ⟨SameIntents.refl s, ?_⟩) fun p hadmit => ?_
  · intro _ _ p _ hadmit
    rw [he] at hadmit
    cases hadmit
  obtain ⟨records, hmeasured, -⟩ := bind_eq_ok.1 hexact
  obtain ⟨missing, hadmitted⟩ := admitRouteTransition_eq_ok.1 hadmit
  have hdesired : SameIntents s (s.put (.desired documents.tenantId)
      (.site documents.manifest)) := (SameIntents.refl s).put (fun _ => by simp) _
  have hweaken : ∀ e u, SameIntents s u ∧ Ordinary e →
      RouteFailed host limits job documents s e u := fun _ _ => RouteFailed.ordinary
  have htrue : ∀ u, SameIntents s u → True := fun _ _ => trivial
  -- the first state write
  refine Durable.Spec.bind (M := fun _ u => SameIntents s u ∧ u = if p.writeDesired then
    s.put (.desired documents.tenantId) (.site documents.manifest) else s) ?_ ?_
  · cases hwrite : p.writeDesired with
    | true =>
        have hreplace := @replaceState_spec host (SameIntents s) s
          (.tenantDesired documents.tenantId) (.site documents.manifest) (SameIntents.refl s)
          hdesired p.desired
        refine hreplace.weaken htrue ?_ hweaken
        rintro - u rfl
        exact ⟨hdesired, rfl⟩
    | false => exact Durable.Spec.pure ⟨SameIntents.refl s, rfl⟩
  rintro - u ⟨hu, hstate⟩
  -- the second state write
  refine Durable.Spec.bind (M := fun _ v => SameIntents s v ∧ v = behindStates documents p s) ?_ ?_
  · have hobserved : SameIntents s (u.put (.observed documents.tenantId)
        (.tenantObservedState documents.observedState)) := hu.put (fun _ => by simp) _
    unfold behindStates
    rw [← hstate]
    cases hwrite : p.writeObserved with
    | true =>
        have hreplace := @replaceState_spec host (SameIntents s) u
          (.tenantObserved documents.tenantId)
          (.tenantObservedState documents.observedState) hu hobserved p.observed
        refine hreplace.weaken htrue ?_ hweaken
        rintro - v rfl
        exact ⟨hobserved, rfl⟩
    | false => exact Durable.Spec.pure ⟨hu, rfl⟩
  rintro - v ⟨hv, hbehind⟩
  refine Durable.Spec.bind (M := fun _ => SameIntents s) ?_ ?_
  · refine (ensureAudit_spec hv fun a => hv).weaken htrue (fun _ _ h => h) ?_
    rintro e w ⟨hw, herror⟩
    refine ⟨hw, fun hspared _ _ _ _ => ?_⟩
    rcases herror with hinspect | happend
    · have haudit : v.audit = s.audit := by
        rw [hbehind]
        unfold behindStates
        cases p.writeDesired <;> cases p.writeObserved <;> rfl
      have hsame : inspectNeedsAppend host .route documents.auditEntry v =
          inspectNeedsAppend host .route documents.auditEntry s := by
        unfold inspectNeedsAppend inspectStateAudit
        rw [haudit]
      rw [hsame, hadmitted.audit] at hinspect
      cases hinspect
    · rw [hbehind] at happend
      exact hspared p hadmit e happend
  rintro - w hw
  refine Durable.Spec.bind (M := fun _ => SameIntents s)
    ((ensureResult_spec hw (hw.put (fun _ => by simp) _) _).weaken htrue (fun _ _ h => h)
      hweaken) ?_
  rintro - x hx
  refine Durable.Spec.bind (M := fun _ => SameIntents s)
    ((ensureCompletedJob_spec hx (hx.put (fun _ => by simp) _)).weaken htrue (fun _ _ h => h)
      hweaken) ?_
  rintro - y hy
  refine Durable.Spec.bind (M := fun _ _ => True)
    ((removeReconciledIntent_spec trivial).weaken (fun _ h => h) (fun _ _ h => h) ?_)
    fun _ _ _ => Durable.Spec.pure trivial
  rintro e z ⟨rfl, herror⟩
  exact RouteFailed.ordinary
    ⟨hy, requireReconciledIntent_ordinary (hy.measured.trans hmeasured) e herror⟩

/-- `AppendSpared` for the documents and the stored job of a transition. -/
def FinalizeSpared (host : StateHost) (limits : HostCapacityLimits) (job : AuthorizationJob)
    (plan : TransitionPlan) (s : Store) : Prop :=
  ∀ documents currentJob, freezeRoute host job plan = .ok documents →
    routeSameJob host job s = .ok currentJob → AppendSpared host limits currentJob documents s

variable {plan : TransitionPlan}

/-- What an error of the route finalization leaves behind. -/
theorem finalizeRoute_spec :
    Durable.Spec s (finalizeRoute host limits job plan) (fun _ => True) (fun _ _ => True)
      (fun e u => SameIntents s u ∧ (FinalizeSpared host limits job plan s →
        (admitRoute host limits job plan s = .ok () → Ordinary e))) := by
  have hrefl := SameIntents.refl s
  refine Durable.Spec.query_bind (fun e he => ⟨hrefl, fun _ _ => ?_⟩) fun documents hfreeze => ?_
  · exact freezeRoute_ordinary job plan e he
  refine Durable.Spec.query_bind (fun e he => ⟨hrefl, fun _ _ => ?_⟩) fun currentJob hsame => ?_
  · exact requireSameJob_ordinary _ _ job s e he
  have hadmission : admitRoute host limits job plan s = .ok () →
      ∃ removal p, routeExactIntent host documents s = .ok removal ∧
        admitRouteTransition host limits currentJob documents s = .ok p := by
    intro h
    simp only [admitRoute, hfreeze, hsame, ok_bind, bind_eq_ok] at h
    obtain ⟨removal, hexact, p, hadmit, -⟩ := h
    exact ⟨removal, p, hexact, hadmit⟩
  refine Durable.Spec.query_bind (fun e he => ⟨hrefl, fun _ hadmitted => ?_⟩) ?_
  · -- an intent is measured, so that the end of the commit is not read
    obtain ⟨removal, p, hexact, -⟩ := hadmission hadmitted
    obtain ⟨records, hmeasured, hexact⟩ := bind_eq_ok.1 hexact
    obtain ⟨_, hrecords, _⟩ := bind_eq_ok.1 hexact
    rw [require_eq_ok, decide_eq_true_eq] at hrecords
    have hfound : ∃ records, measureIntentRecords host s = .ok records ∧ records ≠ [] :=
      ⟨records, hmeasured, fun hnil => List.cons_ne_nil _ _ (hrecords.symm.trans hnil)⟩
    rw [terminalRouteWithoutIntent, terminalWithoutIntent_eq_none.2 hfound] at he
    cases he
  intro terminal _
  cases terminal with
  | some result => exact Durable.Spec.pure trivial
  | none =>
      refine commitRoute_spec.weaken (fun _ h => h) (fun _ _ h => h) fun e u hfailed => ?_
      refine ⟨hfailed.intents, fun hspared hadmitted => ?_⟩
      obtain ⟨removal, p, hexact, hadmit⟩ := hadmission hadmitted
      exact hfailed.spared (hspared documents currentJob hfreeze hsame) removal p hexact hadmit

/-- Without an intent the finalization changes nothing. -/
theorem finalizeRoute_quiet (hmeasured : measureIntentRecords host s = .ok []) :
    Durable.Spec s (finalizeRoute host limits job plan) (fun _ => False) (fun _ u => u = s)
      (fun _ u => u = s) := by
  refine Durable.Spec.query_bind (fun _ _ => rfl) fun documents _ => ?_
  refine Durable.Spec.query_bind (fun _ _ => rfl) fun currentJob _ => ?_
  refine Durable.Spec.query_bind (fun _ _ => rfl) fun terminal hterminal => ?_
  cases terminal with
  | some result => exact Durable.Spec.pure rfl
  | none =>
      obtain ⟨records, hrecords, hne⟩ := terminalWithoutIntent_eq_none.1 hterminal
      rw [hmeasured] at hrecords
      exact absurd (Except.ok.inj hrecords).symm hne

end Route

/-! ## The archive commit -/

section Archive

variable {host : StateHost} {limits : HostCapacityLimits} {job : AuthorizationJob}
  {plan : ArchiveTransitionPlan} {s : Store}

/-- The archive record of the plan is there. -/
def RecordBound (plan : ArchiveTransitionPlan) (u : Store) : Prop :=
  (u.find? (.archive plan.tenantId plan.archiveRecord.deploymentId)).isSome = true

theorem RecordBound.put {u : Store} (h : RecordBound plan u) (p : FilePath) (d : Document) :
    RecordBound plan (u.put p d) := by
  unfold RecordBound
  rw [Store.find?_put]
  split
  · rfl
  · exact h

theorem RecordBound.remove {u : Store} (h : RecordBound plan u) (intentId : Uuid7) :
    RecordBound plan (u.remove (.intent intentId)) := by
  unfold RecordBound
  rw [Store.find?_remove_of_ne (by simp)]
  exact h

/-- A later write, behind the archive record. -/
theorem replaceState_bound {record : StateRecordPath} {candidate : Document} (hs : RecordBound plan s)
    (condition : Bool) (current : Document) {Raised : AgentError → Store → Prop}
    (hraised : ∀ e u, RecordBound plan u → Raised e u) :
    Durable.Spec s (Durable.when condition (replaceState host record current candidate))
      (RecordBound plan) (fun _ => RecordBound plan) Raised := by
  refine Durable.Spec.when (fun _ => ?_) fun _ => hs
  refine (replaceState_spec hs (hs.put _ _) current).weaken (fun _ h => h) ?_
    fun e u h => hraised e u h.1
  rintro - u rfl
  exact hs.put _ _

theorem missingExact_bound {message : String} {missing : Bool}
    (h : missingExact host message (.tenantArchive plan.tenantId plan.archiveRecord.deploymentId)
      (.archiveRecord plan.archiveRecord) s = .ok missing) (hfound : missing = false) :
    RecordBound plan s := by
  have hvalue := missingExact_value h
  rw [hfound] at hvalue
  unfold RecordBound
  rw [← Option.not_isNone]
  exact congrArg not hvalue.symm

theorem prepareArchiveCommit_missing {current : AuthorizationJob} {progress : ArchiveProgress}
    (h : prepareArchiveCommit host limits job plan s = .ok (current, progress))
    (hfound : progress.archiveMissing = false) : RecordBound plan s := by
  obtain ⟨_, _, h⟩ := bind_eq_ok.1 h
  obtain ⟨_, _, h⟩ := bind_eq_ok.1 h
  obtain ⟨_, _, h⟩ := bind_eq_ok.1 h
  obtain ⟨_, _, h⟩ := bind_eq_ok.1 h
  obtain ⟨_, _, h⟩ := bind_eq_ok.1 h
  obtain ⟨_, _, h⟩ := bind_eq_ok.1 h
  obtain ⟨_, _, h⟩ := bind_eq_ok.1 h
  obtain ⟨missing, hmissing, h⟩ := bind_eq_ok.1 h
  have hprogress : progress.archiveMissing = missing := by
    simp only [bind_eq_ok, pure_eq_ok, Prod.mk.injEq] at h
    obtain ⟨_, _, _, _, _, _, _, _, _, _, _, _, _, _, _, _, _, _, _, rfl⟩ := h
    rfl
  exact missingExact_bound hmissing (hprogress ▸ hfound)

/-- The archive commit writes its record first and keeps it. -/
theorem finalizeArchive_spec :
    Durable.Spec s (finalizeArchive host limits job plan) (RecordBound plan)
      (fun _ _ => True) (fun _ _ => True) := by
  unfold finalizeArchive
  refine Durable.Spec.query_bind (fun _ _ => trivial) ?_
  rintro ⟨current, progress⟩ hprepared
  have hany : ∀ (e : AgentError) (u : Store), RecordBound plan u → True := fun _ _ _ => trivial
  refine Durable.Spec.bind (M := fun _ => RecordBound plan) ?_ ?_
  · -- the record is written, or it was found
    refine Durable.Spec.when (fun _ => ?_) fun hfound =>
      prepareArchiveCommit_missing hprepared hfound
    have hrecord : RecordBound plan (s.put (.archive plan.tenantId plan.archiveRecord.deploymentId)
        (.archiveRecord plan.archiveRecord)) := by
      unfold RecordBound
      rw [Store.find?_put_self]
      rfl
    have hcreate := @createImmutable_exact host s
      (.tenantArchive plan.tenantId plan.archiveRecord.deploymentId)
      (.archiveRecord plan.archiveRecord)
    refine Durable.Spec.bind (hcreate.weaken ?_ (fun _ _ h => h) fun _ _ _ => trivial) ?_
    · rintro u rfl
      exact hrecord
    · rintro - u rfl
      exact Durable.Spec.pure hrecord
  rintro - u hu
  refine Durable.Spec.bind (M := fun _ => RecordBound plan) (replaceState_bound hu _ _ hany) ?_
  rintro - u hu
  refine Durable.Spec.bind (M := fun _ => RecordBound plan) (replaceState_bound hu _ _ hany) ?_
  rintro - u hu
  refine Durable.Spec.query_bind (fun _ _ => trivial) fun _ _ => ?_
  refine Durable.Spec.bind (M := fun _ => RecordBound plan)
    ((ensureAudit_spec hu fun _ => hu).weaken (fun _ h => h) (fun _ _ h => h)
      fun _ _ _ => trivial) ?_
  rintro - u hu
  refine Durable.Spec.bind (M := fun _ => RecordBound plan)
    ((ensureResult_spec hu (hu.put _ _) _).weaken (fun _ h => h) (fun _ _ h => h)
      fun _ _ _ => trivial) ?_
  rintro - u hu
  refine Durable.Spec.bind (M := fun _ => RecordBound plan)
    ((ensureCompletedJob_spec hu (hu.put _ _)).weaken (fun _ h => h) (fun _ _ h => h)
      fun _ _ _ => trivial) ?_
  rintro - u hu
  refine Durable.Spec.bind (M := fun _ => RecordBound plan) ?_ fun _ _ _ =>
    Durable.Spec.pure trivial
  unfold removeArchiveIntent
  split
  · exact Durable.Spec.pure hu
  · exact (removeReconciledIntent_spec (hu.remove plan.intentId)).weaken (fun _ h => h)
      (fun _ _ h => h) fun _ _ _ => trivial

end Archive

/-! ## Ends -/

section Ends

variable {host : StateHost} {limits : HostCapacityLimits} {job : AuthorizationJob}

theorem compareAndSwap_honest (path : StateRecordPath) (expected : StateRevision)
    (candidate : Document) : (compareAndSwap host path expected candidate).Honest :=
  Durable.Honest.bind (Durable.Honest.query _) fun _ =>
    Durable.Honest.bind (Durable.Honest.query _) fun _ =>
      Durable.Honest.bind (Durable.Honest.effect _) fun _ => Durable.Honest.query _

theorem createImmutable_honest (path : StateRecordPath) (document : Document) :
    (createImmutable host path document).Honest :=
  Durable.Honest.bind (Durable.Honest.query _) fun _ =>
    Durable.Honest.bind (Durable.Honest.query _) fun _ =>
      Durable.Honest.bind (Durable.Honest.effect _) fun _ => Durable.Honest.query _

theorem replaceState_honest (record : StateRecordPath) (current candidate : Document) :
    (replaceState host record current candidate).Honest :=
  Durable.Honest.bind (compareAndSwap_honest _ _ _) fun _ => Durable.Honest.pure _

theorem appendStateAudit_honest (entry : AuditEntry) : (appendStateAudit host entry).Honest := by
  unfold appendStateAudit
  refine Durable.Honest.zoom_at (fun s => ?_) fun _ => rfl
  unfold appendAudit
  refine Durable.Honest.bind (Durable.Honest.query _) fun _ => ?_
  refine Durable.Honest.bind (Durable.Honest.query _) fun _ => ?_
  refine Durable.Honest.bind (Durable.Honest.effect _) fun _ => ?_
  exact Durable.Honest.bind (Durable.Honest.query _) fun _ => Durable.Honest.query _

theorem ensureAudit_honest (path : CommitPath) (entry : AuditEntry) :
    (ensureAudit host path entry).Honest :=
  Durable.Honest.bind (Durable.Honest.query _) fun _ => Durable.Honest.when _
    (Durable.Honest.bind (appendStateAudit_honest entry) fun _ => Durable.Honest.pure _)

theorem ensureResult_honest (path : CommitPath) (result : OperationResult) (resultMissing : Bool) :
    (ensureResult host path job result resultMissing).Honest := by
  unfold ensureResult
  split
  · exact Durable.Honest.bind (createImmutable_honest _ _) fun _ => Durable.Honest.pure _
  · exact Durable.Honest.query _

theorem ensureCompletedJob_honest : (ensureCompletedJob host job).Honest := by
  unfold ensureCompletedJob
  split
  · exact Durable.Honest.pure _
  · exact Durable.Honest.bind (compareAndSwap_honest _ _ _) fun _ => Durable.Honest.pure _

theorem removeReconciledIntent_honest (path : StateRecordPath) (expected : StateRevision) :
    (removeReconciledIntent host path expected).Honest :=
  Durable.Honest.bind (Durable.Honest.query _) fun _ => Durable.Honest.effect _

theorem finalizeRoute_honest (plan : TransitionPlan) :
    (finalizeRoute host limits job plan).Honest := by
  refine Durable.Honest.bind (Durable.Honest.query _) fun documents => ?_
  refine Durable.Honest.bind (Durable.Honest.query _) fun currentJob => ?_
  refine Durable.Honest.bind (Durable.Honest.query _) fun terminal => ?_
  cases terminal with
  | some result => exact Durable.Honest.pure _
  | none =>
      refine Durable.Honest.bind (Durable.Honest.query _) fun removal => ?_
      refine Durable.Honest.bind (Durable.Honest.query _) fun progress => ?_
      refine Durable.Honest.bind (Durable.Honest.when _ (replaceState_honest _ _ _)) fun _ => ?_
      refine Durable.Honest.bind (Durable.Honest.when _ (replaceState_honest _ _ _)) fun _ => ?_
      refine Durable.Honest.bind (ensureAudit_honest _ _) fun _ => ?_
      refine Durable.Honest.bind (ensureResult_honest _ _ _) fun _ => ?_
      refine Durable.Honest.bind ensureCompletedJob_honest fun _ => ?_
      exact Durable.Honest.bind (removeReconciledIntent_honest _ _) fun _ => Durable.Honest.pure _

theorem finalizeArchive_honest (plan : ArchiveTransitionPlan) :
    (finalizeArchive host limits job plan).Honest := by
  refine Durable.Honest.bind (Durable.Honest.query _) ?_
  rintro ⟨current, progress⟩
  refine Durable.Honest.bind (Durable.Honest.when _ (Durable.Honest.bind
    (createImmutable_honest _ _) fun _ => Durable.Honest.pure _)) fun _ => ?_
  refine Durable.Honest.bind (Durable.Honest.when _ (replaceState_honest _ _ _)) fun _ => ?_
  refine Durable.Honest.bind (Durable.Honest.when _ (replaceState_honest _ _ _)) fun _ => ?_
  refine Durable.Honest.bind (Durable.Honest.query _) fun _ => ?_
  refine Durable.Honest.bind (ensureAudit_honest _ _) fun _ => ?_
  refine Durable.Honest.bind (ensureResult_honest _ _ _) fun _ => ?_
  refine Durable.Honest.bind ensureCompletedJob_honest fun _ => ?_
  refine Durable.Honest.bind ?_ fun _ => Durable.Honest.pure _
  unfold removeArchiveIntent
  split
  · exact Durable.Honest.pure _
  · exact removeReconciledIntent_honest _ _

end Ends

end StaticHostAgent.Activation
