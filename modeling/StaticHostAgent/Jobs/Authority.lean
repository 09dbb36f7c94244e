import StaticHostAgent.Jobs.Mutators
import StaticHostAgent.Library.Restartable
import StaticHostAgent.State.MeteredHost

/-!
# Jobs keep their authority

`perform_cases` is the inversion of the five mutators: a call changes nothing, or replaces one job by
a candidate that its check accepts, or replaces a record that is no job. What every accepted
replacement keeps (`Preserved`) holds of all runs, crashes included. The validation mark implies a
terminal phase in the runs in which no phase swap takes a validated job back.
-/

set_option autoImplicit false

namespace StaticHostAgent.Jobs

open Library Contracts Host State

/-! ## What a replacement keeps -/

/-- A value that is present stays. -/
def Kept {α : Type} (before after : Option α) : Prop := ∀ v, before = some v → after = some v

theorem Kept.refl {α : Type} (x : Option α) : Kept x x := fun _ h => h

theorem Kept.trans {α : Type} {x y z : Option α} (hxy : Kept x y) (hyz : Kept y z) : Kept x z :=
  fun v h => hyz v (hxy v h)

theorem bindsOnly_iff {α : Type} [DecidableEq α] {x y : Option α} :
    bindsOnly x y = true ↔ Kept x y := by
  cases x with
  | none => exact iff_of_true rfl fun v h => nomatch h
  | some v =>
      simp only [bindsOnly, Option.isNone_some, Bool.false_or, decide_eq_true_eq]
      exact ⟨fun h w hw => h ▸ hw, fun h => (h v rfl).symm⟩

/-- The dispatch fields that nothing replaces. -/
structure DispatchKept (before after : Dispatch) : Prop where
  auditBoundary : Kept before.auditBoundary after.auditBoundary
  archiveDeploymentIds : Kept before.archiveDeploymentIds after.archiveDeploymentIds
  artifactReleaseTreeDigest :
    Kept before.artifactReleaseTreeDigest after.artifactReleaseTreeDigest
  importManifest : Kept before.importManifest after.importManifest
  sourceReleaseTreeDigest : Kept before.sourceReleaseTreeDigest after.sourceReleaseTreeDigest
  deploymentIds : Kept before.deploymentIds after.deploymentIds
  tenantIds : Kept before.tenantIds after.tenantIds
  tenantRecordHistories : Kept before.tenantRecordHistories after.tenantRecordHistories

/-- The dispatch fields that only a route rebind replaces. -/
structure RouteSourceKept (before after : Dispatch) : Prop where
  sourceObservedState : Kept before.sourceObservedState after.sourceObservedState
  sourceRouteSet : Kept before.sourceRouteSet after.sourceRouteSet
  sourceRuntimeGenerationId :
    Kept before.sourceRuntimeGenerationId after.sourceRuntimeGenerationId

/-- A mark that says the export was retired. -/
def retired : Option ExportDelivery → Bool
  | some .acknowledged | some .expired => true
  | _ => false

/-- What a job keeps for good. -/
structure Preserved (before after : AuthorizationJob) : Prop where
  durable : durableBinding after = durableBinding before
  retry : retryBinding after = retryBinding before
  dispatch : DispatchKept before.dispatch after.dispatch
  validated : before.executionValidated = some true → after.executionValidated = some true
  delivery : retired before.exportDelivery = true → after.exportDelivery = before.exportDelivery

theorem DispatchKept.refl (d : Dispatch) : DispatchKept d d :=
  ⟨.refl _, .refl _, .refl _, .refl _, .refl _, .refl _, .refl _, .refl _⟩

theorem DispatchKept.trans {a b c : Dispatch} (h : DispatchKept a b) (h' : DispatchKept b c) :
    DispatchKept a c :=
  ⟨h.1.trans h'.1, h.2.trans h'.2, h.3.trans h'.3, h.4.trans h'.4, h.5.trans h'.5,
    h.6.trans h'.6, h.7.trans h'.7, h.8.trans h'.8⟩

theorem RouteSourceKept.refl (d : Dispatch) : RouteSourceKept d d := ⟨.refl _, .refl _, .refl _⟩

theorem RouteSourceKept.trans {a b c : Dispatch} (h : RouteSourceKept a b)
    (h' : RouteSourceKept b c) : RouteSourceKept a c :=
  ⟨h.1.trans h'.1, h.2.trans h'.2, h.3.trans h'.3⟩

theorem Preserved.refl (job : AuthorizationJob) : Preserved job job :=
  ⟨rfl, rfl, .refl _, id, fun _ => rfl⟩

theorem Preserved.trans {a b c : AuthorizationJob} (h : Preserved a b) (h' : Preserved b c) :
    Preserved a c := by
  refine ⟨h'.durable.trans h.durable, h'.retry.trans h.retry, h.dispatch.trans h'.dispatch,
    fun hv => h'.validated (h.validated hv), fun hd => ?_⟩
  have hb := h.delivery hd
  rw [← hb] at hd
  exact (h'.delivery hd).trans hb

/-! ## What the checks accept -/

/-- The check that a mutator makes of the stored job and the candidate. -/
def JobMutation.accepts (current candidate : AuthorizationJob) : JobMutation → Prop
  | .compareAndSwap _ _ document => document = .authorizationJob candidate ∧
      jobAuthority current = jobAuthority candidate
  | .bindDispatchAuthority _ _ _ _ =>
      validateDispatchAuthorityReplacement current candidate = .ok ()
  | .rebindRouteSourceAuthority _ _ _ advance _ =>
      validateRouteSourceAuthorityReplacement advance current candidate = .ok ()
  | .commitExportRetirement _ reason => exportAvailable current = true ∧
      candidate = { current with exportDelivery := some reason.delivery }
  | .commitExecutionValidation _ _ _ _ =>
      validateExecutionValidationReplacement current candidate = .ok ()

theorem executionMark_eq_ok {job : AuthorizationJob} {mark : Bool} :
    executionMark job = .ok mark ↔ job.executionValidated = some mark := by
  unfold executionMark
  cases job.executionValidated with
  | none => simp
  | some m => simp

variable {current candidate : AuthorizationJob}

/-- A phase swap changes the phase alone. -/
theorem phaseSwap_preserved (h : jobAuthority current = jobAuthority candidate) :
    candidate = { current with phase := candidate.phase } := by
  cases current
  cases candidate
  simp only [jobAuthority, AuthorizationJob.mk.injEq] at h ⊢
  grind

/-- Jobs that agree without their dispatch differ in the dispatch alone. -/
theorem eq_of_withoutDispatch (h : withoutDispatch current = withoutDispatch candidate) :
    candidate = { current with dispatch := candidate.dispatch } := by
  cases current
  cases candidate
  simp only [withoutDispatch, AuthorizationJob.mk.injEq] at h ⊢
  grind

theorem dispatchBinding_eq_ok (h : validateDispatchAuthorityReplacement current candidate = .ok ())
    :
    current.executionValidated = some false ∧
      candidate = { current with dispatch := candidate.dispatch } ∧
      DispatchKept current.dispatch candidate.dispatch ∧
      RouteSourceKept current.dispatch candidate.dispatch := by
  simp only [validateDispatchAuthorityReplacement, bind_eq_ok, require_eq_ok, executionMark_eq_ok,
    Bool.not_eq_true'] at h
  obtain ⟨_, -, _, hmark, _, rfl, _, -, _, -, _, hbound, hrest⟩ := h
  simp only [dispatchBound, Bool.and_eq_true, bindsOnly_iff] at hbound
  obtain ⟨⟨⟨⟨⟨⟨⟨⟨⟨⟨h1, h2⟩, h3⟩, h4⟩, h5⟩, h6⟩, h7⟩, h8⟩, h9⟩, h10⟩, h11⟩ := hbound
  exact ⟨hmark, eq_of_withoutDispatch (of_decide_eq_true hrest), ⟨h1, h2, h3, h4, h6, h9, h10, h11⟩,
    ⟨h5, h7, h8⟩⟩

/-- Jobs that agree without their route source differ in the route source alone. -/
theorem eq_of_withoutRouteSource (h : withoutRouteSource current = withoutRouteSource candidate) :
    candidate = { current with
      dispatch := { current.dispatch with
        sourceRuntimeGenerationId := candidate.dispatch.sourceRuntimeGenerationId
        sourceRouteSet := candidate.dispatch.sourceRouteSet
        sourceObservedState := candidate.dispatch.sourceObservedState } } := by
  obtain ⟨v, i, p, r, g, a, x, u, t, f, m, e, d⟩ := current
  obtain ⟨v', i', p', r', g', a', x', u', t', f', m', e', d'⟩ := candidate
  cases d
  cases d'
  simp only [withoutRouteSource, AuthorizationJob.mk.injEq, Dispatch.mk.injEq] at h ⊢
  grind

theorem routeRebinding_eq_ok {advance : Bool}
    (h : validateRouteSourceAuthorityReplacement advance current candidate = .ok ()) :
    current.executionValidated = some false ∧
      withoutRouteSource current = withoutRouteSource candidate := by
  simp only [validateRouteSourceAuthorityReplacement, bind_eq_ok, require_eq_ok,
    executionMark_eq_ok, Bool.not_eq_true'] at h
  obtain ⟨_, -, _, hmark, _, rfl, _, -, _, -, hrest⟩ := h
  simp only [Bool.and_eq_true, decide_eq_true_eq] at hrest
  exact ⟨hmark, hrest.1.1.1.1.1.1.1⟩

/-- Jobs that agree without their execution differ in phase and mark alone. -/
theorem eq_of_withoutExecution (h : withoutExecution current = withoutExecution candidate) :
    candidate = { current with
      phase := candidate.phase
      executionValidated := candidate.executionValidated } := by
  cases current
  cases candidate
  simp only [withoutExecution, AuthorizationJob.mk.injEq] at h ⊢
  grind

theorem executionValidation_eq_ok
    (h : validateExecutionValidationReplacement current candidate = .ok ()) :
    candidate = { current with executionValidated := some true } ∧
      terminalPhase current.phase = true := by
  simp only [validateExecutionValidationReplacement, bind_eq_ok, require_eq_ok,
    executionMark_eq_ok] at h
  obtain ⟨_, -, _, -, validates, hmark, _, hterminal, hrest⟩ := h
  simp only [Bool.and_eq_true, decide_eq_true_eq] at hterminal
  have heq := eq_of_withoutExecution (of_decide_eq_true hrest)
  rw [hmark, hterminal.2, hterminal.1.1] at heq
  exact ⟨heq, hterminal.1.2⟩

/-- Whatever a mutator accepts keeps the authority of the job. -/
theorem JobMutation.accepts.preserved {m : JobMutation} (h : m.accepts current candidate) :
    Preserved current candidate := by
  cases m with
  | compareAndSwap =>
      rw [phaseSwap_preserved h.2]
      exact ⟨rfl, rfl, .refl _, id, fun _ => rfl⟩
  | bindDispatchAuthority =>
      obtain ⟨hmark, heq, hdispatch, -⟩ := dispatchBinding_eq_ok h
      rw [heq]
      exact ⟨rfl, rfl, hdispatch, id, fun _ => rfl⟩
  | rebindRouteSourceAuthority =>
      obtain ⟨hmark, hrest⟩ := routeRebinding_eq_ok h
      rw [eq_of_withoutRouteSource hrest]
      exact ⟨rfl, rfl, ⟨.refl _, .refl _, .refl _, .refl _, .refl _, .refl _, .refl _, .refl _⟩, id,
        fun _ => rfl⟩
  | commitExportRetirement jobId reason =>
      obtain ⟨havailable, rfl⟩ := h
      refine ⟨rfl, rfl, .refl _, id, fun hretired => ?_⟩
      simp only [exportAvailable, Bool.and_eq_true, decide_eq_true_eq, List.mem_cons,
        List.not_mem_nil, or_false] at havailable
      rcases havailable.2 with hnone | hsome
      · rw [hnone] at hretired
        cases hretired
      · rw [hsome] at hretired
        cases hretired
  | commitExecutionValidation =>
      obtain ⟨heq, -⟩ := executionValidation_eq_ok h
      rw [heq]
      exact ⟨rfl, rfl, .refl _, fun _ => rfl, fun _ => rfl⟩

/-- The mutator that may advance a route source. -/
def JobMutation.rebinds : JobMutation → Bool
  | .rebindRouteSourceAuthority _ _ _ _ _ => true
  | _ => false

/-- Only a rebind replaces a bound route source. -/
theorem JobMutation.accepts.routeSource {m : JobMutation} (h : m.accepts current candidate)
    (hm : m.rebinds = false) :
    RouteSourceKept current.dispatch candidate.dispatch := by
  cases m with
  | compareAndSwap =>
      rw [phaseSwap_preserved h.2]
      exact .refl _
  | bindDispatchAuthority => exact (dispatchBinding_eq_ok h).2.2.2
  | rebindRouteSourceAuthority => cases hm
  | commitExportRetirement =>
      obtain ⟨-, rfl⟩ := h
      exact .refl _
  | commitExecutionValidation =>
      rw [(executionValidation_eq_ok h).1]
      exact .refl _

/-! ## The validation mark -/

/-- A validated job is in a terminal phase. -/
def MarkTerminal (job : AuthorizationJob) : Prop :=
  job.executionValidated = some true → terminalPhase job.phase = true

/-- A phase swap of a validated job goes to a terminal phase. -/
def JobMutation.keepsTerminal (current : AuthorizationJob) : JobMutation → Prop
  | .compareAndSwap _ _ (.authorizationJob candidate) =>
      current.executionValidated = some true → terminalPhase candidate.phase = true
  | _ => True

/-- An accepted replacement keeps the mark terminal exactly if it is no swap that takes a validated
job back. -/
theorem JobMutation.accepts.markTerminal {m : JobMutation} (h : m.accepts current candidate)
    (hcurrent : MarkTerminal current) :
    MarkTerminal candidate ↔ m.keepsTerminal current := by
  cases m with
  | compareAndSwap path expected document =>
      obtain ⟨rfl, hauthority⟩ := h
      have hmark : candidate.executionValidated = current.executionValidated := by
        rw [phaseSwap_preserved hauthority]
      unfold MarkTerminal
      rw [hmark]
      exact Iff.rfl
  | bindDispatchAuthority =>
      obtain ⟨hmark, heq, -⟩ := dispatchBinding_eq_ok h
      refine iff_of_true (fun hvalidated => ?_) trivial
      rw [heq] at hvalidated
      exact absurd (hmark.symm.trans hvalidated) (by simp)
  | rebindRouteSourceAuthority =>
      obtain ⟨hmark, hrest⟩ := routeRebinding_eq_ok h
      refine iff_of_true (fun hvalidated => ?_) trivial
      rw [eq_of_withoutRouteSource hrest] at hvalidated
      exact absurd (hmark.symm.trans hvalidated) (by simp)
  | commitExportRetirement jobId reason =>
      obtain ⟨-, rfl⟩ := h
      exact iff_of_true hcurrent trivial
  | commitExecutionValidation =>
      obtain ⟨heq, hterminal⟩ := executionValidation_eq_ok h
      rw [heq]
      exact iff_of_true (fun _ => hterminal) trivial

/-! ## What a call does -/

variable {host : StateHost}

/-- The job that is stored under an identity. -/
def StoredJob (host : StateHost) (jobId : Uuid7) (s : Store) (job : AuthorizationJob) : Prop :=
  readLocked host (.authorizationJob jobId) s = .ok (.authorizationJob job)

/-- The change of a call: none, a job replaced under its check, or a record that is no job. -/
inductive Outcome (host : StateHost) (m : JobMutation) (s : Store) : List Store → Prop where
  | unchanged : Outcome host m s []
  | replaced (jobId : Uuid7) (current candidate : AuthorizationJob)
      (htarget : m.target = .authorizationJob jobId) (hstored : StoredJob host jobId s current)
      (hfits : (StateRecordPath.authorizationJob jobId).Fits host.encoding
        (.authorizationJob candidate))
      (haccepts : m.accepts current candidate) :
      Outcome host m s [s.put (.job jobId) (.authorizationJob candidate)]
  | other (path : FilePath) (document : Document) (hother : ∀ jobId, path ≠ .job jobId)
      (htarget : ∀ jobId, m.target ≠ .authorizationJob jobId) :
      Outcome host m s [s.put path document]

/-- A record that fits the path of a job is a job. -/
theorem job_of_fits {jobId : Uuid7} {d : Document}
    (h : (StateRecordPath.authorizationJob jobId).Fits host.encoding d) :
    ∃ job, d = .authorizationJob job := by
  have hkind := h.kind
  cases d with
  | authorizationJob job => exact ⟨job, rfl⟩
  | _ => cases hkind

theorem Outcome.of_stops {m : JobMutation} {s : Store} {p : Durable Store AgentError Document}
    (h : p.Stops s) : Outcome host m s (p s).trace := by
  obtain ⟨e, he⟩ := h
  rw [he]
  exact .unchanged

/-- Writing a record and reading it back is one change. -/
theorem written_trace (path : StateRecordPath) (d : Document) (s : Store) :
    ((do
      Durable.effect (Store.put path.components d)
      Durable.query (readLocked host path)) s).trace = [s.put path.components d] := by
  rw [Durable.effect_bind]
  rfl

theorem compareAndSwap_outcome (path : StateRecordPath) (expected : StateRevision) (d : Document)
    (s : Store) : Outcome host (.compareAndSwap path expected d) s
      (compareAndSwap host path expected d s).trace := by
  unfold compareAndSwap
  rcases Durable.stops_or_quiet (fun _ : Store => encode host path d) s with
    hstop | ⟨⟨⟩, hencode, hquiet⟩
  · exact .of_stops (hstop.bind _)
  rw [hquiet.bind]
  rcases Durable.stops_or_quiet (requireReplaceable host path expected d) s with
    hstop | ⟨⟨⟩, hreplaceable, hquiet⟩
  · exact .of_stops (hstop.bind _)
  rw [hquiet.bind, written_trace]
  have hfits := encode_eq_ok.1 hencode
  obtain ⟨-, current, hread, -, -, hphase⟩ := requireReplaceable_eq_ok.1 hreplaceable
  cases path with
  | authorizationJob jobId =>
      obtain ⟨candidate, rfl⟩ := job_of_fits hfits
      obtain ⟨job, rfl⟩ := job_of_fits (readLocked_eq_ok.1 hread).2
      refine .replaced jobId job candidate rfl hread hfits ⟨rfl, ?_⟩
      exact of_decide_eq_true (require_eq_ok.1 hphase)
  | _ => exact .other _ d (fun jobId h => by cases h) fun jobId h => by cases h

theorem replaceAuthority_outcome {m : JobMutation} {jobId : Uuid7} {expected : StateRevision}
    {d : Document} {check : AuthorizationJob → AuthorizationJob → Except AgentError Unit}
    {limits : HostCapacityLimits} (htarget : m.target = .authorizationJob jobId)
    (haccepts : ∀ current candidate, check current candidate = .ok () → m.accepts current candidate)
    (s : Store) : Outcome host m s
      (replaceAuthority host (.authorizationJob jobId) expected d check limits s).trace := by
  unfold replaceAuthority
  rcases Durable.stops_or_quiet (fun _ : Store => encode host (.authorizationJob jobId) d) s with
    hstop | ⟨⟨⟩, hencode, hquiet⟩
  · exact .of_stops (hstop.bind _)
  rw [hquiet.bind]
  rcases Durable.stops_or_quiet
    (requireAuthority host (.authorizationJob jobId) expected d check limits) s with
    hstop | ⟨⟨⟩, hauthority, hquiet⟩
  · exact .of_stops (hstop.bind _)
  rw [hquiet.bind, written_trace]
  have hfits := encode_eq_ok.1 hencode
  obtain ⟨candidate, rfl⟩ := job_of_fits hfits
  simp only [requireAuthority, bind_eq_ok] at hauthority
  obtain ⟨current, hread, _, -, _, hcheck, -⟩ := hauthority
  obtain ⟨job, rfl⟩ := job_of_fits (readLocked_eq_ok.1 hread).2
  exact .replaced jobId job candidate htarget hread hfits (haccepts job candidate hcheck)

theorem job_of_requireJobPath {path : StateRecordPath} {foreign : String}
    (h : requireJobPath path foreign = .ok ()) : ∃ jobId, path = .authorizationJob jobId := by
  unfold requireJobPath at h
  cases path with
  | authorizationJob jobId => exact ⟨jobId, rfl⟩
  | _ => cases h

theorem bindDispatchAuthority_outcome (path : StateRecordPath) (expected : StateRevision)
    (d : Document) (limits : HostCapacityLimits) (s : Store) :
    Outcome host (.bindDispatchAuthority path expected d limits) s
      (bindDispatchAuthority host path expected d limits s).trace := by
  unfold bindDispatchAuthority
  rcases Durable.stops_or_quiet (fun _ : Store => requireJobPath path
    "dispatch authority belongs only to an authorization job") s with hstop | ⟨⟨⟩, hpath, hquiet⟩
  · exact .of_stops (hstop.bind _)
  obtain ⟨jobId, rfl⟩ := job_of_requireJobPath hpath
  rw [hquiet.bind]
  refine replaceAuthority_outcome rfl (fun _ _ h => ?_) s
  exact h

theorem commitExecutionValidation_outcome (path : StateRecordPath) (expected : StateRevision)
    (d : Document) (limits : HostCapacityLimits) (s : Store) :
    Outcome host (.commitExecutionValidation path expected d limits) s
      (commitExecutionValidation host path expected d limits s).trace := by
  unfold commitExecutionValidation
  rcases Durable.stops_or_quiet (fun _ : Store => requireJobPath path
    "execution validation belongs only to an authorization job") s with hstop | ⟨⟨⟩, hpath, hquiet⟩
  · exact .of_stops (hstop.bind _)
  obtain ⟨jobId, rfl⟩ := job_of_requireJobPath hpath
  rw [hquiet.bind]
  refine replaceAuthority_outcome rfl (fun _ _ h => ?_) s
  exact h

theorem rebindRouteSourceAuthority_outcome (path : StateRecordPath) (expected : StateRevision)
    (d : Document) (advance : Bool) (limits : HostCapacityLimits) (s : Store) :
    Outcome host (.rebindRouteSourceAuthority path expected d advance limits) s
      (rebindRouteSourceAuthority host path expected d advance limits s).trace := by
  unfold rebindRouteSourceAuthority
  rcases Durable.stops_or_quiet (fun _ : Store => requireJobPath path
    "route source authority belongs only to an authorization job") s with
    hstop | ⟨⟨⟩, hpath, hquiet⟩
  · exact .of_stops (hstop.bind _)
  obtain ⟨jobId, rfl⟩ := job_of_requireJobPath hpath
  rw [hquiet.bind]
  rcases Durable.stops_or_quiet (measureIntentRecords host) s with hstop | ⟨intents, -, hquiet⟩
  · exact .of_stops (hstop.bind _)
  rw [hquiet.bind]
  rcases Durable.stops_or_quiet (fun _ : Store => require intents.isEmpty
    (AgentError.stateRecord "route source authority cannot advance after intent creation")) s with
    hstop | ⟨⟨⟩, -, hquiet⟩
  · exact .of_stops (hstop.bind _)
  rw [hquiet.bind]
  refine replaceAuthority_outcome rfl (fun _ _ h => ?_) s
  exact h

theorem availableExport_eq_ok {d : Document} {job : AuthorizationJob} :
    availableExport d = .ok job ↔ d = .authorizationJob job ∧ exportAvailable job = true := by
  cases d with
  | authorizationJob j =>
      simp only [availableExport, bind_eq_ok, require_eq_ok, pure_eq_ok,
        Document.authorizationJob.injEq]
      constructor
      · rintro ⟨_, havailable, rfl⟩
        exact ⟨rfl, havailable⟩
      · rintro ⟨rfl, havailable⟩
        exact ⟨(), havailable, rfl⟩
  | _ => simp [availableExport]

theorem commitExportRetirement_outcome (jobId : Uuid7) (reason : RetirementReason) (s : Store) :
    Outcome host (.commitExportRetirement jobId reason) s
      (commitExportRetirement host jobId reason s).trace := by
  unfold commitExportRetirement
  rcases Durable.stops_or_quiet (retirementCandidate host jobId reason) s with
    hstop | ⟨candidate, hcandidate, hquiet⟩
  · exact .of_stops (hstop.bind _)
  rw [hquiet.bind]
  rcases Durable.stops_or_quiet (fun _ : Store =>
    encode host (.authorizationJob jobId) (.authorizationJob candidate)) s with
    hstop | ⟨⟨⟩, hencode, hquiet⟩
  · exact .of_stops (hstop.bind _)
  rw [hquiet.bind]
  rcases Durable.stops_or_quiet (admitAtomicAuthorizationReplacement host
    (.authorizationJob jobId) (.authorizationJob candidate) defaultHostCapacityLimits) s with
    hstop | ⟨⟨⟩, -, hquiet⟩
  · exact .of_stops (hstop.bind _)
  rw [hquiet.bind, written_trace]
  simp only [retirementCandidate, bind_eq_ok, pure_eq_ok] at hcandidate
  obtain ⟨current, hread, job, hjob, _, -, _, -, rfl⟩ := hcandidate
  obtain ⟨rfl, havailable⟩ := availableExport_eq_ok.1 hjob
  exact .replaced jobId job _ rfl hread (encode_eq_ok.1 hencode) ⟨havailable, rfl⟩

/-- What a call makes durable. -/
theorem perform_outcome (m : JobMutation) (s : Store) :
    Outcome host m s (m.perform host s).trace := by
  cases m with
  | compareAndSwap path expected d => exact compareAndSwap_outcome path expected d s
  | bindDispatchAuthority path expected d limits =>
      exact bindDispatchAuthority_outcome path expected d limits s
  | rebindRouteSourceAuthority path expected d advance limits =>
      exact rebindRouteSourceAuthority_outcome path expected d advance limits s
  | commitExportRetirement jobId reason => exact commitExportRetirement_outcome jobId reason s
  | commitExecutionValidation path expected d limits =>
      exact commitExecutionValidation_outcome path expected d limits s

/-! ## Runs -/

/-- Any calls that `allowed` admits, completed or crashed. -/
abbrev Runs (host : StateHost) (allowed : JobMutation → Store → Prop) : Store → Store → Prop :=
  Relation.ReflTransGen fun s u => ∃ m, allowed m s ∧ (m.perform host).Crashed s u

theorem StoredJob.unique {jobId : Uuid7} {s : Store} {job job' : AuthorizationJob}
    (h : StoredJob host jobId s job) (h' : StoredJob host jobId s job') : job = job' :=
  Document.authorizationJob.inj (Except.ok.inj (h.symm.trans h'))

/-- One call, completed or crashed, keeps the stored job or replaces it under its check. -/
theorem StoredJob.step {jobId : Uuid7} {s u : Store} {job : AuthorizationJob} {m : JobMutation}
    (h : StoredJob host jobId s job) (hcrash : (m.perform host).Crashed s u) :
    ∃ job', StoredJob host jobId u job' ∧
      (job' = job ∨ m.target = .authorizationJob jobId ∧ m.accepts job job') := by
  rcases hcrash with rfl | hmem
  · exact ⟨job, h, Or.inl rfl⟩
  have houtcome := @perform_outcome host m s
  generalize (m.perform host s).trace = trace at hmem houtcome
  have hother : ∀ p d, p ≠ .job jobId → StoredJob host jobId (s.put p d) job := by
    intro p d hp
    exact (readLocked_same (Store.find?_put_of_ne hp.symm d s)).trans h
  cases houtcome with
  | unchanged => cases hmem
  | other p d hp _ =>
      rw [List.mem_singleton.1 hmem]
      exact ⟨job, hother p d (hp jobId), Or.inl rfl⟩
  | replaced jobId' current candidate htarget hstored hfits haccepts =>
      rw [List.mem_singleton.1 hmem]
      by_cases hsame : jobId' = jobId
      · subst hsame
        obtain rfl := hstored.unique h
        refine ⟨candidate, readLocked_eq_ok.2 ⟨?_, hfits⟩, Or.inr ⟨htarget, haccepts⟩⟩
        exact Store.find?_put_self _ _ _
      · exact ⟨job, hother _ _ fun heq => hsame (FilePath.job.inj heq), Or.inl rfl⟩

/-- A relation that every accepted replacement keeps holds between the ends of every run. -/
theorem StoredJob.run {jobId : Uuid7} {s u : Store} {job : AuthorizationJob}
    {allowed : JobMutation → Store → Prop} {R : AuthorizationJob → AuthorizationJob → Prop}
    (hrefl : ∀ job, R job job) (htrans : ∀ a b c, R a b → R b c → R a c)
    (hstep : ∀ (m : JobMutation) v a b, allowed m v → m.target = .authorizationJob jobId →
      StoredJob host jobId v a → m.accepts a b → R a b)
    (h : StoredJob host jobId s job) (hrun : Runs host allowed s u) :
    ∃ job', StoredJob host jobId u job' ∧ R job job' := by
  induction hrun with
  | refl => exact ⟨job, h, hrefl job⟩
  | tail _ hcall ih =>
      obtain ⟨a, ha, hra⟩ := ih
      obtain ⟨m, hallowed, hcrash⟩ := hcall
      obtain ⟨b, hb, rfl | ⟨htarget, haccepts⟩⟩ := ha.step hcrash
      · exact ⟨b, hb, hra⟩
      · exact ⟨b, hb, htrans _ _ _ hra (hstep m _ a b hallowed htarget ha haccepts)⟩

/-- The condition on a call under which the validation mark keeps to terminal phases: it is no phase
swap that takes a validated job to a phase that is not terminal. -/
def KeepsTerminal (host : StateHost) (m : JobMutation) (s : Store) : Prop :=
  ∀ jobId job, m.target = .authorizationJob jobId → StoredJob host jobId s job → m.keepsTerminal job

/-- The replacement of a job keeps the mark terminal exactly under the condition. -/
theorem replacement_markTerminal {jobId : Uuid7} {s u : Store} {job : AuthorizationJob}
    {m : JobMutation} (h : StoredJob host jobId s job) (hmark : MarkTerminal job)
    (htarget : m.target = .authorizationJob jobId) (hmem : u ∈ (m.perform host s).trace) :
    (∃ job', StoredJob host jobId u job' ∧ MarkTerminal job') ↔ KeepsTerminal host m s := by
  have houtcome := @perform_outcome host m s
  generalize (m.perform host s).trace = trace at hmem houtcome
  cases houtcome with
  | unchanged => cases hmem
  | other p d hp hforeign => exact absurd htarget (hforeign jobId)
  | replaced jobId' current candidate htarget' hstored hfits haccepts =>
      obtain rfl : jobId' = jobId :=
        StateRecordPath.authorizationJob.inj (htarget'.symm.trans htarget)
      obtain rfl := hstored.unique h
      rw [List.mem_singleton.1 hmem]
      have hcandidate : StoredJob host jobId' (s.put (.job jobId') (.authorizationJob candidate))
          candidate := readLocked_eq_ok.2 ⟨Store.find?_put_self _ _ _, hfits⟩
      constructor
      · rintro ⟨job', hjob', hterminal⟩ jobId'' job'' hsame hjob''
        obtain rfl : jobId' = jobId'' :=
          StateRecordPath.authorizationJob.inj (htarget.symm.trans hsame)
        obtain rfl := hcandidate.unique hjob'
        obtain rfl := hstored.unique hjob''
        exact (haccepts.markTerminal hmark).1 hterminal
      · intro hkeeps
        exact ⟨candidate, hcandidate,
          (haccepts.markTerminal hmark).2 (hkeeps jobId' _ htarget hstored)⟩

/-- What the mutators do to the authority of jobs. -/
structure AuthorityPreserved (host : StateHost) : Prop where
  /-- In every run a stored job stays a valid one, with its bindings, its bound dispatch fields but
  the route source, its mark, and the end of its delivery. -/
  preserved : ∀ jobId s u job, StoredJob host jobId s job → Runs host (fun _ _ => True) s u →
    ∃ job', StoredJob host jobId u job' ∧ Preserved job job'
  /-- Between rebinds the route source is kept as well. -/
  routeSource : ∀ jobId s u job, StoredJob host jobId s job →
    Runs host (fun m _ => m.rebinds = false) s u →
      ∃ job', StoredJob host jobId u job' ∧ RouteSourceKept job.dispatch job'.dispatch
  /-- In every run whose calls meet the condition, the mark implies a terminal phase. -/
  terminal : ∀ jobId s u job, StoredJob host jobId s job → MarkTerminal job →
    Runs host (KeepsTerminal host) s u → ∃ job', StoredJob host jobId u job' ∧ MarkTerminal job'
  /-- A call that replaces a job meets the condition exactly if the mark of the replacement implies a
  terminal phase. -/
  condition : ∀ jobId s u job (m : JobMutation), StoredJob host jobId s job → MarkTerminal job →
    m.target = .authorizationJob jobId → u ∈ (m.perform host s).trace →
      ((∃ job', StoredJob host jobId u job' ∧ MarkTerminal job') ↔ KeepsTerminal host m s)

/-- The mutators preserve the authority of jobs; the validation mark implies a terminal phase as long
as no phase swap takes a validated job back. -/
theorem job_mutators_preserve_authority (host : StateHost) : AuthorityPreserved host where
  preserved jobId s u job h hrun :=
    h.run .refl (fun _ _ _ => .trans) (fun _ _ _ _ _ _ _ haccepts => haccepts.preserved) hrun
  routeSource jobId s u job h hrun :=
    h.run (R := fun a b => RouteSourceKept a.dispatch b.dispatch) (fun a => .refl a.dispatch)
      (fun _ _ _ => .trans)
      (fun _ _ _ _ hrebinds _ _ haccepts => haccepts.routeSource hrebinds) hrun
  terminal jobId s u job h hmark hrun := by
    obtain ⟨job', hjob', hterminal⟩ := h.run (R := fun a b => MarkTerminal a → MarkTerminal b)
      (fun _ => id) (fun _ _ _ hab hbc ha => hbc (hab ha))
      (fun m v a b hkeeps htarget ha haccepts hmark =>
        (haccepts.markTerminal hmark).2 (hkeeps jobId a htarget ha)) hrun
    exact ⟨job', hjob', hterminal hmark⟩
  condition _ _ _ _ _ h hmark htarget hmem := replacement_markTerminal h hmark htarget hmem

/-! ## A validated job that is taken back -/

section Reopened

def reopenedId : Uuid7 := ⟨3, 0, 0⟩

def createRequest : OperationRequest :=
  ⟨.create, ⟨2, 0, 0⟩, none, some "site", some ⟨1, 1⟩, none, none⟩

/-- A job of a create request in a phase, with the validation mark. -/
def validatedJob (phase : JobPhase) : AuthorizationJob :=
  ⟨.staticJobV2, reopenedId, "operator", createRequest, placeDigest .request 0, none,
    ⟨true, none, none, none, none, ⟨.platformState, 0⟩, none⟩, none, sampleTime, phase, some true,
    none, Dispatch.none⟩

noncomputable def reopeningHost : StateHost :=
  meteredHost (tableAuditHost [.operationRequest createRequest,
    .authorizationJob (validatedJob .completed), .authorizationJob (validatedJob .pending)]) 0 0

/-- Nothing but the job is stored. -/
def reopenedStore (phase : JobPhase) : Store :=
  ⟨Directory.empty.insert (.job reopenedId) (.authorizationJob (validatedJob phase)),
    Directory.empty, none, Directory.empty, ⟨none, Directory.empty⟩⟩

/-- A phase swap takes a completed and validated job back to the pending phase. -/
theorem validated_job_reopened :
    ¬ ∀ (host : StateHost) (jobId : Uuid7) (s u : Store) (job : AuthorizationJob),
      StoredJob host jobId s job → MarkTerminal job → Runs host (fun _ _ => True) s u →
        ∃ job', StoredJob host jobId u job' ∧ MarkTerminal job' := by
  intro h
  let path := StateRecordPath.authorizationJob reopenedId
  let completed := Document.authorizationJob (validatedJob .completed)
  let pending := Document.authorizationJob (validatedJob .pending)
  let s := reopenedStore .completed
  have hcompleted : encode reopeningHost path completed = .ok () := by rfl
  have hstored : StoredJob reopeningHost reopenedId s (validatedJob .completed) :=
    readLocked_eq_ok.2 ⟨Directory.find?_insert_self _ _ _, encode_eq_ok.1 hcompleted⟩
  have hencode : encode reopeningHost path pending = .ok () := by rfl
  have hreplaceable : requireReplaceable reopeningHost path (revision reopeningHost completed)
      pending s = .ok () := by
    decide
  have htrace : (compareAndSwap reopeningHost path (revision reopeningHost completed) pending
      s).trace = [s.put (.job reopenedId) pending] := by
    have hencoded : Durable.Quiet (Durable.query fun _ => encode reopeningHost path pending) s () :=
      Durable.Quiet.query hencode
    have hreplaced := Durable.Quiet.query hreplaceable
    unfold compareAndSwap
    rw [hencoded.bind, hreplaced.bind, written_trace]
    rfl
  have hrun : Runs reopeningHost (fun _ _ => True) s (s.put (.job reopenedId) pending) := by
    refine Relation.ReflTransGen.single
      ⟨.compareAndSwap path (revision reopeningHost completed) pending, trivial, Or.inr ?_⟩
    exact htrace ▸ List.mem_singleton_self _
  obtain ⟨job', hjob', hterminal⟩ := h reopeningHost reopenedId s _ _ hstored (fun _ => rfl) hrun
  have hpending : StoredJob reopeningHost reopenedId (s.put (.job reopenedId) pending)
      (validatedJob .pending) :=
    readLocked_eq_ok.2 ⟨Store.find?_put_self _ _ _, encode_eq_ok.1 hencode⟩
  obtain rfl := hpending.unique hjob'
  exact absurd (hterminal rfl) (by decide)

end Reopened

end StaticHostAgent.Jobs
