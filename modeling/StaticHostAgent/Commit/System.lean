import StaticHostAgent.Commit.RetirementSimulation
import StaticHostAgent.Commit.Laws

/-!
# The commits as a system

The agent commits one authorized job after another: creates, routes, deployments, archives, restores
and deletions of any tenants, each attempt with any job and any plan, in any order. An attempt may go
through, fail, or crash behind any of its changes, and other parts of the agent act in between.
Whatever such a run reaches, the abstract machine of `CommitChange` reaches too, so that

* no tenant loses what it is, selects, serves or keeps archived before its tombstone is in the audit
  chain (`commits_keep_references`),
* jobs, results, audit entries and intents settle in their order (`commits_settle_jobs`),
* a commit stays with the tenant it was authorized for (`commits_stay_apart`).
-/

set_option autoImplicit false

namespace StaticHostAgent.Commit

open Library Contracts Host Audit State

/-- One attempt to commit a planned job. -/
inductive CommitAttempt where
  | create (limits : HostCapacityLimits) (job : AuthorizationJob) (plan : TransitionPlan)
  | route (limits : HostCapacityLimits) (job : AuthorizationJob) (plan : TransitionPlan)
  | deployment (limits : HostCapacityLimits) (job : AuthorizationJob)
      (plan : DeploymentTransitionPlan)
  | archive (limits : HostCapacityLimits) (job : AuthorizationJob) (plan : ArchiveTransitionPlan)
  | restore (limits : HostCapacityLimits) (job : AuthorizationJob)
      (plan : DeploymentTransitionPlan) (retirement : ArchiveRetirementIntent)
  | delete (limits : HostCapacityLimits) (job : AuthorizationJob) (plan : DeleteTransitionPlan)
      (retirement : Option ArchiveRetirementIntent)

namespace CommitAttempt

def job : CommitAttempt → AuthorizationJob
  | .create _ job _ | .route _ job _ | .deployment _ job _ | .archive _ job _
  | .restore _ job _ _ | .delete _ job _ _ => job

def scope : CommitAttempt → CommitScope
  | .create _ job plan | .route _ job plan => ⟨plan.tenantId, job.jobId, plan.intentId⟩
  | .deployment _ job plan | .restore _ job plan _ => ⟨plan.tenantId, job.jobId, plan.intentId⟩
  | .archive _ job plan => ⟨plan.tenantId, job.jobId, plan.intentId⟩
  | .delete _ job plan _ => ⟨plan.tenantId, job.jobId, plan.intentId⟩

/-- The finalizer of the attempt. -/
def run (host : StateHost) : CommitAttempt → Durable Store DeletionError CommitOutcome
  | .create limits job plan => Durable.raising .agent (finalizeCreate host limits job plan)
  | .route limits job plan => Durable.raising .agent (finalizeRoute host limits job plan)
  | .deployment limits job plan => Durable.raising .agent (finalizeDeployment host limits job plan)
  | .archive limits job plan => Durable.raising .agent (finalizeArchive host limits job plan)
  | .restore limits job plan retirement =>
      Durable.raising .agent (finalizeRestore host limits job plan retirement)
  | .delete limits job plan retirement => finalizeDelete host limits job plan retirement

/-- Every attempt follows the changes of its scope. -/
theorem follows (host : StateHost) (a : CommitAttempt) (s : Store) :
    Durable.Follows (CommitChange host a.scope) s (a.run host) fun _ _ => True := by
  cases a with
  | create limits job plan => exact finalizeCreate_follows.raising
  | route limits job plan => exact finalizeRoute_follows.raising
  | deployment limits job plan => exact finalizeDeployment_follows.raising
  | archive limits job plan => exact finalizeArchive_follows.raising
  | restore limits job plan retirement => exact finalizeRestore_follows.raising
  | delete limits job plan retirement => exact finalizeDelete_follows

end CommitAttempt

/-- Any number of attempts that are allowed, with something else happening in between. -/
abbrev CommitRuns (host : StateHost) (allowed : CommitAttempt → Prop)
    (elsewhere : Store → Store → Prop) : Store → Store → Prop :=
  Interleaved (CommitAttempt.run host) allowed elsewhere

variable {host : StateHost} {allowed : CommitAttempt → Prop} {elsewhere : Store → Store → Prop}
  {s u : Store}

theorem CommitRuns.invariant {I : Store → Prop}
    (hchange : ∀ a, allowed a → ∀ v w, CommitChange host a.scope v w → I v → I w)
    (hother : ∀ v w, elsewhere v w → I v → I w) (h : CommitRuns host allowed elsewhere s u)
    (hs : I s) : I u :=
  Interleaved.invariant (CommitAttempt.follows host) hchange hother h hs

/-! ## References -/

/-- What happens beside the commits leaves the tenant's states and records alone, and may publish
releases and append to the chain. -/
structure Publishing (host : StateHost) (t : Uuid7) (s u : Store) : Prop where
  desired : u.find? (.desired t) = s.find? (.desired t)
  observed : u.find? (.observed t) = s.find? (.observed t)
  records : ∀ d, u.find? (.deployment t d) = s.find? (.deployment t d)
  archives : ∀ d, u.find? (.archive t d) = s.find? (.archive t d)
  directory : u.tenants.find? t = s.tenants.find? t
  releases : ∀ d digest, s.releases.find? ⟨t, d, none⟩ = some (some digest) →
    u.releases.find? ⟨t, d, none⟩ = some (some digest)
  recorded : ∀ y ∈ auditTrail host s, y ∈ auditTrail host u

theorem Publishing.referenced {t : Uuid7} (hp : Publishing host t s u)
    (h : Referenced t s ∨ Tombstoned host t s) : Referenced t u ∨ Tombstoned host t u := by
  rcases h with h | h
  · refine Or.inl (h.same hp.desired hp.observed (fun r hr => ?_) (fun d hd => ?_) (le_of_eq ?_))
    · exact hr.same (hp.records r.id) (hp.releases r.id)
    · rw [hp.archives, hd]
    · exact congrArg List.length (Listing.ids_congr fun d => hp.records d)
  · exact Or.inr (h.grow hp.recorded)

theorem Publishing.standing {t : Uuid7} (hp : Publishing host t s u)
    (h : Standing t s ∨ Tombstoned host t s) : Standing t u ∨ Tombstoned host t u := by
  rcases h with h | h
  · refine Or.inl ⟨?_, ?_, ?_⟩
    · rw [hp.desired]
      exact h.desired
    · rw [hp.observed]
      exact h.observed
    · rw [hp.directory]
      exact h.directory
  · exact Or.inr (h.grow hp.recorded)

/-- What the commits promise about what a tenant has in use. -/
structure ReferencesKept (host : StateHost) : Prop where
  /-- Whatever the attempts reach, the abstract machine reaches. -/
  simulated : ∀ allowed elsewhere s u, CommitRuns host allowed elsewhere s u →
    Relation.ReflTransGen
      (AbstractStep allowed elsewhere fun a : CommitAttempt => CommitChange host a.scope) s u
  /-- What a tenant selects, serves or keeps archived stays stored, and its history bounded, until
  its tombstone is in the chain. -/
  referenced : ∀ t allowed elsewhere s u, (∀ v w, elsewhere v w → Publishing host t v w) →
    CommitRuns host allowed elsewhere s u → Referenced t s →
      Referenced t u ∨ Tombstoned host t u
  /-- No tenant goes before its tombstone is in the chain. -/
  standing : ∀ t allowed elsewhere s u, (∀ v w, elsewhere v w → Publishing host t v w) →
    CommitRuns host allowed elsewhere s u → Standing t s → Standing t u ∨ Tombstoned host t u

/-- No commit loses what a tenant has in use. -/
theorem commits_keep_references (host : StateHost) : ReferencesKept host where
  simulated := by
    intro allowed elsewhere s u h
    exact Interleaved.simulated (CommitAttempt.follows host) h
  referenced := by
    intro t allowed elsewhere s u hother h hs
    refine h.invariant (I := fun v => Referenced t v ∨ Tombstoned host t v) ?_ ?_ (Or.inl hs)
    · exact fun a _ v w hchange hv => Referenced.change hv hchange
    · exact fun v w hstep hv => (hother v w hstep).referenced hv
  standing := by
    intro t allowed elsewhere s u hother h hs
    refine h.invariant (I := fun v => Standing t v ∨ Tombstoned host t v) ?_ ?_ (Or.inl hs)
    · exact fun a _ v w hchange hv => Standing.change hv hchange
    · exact fun v w hstep hv => (hother v w hstep).standing hv

/-! ## Jobs -/

/-- What happens beside the commits neither revises what they leave nor completes jobs without a
result nor publishes results nor removes intents. -/
structure Admitting (host : StateHost) (s u : Store) : Prop where
  lasting : Lasting host s u
  answered : Answered s → Answered u
  audited : Audited host s → Audited host u
  intents : ∀ i d, s.find? (.intent i) = some d → u.find? (.intent i) = some d

/-- What the commits promise about jobs, results, audit entries and intents. -/
structure JobsSettled (host : StateHost) : Prop where
  /-- A completed job has its result in every state. -/
  answered : ∀ allowed elsewhere s u, (∀ v w, elsewhere v w → Admitting host v w) →
    CommitRuns host allowed elsewhere s u → Answered s → Answered u
  /-- A result has an entry of the chain with its digest in every state. -/
  audited : ∀ allowed elsewhere s u, (∀ v w, elsewhere v w → Admitting host v w) →
    CommitRuns host allowed elsewhere s u → Audited host s → Audited host u
  /-- The chain only grows, results are written once, a job only becomes completed, and an archive
  record goes only behind a restore or a deletion of its tenant in the chain. -/
  lasting : ∀ allowed elsewhere s u, (∀ v w, elsewhere v w → Admitting host v w) →
    CommitRuns host allowed elsewhere s u → Lasting host s u
  /-- An intent is there until the job of an attempt that owns it is completed with its result. -/
  cleared : ∀ allowed elsewhere s u, (∀ v w, elsewhere v w → Admitting host v w) →
    CommitRuns host allowed elsewhere s u → ∀ i d, s.find? (.intent i) = some d →
      u.find? (.intent i) = some d ∨
        ∃ a : CommitAttempt, allowed a ∧ a.scope.intentId = i ∧ a.scope.Closed u

/-- Jobs, results, audit entries and intents settle in their order, however the commits fail. -/
theorem commits_settle_jobs (host : StateHost) : JobsSettled host where
  answered := by
    intro allowed elsewhere s u hother h hs
    refine h.invariant (fun a _ v w hchange hv => hv.change hchange) (fun v w hstep hv => ?_) hs
    exact (hother v w hstep).answered hv
  audited := by
    intro allowed elsewhere s u hother h hs
    refine h.invariant (fun a _ v w hchange hv => hv.change hchange) (fun v w hstep hv => ?_) hs
    exact (hother v w hstep).audited hv
  lasting := by
    intro allowed elsewhere s u hother h
    refine h.invariant (fun a _ v w hchange hv => hv.trans (Lasting.change hchange))
      (fun v w hstep hv => ?_) (Lasting.refl host s)
    exact hv.trans (hother v w hstep).lasting
  cleared := by
    intro allowed elsewhere s u hother h i d hd
    refine h.invariant (I := fun v => v.find? (.intent i) = some d ∨
      ∃ a : CommitAttempt, allowed a ∧ a.scope.intentId = i ∧ a.scope.Closed v) ?_ ?_ (Or.inl hd)
    · rintro a may v w hchange (hv | ⟨b, hb, hi, hclosed⟩)
      · rcases hchange.cleared i with hsame | ⟨hi, -, hclosed⟩
        · exact Or.inl (hsame.trans hv)
        · exact Or.inr ⟨a, may, hi.symm, hclosed⟩
      · exact Or.inr ⟨b, hb, hi, hclosed.lasting (Lasting.change hchange)⟩
    · rintro v w hstep (hv | ⟨b, hb, hi, hclosed⟩)
      · exact Or.inl ((hother v w hstep).intents i d hv)
      · exact Or.inr ⟨b, hb, hi, hclosed.lasting (hother v w hstep).lasting⟩

/-! ## Tenants -/

/-- What an attempt was authorized for: its job is the stored one, and asks for its tenant unless it
asks for a new one. -/
structure Authorized (a : CommitAttempt) (s : Store) : Prop where
  stored : ∃ job, s.find? (.job a.scope.jobId) = some (.authorizationJob job) ∧
    job.request = a.job.request
  tenant : a.job.request.tenantId = some a.scope.tenantId ∨ a.job.request.operation = .create

section Authority

variable {limits : HostCapacityLimits} {expected job : AuthorizationJob}

theorem requireSameJob_request {path : CommitPath} {forget : Dispatch → Dispatch}
    (h : requireSameJob host path forget expected s = .ok job) :
    job.request = expected.request := by
  obtain ⟨-, hauthority, -⟩ := requireSameJob_eq_ok.1 h
  have hrequest : (sameAuthority forget job).request = (sameAuthority forget expected).request := by
    rw [hauthority]
  exact hrequest

theorem finalizeCreate_authorized {plan : TransitionPlan}
    (h : (finalizeCreate host limits expected plan s).trace ≠ []) :
    Authorized (.create limits expected plan) s := by
  obtain ⟨documents, hfrozen, h⟩ := query_bind_trace h
  obtain ⟨job, hsame, -⟩ := query_bind_trace h
  obtain ⟨⟨⟨recovery, hchecked⟩, -⟩, -⟩ := freezeCreate_eq_ok.1 hfrozen
  exact ⟨⟨job, (requireSameJob_scope hsame).2, requireSameJob_request hsame⟩,
    Or.inr hchecked.agreement.operation⟩

theorem finalizeRoute_authorized {plan : TransitionPlan}
    (h : (finalizeRoute host limits expected plan s).trace ≠ []) :
    Authorized (.route limits expected plan) s := by
  obtain ⟨documents, hfrozen, h⟩ := query_bind_trace h
  obtain ⟨job, hsame, -⟩ := query_bind_trace h
  obtain ⟨⟨target, hchecked⟩, -⟩ := (freezeRoute_eq_ok host).1 hfrozen
  refine ⟨⟨job, (requireSameJob_scope hsame).2, requireSameJob_request hsame⟩, Or.inl ?_⟩
  have hrequested := hchecked.agreement.requestTenant
  rw [hchecked.planned] at hrequested
  exact hrequested

theorem finalizeDeployment_authorized {plan : DeploymentTransitionPlan}
    (h : (finalizeDeployment host limits expected plan s).trace ≠ []) :
    Authorized (.deployment limits expected plan) s := by
  obtain ⟨documents, hfrozen, h⟩ := query_bind_trace h
  obtain ⟨job, hsame, -⟩ := query_bind_trace h
  obtain ⟨⟨target, hchecked⟩, -⟩ := (freezeDeployment_eq_ok host).1 hfrozen
  refine ⟨⟨job, (requireSameJob_scope hsame).2, requireSameJob_request hsame⟩, Or.inl ?_⟩
  have hrequested := hchecked.agreement.requestTenant
  have hplanned := hchecked.planned
  rw [← hplanned]
  exact hrequested

theorem finalizeArchive_authorized {plan : ArchiveTransitionPlan}
    (h : (finalizeArchive host limits expected plan s).trace ≠ []) :
    Authorized (.archive limits expected plan) s := by
  obtain ⟨⟨job, p⟩, hprepared, -⟩ := query_bind_trace h
  obtain ⟨source, hprepared⟩ := prepareArchiveCommit_prepared hprepared
  have hrequest := requireSameJob_request hprepared.same
  refine ⟨⟨job, (requireSameJob_scope hprepared.same).2, hrequest⟩, Or.inl ?_⟩
  show expected.request.tenantId = _
  rw [← hrequest]
  exact hprepared.planned.requested

theorem finalizeRestore_authorized {plan : DeploymentTransitionPlan}
    {retirement : ArchiveRetirementIntent}
    (h : (finalizeRestore host limits expected plan retirement s).trace ≠ []) :
    Authorized (.restore limits expected plan retirement) s := by
  obtain ⟨⟨job, p⟩, hvalid, -⟩ := query_bind_trace h
  have hprepared := validateRestoreTransition_prepared hvalid
  have hrequest := requireSameJob_request hprepared.same
  refine ⟨⟨job, (requireSameJob_scope hprepared.same).2, hrequest⟩, Or.inl ?_⟩
  show expected.request.tenantId = _
  rw [← hrequest]
  exact hprepared.planned.requested

theorem finalizeDelete_authorized {plan : DeleteTransitionPlan}
    {retirement : Option ArchiveRetirementIntent}
    (h : (finalizeDelete host limits expected plan retirement s).trace ≠ []) :
    Authorized (.delete limits expected plan retirement) s := by
  obtain ⟨p, hvalid, -⟩ := query_bind_trace h
  have hprepared := validateDeleteTransition_prepared hvalid
  have hrequest := requireSameJob_request hprepared.same
  refine ⟨⟨p.job, (requireSameJob_scope hprepared.same).2, hrequest⟩, Or.inl ?_⟩
  show expected.request.tenantId = _
  rw [← hrequest]
  exact hprepared.planned.requested

theorem CommitAttempt.authorized {a : CommitAttempt} (h : (a.run host s).trace ≠ []) :
    Authorized a s := by
  cases a with
  | create limits job plan => exact finalizeCreate_authorized h
  | route limits job plan => exact finalizeRoute_authorized h
  | deployment limits job plan => exact finalizeDeployment_authorized h
  | archive limits job plan => exact finalizeArchive_authorized h
  | restore limits job plan retirement => exact finalizeRestore_authorized h
  | delete limits job plan retirement => exact finalizeDelete_authorized h

end Authority

/-- What the commits promise to the tenants they are not authorized for. -/
structure TenantsApart (host : StateHost) : Prop where
  /-- An attempt without the authority of a stored job for its tenant changes nothing. -/
  authorized : ∀ (a : CommitAttempt) s, (a.run host s).trace ≠ [] → Authorized a s
  /-- An attempt touches one tenant, one job and one intent, also if it fails or crashes. -/
  confined : ∀ (a : CommitAttempt) s, (∀ u ∈ (a.run host s).trace, a.scope.Confined s u) ∧
    a.scope.Confined s (a.run host s).state
  /-- A run of commits of other tenants leaves a tenant as it is. -/
  apart : ∀ t allowed elsewhere s u, (∀ a : CommitAttempt, allowed a → t ≠ a.scope.tenantId) →
    (∀ v w, elsewhere v w → SameTenant t v w) →
      CommitRuns host allowed elsewhere s u → SameTenant t s u

/-- A commit stays with the tenant, the job and the intent that it was authorized for. -/
theorem commits_stay_apart (host : StateHost) : TenantsApart host where
  authorized := fun _ _ h => CommitAttempt.authorized h
  confined := by
    intro a s
    have hsteps : ∀ u, Relation.ReflTransGen (CommitChange host a.scope) s u →
        a.scope.Confined s u := by
      intro u h
      induction h with
      | refl => exact CommitScope.Confined.refl _ _
      | tail _ hchange ih => exact ih.trans hchange.confined
    have hfollows := CommitAttempt.follows host a s
    exact ⟨fun u hu => hsteps u (hfollows.visited u hu), hsteps _ hfollows.stopped⟩
  apart := by
    intro t allowed elsewhere s u hothers helse h
    refine h.invariant (fun a may v w hchange hv => ?_) (fun v w hstep hv => ?_)
      (SameTenant.refl t s)
    · exact hv.trans (hchange.confined.sameTenant (hothers a may))
    · exact hv.trans (helse v w hstep)

end StaticHostAgent.Commit
