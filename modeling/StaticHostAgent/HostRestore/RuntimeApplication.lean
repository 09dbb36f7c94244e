import StaticHostAgent.Caddy.RouteIsolation
import StaticHostAgent.HostRestore.JournalRuns
import StaticHostAgent.HostRestore.RuntimeMapping

/-!
# Applying a runtime mapping

`apply_runtime_mapping` plans its writes from one snapshot and then replaces one observation after
the other. The places it replaces are the observations of the captured tenants; in every state on
the way each of them is the captured or the projected one, so a later run plans the same targets.
-/

set_option autoImplicit false

namespace StaticHostAgent.HostRestore

open Library Contracts Backup Host Caddy State

/-- The observation of a captured tenant after the restore. -/
def targetOf (i : RuntimeInputs) (source : TenantRouteInput) : TenantObservedState :=
  projectObserved i.newGenerationId source.observedState

/-- A live tenant is the captured one, observed as captured or as projected. -/
structure Matching (i : RuntimeInputs) (current source : TenantRouteInput) : Prop where
  manifest : current.manifest = source.manifest
  deployment : current.deployment = source.deployment
  observed : current.observedState = source.observedState ∨
    current.observedState = targetOf i source

/-- The write of a matching tenant. -/
def plannedWrite (i : RuntimeInputs) (current source : TenantRouteInput) : PlannedWrite :=
  ⟨tenantIdOf source, .tenantObservedState current.observedState, targetOf i source⟩

/-- What the planning of the writes accepts. -/
structure Accepted (h : MappingHost) (i : RuntimeInputs) (s : Store) (found : List Uuid7)
    (rows : List (TenantRouteInput × Bool)) : Prop where
  intents : measureIntentRecords h.toStateHost s = .ok []
  captured : Captured h.toRouteHost s found rows
  platformNamespace : h.platformNamespace s.platformState = .ok i.trusted.platformNamespace
  bound : i.tenants.length ≤ 25
  sorted : (i.tenants.map tenantIdOf).Pairwise (· < ·)
  tenants : List.Forall₂ (Matching i) (liveTenants rows) i.tenants

section Planning

variable {h : MappingHost} {i : RuntimeInputs} {s : Store}

theorem original_eq_ok {snapshot : TenantRouteSnapshot} :
    i.original = .ok snapshot ↔ i.tenants.length ≤ 25 ∧
      (i.tenants.map tenantIdOf).Pairwise (· < ·) ∧
        snapshot = ⟨i.trusted.platformNamespace, i.tenants⟩ := by
  unfold RuntimeInputs.original
  simp only [bind_eq_ok, require_eq_ok, decide_eq_true_eq, pure_eq_ok]
  constructor
  · rintro ⟨u, hbound, u', hsorted, rfl⟩
    exact ⟨hbound, hsorted, rfl⟩
  · rintro ⟨hbound, hsorted, rfl⟩
    exact ⟨(), hbound, (), hsorted, rfl⟩

theorem Matching.sameTenant {current source : TenantRouteInput} (hm : Matching i current source) :
    tenantIdOf current = tenantIdOf source := by
  unfold tenantIdOf
  rw [hm.manifest]

theorem planWrite_eq_ok {current source : TenantRouteInput} {w : PlannedWrite}
    (hread : readObserved h.toRouteHost (tenantIdOf current) s = .ok current.observedState) :
    planWrite h i s (current, source) = .ok w ↔
      Matching i current source ∧ w = plannedWrite i current source := by
  have hstored := readObserved_eq_ok.1 hread
  unfold planWrite
  simp only [bind_eq_ok, require_eq_ok, Bool.and_eq_true, Bool.or_eq_true, decide_eq_true_eq,
    mapError_eq_ok, pure_eq_ok]
  constructor
  · rintro ⟨u, ⟨⟨hmanifest, hdeployment⟩, hobserved⟩, stored, hread', rfl⟩
    have hm : Matching i current source := ⟨hmanifest, hdeployment, hobserved⟩
    rw [← hm.sameTenant, hstored] at hread'
    cases hread'
    exact ⟨hm, rfl⟩
  · rintro ⟨hm, rfl⟩
    refine ⟨(), ⟨⟨hm.manifest, hm.deployment⟩, hm.observed⟩,
      .tenantObservedState current.observedState, ?_, rfl⟩
    rw [← hm.sameTenant]
    exact hstored

/-- The planning goes through the matching tenants. -/
theorem mapM_planWrite {currents sources : List TenantRouteInput} {writes : List PlannedWrite}
    (hlength : currents.length = sources.length)
    (hread : ∀ current ∈ currents,
      readObserved h.toRouteHost (tenantIdOf current) s = .ok current.observedState) :
    (List.zip currents sources).mapM (planWrite h i s) = .ok writes ↔
      List.Forall₂ (Matching i) currents sources ∧
        writes = List.zipWith (plannedWrite i) currents sources := by
  rw [mapM_eq_ok_iff]
  induction currents generalizing sources writes with
  | nil =>
      obtain rfl := List.length_eq_zero_iff.1 hlength.symm
      rw [List.zip_nil_left, List.forall₂_nil_left_iff, List.zipWith_nil_left]
      exact ⟨fun hw => ⟨.nil, hw⟩, fun hw => hw.2⟩
  | cons current currents ih =>
      cases sources with
      | nil => cases hlength
      | cons source sources =>
          have hrest : ∀ ws, List.Forall₂ (fun row w => planWrite h i s row = .ok w)
              (currents.zip sources) ws ↔ List.Forall₂ (Matching i) currents sources ∧
                ws = List.zipWith (plannedWrite i) currents sources := fun ws =>
            ih (Nat.succ.inj hlength) fun c hc => hread c (List.mem_cons_of_mem _ hc)
          have hhead : ∀ w, planWrite h i s (current, source) = .ok w ↔
              Matching i current source ∧ w = plannedWrite i current source := fun w =>
            planWrite_eq_ok (hread current List.mem_cons_self)
          rw [List.zip_cons_cons, List.forall₂_cons_left_iff, List.zipWith_cons_cons,
            List.forall₂_cons]
          constructor
          · rintro ⟨w, ws, hw, hws, rfl⟩
            obtain ⟨hm, rfl⟩ := (hhead w).1 hw
            obtain ⟨hms, rfl⟩ := (hrest ws).1 hws
            exact ⟨⟨hm, hms⟩, rfl⟩
          · rintro ⟨⟨hm, hms⟩, rfl⟩
            exact ⟨_, _, (hhead _).2 ⟨hm, rfl⟩, (hrest _).2 ⟨hms, rfl⟩, rfl⟩

theorem mem_liveTenants {rows : List (TenantRouteInput × Bool)} {tenant : TenantRouteInput} :
    tenant ∈ liveTenants rows ↔ (tenant, false) ∈ rows := by
  unfold liveTenants
  rw [List.mem_map]
  constructor
  · rintro ⟨⟨live, archived⟩, hrow, rfl⟩
    obtain ⟨hrow, harchived⟩ := List.mem_filter.1 hrow
    cases archived with
    | false => exact hrow
    | true => cases harchived
  · intro hrow
    exact ⟨(tenant, false), List.mem_filter.2 ⟨hrow, rfl⟩, rfl⟩

theorem planWrites_eq_ok {m : RuntimeMapping} {writes : List PlannedWrite} :
    planWrites h m s = .ok writes ↔ ∃ found rows, Accepted h m.inputs s found rows ∧
      writes = List.zipWith (plannedWrite m.inputs) (liveTenants rows) m.inputs.tenants := by
  unfold planWrites
  simp only [bind_eq_ok, require_eq_ok, Bool.and_eq_true, decide_eq_true_eq, mapError_eq_ok,
    snapshotTenantRoutes_eq_ok, original_eq_ok]
  constructor
  · rintro ⟨intents, hintents, u, rfl, actual,
      ⟨platformNamespace, found, rows, hnamespace, hcaptured, rfl⟩, original,
      ⟨hbound, hsorted, rfl⟩, u', ⟨rfl, hlength⟩, hwrites⟩
    obtain ⟨hmatching, rfl⟩ := (mapM_planWrite hlength fun current hcurrent =>
      hcaptured.observed (mem_liveTenants.1 hcurrent)).1 hwrites
    exact ⟨found, rows, ⟨hintents, hcaptured, hnamespace, hbound, hsorted, hmatching⟩, rfl⟩
  · rintro ⟨found, rows, ha, rfl⟩
    have hlength := ha.tenants.length_eq
    refine ⟨[], ha.intents, (), rfl, _, ⟨_, found, rows, ha.platformNamespace, ha.captured, rfl⟩,
      _, ⟨ha.bound, ha.sorted, rfl⟩, (), ⟨rfl, hlength⟩, ?_⟩
    exact (mapM_planWrite hlength fun current hcurrent =>
      ha.captured.observed (mem_liveTenants.1 hcurrent)).2 ⟨ha.tenants, rfl⟩

end Planning

/-! ## The steps of an application -/

/-- One replacement for each captured tenant. -/
def applicationSteps (i : RuntimeInputs) : List CommitStep :=
  i.tenants.map fun source =>
    .put (.observed (tenantIdOf source)) (.tenantObservedState (targetOf i source))

/-- Every target may stand at its place. -/
def Fitting (h : MappingHost) (i : RuntimeInputs) : Prop :=
  ∀ source ∈ i.tenants, (StateRecordPath.tenantObserved (tenantIdOf source)).Fits h.encoding
    (.tenantObservedState (targetOf i source))

section Steps

variable {h : MappingHost} {i : RuntimeInputs} {s₀ s : Store}

theorem applicationSteps_ready (i : RuntimeInputs) :
    ∀ e ∈ applicationSteps i, ∀ u, e.Ready h.toStateHost u := by
  intro e he u
  obtain ⟨source, -, rfl⟩ := List.mem_map.1 he
  trivial

theorem applicationSteps_separate (hsorted : (i.tenants.map tenantIdOf).Pairwise (· < ·)) :
    Separate h.toStateHost (applicationSteps i) := by
  unfold Separate applicationSteps
  rw [List.pairwise_map] at hsorted ⊢
  refine hsorted.imp fun {a b} hlt => ?_
  have hne : tenantIdOf a ≠ tenantIdOf b := hlt.ne
  simp [CommitStep.observes, CommitStep.touches, hne, hne.symm]

theorem applicationSteps_orderly (hsorted : (i.tenants.map tenantIdOf).Pairwise (· < ·)) :
    Orderly (stepsOf h.toStateHost (applicationSteps i))
      (OnTheWay h.toStateHost (applicationSteps i) s₀) := by
  refine orderly_along (applicationSteps_separate hsorted) ?_
  intro before e after hsteps u hu hbefore hpending
  refine applicationSteps_ready i e ?_ u
  rw [hsteps]
  exact List.mem_append_right _ List.mem_cons_self

/-- Nothing but observations changes on the way. -/
theorem beside_along (hs : OnTheWay h.toStateHost (applicationSteps i) s₀ s) :
    SameBesideObserved h.toRouteHost s₀ s := by
  refine along_invariant hs ?_ (.refl s₀)
  intro e he u hu
  obtain ⟨source, -, rfl⟩ := List.mem_map.1 he
  exact hu.trans (.put _ _ u)

/-- The observation of a captured tenant on the way is its target or the one at the start. -/
theorem observed_along (hsorted : (i.tenants.map tenantIdOf).Pairwise (· < ·))
    (hs : OnTheWay h.toStateHost (applicationSteps i) s₀ s) {source : TenantRouteInput}
    (hsource : source ∈ i.tenants) :
    s.find? (.observed (tenantIdOf source)) = some (.tenantObservedState (targetOf i source)) ∨
      s.find? (.observed (tenantIdOf source)) = s₀.find? (.observed (tenantIdOf source)) := by
  obtain ⟨pre, post, htenants⟩ := List.append_of_mem hsource
  have hsteps : applicationSteps i = _ := congrArg (List.map _) htenants
  rw [List.map_append, List.map_cons] at hsteps
  refine (put_along hs hsteps ?_).imp And.right id
  intro e he
  obtain ⟨earlier, hearlier, rfl⟩ := List.mem_map.1 he
  rw [htenants, List.map_append, List.pairwise_append] at hsorted
  have hlt := hsorted.2.2 _ (List.mem_map_of_mem hearlier) _ List.mem_cons_self
  simp [CommitStep.touches, hlt.ne']

/-- Every other file is as at the start. -/
theorem unlisted_along (hs : OnTheWay h.toStateHost (applicationSteps i) s₀ s) {p : FilePath}
    (hp : ∀ source ∈ i.tenants, p ≠ .observed (tenantIdOf source)) : s.find? p = s₀.find? p := by
  refine (@along_same _ _ _ _ (.file p)) hs ?_
  intro e he
  obtain ⟨source, hsource, rfl⟩ := List.mem_map.1 he
  simp [CommitStep.touches, hp source hsource]

end Steps

/-! ## Planning on the way -/

/-- The observation that a state holds of a tenant. -/
def observedIn (s : Store) (tenant : TenantRouteInput) : TenantObservedState :=
  match s.find? (.observed (tenantIdOf tenant)) with
  | some (.tenantObservedState observed) => observed
  | _ => tenant.observedState

def reobserve (s : Store) (tenant : TenantRouteInput) : TenantRouteInput :=
  { tenant with observedState := observedIn s tenant }

def reobservedRows (s : Store) (rows : List (TenantRouteInput × Bool)) :
    List (TenantRouteInput × Bool) :=
  rows.map fun row => (reobserve s row.1, row.2)

section Replanning

variable {h : MappingHost} {i : RuntimeInputs} {s₀ s : Store} {found : List Uuid7}
  {rows : List (TenantRouteInput × Bool)}

theorem observedIn_eq {tenant : TenantRouteInput} {o : TenantObservedState}
    (hfind : s.find? (.observed (tenantIdOf tenant)) = some (.tenantObservedState o)) :
    observedIn s tenant = o := by
  unfold observedIn
  rw [hfind]

theorem liveTenants_reobserved (s : Store) (rows : List (TenantRouteInput × Bool)) :
    liveTenants (reobservedRows s rows) = (liveTenants rows).map (reobserve s) := by
  unfold liveTenants reobservedRows
  rw [List.filter_map, List.map_map, List.map_map]
  rfl

theorem find_observed {t : Uuid7} {o : TenantObservedState}
    (hread : readObserved h.toRouteHost t s = .ok o) :
    s.find? (.observed t) = some (.tenantObservedState o) :=
  (readLocked_eq_ok.1 (readObserved_eq_ok.1 hread)).1

/-- An observation that did not change is read as before. -/
theorem observedIn_same {tenant : TenantRouteInput}
    (hread : readObserved h.toRouteHost (tenantIdOf tenant) s₀ = .ok tenant.observedState)
    (hsame : s.find? (.observed (tenantIdOf tenant)) =
      s₀.find? (.observed (tenantIdOf tenant))) :
    observedIn s tenant = tenant.observedState ∧
      readObserved h.toRouteHost (tenantIdOf tenant) s = .ok tenant.observedState := by
  refine ⟨observedIn_eq (hsame.trans (find_observed hread)), readObserved_eq_ok.2 ?_⟩
  rw [← readObserved_eq_ok.1 hread]
  exact readLocked_same hsame

theorem Matching.forall₂_reobserve {currents sources : List TenantRouteInput}
    (hmatching : List.Forall₂ (Matching i) currents sources)
    (hnext : ∀ current ∈ currents, ∀ source ∈ sources, Matching i current source →
      Matching i (reobserve s current) source) :
    List.Forall₂ (Matching i) (currents.map (reobserve s)) sources := by
  induction hmatching with
  | nil => exact .nil
  | cons hm _ ih =>
      refine .cons (hnext _ List.mem_cons_self _ List.mem_cons_self hm) (ih ?_)
      intro current hcurrent source hsource
      exact hnext current (List.mem_cons_of_mem _ hcurrent) source
        (List.mem_cons_of_mem _ hsource)

namespace Accepted

/-- An archived tenant is none of the captured ones. -/
theorem archived_unlisted (ha : Accepted h i s₀ found rows) {row : TenantRouteInput × Bool}
    (hrow : row ∈ rows) (harchived : row.2 = true) :
    ∀ source ∈ i.tenants, tenantIdOf row.1 ≠ tenantIdOf source := by
  intro source hsource hid
  obtain ⟨current, hcurrent, hm⟩ := forall₂_mem_right ha.tenants hsource
  rw [← hm.sameTenant] at hid
  have hlive := mem_liveTenants.1 hcurrent
  have hsame := List.inj_on_of_nodup_map ha.captured.ids_nodup hrow hlive hid
  rw [hsame] at harchived
  cases harchived

/-- Every tenant is observed as on the way, an archived one as at the start. -/
theorem observes (ha : Accepted h i s₀ found rows) (hfits : Fitting h i)
    (hs : OnTheWay h.toStateHost (applicationSteps i) s₀ s) :
    ∀ row ∈ rows, readObserved h.toRouteHost (tenantIdOf row.1) s = .ok (observedIn s row.1) ∧
      (row.2 = true → observedIn s row.1 = row.1.observedState) := by
  intro row hrow
  have hread := ha.captured.observed hrow
  have hunchanged : s.find? (.observed (tenantIdOf row.1)) =
      s₀.find? (.observed (tenantIdOf row.1)) →
        readObserved h.toRouteHost (tenantIdOf row.1) s = .ok (observedIn s row.1) ∧
          observedIn s row.1 = row.1.observedState := by
    intro hsame
    obtain ⟨hobserved, hread'⟩ := observedIn_same hread hsame
    rw [hobserved]
    exact ⟨hread', rfl⟩
  by_cases hlisted : ∃ source ∈ i.tenants, tenantIdOf row.1 = tenantIdOf source
  · obtain ⟨source, hsource, hid⟩ := hlisted
    refine ⟨?_, fun harchived => absurd hid (ha.archived_unlisted hrow harchived source hsource)⟩
    rcases observed_along ha.sorted hs hsource with htarget | hsame
    · rw [← hid] at htarget
      rw [observedIn_eq htarget]
      refine readObserved_eq_ok.2 (readLocked_eq_ok.2 ⟨htarget, ?_⟩)
      rw [hid]
      exact hfits source hsource
    · rw [← hid] at hsame
      exact (hunchanged hsame).1
  · have hsame := hunchanged (unlisted_along hs fun source hsource hp =>
      hlisted ⟨source, hsource, FilePath.observed.inj hp⟩)
    exact ⟨hsame.1, fun _ => hsame.2⟩

/-- In every state on the way the planning accepts again. -/
theorem along (ha : Accepted h i s₀ found rows) (hfits : Fitting h i)
    (hs : OnTheWay h.toStateHost (applicationSteps i) s₀ s) :
    Accepted h i s found (reobservedRows s rows) where
  intents := by
    rw [← ha.intents]
    exact measureRecords_same fun t => unlisted_along hs fun _ _ hp => by cases hp
  captured := ha.captured.reobserved (beside_along hs) (observedIn s) (ha.observes hfits hs)
  platformNamespace := by
    rw [(beside_along hs).platformState]
    exact ha.platformNamespace
  bound := ha.bound
  sorted := ha.sorted
  tenants := by
    rw [liveTenants_reobserved]
    refine Matching.forall₂_reobserve ha.tenants ?_
    intro current hcurrent source hsource hm
    refine ⟨hm.manifest, hm.deployment, ?_⟩
    show observedIn s current = _ ∨ observedIn s current = _
    rcases observed_along ha.sorted hs hsource with htarget | hsame
    · rw [← hm.sameTenant] at htarget
      exact .inr (observedIn_eq htarget)
    · rw [← hm.sameTenant] at hsame
      rw [(observedIn_same (ha.captured.observed (mem_liveTenants.1 hcurrent)) hsame).1]
      exact hm.observed

/-- Where every target is installed, the snapshot is the projected one. -/
theorem projected_live (ha : Accepted h i s found rows)
    (hdone : ∀ source ∈ i.tenants, s.find? (.observed (tenantIdOf source)) =
      some (.tenantObservedState (targetOf i source))) :
    liveTenants rows = i.tenants.map (projectTenant i.newGenerationId) := by
  have hlive : ∀ current ∈ liveTenants rows,
      readObserved h.toRouteHost (tenantIdOf current) s = .ok current.observedState :=
    fun current hcurrent => ha.captured.observed (mem_liveTenants.1 hcurrent)
  have hmatching := ha.tenants
  revert hlive hdone hmatching
  generalize liveTenants rows = currents
  generalize i.tenants = sources
  intro hdone hlive hmatching
  induction hmatching with
  | nil => rfl
  | @cons current source currents sources hm _ ih =>
      have hread := find_observed (hlive current List.mem_cons_self)
      rw [hm.sameTenant, hdone source List.mem_cons_self] at hread
      have hhead : current = projectTenant i.newGenerationId source := by
        obtain ⟨manifest, observed, deployment⟩ := current
        obtain rfl : manifest = source.manifest := hm.manifest
        obtain rfl : deployment = source.deployment := hm.deployment
        cases hread
        rfl
      rw [List.map_cons, hhead, ih (fun t ht => hdone t (List.mem_cons_of_mem _ ht))
        fun t ht => hlive t (List.mem_cons_of_mem _ ht)]

end Accepted

end Replanning

/-! ## The run -/

section Run

variable {h : MappingHost} {files : RestoreFiles} {m : RuntimeMapping} {s : Store}
  {found : List Uuid7} {rows : List (TenantRouteInput × Bool)}

/-- A routed tenant has a valid observation of its own. -/
theorem validateTenantRouteInput_observed {e : Encoding} {source : TenantRouteInput}
    {v : ValidatedTenantRoute} (hok : validateTenantRouteInput e source = .ok v) :
    ValidContract e (.tenantObservedState source.observedState) ∧
      source.observedState.tenantId = tenantIdOf source := by
  unfold validateTenantRouteInput at hok
  obtain ⟨d, -, hok⟩ := bind_eq_ok.mp hok
  obtain ⟨d', hvalid, hok⟩ := bind_eq_ok.mp hok
  obtain ⟨u, -, hok⟩ := bind_eq_ok.mp hok
  obtain ⟨u', hid, -⟩ := bind_eq_ok.mp hok
  exact ⟨(validateContract_eq_ok.mp (Caddy.liftContract_eq_ok.mp hvalid)).1,
    of_decide_eq_true (require_eq_ok.mp hid)⟩

/-- A committed mapping has routes, so its targets may stand. -/
theorem requireCommitted_fits (hcommitted : requireCommitted h files m = .ok ()) :
    Fitting h m.inputs := by
  unfold requireCommitted at hcommitted
  obtain ⟨journal?, -, hcommitted⟩ := bind_eq_ok.1 hcommitted
  cases journal? with
  | none => cases hcommitted
  | some journal =>
      obtain ⟨u, -, hcommitted⟩ := bind_eq_ok.1 hcommitted
      obtain ⟨u', -, hcommitted⟩ := bind_eq_ok.1 hcommitted
      obtain ⟨stored, -, hcommitted⟩ := bind_eq_ok.1 hcommitted
      obtain ⟨raw, hbytes, -⟩ := bind_eq_ok.1 hcommitted
      obtain ⟨routes, hroutes, -⟩ := bind_eq_ok.1 hbytes
      obtain ⟨target, htarget, hbuilt⟩ := bind_eq_ok.1 hroutes
      obtain ⟨original, horiginal, hprojected⟩ := bind_eq_ok.1 htarget
      obtain rfl := pure_eq_ok.1 hprojected
      obtain ⟨-, -, rfl⟩ := original_eq_ok.1 horiginal
      have hroutes := mapError_eq_ok.1 hbuilt
      unfold buildTenantCaddyRoutes at hroutes
      obtain ⟨v, -, hroutes⟩ := bind_eq_ok.1 hroutes
      obtain ⟨v', -, hroutes⟩ := bind_eq_ok.1 hroutes
      obtain ⟨inputs, hinputs, -⟩ := bind_eq_ok.1 hroutes
      intro source hsource
      obtain ⟨v, -, hok⟩ := forall₂_mem_left (mapM_eq_ok_iff.1 hinputs)
        (List.mem_map_of_mem (f := projectTenant m.inputs.newGenerationId) hsource)
      obtain ⟨hvalid, hid⟩ := validateTenantRouteInput_observed hok
      exact ⟨rfl, hvalid, decide_eq_true hid⟩

/-- What a planned write knows. -/
structure Planned (h : MappingHost) (i : RuntimeInputs) (s : Store) (source : TenantRouteInput)
    (w : PlannedWrite) : Prop where
  tenantId : w.tenantId = tenantIdOf source
  target : w.target = targetOf i source
  stored : ∃ o, w.stored = .tenantObservedState o
  read : readLocked h.toStateHost (.tenantObserved w.tenantId) s = .ok w.stored

theorem Accepted.planned {i : RuntimeInputs} (ha : Accepted h i s found rows) :
    List.Forall₂ (Planned h i s) i.tenants
      (List.zipWith (plannedWrite i) (liveTenants rows) i.tenants) := by
  have hlive : ∀ current ∈ liveTenants rows,
      readObserved h.toRouteHost (tenantIdOf current) s = .ok current.observedState :=
    fun current hcurrent => ha.captured.observed (mem_liveTenants.1 hcurrent)
  have hmatching := ha.tenants
  revert hlive hmatching
  generalize liveTenants rows = currents
  generalize i.tenants = sources
  intro hlive hmatching
  induction hmatching with
  | nil => exact .nil
  | @cons current source currents sources hm _ ih =>
      refine .cons ⟨rfl, rfl, ⟨_, rfl⟩, ?_⟩ (ih fun t ht => hlive t (List.mem_cons_of_mem _ ht))
      have hread := readObserved_eq_ok.1 (hlive current List.mem_cons_self)
      rw [hm.sameTenant] at hread
      exact hread

/-- The step of a planned write. -/
def writeStep (w : PlannedWrite) : CommitStep :=
  .put (.observed w.tenantId) (.tenantObservedState w.target)

/-- A write whose record is the one that was planned. -/
theorem writeObservation_performs {w : PlannedWrite}
    (hstored : ∃ o, w.stored = .tenantObservedState o)
    (hread : readLocked h.toStateHost (.tenantObserved w.tenantId) s = .ok w.stored)
    (hfits : (StateRecordPath.tenantObserved w.tenantId).Fits h.encoding
      (.tenantObservedState w.target)) :
    Performs (writeObservation h w) (stepsOf h.toStateHost [writeStep w]) s () := by
  refine Performs.when (e := CommitStep.toStep h.toStateHost (writeStep w)) ?_ ?_
  · intro hchanged
    refine Durable.raising_performs (compareAndSwap_performs hfits ⟨rfl, w.stored, hread, rfl, ?_,
      ?_⟩).dropped
    · obtain ⟨o, ho⟩ := hstored
      rw [ho]
      rfl
    · obtain ⟨o, ho⟩ := hstored
      rw [ho]
      rfl
  · intro hsame
    have htarget : w.stored = .tenantObservedState w.target := by simpa using hsame
    have hfind : s.find? (.observed w.tenantId) = some w.stored := (readLocked_eq_ok.1 hread).1
    show decide (s.find? (.observed w.tenantId) ≠ _) = false
    rw [hfind, htarget]
    simp

/-- Where the planning accepts, the application makes its steps. -/
theorem applyRuntimeMapping_performs (hcommitted : requireCommitted h files m = .ok ())
    (ha : Accepted h m.inputs s found rows) :
    Performs (applyRuntimeMapping h files m)
      (stepsOf h.toStateHost (applicationSteps m.inputs)) s () := by
  have hfits := requireCommitted_fits hcommitted
  have hplanned := ha.planned
  refine Performs.query_bind hcommitted (Performs.query_bind
    (planWrites_eq_ok.2 ⟨found, rows, ha, rfl⟩) ?_)
  generalize List.zipWith (plannedWrite m.inputs) (liveTenants rows) m.inputs.tenants = writes
    at hplanned
  have hids := forall₂_map_eq (f := tenantIdOf) (g := PlannedWrite.tenantId)
    (fun _ _ hw => hw.tenantId) hplanned
  have hsteps : stepsOf h.toStateHost (applicationSteps m.inputs) =
      writes.flatMap fun w => stepsOf h.toStateHost [writeStep w] := by
    have hmap : writes.map writeStep = applicationSteps m.inputs :=
      forall₂_map_eq (fun source w hw => by
        unfold writeStep
        rw [hw.tenantId, hw.target]) hplanned
    rw [← hmap, stepsOf, List.map_map, List.map_eq_flatMap]
    rfl
  rw [hsteps]
  have hloop := (@Performs.forM _ _ _ (writeObservation h)
    (fun w => stepsOf h.toStateHost [writeStep w]) (fun _ => true) writes s) ?_
  · rwa [List.filter_true] at hloop
  · intro pre w post hwrites
    refine ⟨fun _ => ?_, fun hfalse => by cases hfalse⟩
    have hmem : w ∈ writes := by
      rw [hwrites]
      exact List.mem_append_right _ List.mem_cons_self
    obtain ⟨source, hsource, hw⟩ := forall₂_mem_right hplanned hmem
    have hread : readLocked h.toStateHost (.tenantObserved w.tenantId)
        (settleAll (pre.flatMap fun w => stepsOf h.toStateHost [writeStep w]) s) =
          readLocked h.toStateHost (.tenantObserved w.tenantId) s := by
      refine readLocked_same ?_
      have hpre : (pre.flatMap fun w => stepsOf h.toStateHost [writeStep w]) =
          stepsOf h.toStateHost (pre.map writeStep) := by
        rw [stepsOf, List.map_map, List.map_eq_flatMap]
        rfl
      rw [hpre]
      refine (@CommitStep.settleAll_same _ _ _ (.file (.observed w.tenantId))) ?_
      intro e he
      obtain ⟨earlier, hearlier, rfl⟩ := List.mem_map.1 he
      have hsorted := ha.sorted
      rw [← hids, hwrites, List.map_append, List.pairwise_append] at hsorted
      have hlt := hsorted.2.2 _ (List.mem_map_of_mem hearlier) _ List.mem_cons_self
      simp [writeStep, CommitStep.touches, hlt.ne']
    refine writeObservation_performs hw.stored (hread.trans hw.read) ?_
    rw [hw.tenantId, hw.target]
    exact hfits source hsource

/-- An application goes through exactly if the mapping is committed and the planning accepts. -/
theorem applyRuntimeMapping_ok :
    (applyRuntimeMapping h files m s).result = .ok () ↔
      requireCommitted h files m = .ok () ∧ ∃ found rows, Accepted h m.inputs s found rows := by
  constructor
  · intro hresult
    obtain ⟨u, hcommitted, hresult⟩ := Durable.query_bind_result_ok hresult
    obtain ⟨writes, hwrites, -⟩ := Durable.query_bind_result_ok hresult
    obtain ⟨found, rows, ha, -⟩ := planWrites_eq_ok.1 hwrites
    exact ⟨hcommitted, found, rows, ha⟩
  · rintro ⟨hcommitted, found, rows, ha⟩
    exact (applyRuntimeMapping_performs hcommitted ha).result

/-- A refused application makes nothing durable. -/
theorem applyRuntimeMapping_refused {e : MappingError}
    (herror : (applyRuntimeMapping h files m s).result = .error e) :
    (applyRuntimeMapping h files m s).trace = [] := by
  cases hcommitted : requireCommitted h files m with
  | error e' =>
      have hrun : applyRuntimeMapping h files m s = ⟨[], s, .error e'⟩ :=
        Durable.query_bind_error hcommitted
      rw [hrun]
  | ok u =>
      have hrun : applyRuntimeMapping h files m s = _ := Durable.query_bind_ok hcommitted
      cases hwrites : planWrites h m s with
      | error e' =>
          rw [hrun, Durable.query_bind_error hwrites]
      | ok writes =>
          obtain ⟨found, rows, ha, -⟩ := planWrites_eq_ok.1 hwrites
          rw [(applyRuntimeMapping_performs hcommitted ha).result] at herror
          cases herror

/-- From every state on the way the application makes the same steps. -/
theorem applyRuntimeMapping_settles (hcommitted : requireCommitted h files m = .ok ())
    (ha : Accepted h m.inputs s found rows) :
    Settles (applyRuntimeMapping h files m) (stepsOf h.toStateHost (applicationSteps m.inputs))
      (OnTheWay h.toStateHost (applicationSteps m.inputs) s) fun _ => True := by
  intro t ht
  exact ⟨(), trivial, applyRuntimeMapping_performs hcommitted
    (ha.along (requireCommitted_fits hcommitted) ht)⟩

/-- What is stored of a captured tenant at the start. -/
theorem Accepted.stored {i : RuntimeInputs} (ha : Accepted h i s found rows)
    {source : TenantRouteInput} (hsource : source ∈ i.tenants) :
    s.find? (.observed (tenantIdOf source)) = some (.tenantObservedState source.observedState) ∨
      s.find? (.observed (tenantIdOf source)) =
        some (.tenantObservedState (targetOf i source)) := by
  obtain ⟨current, hcurrent, hm⟩ := forall₂_mem_right ha.tenants hsource
  have hread := find_observed (ha.captured.observed (mem_liveTenants.1 hcurrent))
  rw [hm.sameTenant] at hread
  rw [hread]
  rcases hm.observed with hobserved | hobserved
  · rw [hobserved]
    exact .inl rfl
  · rw [hobserved]
    exact .inr rfl

/-- What an application does, whenever it is interrupted. -/
structure ApplicationLaws (h : MappingHost) (files : RestoreFiles) (m : RuntimeMapping)
    (s : Store) : Prop where
  /-- A refused application makes nothing durable. -/
  refused : ∀ e, (applyRuntimeMapping h files m s).result = .error e →
    (applyRuntimeMapping h files m s).trace = []
  /-- A state whose live tenants are the captured ones is accepted. -/
  accepted : requireCommitted h files m = .ok () → measureIntentRecords h.toStateHost s = .ok [] →
    ∀ snapshot, m.inputs.original = .ok snapshot →
      snapshotTenantRoutes h.toRouteHost s = .ok snapshot →
        (applyRuntimeMapping h files m s).result = .ok ()
  /-- An accepted application that crashed any number of times is completed by the next run, which
  ends where the uninterrupted one ends. -/
  resumes : (applyRuntimeMapping h files m s).result = .ok () →
    (applyRuntimeMapping h files m).Converges (fun _ => True) s
  /-- On the way every captured tenant is observed as captured or as projected. -/
  between : (applyRuntimeMapping h files m s).result = .ok () →
    ∀ t, (applyRuntimeMapping h files m).Survives s t → ∀ source ∈ m.inputs.tenants,
      t.find? (.observed (tenantIdOf source)) =
          some (.tenantObservedState source.observedState) ∨
        t.find? (.observed (tenantIdOf source)) =
          some (.tenantObservedState (projectObserved m.inputs.newGenerationId
            source.observedState))
  /-- In the end the route snapshot is the projected one. -/
  installs : (applyRuntimeMapping h files m s).result = .ok () →
    ∃ snapshot, m.inputs.projected = .ok snapshot ∧
      snapshotTenantRoutes h.toRouteHost (applyRuntimeMapping h files m s).state = .ok snapshot
  /-- Nothing but the observations of active captured tenants changes. -/
  frame : (applyRuntimeMapping h files m s).result = .ok () →
    ∀ t, (applyRuntimeMapping h files m).Survives s t →
      (t.tenants = s.tenants ∧ t.releases = s.releases ∧ t.audit = s.audit) ∧
        ∀ p, (∀ source ∈ m.inputs.tenants, source.observedState.observedState = .active →
          p ≠ .observed (tenantIdOf source)) → t.find? p = s.find? p

/-- An application is all or nothing, may be interrupted anywhere, and installs the projected
observations. -/
theorem applyRuntimeMapping_laws (h : MappingHost) (files : RestoreFiles) (m : RuntimeMapping)
    (s : Store) : ApplicationLaws h files m s where
  refused := fun _ => applyRuntimeMapping_refused
  accepted := by
    intro hcommitted hintents snapshot horiginal hsnapshot
    obtain ⟨hbound, hsorted, rfl⟩ := original_eq_ok.1 horiginal
    obtain ⟨platformNamespace, found, rows, hnamespace, hcaptured, heq⟩ :=
      snapshotTenantRoutes_eq_ok.1 hsnapshot
    obtain ⟨hplatform, hlive⟩ := TenantRouteSnapshot.mk.inj heq
    rw [← hplatform] at hnamespace
    refine applyRuntimeMapping_ok.2 ⟨hcommitted, found, rows, hintents, hcaptured, hnamespace,
      hbound, hsorted, ?_⟩
    rw [← hlive]
    exact List.forall₂_same.2 fun t _ => ⟨rfl, rfl, .inl rfl⟩
  resumes := by
    intro hresult
    obtain ⟨hcommitted, found, rows, ha⟩ := applyRuntimeMapping_ok.1 hresult
    exact (applyRuntimeMapping_settles hcommitted ha).resume (applicationSteps_orderly ha.sorted)
      (Along.refl _ s)
  between := by
    intro hresult t ht source hsource
    obtain ⟨hcommitted, found, rows, ha⟩ := applyRuntimeMapping_ok.1 hresult
    have hway := ((applyRuntimeMapping_settles hcommitted ha).survives
      (applicationSteps_orderly ha.sorted) (Along.refl _ s) ht).1
    rcases observed_along ha.sorted hway hsource with htarget | hsame
    · exact .inr htarget
    · rw [hsame]
      exact ha.stored hsource
  installs := by
    intro hresult
    obtain ⟨hcommitted, found, rows, ha⟩ := applyRuntimeMapping_ok.1 hresult
    have hfits := requireCommitted_fits hcommitted
    have hend : OnTheWay h.toStateHost (applicationSteps m.inputs) s
        (applyRuntimeMapping h files m s).state := by
      rw [(applyRuntimeMapping_performs hcommitted ha).state]
      exact ((applicationSteps_orderly ha.sorted).finish (Along.refl _ s)).1
    have hsettled : ∀ e ∈ applicationSteps m.inputs,
        e.pending h.toStateHost (applyRuntimeMapping h files m s).state = false := by
      rw [(applyRuntimeMapping_performs hcommitted ha).state]
      exact settled_settleAll (applicationSteps_separate ha.sorted)
        (applicationSteps_ready m.inputs)
    -- the inputs are still captured at the end, now with every observation replaced
    have hagain := ha.along hfits hend
    have hlive := hagain.projected_live fun source hsource => by
      have hpending := hsettled _ (List.mem_map_of_mem hsource)
      simpa [CommitStep.pending] using hpending
    refine ⟨⟨m.inputs.trusted.platformNamespace,
      m.inputs.tenants.map (projectTenant m.inputs.newGenerationId)⟩, ?_, ?_⟩
    · have horiginal := original_eq_ok.2 ⟨ha.bound, ha.sorted, rfl⟩
      unfold RuntimeInputs.projected
      rw [horiginal]
      rfl
    · rw [← hlive]
      exact snapshotTenantRoutes_eq_ok.2
        ⟨_, found, _, hagain.platformNamespace, hagain.captured, rfl⟩
  frame := by
    intro hresult t ht
    obtain ⟨hcommitted, found, rows, ha⟩ := applyRuntimeMapping_ok.1 hresult
    have hway := ((applyRuntimeMapping_settles hcommitted ha).survives
      (applicationSteps_orderly ha.sorted) (Along.refl _ s) ht).1
    have hbeside := beside_along hway
    refine ⟨⟨hbeside.tenants, hbeside.releases, hbeside.audit⟩, ?_⟩
    intro p hp
    -- a listed tenant that is not active is projected to the observation it already has
    by_cases hlisted : ∃ source ∈ m.inputs.tenants, p = .observed (tenantIdOf source)
    · obtain ⟨source, hsource, rfl⟩ := hlisted
      have hinactive : source.observedState.observedState ≠ .active := fun hactive =>
        hp source hsource hactive rfl
      have htarget : targetOf m.inputs source = source.observedState :=
        if_neg hinactive
      have hstored := ha.stored hsource
      rw [htarget, or_self] at hstored
      rcases observed_along ha.sorted hway hsource with hdone | hsame
      · rw [hdone, htarget, hstored]
      · exact hsame
    · exact unlisted_along hway fun source hsource hp' => hlisted ⟨source, hsource, hp'⟩

end Run

/-! ## The application of a mapping of one tenant -/

def sampleReceipt : Bytes := [123, 125, 10]

def sampleAdvanced (before : RestoreJournal) (phase : RestorePhase) : RestoreJournal :=
  advanced sampleBackupHost before sampleDigest phase sampleReceipt

def sampleRestored : RestoreJournal := sampleAdvanced sampleJournal .restored

def sampleValidated : RestoreJournal := sampleAdvanced sampleRestored .validated

def sampleReconciled : RestoreJournal := sampleAdvanced sampleValidated .reconciled

theorem sampleAdvanced_wellFormed {before : RestoreJournal} {phase : RestorePhase}
    (hbefore : WellFormed before) (hphase : phase.index = before.phase.index + 1) :
    WellFormed (sampleAdvanced before phase) :=
  hbefore.advanced hphase (FramedDigest.hasFormat_sha256Text _ _) sampleReceipt

theorem sampleJournal_restored : SampleJournal sampleRestored :=
  sampleJournal_of (sampleAdvanced_wellFormed sampleJournal_prepared.wellFormed rfl)
    (by decide +kernel)

theorem sampleJournal_validated : SampleJournal sampleValidated :=
  sampleJournal_of (sampleAdvanced_wellFormed sampleJournal_restored.wellFormed rfl)
    (by decide +kernel)

theorem sampleJournal_reconciled : SampleJournal sampleReconciled :=
  sampleJournal_of (sampleAdvanced_wellFormed sampleJournal_validated.wellFormed rfl)
    (by decide +kernel)

/-- The recovery directory of the reconciled restore, with the plan and the mapping. -/
def sampleFiles : RestoreFiles :=
  [(planName, [3]), (mappingName, [4]), (receiptName .restored, sampleReceipt),
    (receiptName .validated, sampleReceipt), (receiptName .reconciled, sampleReceipt),
    (journalName .prepared, sampleBytes sampleJournal),
    (journalName .restored, sampleBytes sampleRestored),
    (journalName .validated, sampleBytes sampleValidated),
    (journalName .reconciled, sampleBytes sampleReconciled),
    (journalHead, sampleBytes sampleReconciled)].foldl
      (fun files file => files.insert file.1 file.2) Directory.empty

theorem sampleFiles_stored :
    sampleFiles.find? (journalName .prepared) = some (sampleBytes sampleJournal) ∧
      sampleFiles.find? (journalName .restored) = some (sampleBytes sampleRestored) ∧
      sampleFiles.find? (journalName .validated) = some (sampleBytes sampleValidated) ∧
      sampleFiles.find? (journalName .reconciled) = some (sampleBytes sampleReconciled) ∧
      sampleFiles.find? journalHead = some (sampleBytes sampleReconciled) := by
  refine ⟨?_, ?_, ?_, ?_, ?_⟩ <;>
    simp (disch := decide) only [sampleFiles, List.foldl_cons, List.foldl_nil,
      Directory.find?_insert_of_ne, Directory.find?_insert_self]

theorem sampleReceipt_recorded : sampleBackupHost.Recorded maxRestoreBytes sampleReceipt :=
  ⟨⟨[], .object [] List.Pairwise.nil (fun _ hmem => absurd hmem List.not_mem_nil)⟩,
    by decide +kernel⟩

theorem sampleFiles_read : read sampleBackupHost sampleFiles = .ok (some sampleReconciled) := by
  obtain ⟨hprepared, hrestored, hvalidated, hreconciled, hhead⟩ := sampleFiles_stored
  have hone : Recorded sampleBackupHost sampleFiles sampleJournal :=
    .prepared rfl sampleJournal_prepared.written hprepared
  have htwo : Recorded sampleBackupHost sampleFiles sampleRestored :=
    .advanced hone rfl rfl sampleReceipt_recorded sampleJournal_prepared.hashed
      sampleJournal_restored.written hrestored
  have hthree : Recorded sampleBackupHost sampleFiles sampleValidated :=
    .advanced htwo rfl rfl sampleReceipt_recorded sampleJournal_restored.hashed
      sampleJournal_validated.written hvalidated
  have hfour : Recorded sampleBackupHost sampleFiles sampleReconciled :=
    .advanced hthree rfl rfl sampleReceipt_recorded sampleJournal_validated.hashed
      sampleJournal_reconciled.written hreconciled
  exact read_eq_some.2 ⟨_, hhead, sampleJournal_reconciled.written, hfour⟩

def sampleStore : Store where
  files := ((Directory.empty.insert (.desired sampleTenant) (.site activeInput.manifest)).insert
    (.observed sampleTenant) (.tenantObservedState activeInput.observedState)).insert
    (.deployment sampleTenant (sampleId 5)) (.deploymentRecord activeDeployment)
  tenants := Directory.empty.insert sampleTenant ⟨true, true⟩
  platformState := none
  releases := Directory.empty
  audit := ⟨none, Directory.empty⟩

theorem sampleMapping_committed :
    requireCommitted sampleMappingHost sampleFiles sampleMapping = .ok () := by
  have hjournal : sampleInputs.requireJournal sampleMappingHost sampleReconciled = .ok () := by
    unfold RuntimeInputs.requireJournal
    rw [show RestoreJournal.digest sampleMappingHost.backup sampleReconciled = .ok sampleDigest from
      sampleJournal_reconciled.hashed]
    simp only [liftRestore, mapError, ok_bind, require_eq_ok, Bool.and_eq_true, decide_eq_true_eq]
    exact ⟨⟨⟨⟨⟨⟨⟨⟨⟨rfl, rfl⟩, rfl⟩, rfl⟩, rfl⟩, rfl⟩, rfl⟩, rfl⟩, rfl⟩, rfl⟩
  have hmapping : readBytes mappingName sampleFiles = .ok [4] :=
    readBytes_eq_ok.2 ⟨rfl, by decide⟩
  have hbytes : sampleMapping.toBytes sampleMappingHost = .ok [4] := rfl
  have hinputs : readInputs sampleMappingHost sampleFiles = .ok sampleInputs := by
    unfold readInputs
    rw [show sampleFiles.find? planName = some [3] from rfl]
    rfl
  refine bind_eq_ok.2 ⟨_, mapError_eq_ok.2 sampleFiles_read, ?_⟩
  refine bind_eq_ok.2 ⟨(), rfl, bind_eq_ok.2 ⟨(), hjournal, ?_⟩⟩
  refine bind_eq_ok.2 ⟨_, mapError_eq_ok.2 hmapping, bind_eq_ok.2 ⟨_, hbytes, ?_⟩⟩
  exact bind_eq_ok.2 ⟨(), rfl, bind_eq_ok.2 ⟨_, hinputs, rfl⟩⟩

theorem sampleMapping_installed :
    ∃ snapshot, sampleInputs.projected = .ok snapshot ∧
      snapshotTenantRoutes sampleMappingHost.toRouteHost
        (applyRuntimeMapping sampleMappingHost sampleFiles sampleMapping sampleStore).state =
          .ok snapshot := by
  have hlaws := applyRuntimeMapping_laws sampleMappingHost sampleFiles sampleMapping sampleStore
  exact hlaws.installs (hlaws.accepted sampleMapping_committed rfl
    ⟨⟨tenantDomain, sampleTime⟩, [activeInput]⟩ rfl rfl)

end StaticHostAgent.HostRestore
