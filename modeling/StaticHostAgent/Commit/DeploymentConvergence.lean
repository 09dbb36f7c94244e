import StaticHostAgent.Commit.DeploymentRuns
import StaticHostAgent.Commit.Laws

/-!
# Convergence of the deployment commit

Which records and releases a later run of a deployment commit finds: a record that leaves the history
goes only after the states are written and every leaving release is removed, so the records still
there are those whose steps remain. `DeploymentReady` therefore holds in every state on the way until
the intent is gone, and the laws of the commit follow as for the other commits.
-/

set_option autoImplicit false

namespace StaticHostAgent.Commit

open Library Contracts Host Audit State

variable {host : StateHost} {limits : HostCapacityLimits} {expected job : AuthorizationJob}
  {documents : DeploymentDocuments} {retired : List DeploymentRecord} {s₀ s : Store}
  (h : DeploymentReady host limits expected documents job s₀)
  (hplan : HistoryPlan documents) (hleaving : Leaving host documents s₀ retired)
  (hretirable : Retirable documents retired)
  (hs : OnTheWay host (deploymentSteps documents job retired) s₀ s)

/-- The record of a deployment is stored. -/
def recordPresent (t : Uuid7) (s : Store) (r : DeploymentRecord) : Bool :=
  (s.find? (.deployment t r.id)).isSome

/-! ## Histories on the way -/

/-- A step that writes no record of the tenant. -/
theorem deploymentSteps_records {d : Uuid7}
    (hnew : documents.createsDeployment = true → d ≠ documents.deployment.id)
    (hother : ∀ r ∈ retired, r.id ≠ d) :
    ∀ e ∈ deploymentSteps documents job retired,
      Place.file (.deployment documents.tenantId d) ∉ e.touches := by
  intro e he
  rw [deploymentSteps_split] at he
  rcases List.mem_append.1 he with he | he
  · rcases List.mem_append.1 he with he | he
    · rcases mem_transitionSteps.1 he with ⟨hcreates, rfl⟩ | rfl | rfl
      · simp [CommitStep.touches, hnew hcreates]
      · simp [CommitStep.touches]
      · simp [CommitStep.touches]
    · obtain ⟨r, hr, rfl | rfl | rfl⟩ := mem_retirementSteps.1 he
      · simp [CommitStep.touches]
      · simp [CommitStep.touches]
      · simp [CommitStep.touches, (hother r hr).symm]
  · simp only [closingSteps, List.mem_cons, List.not_mem_nil, or_false] at he
    rcases he with rfl | rfl | rfl | rfl <;> simp [CommitStep.touches]

include hretirable hs in
/-- A record on the way is as at the start, it is the new one, or it left the history after
everything before the removal of the records was done. -/
theorem deployment_along (d : Uuid7) :
    s.find? (.deployment documents.tenantId d) = s₀.find? (.deployment documents.tenantId d) ∨
      (documents.createsDeployment = true ∧ d = documents.deployment.id ∧
        s.find? (.deployment documents.tenantId d) =
          some (.deploymentRecord documents.deployment)) ∨
      (∃ r ∈ retired, r.id = d) ∧ s.find? (.deployment documents.tenantId d) = none ∧
        ∀ e ∈ transitionSteps documents ++ retired.flatMap (releaseSteps documents.tenantId),
          e.pending host s = false := by
  by_cases hleft : ∃ r ∈ retired, r.id = d
  · obtain ⟨r, hr, rfl⟩ := hleft
    obtain ⟨before, after, hsplit⟩ := List.append_of_mem hr
    have hsteps : deploymentSteps documents job retired =
        ((transitionSteps documents ++ retired.flatMap (releaseSteps documents.tenantId)) ++
          before.flatMap (forgetSteps documents.tenantId)) ++
            .remove (.deployment documents.tenantId r.id) ::
              (after.flatMap (forgetSteps documents.tenantId) ++
                .append documents.auditEntry ::
                  closingSteps job documents.result documents.intentId) := by
      have hforget : retired.flatMap (forgetSteps documents.tenantId) =
          before.flatMap (forgetSteps documents.tenantId) ++
            .remove (.deployment documents.tenantId r.id) ::
              after.flatMap (forgetSteps documents.tenantId) := by
        rw [hsplit, List.flatMap_append, List.flatMap_cons]
        rfl
      rw [deploymentSteps_split]
      unfold deploymentBefore retirementSteps
      rw [hforget]
      simp only [List.append_assoc, List.cons_append]
    -- no earlier step writes this record
    have hfree : ∀ e ∈ (transitionSteps documents ++
        retired.flatMap (releaseSteps documents.tenantId)) ++
          before.flatMap (forgetSteps documents.tenantId),
        Place.file (.deployment documents.tenantId r.id) ∉ e.touches := by
      intro e he
      rcases List.mem_append.1 he with he | he
      · rcases List.mem_append.1 he with he | he
        · rcases mem_transitionSteps.1 he with ⟨-, rfl⟩ | rfl | rfl <;>
            simp [CommitStep.touches, hretirable.other r hr]
        · obtain ⟨r', -, rfl | rfl⟩ := mem_releaseSteps.1 he <;> simp [CommitStep.touches]
      · obtain ⟨r', hr', rfl⟩ := mem_forgetSteps.1 he
        have hdistinct := hretirable.distinct
        rw [hsplit] at hdistinct
        have hne : r'.id ≠ r.id :=
          (List.pairwise_append.1 hdistinct).2.2 r' hr' r List.mem_cons_self
        simp [CommitStep.touches, hne.symm]
    rcases along_split hs hsteps hfree with ⟨hbefore, hdone⟩ | hsame
    · refine Or.inr (Or.inr ⟨⟨r, hr, rfl⟩, remove_settled.1 hdone, fun e he => ?_⟩)
      exact hbefore e (List.mem_append_left _ he)
    · exact Or.inl hsame
  · have hother : ∀ r ∈ retired, r.id ≠ d := fun r hr heq => hleft ⟨r, hr, heq⟩
    by_cases hnew : documents.createsDeployment = true ∧ d = documents.deployment.id
    · obtain ⟨hcreates, rfl⟩ := hnew
      have hsteps : deploymentSteps documents job retired = [] ++
          .put (.deployment documents.tenantId documents.deployment.id)
            (.deploymentRecord documents.deployment) ::
              (stateSteps documents.toTransitionPlan ++
                (retirementSteps documents.tenantId retired ++ .append documents.auditEntry ::
                  closingSteps job documents.result documents.intentId)) := by
        rw [deploymentSteps_split]
        unfold deploymentBefore transitionSteps recordSteps
        rw [if_pos hcreates]
        simp only [List.append_assoc, List.cons_append, List.nil_append]
      rcases put_along hs hsteps (by simp) with ⟨-, hput⟩ | hsame
      · exact Or.inr (Or.inl ⟨hcreates, rfl, hput⟩)
      · exact Or.inl hsame
    · refine Or.inl ((@along_same _ _ _ _ (.file _)) hs (deploymentSteps_records ?_ hother))
      exact fun hcreates heq => hnew ⟨hcreates, heq⟩

include hretirable hs in
/-- The record of the new deployment stays. -/
theorem selected_along :
    s.find? (.deployment documents.tenantId documents.deployment.id) =
        s₀.find? (.deployment documents.tenantId documents.deployment.id) ∨
      (documents.createsDeployment = true ∧
        s.find? (.deployment documents.tenantId documents.deployment.id) =
          some (.deploymentRecord documents.deployment)) := by
  rcases deployment_along hretirable hs documents.deployment.id with
    hsame | ⟨hcreates, -, hput⟩ | ⟨⟨r, hr, heq⟩, -⟩
  · exact Or.inl hsame
  · exact Or.inr ⟨hcreates, hput⟩
  · exact absurd heq (hretirable.other r hr)

include hleaving in
theorem Leaving.not_retained {r : DeploymentRecord} (hr : r ∈ retired) :
    r.id ∈ (Listing.deployments documents.tenantId).ids s₀ ∧ r.id ∉ retainedIds documents := by
  have hmem : r.id ∈ retired.map DeploymentRecord.id := List.mem_map_of_mem hr
  rw [← hleaving.listed, List.mem_filter, decide_eq_true_eq] at hmem
  exact hmem

include hretirable hs in
/-- A deployment that is not listed any more left the history. -/
theorem listed_before {d : Uuid7} (hd : d ∈ (Listing.deployments documents.tenantId).ids s) :
    d ∈ (Listing.deployments documents.tenantId).ids s₀ ∨
      documents.createsDeployment = true ∧ d = documents.deployment.id := by
  have hsome : (s.find? (.deployment documents.tenantId d)).isSome = true := Listing.mem_ids.1 hd
  rcases deployment_along hretirable hs d with hsame | ⟨hcreates, hnew, -⟩ | ⟨-, hnone, -⟩
  · rw [hsame] at hsome
    exact Or.inl (Listing.mem_ids.2 hsome)
  · exact Or.inr ⟨hcreates, hnew⟩
  · rw [hnone] at hsome
    cases hsome

include hplan hleaving hs in
/-- A deployment that is retained stays listed. -/
theorem retained_listed {d : Uuid7} (hretained : d ∈ retainedIds documents)
    (hd : d ∈ (Listing.deployments documents.tenantId).ids s₀) :
    d ∈ (Listing.deployments documents.tenantId).ids s := by
  have hsome : (s₀.find? (.deployment documents.tenantId d)).isSome = true := Listing.mem_ids.1 hd
  refine Listing.mem_ids.2 ?_
  rcases deployment_along (hleaving.retirable hplan) hs d with
    hsame | ⟨-, -, hput⟩ | ⟨⟨r, hr, rfl⟩, -⟩
  · exact (congrArg Option.isSome hsame).trans hsome
  · exact congrArg Option.isSome hput
  · exact absurd hretained (hleaving.not_retained hr).2

include hplan hleaving hs in
theorem Replayable.along
    (h : Replayable documents ((Listing.deployments documents.tenantId).ids s₀)) :
    Replayable documents ((Listing.deployments documents.tenantId).ids s) := by
  have hretirable := hleaving.retirable hplan
  refine ⟨fun d hd => ?_, fun d hd hother => ?_, fun hcreates habsent => ?_⟩
  · rcases listed_before hretirable hs hd with hold | hnew
    · exact h.within d hold
    · exact hplan.mem_transition.2 (Or.inr hnew)
  · exact retained_listed hplan hleaving hs hd (h.kept d hd hother)
  · -- while the new record is missing nothing has happened
    have hnone := Listing.not_mem_ids.1 habsent
    have habsent₀ : documents.deployment.id ∉
        (Listing.deployments documents.tenantId).ids s₀ := by
      refine Listing.not_mem_ids.2 ?_
      rcases selected_along hretirable hs with hsame | ⟨-, hput⟩
      · exact hsame.symm.trans hnone
      · rw [show s.find? ((Listing.deployments documents.tenantId).path
          documents.deployment.id) = _ from hput] at hnone
        cases hnone
    rw [← h.untouched hcreates habsent₀]
    refine Listing.ids_congr fun d => ?_
    rcases deployment_along hretirable hs d with hsame | ⟨-, rfl, hput⟩ | ⟨-, -, hdone⟩
    · exact hsame
    · rw [show s.find? ((Listing.deployments documents.tenantId).path
        documents.deployment.id) = _ from hput] at hnone
      cases hnone
    · have hput := put_settled.1 (hdone _ (List.mem_append_left _
        (mem_transitionSteps.2 (Or.inl ⟨hcreates, rfl⟩))))
      rw [show s.find? ((Listing.deployments documents.tenantId).path
        documents.deployment.id) = _ from hput] at hnone
      cases hnone

include hplan hleaving hs in
/-- The records still to leave are those that are still stored. -/
theorem Leaving.along :
    Leaving host documents s (retired.filter (recordPresent documents.tenantId s)) := by
  have hretirable := hleaving.retirable hplan
  have hsorted : (retired.map DeploymentRecord.id).Pairwise (· < ·) := by
    rw [← hleaving.listed]
    exact (Listing.ids_sorted s₀).filter _
  refine ⟨Listing.eq_of_mem_iff ((Listing.ids_sorted s).filter _)
    (hsorted.sublist (List.filter_sublist.map _)) fun d => ?_, fun r hr => ?_⟩
  · rw [List.mem_filter, decide_eq_true_eq, List.mem_map]
    constructor
    · rintro ⟨hd, hleft⟩
      have hold : d ∈ (Listing.deployments documents.tenantId).ids s₀ := by
        rcases listed_before hretirable hs hd with hold | ⟨-, rfl⟩
        · exact hold
        · exact absurd hplan.target_retained hleft
      have hmem : d ∈ retired.map DeploymentRecord.id := by
        rw [← hleaving.listed, List.mem_filter, decide_eq_true_eq]
        exact ⟨hold, hleft⟩
      obtain ⟨r, hr, rfl⟩ := List.mem_map.1 hmem
      exact ⟨r, List.mem_filter.2 ⟨hr, Listing.mem_ids.1 hd⟩, rfl⟩
    · rintro ⟨r, hr, rfl⟩
      obtain ⟨hr, hpresent⟩ := List.mem_filter.1 hr
      exact ⟨Listing.mem_ids.2 hpresent, (hleaving.not_retained hr).2⟩
  · obtain ⟨hr, hpresent⟩ := List.mem_filter.1 hr
    rw [← hleaving.stored r hr]
    refine readDeployment_same ?_
    rcases deployment_along hretirable hs r.id with hsame | ⟨-, hnew, -⟩ | ⟨-, hnone, -⟩
    · exact hsame
    · exact absurd hnew (hretirable.other r hr)
    · unfold recordPresent at hpresent
      rw [hnone] at hpresent
      cases hpresent

include hplan hleaving hs in
/-- A record that left did so after everything before the removal of the records. -/
theorem Leaving.gone {r : DeploymentRecord} (hr : r ∈ retired)
    (habsent : recordPresent documents.tenantId s r = false) :
    s.find? (.deployment documents.tenantId r.id) = none ∧
      ∀ e ∈ transitionSteps documents ++ retired.flatMap (releaseSteps documents.tenantId),
        e.pending host s = false := by
  have hretirable := hleaving.retirable hplan
  have hnone : s.find? (.deployment documents.tenantId r.id) = none :=
    Option.isNone_iff_eq_none.1 (Option.isSome_eq_false_iff.1 habsent)
  rcases deployment_along hretirable hs r.id with hsame | ⟨-, hnew, -⟩ | ⟨-, -, hdone⟩
  · rw [hnone] at hsame
    have hstored := (readDeployment_eq_ok.1 (hleaving.stored r hr)).1
    rw [← hsame] at hstored
    cases hstored
  · exact absurd hnew (hretirable.other r hr)
  · exact ⟨hnone, hdone⟩

/-! ## Readiness on the way -/

include hplan in
/-- The record of the selected deployment may be stored. -/
theorem DeploymentReady.record_fits (h : DeploymentReady host limits expected documents job s) :
    StateRecordPath.Fits host.encoding
      (.tenantDeployment documents.tenantId documents.deployment.id)
      (.deploymentRecord documents.deployment) := by
  obtain ⟨p, ids, auditMissing, hadmitted⟩ := h.admitted
  cases hwrite : p.writeDeployment with
  | true =>
      obtain ⟨hcreates, habsent⟩ := hadmitted.absent hwrite
      exact encodeNew_fits (h.recordable hcreates habsent).1
  | false =>
      have hread := requireExactDeployment_eq_ok.1 (hadmitted.recorded hwrite)
      rw [hplan.tenant] at hread
      exact (readDeployment_eq_ok.1 hread).2

include h hplan hretirable hs in
/-- The record of the selected deployment is exact, or it is new and still missing. -/
theorem DeploymentReady.selected :
    readDeployment host documents.tenantId documents.deployment.id s =
        .ok documents.deployment ∨
      documents.createsDeployment = true ∧
        documents.deployment.id ∉ (Listing.deployments documents.tenantId).ids s := by
  have hfits := h.record_fits hplan
  rcases selected_along hretirable hs with hsame | ⟨-, hput⟩
  · obtain ⟨p, ids, auditMissing, hadmitted⟩ := h.admitted
    cases hwrite : p.writeDeployment with
    | true =>
        obtain ⟨hcreates, habsent⟩ := hadmitted.absent hwrite
        exact Or.inr ⟨hcreates, Listing.not_mem_ids.2 (hsame.trans habsent)⟩
    | false =>
        left
        rw [readDeployment_same hsame]
        exact readDeployment_eq_ok.2 ⟨hadmitted.recorded_find hplan hwrite, hfits⟩
  · exact Or.inl (readDeployment_eq_ok.2 ⟨hput, hfits⟩)

include h hplan hretirable hs in
/-- The directory of the records stays, and all of them stay readable. -/
theorem DeploymentReady.directory :
    (s.tenants.find? documents.tenantId).any TenantNamespace.deployments = true ∧
      AllReadable host (.tenantDeployment documents.tenantId)
        ((Listing.deployments documents.tenantId).ids s) s := by
  obtain ⟨p, ids, auditMissing, hadmitted⟩ := h.admitted
  obtain ⟨hdirectory, hids, -, hreadable⟩ :=
    boundedDeploymentIds_eq_ok.1 (tenantDeploymentTransitionIds_eq_ok.1 hadmitted.listed).1
  have hfree : ∀ e ∈ deploymentSteps documents job retired,
      Place.child documents.tenantId .deployments ∉ e.touches := by
    intro e he
    rw [deploymentSteps_split] at he
    rcases List.mem_append.1 he with he | he
    · exact deploymentBefore_free rfl e he
    · simp only [closingSteps, List.mem_cons, List.not_mem_nil, or_false] at he
      rcases he with rfl | rfl | rfl | rfl <;> simp [CommitStep.touches]
  refine ⟨?_, fun d hd => ?_⟩
  · rw [← hdirectory]
    exact (@along_same _ _ _ _ (.child documents.tenantId .deployments)) hs hfree
  · rcases deployment_along hretirable hs d with hsame | ⟨-, rfl, hput⟩ | ⟨-, hnone, -⟩
    · have hd₀ : d ∈ ids := by
        rw [hids]
        refine Listing.mem_ids.2 ?_
        rw [show s₀.find? ((Listing.deployments documents.tenantId).path d) = _ from hsame.symm]
        exact Listing.mem_ids.1 hd
      obtain ⟨r, hread⟩ := hreadable d hd₀
      exact ⟨r, ((@readLocked_same _ (.tenantDeployment documents.tenantId d)) hsame).trans
        hread⟩
    · exact ⟨_, readLocked_eq_ok.2 ⟨hput, h.record_fits hplan⟩⟩
    · have hsome : (s.find? (.deployment documents.tenantId d)).isSome = true :=
        Listing.mem_ids.1 hd
      rw [hnone] at hsome
      cases hsome

include h hs in
/-- The states on the way, with what the transition has settled of them. -/
theorem DeploymentReady.states_along :
    (∃ desired observed, StatesKnown host documents.toTransitionPlan documents.sourceManifest
        documents.sourceObservedState s desired observed) ∧
      (s.find? (.desired documents.tenantId) = some (.site documents.manifest) ∨
        s.find? (.desired documents.tenantId) = s₀.find? (.desired documents.tenantId)) ∧
      (s.find? (.observed documents.tenantId) =
          some (.tenantObservedState documents.observedState) ∨
        s.find? (.observed documents.tenantId) = s₀.find? (.observed documents.tenantId)) := by
  obtain ⟨p, ids, auditMissing, hadmitted⟩ := h.admitted
  have hsteps := deploymentSteps_parts documents job retired
  have hrecord : ∀ e ∈ recordSteps documents,
      Place.file (.desired documents.tenantId) ∉ e.touches ∧
        Place.file (.observed documents.tenantId) ∉ e.touches := by
    intro e he
    obtain ⟨-, rfl⟩ := mem_recordSteps.1 he
    simp [CommitStep.touches]
  have hdesired := (put_along hs hsteps fun e he => (hrecord e he).1).imp_left And.right
  have hsteps' : deploymentSteps documents job retired =
      (recordSteps documents ++
        [.put (.desired documents.tenantId) (.site documents.manifest)]) ++
          .put (.observed documents.tenantId) (.tenantObservedState documents.observedState) ::
            (retired.flatMap (releaseSteps documents.tenantId) ++
              (retired.flatMap (forgetSteps documents.tenantId) ++
                ([.append documents.auditEntry] ++
                  closingSteps job documents.result documents.intentId))) := by
    rw [hsteps, List.append_assoc]
    rfl
  have hobserved := put_along hs hsteps' fun e he => by
    rcases List.mem_append.1 he with he | he
    · exact (hrecord e he).2
    · rw [List.mem_singleton.1 he]
      simp [CommitStep.touches]
  refine ⟨hadmitted.states.along h.fit hdesired (hobserved.imp_left fun hdone => ⟨?_, hdone.2⟩),
    hdesired, hobserved.imp_left And.right⟩
  exact put_settled.1 (hdone.1 _ (List.mem_append_right _ List.mem_cons_self))

include h hplan hleaving hs in
/-- The deployment selected in the source is as dispatched, or it left the history of a transition
whose states are written. -/
theorem DeploymentReady.source_along {desired observed : Document}
    (hstates : StatesKnown host documents.toTransitionPlan documents.sourceManifest
      documents.sourceObservedState s desired observed) :
    requireSourceDeployment host documents ((Listing.deployments documents.tenantId).ids s)
      (!(decide (desired = .site documents.sourceManifest) &&
          decide (desired ≠ .site documents.manifest)) &&
        !decide (observed = .tenantObservedState documents.sourceObservedState)) s = .ok () := by
  obtain ⟨p, ids, auditMissing, hadmitted⟩ := h.admitted
  have hretirable := hleaving.retirable hplan
  have hstart := (requireSourceDeployment_eq_ok hplan).1 hadmitted.source
  rw [hadmitted.ids_eq] at hstart
  obtain ⟨-, hdesired, hobserved⟩ := h.states_along hs
  have hdesiredNow := (readLocked_eq_ok.1 hstates.desiredRead).1
  have hobservedNow := (readLocked_eq_ok.1 hstates.observedRead).1
  -- once both states are written the transition counts as committed
  have hcommitted : s.find? (.desired documents.tenantId) = some (.site documents.manifest) →
      s.find? (.observed documents.tenantId) =
        some (.tenantObservedState documents.observedState) →
      (!(decide (desired = .site documents.sourceManifest) &&
          decide (desired ≠ .site documents.manifest)) &&
        !decide (observed = .tenantObservedState documents.sourceObservedState)) = true := by
    intro hd ho
    obtain rfl := Option.some.inj (hdesiredNow.symm.trans hd)
    obtain rfl := Option.some.inj (hobservedNow.symm.trans ho)
    simp [Ne.symm hplan.changes]
  refine (requireSourceDeployment_eq_ok hplan).2 fun selected hselected => ?_
  obtain ⟨hdigest, hlisted, hunlisted⟩ := hstart selected hselected
  have hother : selected.id ≠ documents.deployment.id := by
    intro heq
    refine hplan.reselects ?_
    unfold selectedDeploymentId
    rw [hselected, Option.map_some, heq]
  refine ⟨hdigest, fun hthere => ?_, fun hgone => ?_⟩
  · have hsome : (s.find? (.deployment documents.tenantId selected.id)).isSome = true :=
      Listing.mem_ids.1 hthere
    rcases deployment_along hretirable hs selected.id with hsame | ⟨-, hnew, -⟩ | ⟨-, hnone, -⟩
    · rw [hsame] at hsome
      rw [readDeployment_same hsame]
      exact hlisted (Listing.mem_ids.2 hsome)
    · exact absurd hnew hother
    · rw [hnone] at hsome
      cases hsome
  · by_cases hthere : selected.id ∈ (Listing.deployments documents.tenantId).ids s₀
    · rcases deployment_along hretirable hs selected.id with
        hsame | ⟨-, hnew, -⟩ | ⟨⟨r, hr, heq⟩, -, hdone⟩
      · exact absurd (Listing.mem_ids.2 ((congrArg Option.isSome hsame).trans
          (Listing.mem_ids.1 hthere))) hgone
      · exact absurd hnew hother
      · rw [← heq]
        refine ⟨(hleaving.not_retained hr).2, hcommitted ?_ ?_⟩
        · exact put_settled.1 (hdone _ (List.mem_append_left _
            (mem_transitionSteps.2 (Or.inr (Or.inl rfl)))))
        · exact put_settled.1 (hdone _ (List.mem_append_left _
            (mem_transitionSteps.2 (Or.inr (Or.inr rfl)))))
    · -- it had left before the start, so both states were written there
      obtain ⟨hleft, hwritten⟩ := hunlisted hthere
      rw [Bool.and_eq_true, Bool.not_eq_true', Bool.not_eq_true'] at hwritten
      have hd := hadmitted.desired_of_not_write hwritten.1
      have ho := hadmitted.observed_of_not_write hwritten.2
      have hd₀ := (readLocked_eq_ok.1 hadmitted.states.desiredRead).1
      have ho₀ := (readLocked_eq_ok.1 hadmitted.states.observedRead).1
      rw [hd] at hd₀
      rw [ho] at ho₀
      exact ⟨hleft, hcommitted (hdesired.elim id fun hsame => hsame.trans hd₀)
        (hobserved.elim id fun hsame => hsame.trans ho₀)⟩

/-- Every document that is written may be stored, so it is within its bound. -/
theorem deploymentWrites_bounded {p : DeploymentProgress}
    (hrecord : StateRecordPath.Fits host.encoding
      (.tenantDeployment documents.tenantId documents.deployment.id)
      (.deploymentRecord documents.deployment))
    (hfit : StatesFit host documents.toTransitionPlan)
    (hresult : ResultReady host job documents.result s) (hjob : JobReady host job s) :
    FlaggedBounded host (deploymentWrites job documents p) := by
  intro record hmem _
  simp only [deploymentWrites, List.mem_cons, List.not_mem_nil, or_false] at hmem
  rcases hmem with rfl | rfl | rfl | rfl | rfl
  · exact hrecord.valid.2.2
  · exact hfit.desired.valid.2.2
  · exact hfit.observed.valid.2.2
  · exact hresult.fits.valid.2.2
  · exact hjob.completes.valid.2.2

include hretirable hs in
/-- The selected release is not removed. -/
theorem selectedRelease_along (hstart : requireSelectedRelease documents s₀ = .ok ()) :
    requireSelectedRelease documents s = .ok () := by
  have hfree : ∀ e ∈ deploymentSteps documents job retired,
      Place.release ⟨documents.tenantId, documents.deployment.id, none⟩ ∉ e.touches := by
    intro e he
    rw [deploymentSteps_split] at he
    rcases List.mem_append.1 he with he | he
    · rcases List.mem_append.1 he with he | he
      · rcases mem_transitionSteps.1 he with ⟨-, rfl⟩ | rfl | rfl <;> simp [CommitStep.touches]
      · obtain ⟨r, hr, rfl | rfl | rfl⟩ := mem_retirementSteps.1 he <;>
          simp [CommitStep.touches, (hretirable.other r hr).symm]
    · simp only [closingSteps, List.mem_cons, List.not_mem_nil, or_false] at he
      rcases he with rfl | rfl | rfl | rfl <;> simp [CommitStep.touches]
  have hsame : s.releases.find? ⟨documents.tenantId, documents.deployment.id, none⟩ =
      s₀.releases.find? ⟨documents.tenantId, documents.deployment.id, none⟩ :=
    (@along_same _ _ _ _ (.release _)) hs hfree
  rw [requireSelectedRelease_eq_ok, measureRelease_eq_ok] at hstart ⊢
  exact hsame.trans hstart

include h hplan hleaving hs in
/-- While the intent is there and the append stays admitted, the commit goes through. -/
theorem DeploymentReady.along
    (hkept : HeadroomKept host documents.auditEntry (deploymentSteps documents job retired) s₀)
    (hintent : (s.find? (.intent documents.intentId)).isSome = true) :
    DeploymentReady host limits expected documents (jobNow job s) s := by
  obtain ⟨p₀, ids₀, auditMissing₀, hadmitted⟩ := h.admitted
  obtain ⟨-, -, hphase⟩ := requireSameJob_eq_ok.1 h.same
  have hretirable := hleaving.retirable hplan
  have havoid := deploymentBefore_avoid documents job retired
  obtain ⟨hresult, hjob⟩ := closing_along hs havoid h.resultReady h.jobReady
  have hsame := requireSameJob_along h.same hjob
  have hphaseNow := (requireSameJob_eq_ok.1 hsame).2.2
  have happendable := h.appendable.along hs (deploymentSteps_only _ _ _)
  obtain ⟨⟨desired, observed, hstates⟩, -, -⟩ := h.states_along hs
  obtain ⟨hdirectory, hreadable⟩ := h.directory hplan hretirable hs
  have hreplayable₀ := hadmitted.replayable
  rw [hadmitted.ids_eq] at hreplayable₀
  have hreplayable := hreplayable₀.along hplan hleaving hs
  have hbounded := hreplayable.bounded hplan (Listing.ids_sorted s)
  have hleavingNow := hleaving.along hplan hs
  -- the progress that the next call reads off the store as it stands
  let p : DeploymentProgress := ⟨desired, observed,
    retired.filter (recordPresent documents.tenantId s),
    documents.createsDeployment &&
      decide (documents.deployment.id ∉ (Listing.deployments documents.tenantId).ids s),
    decide (desired = .site documents.sourceManifest) && decide (desired ≠ .site documents.manifest),
    decide (observed = .tenantObservedState documents.sourceObservedState),
    (s.find? (.result job.jobId)).isNone⟩
  have hfound : DeploymentFound host (jobNow job s) documents s p
      ((Listing.deployments documents.tenantId).ids s)
        (auditMissing host documents.auditEntry s) := by
    refine ⟨hstates, rfl, rfl, ?_, hreplayable, rfl, fun hwrite => ?_, leaving_iff.1 hleavingNow,
      h.source_along hplan hleaving hs hstates, ?_, happendable.needsAppend⟩
    · exact tenantDeploymentTransitionIds_eq_ok.2 ⟨boundedDeploymentIds_eq_ok.2
        ⟨hdirectory, rfl, hbounded.1, hreadable⟩, hbounded.2⟩
    · refine requireExactDeployment_eq_ok.2 ?_
      rw [hplan.tenant]
      refine (h.selected hplan hretirable hs).resolve_right fun hmissing => ?_
      have hwritten : p.writeDeployment = true := by
        rw [show p.writeDeployment = (documents.createsDeployment && decide
          (documents.deployment.id ∉ (Listing.deployments documents.tenantId).ids s)) from rfl,
          hmissing.1, Bool.true_and]
        exact decide_eq_true hmissing.2
      rw [hwrite] at hwritten
      cases hwritten
    · show _ = Except.ok (s.find? (.result job.jobId)).isNone
      rw [hresult.missing, jobNow_jobId]
  have hresult₀ : p₀.resultMissing = (s₀.find? (.result job.jobId)).isNone :=
    missingExact_value hadmitted.resultMissing
  refine ⟨hsame, ?_, ⟨p, _, _, hfound, hkept s hs, fun hmissing => ?_, ?_⟩,
    selectedRelease_along hretirable hs h.released, fun hcreates habsent => ?_, h.fit,
    fun retired' hother r hr => ?_, happendable, hresult, hjob⟩
  · rw [← h.exact]
    exact requireExactIntent_same (intents_along hs havoid hintent)
  · refine admitResult_missing hs havoid (deploymentBefore_keeps _ _) (fun hnone => ?_) hmissing
    exact hadmitted.inventory (hresult₀.trans hnone)
  · -- what is still to be written shrinks with what the steps have written
    have hbytes := hfound.reservedBytes_eq hplan hresult hjob hphaseNow retired
    have hinodes := hfound.reservedInodes_eq hplan hresult hjob hphaseNow retired
    rw [deploymentSteps_jobNow] at hbytes hinodes
    refine (@admitRemaining_along _ _ _ _ _ _ _ _ _ 0 0) hs (deploymentSteps_separate hretirable)
      (hadmitted.reservedBytes_eq hplan h.resultReady h.jobReady hphase retired)
      (hadmitted.reservedInodes_eq hplan h.resultReady h.jobReady hphase retired) hbytes hinodes
      (fun _ => ?_) hadmitted.capacity
    exact deploymentWrites_bounded (h.record_fits hplan) h.fit hresult hjob
  · have habsent₀ : s₀.find? (.deployment documents.tenantId documents.deployment.id) = none := by
      rcases selected_along hretirable hs with hsame | ⟨-, hput⟩
      · exact hsame.symm.trans habsent
      · rw [hput] at habsent
        cases habsent
    exact ⟨(h.recordable hcreates habsent₀).1, hdirectory⟩
  · rw [← hleavingNow.unique hother] at hr
    exact along_invariant (P := fun u => Removable documents.tenantId r.id r.releaseTreeDigest u) hs
      (fun _ _ _ hu => hu.apply) (h.removable retired hleaving r (List.mem_of_mem_filter hr))

end StaticHostAgent.Commit
