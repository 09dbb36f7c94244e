import StaticHostAgent.Contracts.Bindings
import StaticHostAgent.Contracts.TableEncoding

/-!
# What an accepted transaction intent promises

Recovery trusts a current transaction intent once it was accepted. `IntentSound` states what that
trust rests on: how the two manifests are related, what their digests bind, and which tenant and
manifest the embedded states and records belong to. Two branches of the validator check less: an
export is accepted in any lifecycle state, and the source that a reconciliation observed need not
agree with the manifest, because its disagreement is what is repaired.
-/

set_option autoImplicit false

namespace StaticHostAgent.Contracts

open Library

/-! ## Manifests -/

/-- The members of a site manifest. -/
inductive SiteMember where
  | id | slug | canonicalOrigin | desiredState | quotas | desiredDeployment
  deriving DecidableEq

/-- The two manifests have the same value of a member. -/
def SiteMember.Same (source candidate : Site) : SiteMember → Prop
  | .id => candidate.metadata.id = source.metadata.id
  | .slug => candidate.metadata.slug = source.metadata.slug
  | .canonicalOrigin => candidate.metadata.canonicalOrigin = source.metadata.canonicalOrigin
  | .desiredState => candidate.spec.desiredState = source.spec.desiredState
  | .quotas => candidate.spec.quotas = source.spec.quotas
  | .desiredDeployment => candidate.spec.desiredDeployment = source.spec.desiredDeployment

/-- The members that an operation is entitled to change. -/
def entitled : Operation → List SiteMember
  | .rename => [.slug]
  | .suspend | .resume | .archive => [.desiredState]
  | .deploy | .rollback | .import | .restore => [.desiredState, .desiredDeployment]
  | .create | .delete | .export | .reconcile => []

theorem same_refl (m : Site) (member : SiteMember) : member.Same m m := by
  cases member <;> rfl

/-- The transform takes every member that the operation may not change from the source. -/
theorem same_expectedTransform (operation : Operation) (source candidate : Site)
    (member : SiteMember) (hmember : member ∉ entitled operation) :
    member.Same source (expectedTransform operation source candidate) := by
  cases operation with
  | create | delete | archive | «export» | reconcile => exact same_refl source member
  | rename =>
      cases member with
      | slug => exact absurd (List.mem_singleton.2 rfl) hmember
      | id | canonicalOrigin | desiredState | quotas | desiredDeployment => rfl
  | suspend | resume =>
      cases member with
      | desiredState => exact absurd (List.mem_singleton.2 rfl) hmember
      | id | slug | canonicalOrigin | quotas | desiredDeployment => rfl
  | deploy | rollback | «import» | restore =>
      cases member with
      | desiredState => exact absurd (List.mem_cons_self ..) hmember
      | desiredDeployment => exact absurd (List.mem_cons_of_mem _ (List.mem_cons_self ..)) hmember
      | id | slug | canonicalOrigin | quotas => rfl

/-- The archived form of a manifest changes nothing but the desired state. -/
theorem same_archived {source candidate : Site} (hmetadata : candidate.metadata = source.metadata)
    (hspec : candidate.spec = { source.spec with desiredState := .archived })
    (member : SiteMember) (hmember : member ∉ entitled .archive) :
    member.Same source candidate := by
  have hcandidate : candidate = ⟨source.metadata, { source.spec with desiredState := .archived }⟩ :=
    calc candidate = ⟨candidate.metadata, candidate.spec⟩ := rfl
      _ = _ := by rw [hmetadata, hspec]
  subst hcandidate
  cases member with
  | desiredState => exact absurd (List.mem_singleton.2 rfl) hmember
  | id | slug | canonicalOrigin | quotas | desiredDeployment => rfl

/-- The lifecycle state of a manifest that may be absent. -/
def lifecycleOf : Option Site → LifecycleState
  | none => .absent
  | some m => m.spec.desiredState

/-! ## Embedded states and records -/

/-- The observed state is the one that the manifest asks for. -/
structure TenantObservedState.Realises (e : Encoding) (o : TenantObservedState) (m : Site) :
    Prop where
  tenant : o.tenantId = m.metadata.id
  digest : o.desiredManifestDigest = manifestDigest e m
  state : o.observedState = m.spec.desiredState
  deployment : o.activeDeploymentId =
    if m.spec.desiredState ∈ [LifecycleState.active, .suspended]
    then m.spec.desiredDeployment.map DeploymentReference.id else none

/-- The archive record is one of the manifest's deployment. -/
structure ArchiveRecord.Archives (e : Encoding) (a : ArchiveRecord) (m : Site) : Prop where
  tenant : a.tenantId = m.metadata.id
  digest : a.manifestDigest = Contracts.manifestDigest e m
  deployment : some a.deploymentId = m.spec.desiredDeployment.map DeploymentReference.id

/-- The observed state an intent embeds beside its source manifest. -/
def TransactionIntent.observedSource (i : TransactionIntent) : Option TenantObservedState :=
  match i.archiveRecovery with
  | some recovery => some recovery.sourceObservedState
  | none => i.lifecycleRecovery.bind LifecycleRecovery.sourceObservedState

/-- The observed state an intent embeds beside its candidate manifest. -/
def TransactionIntent.observedCandidate (i : TransactionIntent) : Option TenantObservedState :=
  i.lifecycleRecovery.bind LifecycleRecovery.candidateObservedState

/-- What recovery relies on in a current transaction intent. -/
structure IntentSound (e : Encoding) (i : TransactionIntent) : Prop where
  sourceAbsent : i.sourceManifest = none ↔ i.operation = .create
  candidateAbsent : i.candidateManifest = none ↔ i.operation = .delete
  lifecycle : i.operation ≠ .export →
    lifecycleMatrix i.operation (lifecycleOf i.sourceManifest) =
      some (lifecycleOf i.candidateManifest)
  frame : ∀ source candidate, i.sourceManifest = some source →
    i.candidateManifest = some candidate →
      ∀ member, member ∉ entitled i.operation → member.Same source candidate
  sourceDigest : i.sourceManifestDigest = i.sourceManifest.map (manifestDigest e)
  candidateDigest : i.candidateManifestDigest = i.candidateManifest.map (manifestDigest e)
  observedSource : ∀ o, i.observedSource = some o → o.tenantId = i.tenantId ∧
    (i.operation ≠ .reconcile → ∀ m, i.sourceManifest = some m → o.Realises e m)
  observedCandidate : ∀ o, i.observedCandidate = some o → o.tenantId = i.tenantId ∧
    ∀ m, i.candidateManifest = some m → o.Realises e m
  archive : ∀ recovery, i.archiveRecovery = some recovery →
    i.sourceManifest = some recovery.sourceManifest ∧
      i.candidateManifest = some recovery.candidateManifest ∧
        recovery.candidateArchiveRecord.tenantId = i.tenantId ∧
          recovery.candidateArchiveRecord.Archives e recovery.candidateManifest

section Soundness

variable {e : Encoding} {i : TransactionIntent}

/-! ## What each check decides -/

theorem validatedTransactionSource_eq_ok {r : Option Site}
    (h : validatedTransactionSource e i = .ok r) (hcreate : i.operation ≠ .create) :
    r = i.sourceManifest ∧ ∀ m, i.sourceManifest = some m →
      m.metadata.id = i.tenantId ∧ i.sourceManifestDigest = some (manifestDigest e m) := by
  unfold validatedTransactionSource at h
  rw [if_neg hcreate] at h
  cases hm : i.sourceManifest with
  | none =>
      rw [hm] at h
      exact ⟨(pure_eq_ok.1 h).symm, fun m h => by cases h⟩
  | some m =>
      rw [hm] at h
      simp only [bind_eq_ok, require_eq_ok, decide_eq_true_eq] at h
      obtain ⟨-, -, -, htenant, -, hdigest, hr⟩ := h
      refine ⟨(pure_eq_ok.1 hr).symm, ?_⟩
      rintro m ⟨⟩
      exact ⟨htenant, hdigest.symm⟩

theorem validatedTransactionCandidate_eq_ok {r : Option Site}
    (h : validatedTransactionCandidate e i = .ok r) (hdelete : i.operation ≠ .delete) :
    r = i.candidateManifest ∧ ∀ m, i.candidateManifest = some m →
      m.metadata.id = i.tenantId ∧ i.candidateManifestDigest = some (manifestDigest e m) := by
  unfold validatedTransactionCandidate at h
  rw [if_neg hdelete] at h
  cases hm : i.candidateManifest with
  | none =>
      rw [hm] at h
      exact ⟨(pure_eq_ok.1 h).symm, fun m h => by cases h⟩
  | some m =>
      rw [hm] at h
      simp only [bind_eq_ok, require_eq_ok, decide_eq_true_eq] at h
      obtain ⟨-, -, -, htenant, -, hdigest, hr⟩ := h
      refine ⟨(pure_eq_ok.1 hr).symm, ?_⟩
      rintro m ⟨⟩
      exact ⟨htenant, hdigest.symm⟩

theorem manifestTransform_same {operation : Operation} {source candidate : Site} {u : Unit}
    (h : validateTransactionManifestTransform operation (some source) (some candidate) = .ok u)
    (hoperation : operation ∉ [Operation.create, .delete, .archive]) (member : SiteMember)
    (hmember : member ∉ entitled operation) : member.Same source candidate := by
  unfold validateTransactionManifestTransform at h
  rw [if_neg hoperation] at h
  have hcandidate := of_decide_eq_true (require_eq_ok.1 h)
  rw [hcandidate]
  exact same_expectedTransform operation source candidate member hmember

/-- The two bindings of an observed state together bind it to the manifest. -/
theorem realises_of_bindings {o : TenantObservedState} {m : Site} {digest : Option Digest}
    {routes : RouteSet} {runtime : Option Uuid7} {u v : Unit}
    (hrecovery : validateObservedRecoveryBinding i o digest routes runtime = .ok u)
    (hmanifest : validateObservedManifestBinding m o = .ok v)
    (htenant : m.metadata.id = i.tenantId) (hdigest : digest = some (manifestDigest e m)) :
    o.Realises e m := by
  unfold validateObservedRecoveryBinding at hrecovery
  simp only [bind_eq_ok, require_eq_ok, Bool.and_eq_true, decide_eq_true_eq] at hrecovery
  obtain ⟨-, ⟨hobserved, hbound⟩, -⟩ := hrecovery
  unfold validateObservedManifestBinding at hmanifest
  simp only [require_eq_ok, Bool.and_eq_true, decide_eq_true_eq] at hmanifest
  obtain ⟨hstate, hdeployment⟩ := hmanifest
  exact
    { tenant := hobserved.trans htenant.symm
      digest := Option.some.inj (hbound.trans hdigest)
      state := hstate.symm
      deployment := by rw [hstate]; exact hdeployment }

theorem lifecycleSource_absent {recovery : LifecycleRecovery} {s : LifecycleState}
    (h : validateLifecycleSourceRecovery i recovery = .ok s)
    (hnone : recovery.sourceObservedState = none) : s = .absent := by
  unfold validateLifecycleSourceRecovery at h
  rw [hnone] at h
  simp only [bind_eq_ok] at h
  obtain ⟨-, -, hs⟩ := h
  exact (pure_eq_ok.1 hs).symm

/-- An observed source stands in the state of the manifest; a reconciliation checks no more. -/
theorem lifecycleSource_observed {recovery : LifecycleRecovery} {s : LifecycleState}
    {o : TenantObservedState} {m : Site}
    (h : validateLifecycleSourceRecovery i recovery = .ok s) (hcurrent : i.current = true)
    (ho : recovery.sourceObservedState = some o) (hm : i.sourceManifest = some m)
    (htenant : m.metadata.id = i.tenantId)
    (hdigest : i.sourceManifestDigest = some (manifestDigest e m)) :
    s = m.spec.desiredState ∧ (i.operation ≠ .reconcile → o.Realises e m) := by
  unfold validateLifecycleSourceRecovery at h
  rw [ho, hm, hcurrent] at h
  by_cases hreconcile : i.operation = .reconcile
  · rw [decide_eq_true hreconcile] at h
    simp only [Bool.and_true, bind_eq_ok] at h
    obtain ⟨-, -, hs⟩ := h
    exact ⟨(pure_eq_ok.1 hs).symm, fun hne => absurd hreconcile hne⟩
  · rw [decide_eq_false hreconcile] at h
    simp only [Bool.and_true, bind_eq_ok] at h
    obtain ⟨u, hbinding, v, hmanifest, hs⟩ := h
    have hrealises : o.Realises e m := realises_of_bindings hbinding hmanifest htenant hdigest
    exact ⟨(pure_eq_ok.1 hs).symm.trans hrealises.state, fun _ => hrealises⟩

theorem lifecycleCandidate_absent {recovery : LifecycleRecovery} {s : LifecycleState}
    (h : validateLifecycleCandidateRecovery i recovery = .ok s)
    (hnone : recovery.candidateObservedState = none) : s = .absent := by
  unfold validateLifecycleCandidateRecovery at h
  rw [hnone] at h
  simp only [bind_eq_ok] at h
  obtain ⟨-, -, hs⟩ := h
  exact (pure_eq_ok.1 hs).symm

theorem lifecycleCandidate_observed {recovery : LifecycleRecovery} {s : LifecycleState}
    {o : TenantObservedState} {m : Site}
    (h : validateLifecycleCandidateRecovery i recovery = .ok s) (hcurrent : i.current = true)
    (ho : recovery.candidateObservedState = some o) (hm : i.candidateManifest = some m)
    (htenant : m.metadata.id = i.tenantId)
    (hdigest : i.candidateManifestDigest = some (manifestDigest e m)) :
    s = m.spec.desiredState ∧ o.Realises e m := by
  unfold validateLifecycleCandidateRecovery at h
  rw [ho, hm, hcurrent] at h
  simp only [bind_eq_ok] at h
  obtain ⟨u, hbinding, v, hmanifest, hs⟩ := h
  have hrealises : o.Realises e m := realises_of_bindings hbinding hmanifest htenant hdigest
  exact ⟨(pure_eq_ok.1 hs).symm.trans hrealises.state, hrealises⟩

/-! ## The branches of the validator -/

/-- The digest of an optional manifest is absent with it. -/
theorem digest_eq_map {m : Option Site} {d : Option Digest} (hsome : d.isSome = m.isSome)
    (hbound : ∀ s, m = some s → d = some (manifestDigest e s)) :
    d = m.map (manifestDigest e) := by
  cases m with
  | none =>
      cases d with
      | none => rfl
      | some d => cases hsome
  | some s => exact hbound s rfl

variable (h : ValidContract e (.transactionIntent i)) (hcurrent : i.current = true)

include h hcurrent

/-- The checks that a current intent passes, with what the manifest checks return. -/
theorem currentIntent_checks : ∃ source candidate,
      validatedTransactionSource e i = .ok source ∧
        validatedTransactionCandidate e i = .ok candidate ∧
          validateTransactionManifestTransform i.operation source candidate = .ok () ∧
            ∀ recovery, i.operation = .archive → i.archiveRecovery = some recovery →
              validateArchiveTransactionIntent e i source candidate recovery = .ok () := by
  have h := transactionIntent_validated h
  unfold validateTransactionIntent at h
  simp only [bind_eq_ok, hcurrent, if_true] at h
  obtain ⟨u, -, source, hsource, candidate, hcandidate, v, htransform, h⟩ := h
  refine ⟨source, candidate, hsource, hcandidate, htransform, fun recovery harchive hr => ?_⟩
  rw [if_neg (fun hne => hne harchive), hr] at h
  exact h

/-- Which members a current intent has. -/
theorem currentIntent_members :
    i.sourceManifest.isSome = decide (i.operation ≠ .create) ∧
      i.candidateManifest.isSome = decide (i.operation ≠ .delete) ∧
        i.sourceManifestDigest.isSome = decide (i.operation ≠ .create) ∧
          i.candidateManifestDigest.isSome = decide (i.operation ≠ .delete) ∧
            i.archiveRecovery.isSome = decide (i.operation = .archive) ∧
              i.lifecycleRecovery.isSome = decide (i.operation ∉ [Operation.archive, .export]) := by
  have hschema : i.schema = true := h.1
  unfold TransactionIntent.schema at hschema
  rw [hcurrent] at hschema
  simp only [Bool.and_eq_true, beq_iff_eq, Bool.true_and] at hschema
  obtain ⟨⟨⟨⟨⟨⟨-, hsource⟩, hcandidate⟩, hsourceDigest⟩, hcandidateDigest⟩, harchive⟩,
    hlifecycle⟩ := hschema
  exact ⟨hsource, hcandidate, hsourceDigest, hcandidateDigest, harchive, hlifecycle⟩

theorem sourceManifest_absent : i.sourceManifest = none ↔ i.operation = .create := by
  have hsome := (currentIntent_members h hcurrent).1
  rw [← Option.isNone_iff_eq_none, ← Option.not_isSome, hsome]
  simp

theorem candidateManifest_absent : i.candidateManifest = none ↔ i.operation = .delete := by
  have hsome := (currentIntent_members h hcurrent).2.1
  rw [← Option.isNone_iff_eq_none, ← Option.not_isSome, hsome]
  simp

theorem sourceManifest_bound {m : Site} (hm : i.sourceManifest = some m) :
    m.metadata.id = i.tenantId ∧ i.sourceManifestDigest = some (manifestDigest e m) := by
  obtain ⟨source, candidate, hsource, -⟩ := currentIntent_checks h hcurrent
  have hcreate : i.operation ≠ .create := by
    intro hcreate
    rw [(sourceManifest_absent h hcurrent).2 hcreate] at hm
    cases hm
  exact (validatedTransactionSource_eq_ok hsource hcreate).2 m hm

theorem candidateManifest_bound {m : Site} (hm : i.candidateManifest = some m) :
    m.metadata.id = i.tenantId ∧ i.candidateManifestDigest = some (manifestDigest e m) := by
  obtain ⟨source, candidate, -, hcandidate, -⟩ := currentIntent_checks h hcurrent
  have hdelete : i.operation ≠ .delete := by
    intro hdelete
    rw [(candidateManifest_absent h hcurrent).2 hdelete] at hm
    cases hm
  exact (validatedTransactionCandidate_eq_ok hcandidate hdelete).2 m hm

/-- What the archive branch decides. -/
structure ArchiveChecked (e : Encoding) (i : TransactionIntent) (recovery : ArchiveRecovery) :
    Prop where
  source : i.sourceManifest = some recovery.sourceManifest
  candidate : i.candidateManifest = some recovery.candidateManifest
  metadata : recovery.candidateManifest.metadata = recovery.sourceManifest.metadata
  spec : recovery.candidateManifest.spec =
    { recovery.sourceManifest.spec with desiredState := .archived }
  state : recovery.sourceManifest.spec.desiredState ∈
    [LifecycleState.active, .suspended, .archived]
  observed : recovery.sourceObservedState.Realises e recovery.sourceManifest
  archive : recovery.candidateArchiveRecord.Archives e recovery.candidateManifest

theorem archiveChecked_of_valid {recovery : ArchiveRecovery}
    (hrecovery : i.archiveRecovery = some recovery) : ArchiveChecked e i recovery := by
  have harchive : i.operation = .archive := by
    have hsome := (currentIntent_members h hcurrent).2.2.2.2.1
    rw [hrecovery] at hsome
    exact of_decide_eq_true hsome.symm
  obtain ⟨source, candidate, hsource, hcandidate, -, hchecks⟩ := currentIntent_checks h hcurrent
  have hsource := (validatedTransactionSource_eq_ok hsource (by rw [harchive]; decide)).1
  have hcandidate := (validatedTransactionCandidate_eq_ok hcandidate (by rw [harchive]; decide)).1
  have hchecks := hchecks recovery harchive hrecovery
  unfold validateArchiveTransactionIntent at hchecks
  rw [hcurrent] at hchecks
  simp only [bind_eq_ok, require_eq_ok, Bool.and_eq_true, Bool.or_eq_true, decide_eq_true_eq,
    Bool.not_true, Bool.false_eq_true, false_or] at hchecks
  obtain ⟨-, -, -, -, -, ⟨htenant, hmetadata⟩, -, hsourceDigest, -, hsourceCopy, -, hcandidateCopy,
    -, hcandidateDigest, -, ⟨hstate, hspec⟩, -, ⟨⟨⟨hotenant, hodigest⟩, hostate⟩, hodeployment⟩, -, -,
    -, ⟨⟨⟨hatenant, hadeployment⟩, hadigest⟩, -⟩, -⟩ := hchecks
  refine
    { source := by rw [← hsource, hsourceCopy]
      candidate := by rw [← hcandidate, hcandidateCopy]
      metadata := hmetadata
      spec := hspec
      state := hstate
      observed :=
        { tenant := hotenant.trans htenant.symm
          digest := Option.some.inj (hodigest.trans hsourceDigest.symm)
          state := hostate
          deployment := ?_ }
      archive :=
        { tenant := by rw [hmetadata, htenant, hatenant]
          digest := Option.some.inj (hadigest.trans hcandidateDigest)
          deployment := by rw [hadeployment, hspec] } }
  rw [hodeployment]
  simp only [List.mem_cons, List.not_mem_nil, or_false] at hstate
  obtain hstate | hstate | hstate := hstate <;> simp [hstate]

/-- What the lifecycle branch decides. -/
structure LifecycleChecked (e : Encoding) (i : TransactionIntent) (recovery : LifecycleRecovery) :
    Prop where
  matrix : lifecycleMatrix i.operation (lifecycleOf i.sourceManifest) =
    some (lifecycleOf i.candidateManifest)
  source : ∀ o, recovery.sourceObservedState = some o → i.operation ≠ .reconcile →
    ∀ m, i.sourceManifest = some m → o.Realises e m
  candidate : ∀ o, recovery.candidateObservedState = some o →
    ∀ m, i.candidateManifest = some m → o.Realises e m

theorem lifecycleChecked_of_valid {recovery : LifecycleRecovery}
    (hrecovery : i.lifecycleRecovery = some recovery) : LifecycleChecked e i recovery := by
  have hoperation : i.operation ∉ [Operation.archive, .export] := by
    have hsome := (currentIntent_members h hcurrent).2.2.2.2.2
    rw [hrecovery] at hsome
    exact of_decide_eq_true hsome.symm
  have hchecks := intent_recovery h (fun ha => hoperation (by rw [ha]; decide))
    (fun ha => hoperation (by rw [ha]; decide)) hrecovery
  unfold validateLifecycleRecovery at hchecks
  simp only [bind_eq_ok, require_eq_ok, decide_eq_true_eq, beq_iff_eq] at hchecks
  obtain ⟨-, hcreate, -, hdelete, source, hsource, candidate, hcandidate, -, hmatrix, -⟩ := hchecks
  -- the manifest and the recorded observation are absent together, by the operation
  have hsourceState : source = lifecycleOf i.sourceManifest := by
    cases hm : i.sourceManifest with
    | none =>
        have habsent := (sourceManifest_absent h hcurrent).1 hm
        rw [decide_eq_true habsent] at hcreate
        exact lifecycleSource_absent hsource (Option.isNone_iff_eq_none.1 hcreate.symm)
    | some m =>
        have hbound := sourceManifest_bound h hcurrent hm
        cases ho : recovery.sourceObservedState with
        | none =>
            rw [ho] at hcreate
            have habsent := (sourceManifest_absent h hcurrent).2 (of_decide_eq_true hcreate)
            rw [hm] at habsent
            cases habsent
        | some o => exact (lifecycleSource_observed hsource hcurrent ho hm hbound.1 hbound.2).1
  have hcandidateState : candidate = lifecycleOf i.candidateManifest := by
    cases hm : i.candidateManifest with
    | none =>
        have habsent := (candidateManifest_absent h hcurrent).1 hm
        rw [decide_eq_true habsent] at hdelete
        exact lifecycleCandidate_absent hcandidate (Option.isNone_iff_eq_none.1 hdelete.symm)
    | some m =>
        have hbound := candidateManifest_bound h hcurrent hm
        cases ho : recovery.candidateObservedState with
        | none =>
            rw [ho] at hdelete
            have habsent := (candidateManifest_absent h hcurrent).2 (of_decide_eq_true hdelete)
            rw [hm] at habsent
            cases habsent
        | some o =>
            exact (lifecycleCandidate_observed hcandidate hcurrent ho hm hbound.1 hbound.2).1
  refine ⟨?_, ?_, ?_⟩
  · rw [← hsourceState, ← hcandidateState]
    exact hmatrix
  · intro o ho hreconcile m hm
    have hbound := sourceManifest_bound h hcurrent hm
    exact (lifecycleSource_observed hsource hcurrent ho hm hbound.1 hbound.2).2 hreconcile
  · intro o ho m hm
    have hbound := candidateManifest_bound h hcurrent hm
    exact (lifecycleCandidate_observed hcandidate hcurrent ho hm hbound.1 hbound.2).2

theorem manifests_same {source candidate : Site} (hsource : i.sourceManifest = some source)
    (hcandidate : i.candidateManifest = some candidate) (member : SiteMember)
    (hmember : member ∉ entitled i.operation) : member.Same source candidate := by
  have hcreate : i.operation ≠ .create := by
    intro hcreate
    rw [(sourceManifest_absent h hcurrent).2 hcreate] at hsource
    cases hsource
  have hdelete : i.operation ≠ .delete := by
    intro hdelete
    rw [(candidateManifest_absent h hcurrent).2 hdelete] at hcandidate
    cases hcandidate
  by_cases harchive : i.operation = .archive
  · have hsome := (currentIntent_members h hcurrent).2.2.2.2.1
    rw [decide_eq_true harchive] at hsome
    obtain ⟨recovery, hrecovery⟩ := Option.isSome_iff_exists.1 hsome
    have hchecked := archiveChecked_of_valid h hcurrent hrecovery
    obtain rfl := Option.some.inj (hsource.symm.trans hchecked.source)
    obtain rfl := Option.some.inj (hcandidate.symm.trans hchecked.candidate)
    rw [harchive] at hmember
    exact same_archived hchecked.metadata hchecked.spec member hmember
  · obtain ⟨r, t, hr, ht, htransform, -⟩ := currentIntent_checks h hcurrent
    rw [(validatedTransactionSource_eq_ok hr hcreate).1, hsource,
      (validatedTransactionCandidate_eq_ok ht hdelete).1, hcandidate] at htransform
    refine manifestTransform_same htransform ?_ member hmember
    simp only [List.mem_cons, List.not_mem_nil, or_false, not_or]
    exact ⟨hcreate, hdelete, harchive⟩

theorem manifests_related (hexport : i.operation ≠ .export) :
    lifecycleMatrix i.operation (lifecycleOf i.sourceManifest) =
      some (lifecycleOf i.candidateManifest) := by
  by_cases harchive : i.operation = .archive
  · have hsome := (currentIntent_members h hcurrent).2.2.2.2.1
    rw [decide_eq_true harchive] at hsome
    obtain ⟨recovery, hrecovery⟩ := Option.isSome_iff_exists.1 hsome
    have hchecked := archiveChecked_of_valid h hcurrent hrecovery
    rw [harchive, hchecked.source, hchecked.candidate]
    show lifecycleMatrix .archive recovery.sourceManifest.spec.desiredState =
      some recovery.candidateManifest.spec.desiredState
    rw [hchecked.spec]
    have hstate := hchecked.state
    simp only [List.mem_cons, List.not_mem_nil, or_false] at hstate
    obtain hstate | hstate | hstate := hstate <;> rw [hstate] <;> rfl
  · have hsome := (currentIntent_members h hcurrent).2.2.2.2.2
    rw [decide_eq_true (by simp [harchive, hexport])] at hsome
    obtain ⟨recovery, hrecovery⟩ := Option.isSome_iff_exists.1 hsome
    exact (lifecycleChecked_of_valid h hcurrent hrecovery).matrix

/-- The observed states of a valid intent belong to its tenant, by either branch. -/
theorem observed_of_valid :
    (∀ o, i.observedSource = some o → o.tenantId = i.tenantId ∧
      (i.operation ≠ .reconcile → ∀ m, i.sourceManifest = some m → o.Realises e m)) ∧
      ∀ o, i.observedCandidate = some o → o.tenantId = i.tenantId ∧
        ∀ m, i.candidateManifest = some m → o.Realises e m := by
  have hlifecycle : ∀ recovery, i.lifecycleRecovery = some recovery →
      validateLifecycleRecovery i recovery = .ok () ∧ LifecycleChecked e i recovery := by
    intro recovery hrecovery
    have hoperation := (currentIntent_members h hcurrent).2.2.2.2.2
    rw [hrecovery] at hoperation
    have hoperation := of_decide_eq_true hoperation.symm
    exact ⟨intent_recovery h (fun ha => hoperation (by rw [ha]; decide))
      (fun ha => hoperation (by rw [ha]; decide)) hrecovery,
      lifecycleChecked_of_valid h hcurrent hrecovery⟩
  refine ⟨fun o ho => ?_, fun o ho => ?_⟩
  · unfold TransactionIntent.observedSource at ho
    cases hr : i.archiveRecovery with
    | some recovery =>
        rw [hr] at ho
        obtain rfl := Option.some.inj ho
        have hchecked := archiveChecked_of_valid h hcurrent hr
        refine ⟨?_, fun _ m hm => ?_⟩
        · rw [hchecked.observed.tenant]
          exact (sourceManifest_bound h hcurrent hchecked.source).1
        · obtain rfl := Option.some.inj (hm.symm.trans hchecked.source)
          exact hchecked.observed
    | none =>
        rw [hr] at ho
        obtain ⟨recovery, hrecovery, ho⟩ := Option.bind_eq_some_iff.1 ho
        obtain ⟨hok, hchecked⟩ := hlifecycle recovery hrecovery
        exact ⟨(recovery_tenants hok).1 o ho, hchecked.source o ho⟩
  · unfold TransactionIntent.observedCandidate at ho
    obtain ⟨recovery, hrecovery, ho⟩ := Option.bind_eq_some_iff.1 ho
    obtain ⟨hok, hchecked⟩ := hlifecycle recovery hrecovery
    exact ⟨(recovery_tenants hok).2 o ho, hchecked.candidate o ho⟩

end Soundness

/-- Every accepted current intent keeps what recovery relies on. -/
theorem accepted_intent_sound (e : Encoding) (i : TransactionIntent) (raw : Bytes)
    (h : validateContract e (.transactionIntent i) = .ok raw) (hcurrent : i.current = true) :
    IntentSound e i := by
  have h := (validateContract_eq_ok.1 h).1
  obtain ⟨-, -, hsourceDigest, hcandidateDigest, -, -⟩ := currentIntent_members h hcurrent
  have hsource := (currentIntent_members h hcurrent).1
  have hcandidate := (currentIntent_members h hcurrent).2.1
  exact
    { sourceAbsent := sourceManifest_absent h hcurrent
      candidateAbsent := candidateManifest_absent h hcurrent
      lifecycle := manifests_related h hcurrent
      frame := fun source candidate hs hc => manifests_same h hcurrent hs hc
      sourceDigest := digest_eq_map (hsourceDigest.trans hsource.symm)
        fun m hm => (sourceManifest_bound h hcurrent hm).2
      candidateDigest := digest_eq_map (hcandidateDigest.trans hcandidate.symm)
        fun m hm => (candidateManifest_bound h hcurrent hm).2
      observedSource := (observed_of_valid h hcurrent).1
      observedCandidate := (observed_of_valid h hcurrent).2
      archive := by
        intro recovery hrecovery
        have hchecked := archiveChecked_of_valid h hcurrent hrecovery
        refine ⟨hchecked.source, hchecked.candidate, ?_, hchecked.archive⟩
        rw [hchecked.archive.tenant]
        exact (candidateManifest_bound h hcurrent hchecked.candidate).1 }

/-! ## Accepted intents that bind less -/

section Samples

def driftedSite : Site := sampleSite .active (some (sampleId 5))

def undeployedSite : Site := sampleSite .undeployed none

/-- The tenant was found suspended while its manifest asks for an active one. -/
def driftedObserved : TenantObservedState :=
  sampleObserved (placeDigest .manifest 0) .suspended (some (sampleId 5)) none

def repairedObserved : TenantObservedState :=
  sampleObserved (placeDigest .manifest 0) .active (some (sampleId 5)) (some (sampleId 7))

def driftIntent : TransactionIntent :=
  ⟨true, sampleIntentId, sampleTenant, sampleCorrelation, .reconcile, none,
    some ⟨some driftedObserved, sampleId 6, .absent, some repairedObserved, sampleId 7, .both⟩,
    some driftedSite, some (placeDigest .manifest 0), some driftedSite,
    some (placeDigest .manifest 0), .prepared, none, sampleTime⟩

def undeployedExport : TransactionIntent :=
  ⟨true, sampleIntentId, sampleTenant, sampleCorrelation, .export, none, none,
    some undeployedSite, some (placeDigest .manifest 1), some undeployedSite,
    some (placeDigest .manifest 1), .prepared, none, sampleTime⟩

noncomputable def intentEncoding : Encoding :=
  tableEncoding [.site driftedSite, .site undeployedSite, .transactionIntent driftIntent,
    .transactionIntent undeployedExport]

theorem accepted_intent_sound_drift : IntentSound intentEncoding driftIntent :=
  accepted_intent_sound intentEncoding driftIntent
    (intentEncoding.canonical (.transactionIntent driftIntent))
    (validateContract_eq_ok.2 ⟨by decide, rfl⟩) rfl

/-- A reconciliation is accepted with an observed source that its manifest does not ask for, and an
export of a tenant that has nothing to export. -/
theorem accepted_intents_may_disagree :
    (validateContract intentEncoding (.transactionIntent driftIntent) =
        .ok (intentEncoding.canonical (.transactionIntent driftIntent)) ∧
      driftIntent.observedSource = some driftedObserved ∧
        driftIntent.sourceManifest = some driftedSite ∧
          ¬ driftedObserved.Realises intentEncoding driftedSite) ∧
      validateContract intentEncoding (.transactionIntent undeployedExport) =
          .ok (intentEncoding.canonical (.transactionIntent undeployedExport)) ∧
        lifecycleMatrix undeployedExport.operation (lifecycleOf undeployedExport.sourceManifest) ≠
          some (lifecycleOf undeployedExport.candidateManifest) := by
  refine ⟨⟨validateContract_eq_ok.2 ⟨by decide, rfl⟩, rfl, rfl, fun h => ?_⟩,
    validateContract_eq_ok.2 ⟨by decide, rfl⟩, by decide⟩
  exact absurd h.state (by decide)

end Samples

end StaticHostAgent.Contracts
