import StaticHostAgent.Releases.Removal
import StaticHostAgent.Library.DurableRules
import StaticHostAgent.State.Paths

/-!
# Crash idempotence of the release store

After any number of crashes inside a removal, a resumed publication or a reconciliation, the same
call ends as the uninterrupted one would have. A crashed `publish` is not called again, since its
staged tree may have moved: `resumePublication` completes it. No operation touches another release
or a record, and a release with other content is neither replaced nor removed.
-/

set_option autoImplicit false

namespace StaticHostAgent.Releases

open Library Contracts Host
open ReleaseSpace

/-! ## Programs end in a state they recorded -/

section Honest

variable (host : ReleaseHost) (t d : Uuid7)

theorem onStaging_honest {α : Type} {p : Durable Staging AgentError α} (hp : p.Honest) :
    (onStaging p).Honest := hp.zoom fun _ => rfl

theorem setReleasesSlot_releasesSlot? (s : ReleaseSpace) :
    s.setReleasesSlot t (s.releasesSlot? t) = s := by
  cases hfind : s.tenants.find? t with
  | none => simp only [setReleasesSlot, hfind]
  | some held =>
      cases held with
      | leaf inode => simp only [setReleasesSlot, hfind]
      | directory access content => exact setReleasesSlot_self ⟨access, content, hfind⟩

theorem setReleases_releasesOf (s : ReleaseSpace) : s.setReleases t (s.releasesOf t) = s := by
  cases hslot : s.releasesSlot? t with
  | none => simp only [setReleases, hslot]
  | some held =>
      cases held with
      | leaf inode => simp only [setReleases, hslot]
      | directory access releases =>
          have hreleases : s.releasesOf t = releases := by
            unfold releasesSlot? at hslot
            cases hnamespace : s.tenantNamespace? t with
            | none =>
                rw [hnamespace] at hslot
                cases hslot
            | some content =>
                rw [hnamespace] at hslot
                obtain ⟨slot, others⟩ := content
                obtain rfl : slot = some (.directory access releases) := hslot
                simp only [releasesOf, releases?, hnamespace, Option.getD_some]
          have h := setReleasesSlot_releasesSlot? t s
          rw [hslot] at h
          simp only [setReleases, hslot, hreleases, h]

theorem removeStagingTree_honest : (removeStagingTree host t d).Honest := removeTree_honest _

theorem removeDiscardTransition_honest : (removeDiscardTransition host t d).Honest :=
  (Durable.Honest.query _).bind fun _ => ((Durable.Honest.effect _).when _).bind fun _ =>
    (removeStagingTree_honest host t d).when _

theorem reconcileEntry_honest (preserved : Protected) (name : StagingName) :
    (reconcileEntry host preserved name).Honest := by
  cases name with
  | discarded t d => exact removeStagingTree_honest host t d
  | other raw => exact Durable.Honest.pure ()
  | staged t d =>
      cases hlookup : preserved.lookup (t, d) with
      | some expected =>
          simp only [reconcileEntry, hlookup]
          exact Durable.Honest.query _
      | none =>
          simp only [reconcileEntry, hlookup]
          exact removeDiscardTransition_honest host t d

theorem reconcileStaging_honest (preserved : Protected) : (reconcileStaging host preserved).Honest :=
  (Durable.Honest.query _).bind fun names =>
    (Durable.Honest.forM (reconcileEntry_honest host preserved) names).bind fun _ =>
      Durable.Honest.pure _

theorem openOrCreateDirectory_honest {C : Type} (label : String) (fresh : C) :
    (openOrCreateDirectory host label fresh).Honest :=
  (Durable.Honest.query _).bind fun _ => ((Durable.Honest.effect _).when _).bind fun _ =>
    (Durable.Honest.query _).bind fun _ => (Durable.Honest.effect _).when _

theorem openOrCreateReleaseNamespace_honest : (openOrCreateReleaseNamespace host t).Honest :=
  ((openOrCreateDirectory_honest host _ _).zoom fun _ => setTenant_self).bind fun _ =>
    (openOrCreateDirectory_honest host _ _).zoom (setReleasesSlot_releasesSlot? t)

theorem renameOrReplay_honest (staged : StagedDeploymentRelease) (taken : Bool) :
    (renameOrReplay host staged taken).Honest := by
  unfold renameOrReplay
  cases taken with
  | true =>
      exact (Durable.Honest.query _).bind fun _ =>
        (onStaging_honest (removeDiscardTransition_honest host _ _)).bind fun _ =>
          Durable.Honest.pure _
  | false =>
      exact (Durable.Honest.effect _).bind fun _ => (Durable.Honest.query _).bind fun _ =>
        Durable.Honest.pure _

theorem publish_honest (staged : StagedDeploymentRelease) : (publish host staged).Honest :=
  (Durable.Honest.query _).bind fun _ =>
    (openOrCreateReleaseNamespace_honest host _).bind fun _ =>
      (Durable.Honest.query _).bind fun _ => renameOrReplay_honest host staged _

theorem resumePublication_honest (expected : Digest) :
    (resumePublication host t d expected).Honest := by
  refine (Durable.Honest.query _).bind fun _ => (Durable.Honest.query _).bind fun stagedExists =>
    (onStaging_honest (reconcileStaging_honest host _)).bind fun _ => ?_
  unfold publishOrVerify
  cases stagedExists with
  | true => exact (Durable.Honest.query _).bind fun _ => publish_honest host _
  | false => exact Durable.Honest.query _

theorem removeEmptyTenant_honest : (removeEmptyTenant t).Honest :=
  (Durable.Honest.query _).bind fun _ => (Durable.Honest.effect _).when _

theorem removeEmptyReleases_honest : (removeEmptyReleases t).Honest :=
  (Durable.Honest.query _).bind fun _ => ((Durable.Honest.effect _).when _).bind fun _ =>
    Durable.Honest.pure _

theorem removeRelease_honest (expected : Digest) : (removeRelease host t d expected).Honest := by
  refine (Durable.Honest.query _).bind fun _ => (Durable.Honest.query _).bind fun found => ?_
  cases found with
  | absent => exact Durable.Honest.pure ()
  | withoutReleases => exact removeEmptyTenant_honest t
  | withReleases =>
      have htree : (removeReleaseTree host (.retired d expected.value)).Honest :=
        removeTree_honest _
      exact (Durable.Honest.query _).bind fun _ => ((Durable.Honest.effect _).when _).bind fun _ =>
        ((htree.zoom (setReleases_releasesOf t)).when _).bind fun _ =>
          (removeEmptyReleases_honest t).bind fun _ => (removeEmptyTenant_honest t).when _

end Honest

/-! ## Restarting -/

section Restarting

variable {host : ReleaseHost} {t d : Uuid7} {expected : Digest} {s u : ReleaseSpace}

/-- A removal that is called again after crashes. -/
theorem removeRelease_again (h : Durable.Survives (removeRelease host t d expected) s u) :
    RemovesOnly t d s u ∧
      (removeRelease host t d expected u).state = (removeRelease host t d expected s).state ∧
      (removeRelease host t d expected u).result = (removeRelease host t d expected s).result := by
  have hrestartable : Durable.Restartable (RemovesOnly t d s) Eq (removeRelease host t d expected) := by
    intro v hv
    rcases removeRelease_restarts host t d expected v with
      hquiet | ⟨w, hkept, hrun⟩
    · exact Or.inl hquiet
    · exact Or.inr ⟨w, hv.trans hkept, by rw [hrun]; rfl, by rw [hrun]; rfl, by rw [hrun]; rfl⟩
  exact hrestartable.survives (fun _ => rfl) (fun _ _ _ => Eq.trans) (fun _ _ => Or.inl rfl) h

/-- A resumed publication that is called again after crashes. -/
theorem resumePublication_again (h : Durable.Survives (resumePublication host t d expected) s u) :
    PublishesOnly t d s u ∧
      (resumePublication host t d expected u).state =
        (resumePublication host t d expected s).state ∧
      SameOutcome SameMeasurement (resumePublication host t d expected u).result
        (resumePublication host t d expected s).result := by
  have hrestartable : Durable.Restartable (PublishesOnly t d s) (SameOutcome SameMeasurement)
      (resumePublication host t d expected) := by
    intro v hv
    rcases resumePublication_restarts host t d expected v with
      hquiet | ⟨w, hkept, hrun⟩
    · exact Or.inl hquiet
    · exact Or.inr ⟨w, hv.trans hkept, hrun⟩
  refine hrestartable.survives (SameOutcome.refl fun _ => rfl) ?_ (fun _ _ => Or.inl rfl) h
  exact SameOutcome.trans fun _ _ _ hab hbc => Eq.trans (b := _) hab hbc

/-- A reconciliation that is called again after crashes; the count is that of the last call. -/
theorem reconcileStaging_again {preserved : Protected} {staging staging' : Staging}
    (hcanonical : Canonical preserved staging)
    (h : Durable.Survives (reconcileStaging host preserved) staging staging') :
    (reconcileStaging host preserved staging').state =
        (reconcileStaging host preserved staging).state ∧
      SameOutcome (fun _ _ => True) (reconcileStaging host preserved staging').result
        (reconcileStaging host preserved staging).result := by
  have hsweep : ∀ v, sweep host preserved v =
      ⟨(reconcileStaging host preserved v).trace, (reconcileStaging host preserved v).state,
        (reconcileStaging host preserved v).result.map fun _ => ()⟩ := by
    intro v
    rw [← reconcileStaging_dropped]
    exact Durable.dropped_run _ v
  have hrestartable : Durable.Restartable (Canonical preserved) (SameOutcome fun _ _ => True)
      (reconcileStaging host preserved) := by
    intro v hv
    have hv' := hsweep v
    rcases sweep_restarts host hv with ⟨e, herror⟩ | ⟨hquiet, -⟩ | ⟨w, hkept, hrun⟩
    · left
      rw [herror] at hv'
      exact (congrArg Run.trace hv').symm
    · left
      rw [hquiet] at hv'
      exact (congrArg Run.trace hv').symm
    · right
      rw [hrun, hsweep w] at hv'
      simp only [Run.after, Run.mk.injEq] at hv'
      obtain ⟨htrace, hstate, hresult⟩ := hv'
      refine ⟨w, hv.kept hkept, htrace.symm, hstate, ?_⟩
      revert hresult
      cases (reconcileStaging host preserved w).result <;>
        cases (reconcileStaging host preserved v).result <;> intro hresult
      · exact True.intro
      · cases hresult
      · cases hresult
      · exact True.intro
  have hagain := hrestartable.survives (SameOutcome.refl fun _ => True.intro)
    (SameOutcome.trans fun _ _ _ _ _ => True.intro) hcanonical h
  exact hagain.2

/-! ## Publishing without a second call -/

/-- The staging root and the releases are as before. -/
def Untouched (s w : ReleaseSpace) : Prop := w.staging = s.staging ∧ SameReleases s w

theorem Untouched.trans {v w : ReleaseSpace} (h : Untouched s v) (h' : Untouched v w) :
    Untouched s w :=
  ⟨h'.1.trans h.1, fun t d => (h'.2 t d).trans (h.2 t d)⟩

/-- Making the directories touches no release; where it succeeds, they are there. -/
theorem namespace_triple (t : Uuid7) (s : ReleaseSpace) :
    Durable.Triple s (openOrCreateReleaseNamespace host t) (Untouched s)
      (fun _ w => Untouched s w ∧ HasReleases t w) (Untouched s) := by
  have hself : ∀ s, Untouched s s := fun _ => ⟨rfl, fun _ _ => rfl⟩
  -- on the number of changes that are left: after the first one the call starts again
  have general : ∀ (n : Nat) (s : ReleaseSpace),
      (openOrCreateReleaseNamespace host t s).trace.length = n →
        Durable.Triple s (openOrCreateReleaseNamespace host t) (Untouched s)
          (fun _ w => Untouched s w ∧ HasReleases t w) (Untouched s) := by
    intro n
    induction n with
    | zero =>
        intro s hlength
        rcases namespace_restarts host t s with
          ⟨e, herror⟩ | ⟨hquiet, hreleases⟩ | ⟨u, -, -, hafter | ⟨e, e', herror, -⟩⟩
        · rw [Durable.Triple.of_error herror]
          exact ⟨fun _ h => (nomatch h), hself s⟩
        · rw [Durable.Triple.of_ok hquiet]
          exact ⟨fun _ h => (nomatch h), hself s, hreleases⟩
        · rw [hafter] at hlength
          cases hlength
        · rw [herror] at hlength
          cases hlength
    | succ n ih =>
        intro s hlength
        rcases namespace_restarts host t s with
          ⟨e, herror⟩ | ⟨hquiet, -⟩ | ⟨u, hstaging, hsame, hafter | ⟨e, e', herror, -⟩⟩
        · rw [herror] at hlength
          cases hlength
        · have hquiet' : openOrCreateReleaseNamespace host t s = ⟨[], s, .ok ()⟩ := hquiet
          rw [hquiet'] at hlength
          cases hlength
        · have hu : Untouched s u := ⟨hstaging, hsame⟩
          have hrest := ih u (by
            rw [hafter] at hlength
            exact Nat.succ.inj hlength)
          refine ⟨?_, ?_, ?_⟩
          · rw [hafter]
            intro w hw
            rcases List.mem_cons.1 hw with rfl | hw
            · exact hu
            · exact hu.trans (hrest.visited w hw)
          · rw [hafter]
            exact fun a ha => ⟨hu.trans (hrest.post a ha).1, (hrest.post a ha).2⟩
          · rw [hafter]
            exact fun e he => hu.trans (hrest.failed e he)
        · rw [Durable.Triple.of_error herror]
          refine ⟨fun w hw => ?_, ⟨hstaging, hsame⟩⟩
          rw [List.mem_singleton.1 hw]
          exact ⟨hstaging, hsame⟩
  exact general _ s rfl

/-- What a publication leaves: at most the name of its release is new, and the staged tree stands
where it was or has left its name. -/
structure PublishLeaves (t d : Uuid7) (s w : ReleaseSpace) : Prop where
  only : PublishesOnly t d s w
  staging : w.staging = s.staging ∨ w.staging.find? (.staged t d) = none

theorem Untouched.leaves {w : ReleaseSpace} (h : Untouched s w) : PublishLeaves t d s w :=
  ⟨h.2.publishesOnly, Or.inl h.1⟩

/-- Discarding the staged tree leaves no tree under its name, in any of its states. -/
theorem discard_leaves {v : Staging} (hv : v ∈ (removeDiscardTransition host t d s.staging).trace ∨
    v = (removeDiscardTransition host t d s.staging).state) :
    v = s.staging ∨ v.find? (.staged t d) = none := by
  cases hone : requireOneIdentity t d s.staging with
  | error e =>
      have hrun : removeDiscardTransition host t d s.staging = ⟨[], s.staging, .error e⟩ :=
        Durable.query_bind_error hone
      rw [hrun] at hv
      rcases hv with hv | hv
      · cases hv
      · exact Or.inl hv
  | ok found =>
      have hfound : found.1 = (s.staging.find? (.staged t d)).isSome ∧
          (found.1 && found.2) = false := by
        simp only [requireOneIdentity, bind_eq_ok, require_eq_ok, pure_eq_ok,
          Bool.not_eq_true'] at hone
        obtain ⟨_, hboth, rfl⟩ := hone
        exact ⟨rfl, hboth⟩
      have hrun : removeDiscardTransition host t d s.staging = (do
          Durable.when found.1
            (Durable.effect (renameEntry (StagingName.staged t d) (.discarded t d)))
          Durable.when (found.1 || found.2) (removeStagingTree host t d)) s.staging :=
        (Durable.Quiet.query hone).bind
      rw [hrun] at hv
      obtain ⟨canonical, discarded⟩ := found
      cases canonical with
      | true =>
          -- the name is gone from the rename on
          have hgone : (renameEntry (.staged t d) (.discarded t d) s.staging).find? (.staged t d) =
              none := renameEntry_find?_source (by simp)
          have hafter := Durable.effect_after
            (f := renameEntry (StagingName.staged t d) (.discarded t d))
            (g := fun _ => removeStagingTree host t d) (s := s.staging)
          have hv' : v ∈ (Run.after (renameEntry (.staged t d) (.discarded t d) s.staging)
              (removeStagingTree host t d
                (renameEntry (.staged t d) (.discarded t d) s.staging))).trace ∨
              v = (removeStagingTree host t d
                (renameEntry (.staged t d) (.discarded t d) s.staging)).state := by
            rw [← hafter]
            refine hv.imp id fun h => ?_
            have hstate := congrArg Run.state hafter
            exact h.trans hstate
          right
          rcases hv' with hmem | rfl
          · rcases List.mem_cons.1 hmem with rfl | hmem
            · exact hgone
            · exact (removeStagingTree_frame host t d _ (Or.inl hmem) _ (by simp)).trans hgone
          · exact (removeStagingTree_frame host t d _ (Or.inr rfl) _ (by simp)).trans hgone
      | false =>
          have habsent : s.staging.find? (.staged t d) = none := by
            cases h : s.staging.find? (.staged t d) with
            | none => rfl
            | some release =>
                rw [h] at hfound
                cases hfound.1
          right
          cases discarded with
          | true =>
              have hv' : v ∈ (removeStagingTree host t d s.staging).trace ∨
                  v = (removeStagingTree host t d s.staging).state := hv
              exact (removeStagingTree_frame host t d _ hv' _ (by simp)).trans habsent
          | false =>
              rcases hv with hv | rfl
              · cases hv
              · exact habsent

/-- Giving the tree its name, or replaying that, leaves what a publication may leave. -/
theorem renameOrReplay_triple {staged : StagedDeploymentRelease} {v : ReleaseSpace}
    (hreleases : HasReleases staged.tenantId v) :
    Durable.Triple v (renameOrReplay host staged
        ((v.releasesOf staged.tenantId).find? (.deployment staged.deploymentId)).isSome)
      (PublishLeaves staged.tenantId staged.deploymentId v)
      (fun _ => PublishLeaves staged.tenantId staged.deploymentId v)
      (PublishLeaves staged.tenantId staged.deploymentId v) := by
  obtain ⟨access, access', releases, others, htenant⟩ := hreleases
  have hself : PublishLeaves staged.tenantId staged.deploymentId v v :=
    ⟨fun _ _ => Or.inl rfl, Or.inl rfl⟩
  -- a free name takes the staged tree; a taken one is verified and the staged tree discarded
  cases htaken : (v.releasesOf staged.tenantId).find? (.deployment staged.deploymentId) with
  | none =>
      have hrenamed : PublishLeaves staged.tenantId staged.deploymentId v
          (renameToPublished staged.tenantId staged.deploymentId v) := by
        cases hstaged : v.staging.find? (.staged staged.tenantId staged.deploymentId) with
        | none =>
            have hsame : renameToPublished staged.tenantId staged.deploymentId v = v := by
              simp only [renameToPublished, hstaged]
            rw [hsame]
            exact hself
        | some release =>
            have hrun := renameToPublished_of_find? htenant hstaged
            rw [releasesOf_of_find? htenant] at htaken
            refine ⟨fun t' d' => ?_, Or.inr ?_⟩
            · by_cases ht : t' = staged.tenantId
              · subst ht
                have hafter : (renameToPublished staged.tenantId staged.deploymentId v).tenants.find?
                    staged.tenantId = some (.directory access ⟨some (.directory access'
                      (releases.insert (.deployment staged.deploymentId) release)), others⟩) := by
                  rw [hrun]
                  exact setTenant_find? _
                rw [release?_of_find? hafter, release?_of_find? htenant, release?_of_find? htenant]
                by_cases hd : d' = staged.deploymentId
                · exact Or.inr ⟨rfl, hd, htaken⟩
                · exact Or.inl (Directory.find?_insert_of_ne _ (by simpa using hd) _)
              · refine Or.inl (release?_congr ?_)
                rw [hrun]
                exact setTenant_find?_of_ne _ ht
            · rw [hrun, setTenant_staging]
              exact Directory.find?_erase_self _ _
      show Durable.Triple v (do
        Durable.effect (renameToPublished staged.tenantId staged.deploymentId)
        let published ← Durable.query (requirePublished host staged)
        pure (PublishedDeploymentRelease.mk published true)) _ _ _
      refine Durable.Triple.bind (M := fun _ => PublishLeaves staged.tenantId staged.deploymentId v)
        (Durable.Triple.effect hrenamed hrenamed) fun _ w hw => ?_
      refine Durable.Triple.bind (M := fun _ => PublishLeaves staged.tenantId staged.deploymentId v)
        (Durable.Triple.query (fun _ _ => hw) fun _ _ => hw) fun _ _ hw' => ?_
      exact Durable.Triple.pure hw'
  | some existing =>
      show Durable.Triple v (do
        let existing ← Durable.query (requireExisting host staged)
        onStaging (removeDiscardTransition host staged.tenantId staged.deploymentId)
        pure (PublishedDeploymentRelease.mk existing false)) _ _ _
      refine Durable.Triple.bind (M := fun _ w => w = v)
        (Durable.Triple.query (fun _ _ => rfl) fun _ _ => hself) ?_
      rintro replayed w rfl
      refine Durable.Triple.bind (M := fun _ => PublishLeaves staged.tenantId staged.deploymentId w)
        ?_ fun _ _ hw' => Durable.Triple.pure hw'
      have hleaves : ∀ staging', staging' ∈ (removeDiscardTransition host staged.tenantId
            staged.deploymentId w.staging).trace ∨
          staging' = (removeDiscardTransition host staged.tenantId staged.deploymentId
            w.staging).state →
          PublishLeaves staged.tenantId staged.deploymentId w (w.setStaging staging') :=
        fun staging' h => ⟨fun _ _ => Or.inl rfl, discard_leaves h⟩
      refine ⟨fun u hu => ?_, fun _ _ => hleaves _ (Or.inr rfl), fun _ _ => hleaves _ (Or.inr rfl)⟩
      obtain ⟨staging', hmem, rfl⟩ := List.mem_map.1 hu
      exact hleaves staging' (Or.inl hmem)

/-- One call of `publish` leaves what a publication may leave. -/
theorem publish_triple (staged : StagedDeploymentRelease) (s : ReleaseSpace) :
    Durable.Triple s (publish host staged) (PublishLeaves staged.tenantId staged.deploymentId s)
      (fun _ => PublishLeaves staged.tenantId staged.deploymentId s)
      (PublishLeaves staged.tenantId staged.deploymentId s) := by
  have hself : PublishLeaves staged.tenantId staged.deploymentId s s :=
    ⟨fun _ _ => Or.inl rfl, Or.inl rfl⟩
  refine Durable.Triple.bind (M := fun _ w => w = s)
    (Durable.Triple.query (fun _ _ => rfl) fun _ _ => hself) ?_
  rintro _ w rfl
  refine Durable.Triple.bind (M := fun _ v => Untouched w v ∧ HasReleases staged.tenantId v)
    ((namespace_triple staged.tenantId w).weaken (fun _ h => h.leaves) (fun _ _ h => h)
      fun _ h => h.leaves) ?_
  rintro _ v ⟨huntouched, hreleases⟩
  refine Durable.Triple.bind (M := fun taken u => u = v ∧
      taken = ((v.releasesOf staged.tenantId).find? (.deployment staged.deploymentId)).isSome)
    (Durable.Triple.query (fun taken h => ⟨rfl, (Except.ok.inj h).symm⟩)
      fun _ h => (nomatch h)) ?_
  rintro taken u ⟨rfl, rfl⟩
  have hleaves : ∀ w', PublishLeaves staged.tenantId staged.deploymentId u w' →
      PublishLeaves staged.tenantId staged.deploymentId w w' := fun w' h =>
    ⟨huntouched.2.publishesOnly.trans h.only, h.staging.imp_left fun h => h.trans huntouched.1⟩
  exact (renameOrReplay_triple hreleases).weaken (fun _ => hleaves _) (fun _ _ => hleaves _)
    fun _ => hleaves _

theorem publish_leaves {staged : StagedDeploymentRelease} {w : ReleaseSpace}
    (h : w ∈ (publish host staged s).trace) :
    PublishLeaves staged.tenantId staged.deploymentId s w :=
  (publish_triple staged s).visited w h

/-- Crashed calls of `publish` leave every other release, and what stood under its own name. -/
theorem publish_survivors {staged : StagedDeploymentRelease}
    (h : Durable.Survives (publish host staged) s u) :
    PublishesOnly staged.tenantId staged.deploymentId s u := by
  refine h.invariant (I := PublishesOnly staged.tenantId staged.deploymentId s) ?_
    fun _ _ => Or.inl rfl
  exact fun v hv w hw => hv.trans (publish_leaves hw).only

variable (host) in
/-- Where only the staged tree is in the way, a resumed publication runs as `publish`. -/
theorem resumePublication_runs {m : ReleaseTreeMeasurement} (hkeys : s.staging.keys = [.staged t d])
    (hmeasure : measureStaging host t d s.staging = .ok m) :
    resumePublication host t d m.digest s = publish host ⟨t, d, .staged t d, m⟩ s := by
  have hformat : requireReleaseTreeDigest m.digest = .ok () := by
    have hdigest : m.digest.format = .releaseTree := by
      unfold measureStaging measureHeld at hmeasure
      cases hfind : s.staging.find? (.staged t d) with
      | none => simp only [hfind] at hmeasure; cases hmeasure
      | some held =>
          cases held with
          | leaf inode => simp only [hfind] at hmeasure; cases hmeasure
          | directory root content =>
              simp only [hfind] at hmeasure
              exact measureReleaseTree_format hmeasure
    simp only [requireReleaseTreeDigest, hdigest, decide_true, require_true]
  have hstaged : (s.staging.find? (.staged t d)).isSome = true := by
    rw [← Directory.mem_keys, hkeys]
    simp
  have hverified : Verified host [((t, d), m.digest)] s.staging s.staging.keys := by
    intro name hname
    rw [hkeys, List.mem_singleton] at hname
    exact ⟨t, d, m.digest, hname, by simp, requireStagedDigest_eq_ok.2 ⟨m, hmeasure, rfl⟩⟩
  have hscanned : Scanned [((t, d), m.digest)] s.staging := by
    refine ⟨by rw [hkeys]; exact Nat.le_succ 1, ?_, ?_, ?_⟩
    · intro name hname raw
      rw [hkeys, List.mem_singleton] at hname
      rw [hname]
      simp
    · intro t' d' hname
      rw [hkeys, List.mem_singleton] at hname
      cases hname
    · intro entry hentry
      rw [List.mem_singleton.1 hentry, hkeys]
      exact Or.inl (List.mem_singleton_self _)
  have hquiet : Durable.Quiet (sweep host [((t, d), m.digest)]) s.staging () :=
    (sweep_of_scanned host hscanned).trans hverified.quiet
  rw [resumePublication_staged hformat hquiet hstaged hmeasure rfl, publish_staged hmeasure]

/-- What crashed calls of `publish` leave, crashed resumed publications leave as well. -/
theorem publish_resumable {m : ReleaseTreeMeasurement} (hkeys : s.staging.keys = [.staged t d])
    (hmeasure : measureStaging host t d s.staging = .ok m)
    (h : Durable.Survives (publish host ⟨t, d, .staged t d, m⟩) s u) :
    Durable.Survives (resumePublication host t d m.digest) s u := by
  have hinvariant : Durable.Survives (resumePublication host t d m.digest) s u ∧
      (u.staging = s.staging ∨ u.staging.find? (.staged t d) = none) := by
    refine h.invariant (I := fun u => Durable.Survives (resumePublication host t d m.digest) s u ∧
      (u.staging = s.staging ∨ u.staging.find? (.staged t d) = none)) ?_
      ⟨Relation.ReflTransGen.refl, Or.inl rfl⟩
    rintro v ⟨hsurvives, hstaging⟩ w hw
    have hleaves := publish_leaves hw
    rcases hstaging with hsame | hgone
    · -- the staged tree is untouched, so both calls run alike
      have hrun := resumePublication_runs host (s := v) (hsame ▸ hkeys) (hsame ▸ hmeasure)
      refine ⟨hsurvives.tail (Or.inr (by rw [hrun]; exact hw)), ?_⟩
      exact hleaves.staging.imp_left fun h => h.trans hsame
    · -- the staged tree has left its name, so `publish` refuses at once
      have hrefused : requireUnchangedStaging host ⟨t, d, .staged t d, m⟩ v =
          .error (releaseTreeError "release root could not be opened") := by
        simp only [requireUnchangedStaging, validateStaged, decide_true, require_true, ok_bind,
          hgone, measureHeld]
        rfl
      have hrun : publish host ⟨t, d, .staged t d, m⟩ v = ⟨[], v, .error _⟩ :=
        Durable.query_bind_error hrefused
      rw [hrun] at hw
      cases hw
  exact hinvariant.1

/-- A release with other content is not removed. -/
theorem removeRelease_refuses (hpresent : (s.release? t d).isSome = true)
    (hother : ∀ m, measure host t d s = .ok m → m.digest ≠ expected) :
    ∃ e, removeRelease host t d expected s = ⟨[], s, .error e⟩ := by
  cases hformat : requireReleaseTreeDigest expected with
  | error e => exact ⟨e, Durable.query_bind_error hformat⟩
  | ok v =>
      have hfirst : Durable.Quiet (Durable.query fun _ : ReleaseSpace =>
          requireReleaseTreeDigest expected) s v := Durable.Quiet.query hformat
      cases hopen : openTenantReleases host t s with
      | error e => exact ⟨e, hfirst.bind.trans (Durable.query_bind_error hopen)⟩
      | ok found =>
          rcases openTenantReleases_cases hopen with ⟨rfl, hfind⟩ | ⟨rfl, access, others, hfind⟩ |
            ⟨rfl, releases, hopened⟩
          · rw [release?_of_missing fun _ _ _ _ h => by rw [hfind] at h; cases h] at hpresent
            cases hpresent
          · rw [release?_of_missing fun _ _ _ _ h => by rw [hfind] at h; cases h] at hpresent
            cases hpresent
          · rw [hopened.release?_eq] at hpresent
            obtain ⟨release, hcanonical⟩ := Option.isSome_iff_exists.1 hpresent
            cases hfound : requireRemovable host t d expected s with
            | error e =>
                refine ⟨e, ?_⟩
                rw [removeRelease_opened hformat hopened]
                exact Durable.query_bind_error hfound
            | ok found =>
                obtain ⟨-, -, m, hmeasure, hdigest⟩ :=
                  requireRemovable_canonical hopened hcanonical hfound
                exact absurd hdigest (hother m hmeasure)

end Restarting

/-! ## Beside the records -/

/-- The records of the agent and its release store. -/
structure AgentFiles where
  records : Directory State.FilePath Document
  space : ReleaseSpace

namespace AgentFiles

/-- An operation of the release store has no access to the records. -/
def operate {α : Type} (p : Durable ReleaseSpace AgentError α) :
    Durable AgentFiles AgentError α :=
  Durable.zoom space (fun space s => { s with space := space }) fun _ => p

variable {α : Type} {p : Durable ReleaseSpace AgentError α} {s u : AgentFiles}

theorem operate_survives (h : Durable.Survives (operate p) s u) :
    u.records = s.records ∧ Durable.Survives p s.space u.space := by
  refine h.invariant (I := fun u => u.records = s.records ∧ Durable.Survives p s.space u.space) ?_
    ⟨rfl, Relation.ReflTransGen.refl⟩
  rintro v ⟨hrecords, hsurvives⟩ w hw
  obtain ⟨space, hmem, rfl⟩ := List.mem_map.1 hw
  exact ⟨hrecords, hsurvives.tail (Or.inr hmem)⟩

/-- The end of an operation is one of the states that a crash may leave. -/
theorem operate_ends (hp : p.Honest) (h : Durable.Survives (operate p) s u) :
    Durable.Survives (operate p) s (operate p u).state :=
  h.tail ((hp.zoom fun _ => rfl).crashed u)

theorem operate_state (hrecords : u.records = s.records)
    (hstate : (p u.space).state = (p s.space).state) : (operate p u).state = (operate p s).state := by
  show AgentFiles.mk u.records _ = AgentFiles.mk s.records _
  rw [hrecords, hstate]

end AgentFiles

open AgentFiles

/-- Records and releases that an operation on one release keeps: all records and all releases under
other names. -/
def KeepsOthers (t d : Uuid7) (s u : AgentFiles) : Prop :=
  u.records = s.records ∧
    ∀ t' d', (t', d') ≠ (t, d) → u.space.release? t' d' = s.space.release? t' d'

theorem PublishesOnly.keepsOthers {t d : Uuid7} {s u : AgentFiles} (hrecords : u.records = s.records)
    (h : PublishesOnly t d s.space u.space) : KeepsOthers t d s u := by
  refine ⟨hrecords, fun t' d' hne => (h t' d').resolve_right ?_⟩
  rintro ⟨rfl, rfl, -⟩
  exact hne rfl

theorem RemovesOnly.keepsOthers {t d : Uuid7} {s u : AgentFiles} (hrecords : u.records = s.records)
    (h : RemovesOnly t d s.space u.space) : KeepsOthers t d s u := by
  refine ⟨hrecords, fun t' d' hne => (h t' d').resolve_right ?_⟩
  rintro ⟨rfl, rfl, -⟩
  exact hne rfl

/-- What crashes and repeated calls do to the release store. -/
structure CrashIdempotent (host : ReleaseHost) : Prop where
  /-- A removal called again ends as the uninterrupted removal, and touches nothing else. -/
  removed : ∀ t d expected s u,
    Durable.Survives (operate (removeRelease host t d expected)) s u →
      (operate (removeRelease host t d expected) u).state =
          (operate (removeRelease host t d expected) s).state ∧
        (operate (removeRelease host t d expected) u).result =
          (operate (removeRelease host t d expected) s).result ∧
        KeepsOthers t d s u ∧ KeepsOthers t d s (operate (removeRelease host t d expected) u).state
  /-- A release with other content is not removed, nor is anything else changed. -/
  notRemoved : ∀ t d expected s, (s.space.release? t d).isSome = true →
    (∀ m, measure host t d s.space = .ok m → m.digest ≠ expected) →
      (∀ u, Durable.Survives (operate (removeRelease host t d expected)) s u → u = s) ∧
        (operate (removeRelease host t d expected) s).state = s ∧
        ∃ e, (operate (removeRelease host t d expected) s).result = .error e
  /-- A resumed publication called again ends as the uninterrupted one; the flag says which call
  published. A release that stood under the name still stands there. -/
  resumed : ∀ t d expected s u,
    Durable.Survives (operate (resumePublication host t d expected)) s u →
      (operate (resumePublication host t d expected) u).state =
          (operate (resumePublication host t d expected) s).state ∧
        SameOutcome SameMeasurement (operate (resumePublication host t d expected) u).result
          (operate (resumePublication host t d expected) s).result ∧
        ∀ w, w = u ∨ w = (operate (resumePublication host t d expected) u).state →
          KeepsOthers t d s w ∧ PublishesOnly t d s.space w.space
  /-- A crashed `publish` touches nothing else and replaces no release. -/
  published : ∀ staged s u, Durable.Survives (operate (publish host staged)) s u →
    ∀ w, w = u ∨ w = (operate (publish host staged) u).state →
      KeepsOthers staged.tenantId staged.deploymentId s w ∧
        PublishesOnly staged.tenantId staged.deploymentId s.space w.space
  /-- A crashed `publish` of the only staged tree is completed by a resumed publication. -/
  completes : ∀ t d m s u, s.space.staging.keys = [.staged t d] →
    measureStaging host t d s.space.staging = .ok m →
    Durable.Survives (operate (publish host ⟨t, d, .staged t d, m⟩)) s u →
      (operate (resumePublication host t d m.digest) u).state =
          (operate (publish host ⟨t, d, .staged t d, m⟩) s).state ∧
        SameOutcome SameMeasurement (operate (resumePublication host t d m.digest) u).result
          (operate (publish host ⟨t, d, .staged t d, m⟩) s).result
  /-- A reconciliation whose protected trees all stand under their staged names, called again, ends
  as the uninterrupted one; it counts what the last call removed. -/
  reconciled : ∀ preserved s u, Canonical preserved s.space.staging →
    Durable.Survives (operate (onStaging (reconcileStaging host preserved))) s u →
      (operate (onStaging (reconcileStaging host preserved)) u).state =
          (operate (onStaging (reconcileStaging host preserved)) s).state ∧
        SameOutcome (fun _ _ => True)
          (operate (onStaging (reconcileStaging host preserved)) u).result
          (operate (onStaging (reconcileStaging host preserved)) s).result
  /-- A reconciliation touches no release, and no record. -/
  reconcileKeeps : ∀ preserved s u,
    Durable.Survives (operate (onStaging (reconcileStaging host preserved))) s u →
      ∀ w, w = u ∨ w = (operate (onStaging (reconcileStaging host preserved)) u).state →
        w.records = s.records ∧ w.space.tenants = s.space.tenants

theorem onStaging_survives {α : Type} {p : Durable Staging AgentError α} {s u : ReleaseSpace}
    (h : Durable.Survives (onStaging p) s u) :
    u.tenants = s.tenants ∧ Durable.Survives p s.staging u.staging := by
  refine h.invariant (I := fun u => u.tenants = s.tenants ∧ Durable.Survives p s.staging u.staging)
    ?_ ⟨rfl, Relation.ReflTransGen.refl⟩
  rintro v ⟨htenants, hsurvives⟩ w hw
  obtain ⟨staging, hmem, rfl⟩ := List.mem_map.1 hw
  exact ⟨htenants, hsurvives.tail (Or.inr hmem)⟩

/-- The release store survives crashes: repeated calls reach the uninterrupted end, other releases
and all records stay, and a release with other content is neither replaced nor removed. -/
theorem release_store_crash_idempotent (host : ReleaseHost) : CrashIdempotent host where
  removed t d expected s u h := by
    obtain ⟨hrecords, hsurvives⟩ := operate_survives h
    obtain ⟨hkept, hstate, hresult⟩ := removeRelease_again hsurvives
    obtain ⟨hrecords', hsurvives'⟩ :=
      operate_survives (operate_ends (removeRelease_honest host t d expected) h)
    exact ⟨operate_state hrecords hstate, hresult, hkept.keepsOthers hrecords,
      (removeRelease_again hsurvives').1.keepsOthers hrecords'⟩
  notRemoved t d expected s hpresent hother := by
    obtain ⟨e, hrun⟩ := removeRelease_refuses hpresent hother
    have hoperate : operate (removeRelease host t d expected) s = ⟨[], s, .error e⟩ :=
      Durable.zoom_error hrun rfl
    refine ⟨fun u h => h.eq_start (by rw [hoperate]), by rw [hoperate], e, by rw [hoperate]⟩
  resumed t d expected s u h := by
    obtain ⟨hrecords, hsurvives⟩ := operate_survives h
    obtain ⟨-, hstate, hresult⟩ := resumePublication_again hsurvives
    refine ⟨operate_state hrecords hstate, hresult, fun w hw => ?_⟩
    have hw' : Durable.Survives (operate (resumePublication host t d expected)) s w := by
      rcases hw with rfl | rfl
      · exact h
      · exact operate_ends (resumePublication_honest host t d expected) h
    obtain ⟨hrecordsw, hsurvivesw⟩ := operate_survives hw'
    have hkept := (resumePublication_again hsurvivesw).1
    exact ⟨hkept.keepsOthers hrecordsw, hkept⟩
  published staged s u h w hw := by
    have hw' : Durable.Survives (operate (publish host staged)) s w := by
      rcases hw with rfl | rfl
      · exact h
      · exact operate_ends (publish_honest host staged) h
    obtain ⟨hrecords, hsurvives⟩ := operate_survives hw'
    have hkept := publish_survivors hsurvives
    exact ⟨hkept.keepsOthers hrecords, hkept⟩
  completes t d m s u hkeys hmeasure h := by
    obtain ⟨hrecords, hsurvives⟩ := operate_survives h
    obtain ⟨-, hstate, hresult⟩ :=
      resumePublication_again (publish_resumable hkeys hmeasure hsurvives)
    have hrun : resumePublication host t d m.digest s.space = publish host ⟨t, d, .staged t d, m⟩ s.space :=
      resumePublication_runs host hkeys hmeasure
    have hoperate : operate (resumePublication host t d m.digest) s =
        operate (publish host ⟨t, d, .staged t d, m⟩) s := Durable.zoom_congr_at hrun
    rw [← hoperate]
    exact ⟨operate_state hrecords hstate, hresult⟩
  reconciled preserved s u hcanonical h := by
    obtain ⟨hrecords, hsurvives⟩ := operate_survives h
    obtain ⟨htenants, hstaging⟩ := onStaging_survives hsurvives
    obtain ⟨hstate, hresult⟩ := reconcileStaging_again hcanonical hstaging
    refine ⟨operate_state hrecords ?_, hresult⟩
    show ReleaseSpace.mk u.space.tenants _ = ReleaseSpace.mk s.space.tenants _
    rw [htenants, hstate]
  reconcileKeeps preserved s u h w hw := by
    have hw' : Durable.Survives (operate (onStaging (reconcileStaging host preserved))) s w := by
      rcases hw with rfl | rfl
      · exact h
      · exact operate_ends (onStaging_honest (reconcileStaging_honest host preserved)) h
    obtain ⟨hrecords, hsurvives⟩ := operate_survives hw'
    exact ⟨hrecords, (onStaging_survives hsurvives).1⟩

/-! ## Calls that cannot be repeated -/

/-- A host whose hash function is right for the tree without entries. -/
def emptyTreeHost : ReleaseHost where
  tree := {
    sha256 := fun _ =>
      74531696274409671415002314815181902045683829360591221313395731782725568045035
    normalizeNfc := id
    casefold := id
    lower := id
    isControl := fun _ => false }
  expectedOwner := 0
  processOwner := 0
  umask := 0o077

def firstTenant : Uuid7 := ⟨1, 0, 0⟩

def firstDeployment : Uuid7 := ⟨2, 0, 0⟩

/-- An extracted tree without entries. -/
def emptyRelease : Release := .directory ⟨1, 2, 0, 0o755, 8⟩ .empty

def emptyMeasurement : ReleaseTreeMeasurement where
  digest := ⟨.releaseTree,
    74531696274409671415002314815181902045683829360591221313395731782725568045035⟩
  entryCount := 0
  logicalContentBytes := 0
  allocations := [⟨1, 2, 4096⟩]

/-- A staging root with one tree under the given name. -/
def stagedSpace (name : StagingName) : ReleaseSpace :=
  ⟨Directory.empty, Directory.empty.insert name emptyRelease⟩

/-- Whether a call succeeds. -/
def succeeds {α : Type} (p : Durable ReleaseSpace AgentError α) (s : ReleaseSpace) : Bool :=
  match (p s).result with
  | .ok _ => true
  | .error _ => false

/-- A `publish` that crashed behind its rename cannot be called again, and neither can a
reconciliation that removed a protected tree which stood under its discarded name only. -/
theorem crashed_calls_refused :
    (succeeds (publish emptyTreeHost ⟨firstTenant, firstDeployment,
          .staged firstTenant firstDeployment, emptyMeasurement⟩)
        (stagedSpace (.staged firstTenant firstDeployment)) = true ∧
      succeeds (publish emptyTreeHost ⟨firstTenant, firstDeployment,
          .staged firstTenant firstDeployment, emptyMeasurement⟩)
        (publish emptyTreeHost ⟨firstTenant, firstDeployment,
          .staged firstTenant firstDeployment, emptyMeasurement⟩
          (stagedSpace (.staged firstTenant firstDeployment))).state = false) ∧
    (succeeds (onStaging (reconcileStaging emptyTreeHost
          [((firstTenant, firstDeployment), emptyMeasurement.digest)]))
        (stagedSpace (.discarded firstTenant firstDeployment)) = true ∧
      succeeds (onStaging (reconcileStaging emptyTreeHost
          [((firstTenant, firstDeployment), emptyMeasurement.digest)]))
        (onStaging (reconcileStaging emptyTreeHost
          [((firstTenant, firstDeployment), emptyMeasurement.digest)])
          (stagedSpace (.discarded firstTenant firstDeployment))).state = false) := by
  decide +kernel

end StaticHostAgent.Releases
