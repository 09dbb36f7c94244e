import StaticHostAgent.Releases.Publication

/-!
# Restarting a removal

A removal renames the release to its retired name, removes the tree below it, and then the
directories it leaves empty. What it finds tells a later call where the interrupted one stopped, so
every removal restarts from its first change with the same outcome (`removeRelease_restarts`).
-/

set_option autoImplicit false

namespace StaticHostAgent.Releases

open Library Contracts Host
open ReleaseSpace

variable {host : ReleaseHost} {t d : Uuid7} {expected : Digest} {s u : ReleaseSpace}

/-- What the removal of one release may do to the releases: take that one away. -/
def RemovesOnly (t d : Uuid7) (s u : ReleaseSpace) : Prop :=
  ∀ t' d', u.release? t' d' = s.release? t' d' ∨ t' = t ∧ d' = d ∧ u.release? t d = none

theorem SameReleases.removesOnly (h : SameReleases s u) : RemovesOnly t d s u :=
  fun t' d' => Or.inl (h t' d')

theorem RemovesOnly.trans {w : ReleaseSpace} (h : RemovesOnly t d s u) (h' : RemovesOnly t d u w) :
    RemovesOnly t d s w := by
  intro t' d'
  rcases h' t' d' with hsame' | hgone
  · rcases h t' d' with hsame | ⟨rfl, rfl, hnone⟩
    · exact Or.inl (hsame'.trans hsame)
    · exact Or.inr ⟨rfl, rfl, hsame'.trans hnone⟩
  · exact Or.inr hgone

variable (host t) in
/-- Both directories on the way to the releases pass their checks. -/
def Opened (releases : Releases) (s : ReleaseSpace) : Prop :=
  ∃ access access' others, s.tenants.find? t =
      some (.directory access ⟨some (.directory access' releases), others⟩) ∧
    validateDirectory host "tenant release namespace" releaseDirectoryMode access.owner
      access.mode = .ok () ∧
    validateDirectory host "release namespace" releaseDirectoryMode access'.owner
      access'.mode = .ok ()

theorem openTenantReleases_opened {releases : Releases} (h : Opened host t releases s) :
    openTenantReleases host t s = .ok .withReleases := by
  obtain ⟨access, access', others, hfind, haccess, haccess'⟩ := h
  simp only [openTenantReleases, hfind, openChildDirectory, haccess, haccess', ok_bind, pure_bind]
  rfl

theorem openTenantReleases_cases {found : TenantFound} (h : openTenantReleases host t s = .ok found) :
    (found = .absent ∧ s.tenants.find? t = none) ∨
      (found = .withoutReleases ∧ ∃ access others, s.tenants.find? t =
        some (.directory access ⟨none, others⟩)) ∨
      (found = .withReleases ∧ ∃ releases, Opened host t releases s) := by
  unfold openTenantReleases at h
  cases hfind : s.tenants.find? t with
  | none =>
      simp only [hfind] at h
      cases h
      exact Or.inl ⟨rfl, rfl⟩
  | some held =>
      cases held with
      | leaf inode =>
          simp only [hfind] at h
          cases h
      | directory access content =>
          simp only [hfind, openChildDirectory, bind_eq_ok, pure_eq_ok] at h
          obtain ⟨_, ⟨_, haccess, rfl⟩, h⟩ := h
          obtain ⟨slot, others⟩ := content
          cases slot with
          | none =>
              simp only [pure_eq_ok] at h
              exact Or.inr (Or.inl ⟨h.symm, access, others, rfl⟩)
          | some inner =>
              cases inner with
              | leaf inode => cases h
              | directory access' releases =>
                  simp only [bind_eq_ok, pure_eq_ok] at h
                  obtain ⟨_, ⟨_, haccess', -⟩, h⟩ := h
                  exact Or.inr (Or.inr ⟨h.symm, releases, access, access', others, hfind,
                    haccess, haccess'⟩)

namespace Opened

variable {releases : Releases}

theorem releasesOf_eq (h : Opened host t releases s) : s.releasesOf t = releases := by
  obtain ⟨access, access', others, hfind, -, -⟩ := h
  exact releasesOf_of_find? hfind

theorem releases?_eq (h : Opened host t releases s) : s.releases? t = some releases := by
  obtain ⟨access, access', others, hfind, -, -⟩ := h
  exact releases?_of_find? hfind

theorem release?_eq (h : Opened host t releases s) :
    s.release? t d = releases.find? (.deployment d) := by
  obtain ⟨access, access', others, hfind, -, -⟩ := h
  exact release?_of_find? hfind

theorem setReleases (h : Opened host t releases s) (r : Releases) :
    Opened host t r (s.setReleases t r) := by
  obtain ⟨access, access', others, hfind, haccess, haccess'⟩ := h
  rw [setReleases_of_find? hfind]
  exact ⟨access, access', others, setTenant_find? _, haccess, haccess'⟩

theorem setReleases_twice (h : Opened host t releases s) (r r' : Releases) :
    (s.setReleases t r).setReleases t r' = s.setReleases t r' := by
  obtain ⟨access, access', others, hfind, -, -⟩ := h
  rw [setReleases_of_find? hfind, setReleases_of_find? hfind,
    setReleases_of_find? (setTenant_find? _), setTenant_setTenant]

theorem setReleases_self (h : Opened host t releases s) : s.setReleases t releases = s := by
  obtain ⟨access, access', others, hfind, -, -⟩ := h
  rw [setReleases_of_find? hfind, ← hfind, setTenant_self]

/-- Other names below `releases` stay where only one of them is touched. -/
theorem removesOnly (h : Opened host t releases s) {r : Releases}
    (hother : ∀ d', d' ≠ d → r.find? (.deployment d') = releases.find? (.deployment d'))
    (hown : r.find? (.deployment d) = releases.find? (.deployment d) ∨
      r.find? (.deployment d) = none) :
    RemovesOnly t d s (s.setReleases t r) := by
  intro t' d'
  by_cases ht : t' = t
  · subst ht
    rw [(h.setReleases r).release?_eq, (h.setReleases r).release?_eq, h.release?_eq]
    by_cases hd : d' = d
    · subst hd
      rcases hown with hsame | hnone
      · exact Or.inl hsame
      · exact Or.inr ⟨rfl, rfl, hnone⟩
    · exact Or.inl (hother d' hd)
  · refine Or.inl (release?_congr ?_)
    obtain ⟨access, access', others, hfind, -, -⟩ := h
    rw [setReleases_of_find? hfind]
    exact setTenant_find?_of_ne _ ht

end Opened

/-! ## What the removal finds -/

theorem removeRelease_opened {releases : Releases}
    (hformat : requireReleaseTreeDigest expected = .ok ()) (h : Opened host t releases s) :
    removeRelease host t d expected s = removeFromReleases host t d expected s := by
  have hfirst : Durable.Quiet (Durable.query fun _ : ReleaseSpace =>
      requireReleaseTreeDigest expected) s () := Durable.Quiet.query hformat
  refine hfirst.bind.trans ?_
  exact (Durable.Quiet.query (openTenantReleases_opened h)).bind

/-- The part of the removal behind the tree. -/
def removeEmptyDirectories (t : Uuid7) : Durable ReleaseSpace AgentError Unit := do
  let releasesAbsent ← removeEmptyReleases t
  Durable.when releasesAbsent (removeEmptyTenant t)

/-- The part of the removal behind the rename. -/
def removeRetired (host : ReleaseHost) (t d : Uuid7) (expected : Digest) :
    Durable ReleaseSpace AgentError Unit := do
  onReleases t (removeReleaseTree host (.retired d expected.value))
  removeEmptyDirectories t

/-- Neither name exists: only the empty directories are left to remove. -/
theorem removeRelease_gone {releases : Releases}
    (hformat : requireReleaseTreeDigest expected = .ok ()) (h : Opened host t releases s)
    (hcanonical : releases.find? (.deployment d) = none)
    (hretired : releases.find? (.retired d expected.value) = none) :
    removeRelease host t d expected s = removeEmptyDirectories t s := by
  have hfound : requireRemovable host t d expected s = .ok ⟨false, false⟩ := by
    simp only [requireRemovable, h.releasesOf_eq, hcanonical, hretired]
    rfl
  rw [removeRelease_opened hformat h]
  exact (Durable.Quiet.query hfound).bind

/-- Only the retired name exists: its tree is removed. -/
theorem removeRelease_retired {releases : Releases} {retired : Release}
    (hformat : requireReleaseTreeDigest expected = .ok ()) (h : Opened host t releases s)
    (hcanonical : releases.find? (.deployment d) = none)
    (hretired : releases.find? (.retired d expected.value) = some retired) :
    removeRelease host t d expected s = removeRetired host t d expected s := by
  have hfound : requireRemovable host t d expected s = .ok ⟨false, true⟩ := by
    simp only [requireRemovable, h.releasesOf_eq, hcanonical, hretired]
    rfl
  rw [removeRelease_opened hformat h]
  exact (Durable.Quiet.query hfound).bind

/-- The release measures as expected: it is renamed first. -/
theorem removeRelease_canonical {releases : Releases}
    (hformat : requireReleaseTreeDigest expected = .ok ()) (h : Opened host t releases s)
    (hfound : requireRemovable host t d expected s = .ok ⟨true, false⟩) :
    removeRelease host t d expected s =
      (removeRetired host t d expected (s.setReleases t
        (renameEntry (.deployment d) (.retired d expected.value) releases))).after
          (s.setReleases t (renameEntry (.deployment d) (.retired d expected.value) releases)) := by
  rw [removeRelease_opened hformat h]
  refine (Durable.Quiet.query hfound).bind.trans ?_
  rw [← h.releasesOf_eq]
  exact Durable.effect_after

theorem requireRemovable_canonical {releases : Releases} {release : Release} {found : ReleaseFound}
    (h : Opened host t releases s) (hcanonical : releases.find? (.deployment d) = some release)
    (hfound : requireRemovable host t d expected s = .ok found) :
    found = ⟨true, false⟩ ∧ releases.find? (.retired d expected.value) = none ∧
      ∃ m, measure host t d s = .ok m ∧ m.digest = expected := by
  simp only [requireRemovable, h.releasesOf_eq, hcanonical, Option.isSome_some, ↓reduceIte,
    bind_eq_ok, require_eq_ok, decide_eq_true_eq, pure_eq_ok, Bool.not_eq_true',
    Option.isSome_eq_false_iff, Option.isNone_iff_eq_none] at hfound
  obtain ⟨_, hretired, m, hmeasure, _, hdigest, rfl⟩ := hfound
  exact ⟨by rw [hretired]; rfl, hretired, m, hmeasure, hdigest⟩

/-! ## The directories that are left empty -/

theorem removeEmptyTenant_run (t : Uuid7) (s : ReleaseSpace) :
    removeEmptyTenant t s = if s.tenantNamespace? t = some ⟨none, []⟩ then
      ⟨[s.setTenant t none], s.setTenant t none, .ok ()⟩ else ⟨[], s, .ok ()⟩ := by
  have hread := Durable.Quiet.reading (ε := AgentError)
    (fun s : ReleaseSpace => decide (s.tenantNamespace? t = some ⟨none, []⟩)) s
  refine hread.bind.trans ?_
  by_cases h : s.tenantNamespace? t = some ⟨none, []⟩
  · rw [if_pos h, decide_eq_true h]
    rfl
  · rw [if_neg h, decide_eq_false h]
    rfl

/-- A removed directory of a tenant leaves the releases as they are, since it was empty. -/
theorem sameReleases_removeTenant (h : s.tenantNamespace? t = some ⟨none, []⟩) :
    SameReleases s (s.setTenant t none) := by
  refine sameReleases_setTenant fun d => ?_
  rw [release?_of_missing, release?_of_missing]
  · intro access access' releases others hfind
    simp only [tenantNamespace?, hfind] at h
    cases h
  · intro access access' releases others hfind
    rw [setTenant_find?] at hfind
    cases hfind

theorem removeEmptyDirectories_kept {releases : Releases} (h : Opened host t releases s)
    (hne : releases ≠ Directory.empty) : removeEmptyDirectories t s = ⟨[], s, .ok ()⟩ := by
  have hread := Durable.Quiet.reading (ε := AgentError)
    (fun s : ReleaseSpace => decide (s.releases? t = some Directory.empty)) s
  have hfalse : decide (s.releases? t = some Directory.empty) = false := by
    rw [h.releases?_eq]
    exact decide_eq_false fun heq => hne (Option.some.inj heq)
  have hreleases : Durable.Quiet (removeEmptyReleases t) s false := by
    rw [hfalse] at hread
    exact hread.bind
  exact hreleases.bind

theorem removeEmptyDirectories_empty (h : Opened host t Directory.empty s) :
    removeEmptyDirectories t s =
      (removeEmptyTenant t (s.setReleasesSlot t none)).after (s.setReleasesSlot t none) := by
  have hread := Durable.Quiet.reading (ε := AgentError)
    (fun s : ReleaseSpace => decide (s.releases? t = some Directory.empty)) s
  have htrue : decide (s.releases? t = some Directory.empty) = true := decide_eq_true h.releases?_eq
  rw [htrue] at hread
  have hreleases : removeEmptyReleases t s =
      ⟨[s.setReleasesSlot t none], s.setReleasesSlot t none, .ok true⟩ := hread.bind
  exact Durable.bind_ok hreleases

/-- A removal without `releases` looks at the tenant's directory only. -/
theorem removeRelease_withoutReleases (hformat : requireReleaseTreeDigest expected = .ok ())
    (hopen : openTenantReleases host t s = .ok .withoutReleases) :
    removeRelease host t d expected s = removeEmptyTenant t s := by
  have hfirst : Durable.Quiet (Durable.query fun _ : ReleaseSpace =>
      requireReleaseTreeDigest expected) s () := Durable.Quiet.query hformat
  refine hfirst.bind.trans ?_
  exact (Durable.Quiet.query hopen).bind

theorem removeRelease_absent (hformat : requireReleaseTreeDigest expected = .ok ())
    (hfind : s.tenants.find? t = none) :
    removeRelease host t d expected s = ⟨[], s, .ok ()⟩ := by
  have hopen : openTenantReleases host t s = .ok .absent := by
    simp only [openTenantReleases, hfind]
    rfl
  have hfirst : Durable.Quiet (Durable.query fun _ : ReleaseSpace =>
      requireReleaseTreeDigest expected) s () := Durable.Quiet.query hformat
  refine hfirst.bind.trans ?_
  exact (Durable.Quiet.query hopen).bind

/-- Removing the emptied directories restarts. -/
theorem removeEmptyDirectories_restarts {releases : Releases}
    (hformat : requireReleaseTreeDigest expected = .ok ()) (h : Opened host t releases s) :
    (removeEmptyDirectories t s).trace = [] ∨ ∃ u, SameReleases s u ∧
      removeEmptyDirectories t s = (removeRelease host t d expected u).after u := by
  by_cases hempty : releases = Directory.empty
  · subst hempty
    right
    refine ⟨s.setReleasesSlot t none, ?_, ?_⟩
    · obtain ⟨access, access', others, hfind, -, -⟩ := h
      rw [setReleasesSlot_of_find? hfind]
      refine sameReleases_setTenant fun d => ?_
      rw [release?_of_find? hfind, Directory.find?_empty, release?_of_missing]
      intro access₁ access₂ releases others' heq
      rw [setTenant_find?] at heq
      cases heq
    · rw [removeEmptyDirectories_empty h]
      obtain ⟨access, access', others, hfind, haccess, -⟩ := h
      have hfind' : (s.setReleasesSlot t none).tenants.find? t =
          some (.directory access ⟨none, others⟩) := by
        rw [setReleasesSlot_of_find? hfind]
        exact setTenant_find? _
      refine congrArg _ (removeRelease_withoutReleases hformat ?_).symm
      simp only [openTenantReleases, hfind', openChildDirectory, haccess, ok_bind, pure_bind]
      rfl
  · left
    rw [removeEmptyDirectories_kept h hempty]

/-- Removing the retired tree restarts. -/
theorem removeRetired_restarts {releases : Releases}
    (hformat : requireReleaseTreeDigest expected = .ok ()) (h : Opened host t releases s)
    (hcanonical : releases.find? (.deployment d) = none)
    (hretired : (releases.find? (.retired d expected.value)).isSome = true) :
    (removeRetired host t d expected s).trace = [] ∨ ∃ u, SameReleases s u ∧
      removeRetired host t d expected s = (removeRelease host t d expected u).after u := by
  have hrestarts : (∃ e, removeReleaseTree host (.retired d expected.value) releases =
        ⟨[], releases, .error e⟩) ∨
      (releases.find? (.retired d expected.value) = none ∧ Durable.Quiet
        (removeReleaseTree host (.retired d expected.value)) releases ()) ∨
      ∃ r, Shrunk (.retired d expected.value) releases r ∧
        removeReleaseTree host (.retired d expected.value) releases =
          (removeReleaseTree host (.retired d expected.value) r).after r := removeTree_restarts
  have hself : s.setReleases t (s.releasesOf t) = s := by
    rw [h.releasesOf_eq, h.setReleases_self]
  rw [← h.releasesOf_eq] at hrestarts
  -- the removal of the tree refuses, has nothing to do, or takes an entry and starts again
  rcases hrestarts with ⟨e, herror⟩ | ⟨habsent, -⟩ | ⟨r, hshrunk, hafter⟩
  · left
    have hstop : removeRetired host t d expected s = ⟨[], s, .error e⟩ :=
      Durable.bind_error (Durable.zoom_error herror hself)
    rw [hstop]
  · rw [h.releasesOf_eq] at habsent
    rw [habsent] at hretired
    cases hretired
  · right
    rw [h.releasesOf_eq] at hshrunk
    have hopened := h.setReleases r
    have hname : ∀ d', r.find? (.deployment d') = releases.find? (.deployment d') :=
      fun d' => hshrunk.find?_of_ne (by simp)
    refine ⟨s.setReleases t r, ?_, ?_⟩
    · intro t' d'
      by_cases ht : t' = t
      · subst ht
        rw [hopened.release?_eq, h.release?_eq, hname]
      · refine release?_congr ?_
        obtain ⟨access, access', others, hfind, -, -⟩ := h
        rw [setReleases_of_find? hfind]
        exact setTenant_find?_of_ne _ ht
    · have hrun : removeRetired host t d expected s =
          (removeRetired host t d expected (s.setReleases t r)).after (s.setReleases t r) :=
        Durable.bind_after (Durable.zoom_after hafter hopened.releasesOf_eq fun r' =>
          h.setReleases_twice r r')
      rw [hrun]
      refine congrArg _ ?_
      cases hleft : r.find? (.retired d expected.value) with
      | some retired =>
          exact (removeRelease_retired hformat hopened ((hname d).trans hcanonical) hleft).symm
      | none =>
          rw [removeRelease_gone hformat hopened ((hname d).trans hcanonical) hleft]
          have hquiet : Durable.Quiet (onReleases t
              (removeReleaseTree host (.retired d expected.value))) (s.setReleases t r) () := by
            refine Durable.zoom_quiet ?_ ?_
            · rw [hopened.releasesOf_eq]
              exact removeTree_absent hleft
            · rw [hopened.releasesOf_eq, hopened.setReleases_self]
          exact hquiet.bind

/-- A removal changes nothing, or restarts from its first change. -/
theorem removeRelease_restarts (host : ReleaseHost) (t d : Uuid7) (expected : Digest) (s : ReleaseSpace) :
    (removeRelease host t d expected s).trace = [] ∨ ∃ u, RemovesOnly t d s u ∧
      removeRelease host t d expected s = (removeRelease host t d expected u).after u := by
  cases hformat : requireReleaseTreeDigest expected with
  | error e =>
      left
      have hstop : removeRelease host t d expected s = ⟨[], s, .error e⟩ :=
        Durable.query_bind_error hformat
      rw [hstop]
  | ok v =>
      have hfirst : Durable.Quiet (Durable.query fun _ : ReleaseSpace =>
          requireReleaseTreeDigest expected) s v := Durable.Quiet.query hformat
      cases hopen : openTenantReleases host t s with
      | error e =>
          left
          have hstop : removeRelease host t d expected s = ⟨[], s, .error e⟩ :=
            hfirst.bind.trans (Durable.query_bind_error hopen)
          rw [hstop]
      | ok found =>
          -- the tenant is absent, has no `releases`, or has them; then by which name the tree has
          rcases openTenantReleases_cases hopen with ⟨rfl, hfind⟩ | ⟨rfl, access, others, hfind⟩ |
            ⟨rfl, releases, hopened⟩
          · left
            rw [removeRelease_absent hformat hfind]
          · rw [removeRelease_withoutReleases hformat hopen, removeEmptyTenant_run]
            by_cases hempty : s.tenantNamespace? t = some ⟨none, []⟩
            · right
              refine ⟨s.setTenant t none, (sameReleases_removeTenant hempty).removesOnly, ?_⟩
              rw [removeRelease_absent hformat (setTenant_find? none), if_pos hempty]
              rfl
            · left
              rw [if_neg hempty]
          · cases hcanonical : releases.find? (.deployment d) with
            | none =>
                cases hretired : releases.find? (.retired d expected.value) with
                | none =>
                    rw [removeRelease_gone hformat hopened hcanonical hretired]
                    exact (removeEmptyDirectories_restarts hformat hopened).imp_right
                      fun ⟨u, hsame, hrun⟩ => ⟨u, hsame.removesOnly, hrun⟩
                | some retired =>
                    rw [removeRelease_retired hformat hopened hcanonical hretired]
                    exact (removeRetired_restarts hformat hopened hcanonical
                      (by rw [hretired]; rfl)).imp_right
                      fun ⟨u, hsame, hrun⟩ => ⟨u, hsame.removesOnly, hrun⟩
            | some release =>
                cases hfound : requireRemovable host t d expected s with
                | error e =>
                    left
                    have hstop : removeRelease host t d expected s = ⟨[], s, .error e⟩ := by
                      rw [removeRelease_opened hformat hopened]
                      exact Durable.query_bind_error hfound
                    rw [hstop]
                | ok found =>
                    obtain ⟨rfl, hretired, -⟩ :=
                      requireRemovable_canonical hopened hcanonical hfound
                    right
                    refine ⟨_, ?_, (removeRelease_canonical hformat hopened hfound).trans
                      (congrArg _ ?_)⟩
                    · refine hopened.removesOnly (fun d' hd => ?_) (Or.inr ?_)
                      · exact renameEntry_find?_of_ne (by simpa using hd) (by simp)
                      · exact renameEntry_find?_source (by simp)
                    · exact (removeRelease_retired hformat (hopened.setReleases _)
                        (renameEntry_find?_source (by simp))
                        (renameEntry_find?_destination hcanonical)).symm

end StaticHostAgent.Releases
