import StaticHostAgent.Releases.Reconcile

/-!
# Restarting a publication

A publication first makes the directories of the tenant, then gives the staged tree its name or, if
the name is taken by the same content, discards the staged tree. `resumePublication` looks at the
staging root again and therefore restarts from each of these changes (`resumePublication_restarts`).
Only its report differs: a tree that an earlier call published is verified, not created.
-/

set_option autoImplicit false

namespace StaticHostAgent.Releases

open Library Contracts Host
open ReleaseSpace

/-! ## Outcomes -/

/-- Outcomes that tell the caller the same: a success with related values, or a failure. -/
def SameOutcome {ε α : Type} (related : α → α → Prop) : Except ε α → Except ε α → Prop
  | .ok a, .ok b => related a b
  | .error _, .error _ => True
  | _, _ => False

theorem SameOutcome.refl {ε α : Type} {related : α → α → Prop} (h : ∀ a, related a a) :
    ∀ r : Except ε α, SameOutcome related r r
  | .ok a => h a
  | .error _ => True.intro

theorem SameOutcome.trans {ε α : Type} {related : α → α → Prop}
    (h : ∀ a b c, related a b → related b c → related a c) :
    ∀ r r' r'' : Except ε α, SameOutcome related r r' → SameOutcome related r' r'' →
      SameOutcome related r r''
  | .ok _, .ok _, .ok _, hab, hbc => h _ _ _ hab hbc
  | .error _, .error _, .error _, _, _ => True.intro
  | .ok _, .ok _, .error _, _, hbc => hbc.elim
  | .ok _, .error _, _, hab, _ => hab.elim
  | .error _, .ok _, _, hab, _ => hab.elim
  | .error _, .error _, .ok _, _, hbc => hbc.elim

/-- The first change of a run leads to `u`, where a new run does what the interrupted one would have
done; or both stop there with an error. -/
def Steps {σ ε α : Type} (p : Durable σ ε α) (s u : σ) : Prop :=
  p s = (p u).after u ∨ ∃ e e', p s = ⟨[u], u, .error e⟩ ∧ p u = ⟨[], u, .error e'⟩

namespace Steps

variable {σ τ ε α β : Type} {p : Durable σ ε α} {f : α → Durable σ ε β} {s u : σ}

theorem bind (h : Steps p s u) : Steps (p >>= f) s u := by
  rcases h with hafter | ⟨e, e', hs, hu⟩
  · exact Or.inl (Durable.bind_after hafter)
  · exact Or.inr ⟨e, e', Durable.bind_error hs, Durable.bind_error hu⟩

/-- A part that is quiet on both sides is passed over. -/
theorem skip {a : α} (hs : Durable.Quiet p s a) (hu : Durable.Quiet p u a) (h : Steps (f a) s u) :
    Steps (p >>= f) s u := by
  have hs' : (p >>= f) s = f a s := hs.bind
  have hu' : (p >>= f) u = f a u := hu.bind
  rcases h with hafter | ⟨e, e', hserror, huerror⟩
  · exact Or.inl (by rw [hs', hu', hafter])
  · exact Or.inr ⟨e, e', hs'.trans hserror, hu'.trans huerror⟩

theorem zoom {get : σ → τ} {set : τ → σ → σ} {q : Durable τ ε α} {v : τ} (h : Steps q (get s) v)
    (hget : get (set v s) = v) (hset : ∀ w, set w (set v s) = set w s) :
    Steps (Durable.zoom get set fun _ => q) s (set v s) := by
  rcases h with hafter | ⟨e, e', hs, hu⟩
  · exact Or.inl (Durable.zoom_after hafter hget hset)
  · refine Or.inr ⟨e, e', ?_, ?_⟩
    · simp only [Durable.zoom, hs, List.map_cons, List.map_nil]
    · simp only [Durable.zoom, hget, hu, hset, List.map_nil]

end Steps

/-! ## Components of the namespace -/

namespace ReleaseSpace

variable {t d : Uuid7} {s u : ReleaseSpace}

@[simp] theorem setTenant_staging (slot : Option (Held Unit Access TenantNamespace)) :
    (s.setTenant t slot).staging = s.staging := by
  cases slot <;> rfl

@[simp] theorem setTenant_find? (slot : Option (Held Unit Access TenantNamespace)) :
    (s.setTenant t slot).tenants.find? t = slot := by
  cases slot with
  | none => exact Directory.find?_erase_self _ _
  | some held => exact Directory.find?_insert_self _ _ _

theorem setTenant_find?_of_ne (slot : Option (Held Unit Access TenantNamespace)) {t' : Uuid7}
    (h : t' ≠ t) : (s.setTenant t slot).tenants.find? t' = s.tenants.find? t' := by
  cases slot with
  | none => exact Directory.find?_erase_of_ne _ h
  | some held => exact Directory.find?_insert_of_ne _ h _

/-- Two states with the same staging root and the same tenants are equal. -/
theorem ext_find? (htenants : ∀ t, s.tenants.find? t = u.tenants.find? t)
    (hstaging : s.staging = u.staging) : s = u := by
  cases s
  cases u
  congr
  exact Directory.ext_find? htenants

theorem setTenant_setTenant (slot slot' : Option (Held Unit Access TenantNamespace)) :
    (s.setTenant t slot).setTenant t slot' = s.setTenant t slot' := by
  refine ext_find? (fun t' => ?_) (by simp)
  by_cases h : t' = t
  · rw [h, setTenant_find?, setTenant_find?]
  · rw [setTenant_find?_of_ne _ h, setTenant_find?_of_ne _ h, setTenant_find?_of_ne _ h]

theorem setTenant_self : s.setTenant t (s.tenants.find? t) = s := by
  refine ext_find? (fun t' => ?_) (by simp)
  by_cases h : t' = t
  · rw [h, setTenant_find?]
  · rw [setTenant_find?_of_ne _ h]

/-- The tenant has a directory of its own. -/
def HasTenant (t : Uuid7) (s : ReleaseSpace) : Prop :=
  ∃ access content, s.tenants.find? t = some (.directory access content)

/-- The tenant has a directory with `releases` in it. -/
def HasReleases (t : Uuid7) (s : ReleaseSpace) : Prop :=
  ∃ access access' releases others,
    s.tenants.find? t = some (.directory access ⟨some (.directory access' releases), others⟩)

theorem setReleasesSlot_of_find? {access : Access} {content : TenantNamespace}
    (h : s.tenants.find? t = some (.directory access content))
    (slot : Option (Held Unit Access Releases)) :
    s.setReleasesSlot t slot =
      s.setTenant t (some (.directory access { content with releases := slot })) := by
  simp only [setReleasesSlot, h]

theorem releasesSlot?_of_find? {access : Access} {content : TenantNamespace}
    (h : s.tenants.find? t = some (.directory access content)) :
    s.releasesSlot? t = content.releases := by
  simp only [releasesSlot?, tenantNamespace?, h]
  rfl

@[simp] theorem setReleasesSlot_staging (slot : Option (Held Unit Access Releases)) :
    (s.setReleasesSlot t slot).staging = s.staging := by
  unfold setReleasesSlot
  split
  · exact setTenant_staging _
  · rfl

theorem releasesSlot?_setReleasesSlot (h : HasTenant t s)
    (slot : Option (Held Unit Access Releases)) :
    (s.setReleasesSlot t slot).releasesSlot? t = slot := by
  obtain ⟨access, content, hfind⟩ := h
  rw [setReleasesSlot_of_find? hfind]
  exact releasesSlot?_of_find? (setTenant_find? _)

theorem setReleasesSlot_setReleasesSlot (h : HasTenant t s)
    (slot slot' : Option (Held Unit Access Releases)) :
    (s.setReleasesSlot t slot).setReleasesSlot t slot' = s.setReleasesSlot t slot' := by
  obtain ⟨access, content, hfind⟩ := h
  rw [setReleasesSlot_of_find? hfind, setReleasesSlot_of_find? hfind,
    setReleasesSlot_of_find? (setTenant_find? _), setTenant_setTenant]

theorem setReleasesSlot_self (h : HasTenant t s) :
    s.setReleasesSlot t (s.releasesSlot? t) = s := by
  obtain ⟨access, content, hfind⟩ := h
  rw [setReleasesSlot_of_find? hfind, releasesSlot?_of_find? hfind]
  conv => rhs; rw [← setTenant_self (s := s) (t := t), hfind]

theorem releases?_of_find? {access access' : Access} {releases : Releases} {others : List FileName}
    (h : s.tenants.find? t =
      some (.directory access ⟨some (.directory access' releases), others⟩)) :
    s.releases? t = some releases := by
  simp only [releases?, tenantNamespace?, h]

theorem releasesOf_of_find? {access access' : Access} {releases : Releases}
    {others : List FileName} (h : s.tenants.find? t =
      some (.directory access ⟨some (.directory access' releases), others⟩)) :
    s.releasesOf t = releases := by
  simp only [releasesOf, releases?_of_find? h, Option.getD_some]

theorem release?_of_find? {access access' : Access} {releases : Releases} {others : List FileName}
    (h : s.tenants.find? t =
      some (.directory access ⟨some (.directory access' releases), others⟩)) :
    s.release? t d = releases.find? (.deployment d) := by
  simp only [release?, releases?_of_find? h]
  rfl

theorem setReleases_of_find? {access access' : Access} {releases : Releases}
    {others : List FileName} (h : s.tenants.find? t =
      some (.directory access ⟨some (.directory access' releases), others⟩)) (r : Releases) :
    s.setReleases t r =
      s.setTenant t (some (.directory access ⟨some (.directory access' r), others⟩)) := by
  simp only [setReleases, releasesSlot?_of_find? h, setReleasesSlot_of_find? h]

theorem release?_congr (h : u.tenants.find? t = s.tenants.find? t) :
    u.release? t d = s.release? t d := by
  simp only [release?, releases?, tenantNamespace?, h]

end ReleaseSpace

section Publication

variable {host : ReleaseHost} {t d : Uuid7} {s u : ReleaseSpace}

/-- A measurement of a published release looks at its tenant only. -/
theorem measure_congr (h : u.tenants.find? t = s.tenants.find? t) :
    measure host t d u = measure host t d s := by
  simp only [measure, h, release?_congr h]

theorem measure_of_find? {access access' : Access} {releases : Releases} {others : List FileName}
    (h : s.tenants.find? t =
      some (.directory access ⟨some (.directory access' releases), others⟩)) :
    measure host t d s = measureHeld host (releases.find? (.deployment d)) := by
  simp only [measure, h, release?_of_find? h]

/-! ## Making the directories -/

section Directories

variable {C : Type} {label : String} {fresh : C} {slot : Option (Held Unit Access C)}

variable (host label) in
/-- The part of `openOrCreateDirectory` behind the creation. -/
def settleMode (created : Bool) : Durable (Option (Held Unit Access C)) AgentError Unit := do
  let restrictive ← Durable.query (inspectCreated host label created)
  Durable.when restrictive (Durable.effect grantMode)

variable (host label) in
theorem openOrCreate_existing (fresh : C) (held : Held Unit Access C) :
    openOrCreateDirectory host label fresh (some held) = settleMode host label false (some held) :=
  rfl

variable (host label) in
theorem openOrCreate_missing (fresh : C) :
    openOrCreateDirectory host label fresh none =
      (settleMode host label true
          (some (.directory ⟨host.processOwner, createdMode host⟩ fresh))).after
        (some (.directory ⟨host.processOwner, createdMode host⟩ fresh)) := rfl

theorem settleMode_error {created : Bool} {e : AgentError}
    (h : inspectCreated host label created slot = .error e) :
    settleMode host label created slot = ⟨[], slot, .error e⟩ := Durable.query_bind_error h

theorem settleMode_quiet {created : Bool} (h : inspectCreated host label created slot = .ok false) :
    Durable.Quiet (settleMode host label created) slot () := (Durable.Quiet.query h).bind

theorem settleMode_grants {created : Bool} (h : inspectCreated host label created slot = .ok true) :
    settleMode host label created slot = ⟨[grantMode slot], grantMode slot, .ok ()⟩ :=
  (Durable.Quiet.query h).bind

variable (host label slot) in
/-- An existing directory is inspected alike, except that a wrong mode has two messages. -/
theorem inspectCreated_created :
    inspectCreated host label true slot = inspectCreated host label false slot ∨
      ∃ e e', inspectCreated host label true slot = .error e ∧
        inspectCreated host label false slot = .error e' := by
  cases slot with
  | none => exact Or.inl rfl
  | some held =>
      cases held with
      | leaf inode => exact Or.inl rfl
      | directory access content =>
          by_cases hrestrictive : access.owner = host.expectedOwner ∧ access.mode = restrictiveMode
          · left
            simp only [inspectCreated, if_pos hrestrictive]
          · by_cases hmode : access.mode = releaseDirectoryMode
            · left
              simp only [inspectCreated, hmode]
              rfl
            · right
              refine ⟨releaseStoreError (label ++ " changed during creation"),
                releaseStoreError (label ++ " has an unsafe inode shape"), ?_, ?_⟩
              · simp only [inspectCreated, if_neg hrestrictive, hmode, ne_eq, not_false_eq_true,
                  decide_true, Bool.and_self, Bool.not_true, require_false]
                rfl
              · simp only [inspectCreated, if_neg hrestrictive, validateDirectory, hmode, and_false,
                  decide_false, Bool.false_and, Bool.not_false, require_true, require_false]
                rfl

/-- A directory with its final mode is left as it is. -/
theorem inspectCreated_granted (h : inspectCreated host label false slot = .ok true) :
    inspectCreated host label false (grantMode slot) = .ok false := by
  cases slot with
  | none => cases h
  | some held =>
      cases held with
      | leaf inode => cases h
      | directory access content =>
          by_cases hrestrictive : access.owner = host.expectedOwner ∧ access.mode = restrictiveMode
          · simp only [grantMode, inspectCreated, validateDirectory, hrestrictive.1]
            rfl
          · simp only [inspectCreated, if_neg hrestrictive, bind_eq_ok, pure_eq_ok] at h
            obtain ⟨_, _, _, _, hfalse⟩ := h
            cases hfalse

theorem inspectCreated_directory {created restrictive : Bool}
    (h : inspectCreated host label created slot = .ok restrictive) :
    ∃ access content, slot = some (.directory access content) := by
  cases slot with
  | none => cases h
  | some held =>
      cases held with
      | leaf inode => cases h
      | directory access content => exact ⟨access, content, rfl⟩

variable (host label fresh slot) in
/-- Making a directory stops, finds it, or restarts from its first change; only the message about a
wrong mode depends on who made it. -/
theorem openOrCreate_restarts :
    (∃ e, openOrCreateDirectory host label fresh slot = ⟨[], slot, .error e⟩) ∨
      (∃ access content, slot = some (.directory access content) ∧
        inspectCreated host label false slot = .ok false) ∨
      ∃ access content, (slot = none ∧ content = fresh ∨
          ∃ access', slot = some (.directory access' content)) ∧
        Steps (openOrCreateDirectory host label fresh) slot
          (some (.directory access content)) := by
  cases slot with
  | none =>
      right; right
      refine ⟨⟨host.processOwner, createdMode host⟩, fresh, Or.inl ⟨rfl, rfl⟩, ?_⟩
      rw [Steps, openOrCreate_missing, openOrCreate_existing]
      -- a later call finds the directory and no longer knows that an earlier one made it
      rcases inspectCreated_created host label
        (some (.directory ⟨host.processOwner, createdMode host⟩ fresh)) with
        hsame | ⟨e, e', htrue, hfalse⟩
      · left
        show Run.after _ _ = Run.after _ _
        refine congrArg _ ?_
        cases hinspect : inspectCreated host label false
            (some (.directory ⟨host.processOwner, createdMode host⟩ fresh)) with
        | error e => rw [settleMode_error hinspect, settleMode_error (hsame.trans hinspect)]
        | ok restrictive =>
            cases restrictive with
            | true => rw [settleMode_grants hinspect, settleMode_grants (hsame.trans hinspect)]
            | false =>
                exact (settleMode_quiet (hsame.trans hinspect)).trans
                  (settleMode_quiet hinspect).symm
      · right
        exact ⟨e, e', by rw [settleMode_error htrue]; rfl, settleMode_error hfalse⟩
  | some held =>
      rw [openOrCreate_existing]
      cases hinspect : inspectCreated host label false (some held) with
      | error e => exact Or.inl ⟨e, settleMode_error hinspect⟩
      | ok restrictive =>
          obtain ⟨access, content, hheld⟩ := inspectCreated_directory hinspect
          obtain rfl := Option.some.inj hheld
          cases restrictive with
          | false =>
              exact Or.inr (Or.inl ⟨access, content, rfl, rfl⟩)
          | true =>
              right; right
              -- a mode that is too narrow is widened once, and found right by the next call
              refine ⟨{ access with mode := releaseDirectoryMode }, content,
                Or.inr ⟨access, rfl⟩, Or.inl ?_⟩
              have hgranted := inspectCreated_granted hinspect
              rw [openOrCreate_existing, openOrCreate_existing, settleMode_grants hinspect]
              have hquiet := settleMode_quiet hgranted
              exact (congrArg (Run.after _) hquiet).symm

/-- A directory that is as it must be is found, whatever it holds. -/
theorem openOrCreate_found {access : Access} {content : C}
    (h : inspectCreated host label false (some (.directory access content)) = .ok false)
    (content' : C) :
    Durable.Quiet (openOrCreateDirectory host label fresh) (some (.directory access content')) () :=
  settleMode_quiet h

end Directories

/-- Every release stands as before. -/
def SameReleases (s u : ReleaseSpace) : Prop := ∀ t d, u.release? t d = s.release? t d

theorem sameReleases_setTenant {slot : Option (Held Unit Access TenantNamespace)}
    (h : ∀ d, (s.setTenant t slot).release? t d = s.release? t d) :
    SameReleases s (s.setTenant t slot) := by
  intro t' d
  by_cases ht : t' = t
  · rw [ht]
    exact h d
  · exact release?_congr (setTenant_find?_of_ne _ ht)

theorem release?_of_missing (h : ∀ access access' releases others, s.tenants.find? t ≠
    some (.directory access ⟨some (.directory access' releases), others⟩)) :
    s.release? t d = none := by
  have hnone : s.releases? t = none := by
    unfold releases? tenantNamespace?
    split
    · rename_i access releases others heq
      split at heq
      · rename_i access' content hfind
        cases heq
        exact absurd hfind (h _ _ _ _)
      · cases heq
    · rfl
  simp only [release?, hnone]
  rfl

/-- Making the tenant's directories stops, finds them, or changes them without touching a release
and goes on. -/
theorem namespace_restarts (host : ReleaseHost) (t : Uuid7) (s : ReleaseSpace) :
    (∃ e, openOrCreateReleaseNamespace host t s = ⟨[], s, .error e⟩) ∨
      (Durable.Quiet (openOrCreateReleaseNamespace host t) s () ∧ HasReleases t s) ∨
      ∃ u, u.staging = s.staging ∧ SameReleases s u ∧
        Steps (openOrCreateReleaseNamespace host t) s u := by
  rcases openOrCreate_restarts host "tenant release namespace" (⟨none, []⟩ : TenantNamespace)
    (s.tenants.find? t) with
    ⟨e, herror⟩ | ⟨access, content, hfind, hinspect⟩ | ⟨access, content, hslot, hsteps⟩
  · -- the tenant's directory cannot be used
    refine Or.inl ⟨e, Durable.bind_error ?_⟩
    exact Durable.zoom_error herror setTenant_self
  · -- the tenant's directory is there; `releases` is next
    have hhas : HasTenant t s := ⟨access, content, hfind⟩
    rw [hfind] at hinspect
    have hfirst : ∀ (u : ReleaseSpace) (content' : TenantNamespace),
        u.tenants.find? t = some (.directory access content') →
          Durable.Quiet (Durable.zoom (fun s : ReleaseSpace => s.tenants.find? t) (setTenant t)
            fun _ => openOrCreateDirectory host "tenant release namespace" ⟨none, []⟩) u () := by
      intro u content' hu
      refine Durable.zoom_quiet ?_ setTenant_self
      rw [hu]
      exact openOrCreate_found hinspect content'
    have hsecond := (hfirst s content hfind).bind (f := fun _ =>
      Durable.zoom (releasesSlot? t) (setReleasesSlot t) fun _ =>
        openOrCreateDirectory host "release namespace" Directory.empty)
    rcases openOrCreate_restarts host "release namespace" (Directory.empty : Releases)
      (s.releasesSlot? t) with
      ⟨e, herror⟩ | ⟨access', releases, hreleases, hinspect'⟩ | ⟨access', releases, hslot, hsteps⟩
    · exact Or.inl ⟨e, hsecond.trans (Durable.zoom_error herror (setReleasesSlot_self hhas))⟩
    · refine Or.inr (Or.inl ⟨hsecond.trans ?_, ?_⟩)
      · refine Durable.zoom_quiet ?_ (setReleasesSlot_self hhas)
        rw [hreleases] at hinspect' ⊢
        exact openOrCreate_found hinspect' releases
      · rw [releasesSlot?_of_find? hfind] at hreleases
        refine ⟨access, access', releases, content.others, ?_⟩
        rw [hfind, ← hreleases]
    · right; right
      refine ⟨s.setReleasesSlot t (some (.directory access' releases)), setReleasesSlot_staging _,
        ?_, ?_⟩
      · rw [setReleasesSlot_of_find? hfind]
        refine sameReleases_setTenant fun d => ?_
        rw [release?_of_find? (setTenant_find? _)]
        rw [releasesSlot?_of_find? hfind] at hslot
        rcases hslot with ⟨hnone, rfl⟩ | ⟨access'', hsome⟩
        · rw [release?_of_missing, Directory.find?_empty]
          intro access₁ access₂ releases' others heq
          rw [hfind] at heq
          cases heq
          cases hnone
        · have hfind' : s.tenants.find? t =
              some (.directory access ⟨some (.directory access'' releases), content.others⟩) := by
            rw [hfind, ← hsome]
          rw [release?_of_find? hfind']
      · have hu : (s.setReleasesSlot t (some (.directory access' releases))).tenants.find? t =
            some (.directory access { content with releases := some (.directory access' releases) }) := by
          rw [setReleasesSlot_of_find? hfind]
          exact setTenant_find? _
        refine Steps.skip (hfirst s content hfind) (hfirst _ _ hu) ?_
        exact Steps.zoom hsteps (releasesSlot?_setReleasesSlot hhas _)
          (setReleasesSlot_setReleasesSlot hhas _)
  · right; right
    refine ⟨s.setTenant t (some (.directory access content)), setTenant_staging _,
      sameReleases_setTenant fun d => ?_, ?_⟩
    · rcases hslot with ⟨hnone, rfl⟩ | ⟨access', hsome⟩
      · rw [release?_of_missing, release?_of_missing]
        · intro access₁ access₂ releases others heq
          rw [hnone] at heq
          cases heq
        · intro access₁ access₂ releases others heq
          rw [setTenant_find?] at heq
          cases heq
      · simp only [release?, releases?, tenantNamespace?, setTenant_find?, hsome]
    · have hzoom : Steps (Durable.zoom (fun s : ReleaseSpace => s.tenants.find? t) (setTenant t)
          fun _ => openOrCreateDirectory host "tenant release namespace" ⟨none, []⟩) s
            (s.setTenant t (some (.directory access content))) :=
        Steps.zoom hsteps (setTenant_find? _) fun w => setTenant_setTenant _ w
      exact hzoom.bind

/-! ## The staging root and the name of the release -/

/-- The same tree was published, whoever published it. -/
def SameMeasurement (a b : PublishedDeploymentRelease) : Prop := a.measurement = b.measurement

/-- What a publication of one release may do to the releases: give that name a tree if it is free. -/
def PublishesOnly (t d : Uuid7) (s u : ReleaseSpace) : Prop :=
  ∀ t' d', u.release? t' d' = s.release? t' d' ∨ t' = t ∧ d' = d ∧ s.release? t d = none

theorem SameReleases.publishesOnly (h : SameReleases s u) : PublishesOnly t d s u :=
  fun t' d' => Or.inl (h t' d')

theorem PublishesOnly.trans {w : ReleaseSpace} (h : PublishesOnly t d s u)
    (h' : PublishesOnly t d u w) : PublishesOnly t d s w := by
  intro t' d'
  rcases h t' d' with hsame | hfree
  · rcases h' t' d' with hsame' | ⟨rfl, rfl, hnone⟩
    · exact Or.inl (hsame'.trans hsame)
    · exact Or.inr ⟨rfl, rfl, hsame.symm.trans hnone⟩
  · exact Or.inr hfree

variable (host t d) in
/-- The publication of a staged tree whose measurement is known. -/
def completePublication (m : ReleaseTreeMeasurement) :
    Durable ReleaseSpace AgentError PublishedDeploymentRelease := do
  openOrCreateReleaseNamespace host t
  let taken ← Durable.query fun s => pure ((s.releasesOf t).find? (.deployment d)).isSome
  renameOrReplay host ⟨t, d, .staged t d, m⟩ taken

/-- A staged tree that measures as planned is published. -/
theorem publish_staged {m : ReleaseTreeMeasurement} (h : measureStaging host t d s.staging = .ok m) :
    publish host ⟨t, d, .staged t d, m⟩ s = completePublication host t d m s := by
  have hunchanged : requireUnchangedStaging host ⟨t, d, .staged t d, m⟩ s = .ok () := by
    have hmeasured : measureHeld host (s.staging.find? (.staged t d)) = .ok m := h
    simp only [requireUnchangedStaging, validateStaged, hmeasured, decide_true, require_true,
      ok_bind]
  exact (Durable.Quiet.query hunchanged).bind

theorem reconcileStaging_dropped (preserved : Protected) :
    (reconcileStaging host preserved >>= fun _ => pure ()) = sweep host preserved := by
  have h := reconcileStaging_eq host preserved (pure ())
  rw [h]
  exact bind_pure (sweep host preserved)

/-- The staged tree that a resumed publication protects. -/
def protectedTree (t d : Uuid7) (expected : Digest) (stagedExists : Bool) : Protected :=
  if stagedExists then [((t, d), expected)] else []

/-- The run of a resumed publication by what the staging root holds. -/
theorem resumePublication_run {expected : Digest} (hformat : requireReleaseTreeDigest expected = .ok ())
    (s : ReleaseSpace) :
    resumePublication host t d expected s = (do
      onStaging (sweep host
        (protectedTree t d expected (s.staging.find? (.staged t d)).isSome))
      publishOrVerify host t d expected (s.staging.find? (.staged t d)).isSome) s := by
  have hfirst : Durable.Quiet (Durable.query fun _ : ReleaseSpace =>
      requireReleaseTreeDigest expected) s () := Durable.Quiet.query hformat
  refine hfirst.bind.trans ?_
  have hsecond : Durable.Quiet (Durable.query fun s : ReleaseSpace =>
      (pure (s.staging.find? (.staged t d)).isSome : Except AgentError Bool)) s
        (s.staging.find? (.staged t d)).isSome := Durable.Quiet.query rfl
  refine hsecond.bind.trans ?_
  exact congrFun (Durable.zoom_drop (reconcileStaging_dropped _) _) s

/-- Where only the staged tree is in the way, a resumed publication completes it. -/
theorem resumePublication_staged {expected : Digest} {m : ReleaseTreeMeasurement}
    (hformat : requireReleaseTreeDigest expected = .ok ())
    (hquiet : Durable.Quiet (sweep host [((t, d), expected)]) s.staging ())
    (hstaged : (s.staging.find? (.staged t d)).isSome = true)
    (hmeasure : measureStaging host t d s.staging = .ok m) (hdigest : m.digest = expected) :
    resumePublication host t d expected s = completePublication host t d m s := by
  rw [resumePublication_run hformat, hstaged]
  have hsweep : Durable.Quiet (onStaging (sweep host (protectedTree t d expected true))) s () :=
    Durable.zoom_quiet hquiet rfl
  refine hsweep.bind.trans ?_
  have hresumable : requireResumable host t d expected s = .ok m := by
    simp only [requireResumable, hmeasure, ok_bind, hdigest, decide_true, require_true]
    rfl
  exact (Durable.Quiet.query hresumable).bind.trans (publish_staged hmeasure)

theorem protectedTree_canonical (t d : Uuid7) (expected : Digest) (staging : Staging) :
    Canonical (protectedTree t d expected (staging.find? (.staged t d)).isSome) staging := by
  intro entry hentry
  cases hstaged : (staging.find? (.staged t d)).isSome with
  | false =>
      rw [hstaged] at hentry
      cases hentry
  | true =>
      rw [hstaged] at hentry
      rw [List.mem_singleton.1 hentry]
      exact hstaged

/-- The protected tree stays where it is, and an absent one stays absent. -/
theorem staged_kept {expected : Digest} {staging staging' : Staging}
    (h : StagedKept (protectedTree t d expected (staging.find? (.staged t d)).isSome) staging
      staging') :
    (staging'.find? (.staged t d)).isSome = (staging.find? (.staged t d)).isSome := by
  rcases h t d with hsame | ⟨hlookup, hgone⟩
  · rw [hsame]
  · cases hstaged : (staging.find? (.staged t d)).isSome with
    | false => rw [hgone]; rfl
    | true =>
        rw [hstaged] at hlookup
        simp [protectedTree] at hlookup

/-- Only the protected tree is left where a sweep has nothing to do. -/
theorem keys_of_verified {expected : Digest} {staging : Staging}
    (h : Verified host (protectedTree t d expected (staging.find? (.staged t d)).isSome) staging
      staging.keys) :
    staging.keys = if (staging.find? (.staged t d)).isSome then [.staged t d] else [] := by
  cases hstaged : (staging.find? (.staged t d)).isSome with
  | false =>
      rw [hstaged] at h
      refine List.eq_nil_iff_forall_not_mem.2 fun name hname => ?_
      obtain ⟨_, _, _, _, hlookup, _⟩ := h name hname
      cases hlookup
  | true =>
      rw [hstaged] at h
      rw [if_pos rfl]
      refine Directory.keys_eq (List.pairwise_singleton _ _) fun name => ?_
      rw [List.mem_singleton, ← Directory.mem_keys]
      constructor
      · rintro rfl
        exact Directory.mem_keys.2 hstaged
      · intro hname
        obtain ⟨t', d', digest, rfl, hlookup, -⟩ := h name hname
        have hmem := mem_of_lookup hlookup
        simp only [protectedTree, if_true, List.mem_singleton, Prod.mk.injEq] at hmem
        rw [hmem.1.1, hmem.1.2]

/-- A published release that measures as expected is the result of the interrupted publication. -/
theorem requireRecovered_ok {expected : Digest} {m : ReleaseTreeMeasurement}
    (h : measure host t d s = .ok m) (hdigest : m.digest = expected) :
    requireRecovered host t d expected s = .ok ⟨m, false⟩ := by
  simp only [requireRecovered, h, ok_bind, hdigest, decide_true, require_true]
  rfl

/-- A digest check that went through had its measurement. -/
theorem requireStagedDigest_eq_ok {expected : Digest} {staging : Staging} {v : Unit} :
    requireStagedDigest host t d expected staging = .ok v ↔
      ∃ m, measureStaging host t d staging = .ok m ∧ m.digest = expected := by
  simp only [requireStagedDigest, bind_eq_ok, require_eq_ok, decide_eq_true_eq]

/-- The only tree of a staging root that a sweep leaves alone is measured. -/
theorem measured_of_verified {expected : Digest}
    (h : Verified host [((t, d), expected)] s.staging s.staging.keys)
    (hstaged : (s.staging.find? (.staged t d)).isSome = true) :
    ∃ m, measureStaging host t d s.staging = .ok m ∧ m.digest = expected := by
  obtain ⟨t', d', digest, hname, hlookup, hdigest⟩ := h _ (Directory.mem_keys.2 hstaged)
  obtain ⟨rfl, rfl⟩ : t = t' ∧ d = d' := by simpa using hname
  have hmem := mem_of_lookup hlookup
  rw [List.mem_singleton, Prod.mk.injEq] at hmem
  rw [← hmem.2]
  exact requireStagedDigest_eq_ok.1 hdigest

/-- The state after the staged tree was given the name of its release. -/
theorem renameToPublished_of_find? {access access' : Access} {releases : Releases}
    {others : List FileName} {release : Release}
    (htenant : s.tenants.find? t =
      some (.directory access ⟨some (.directory access' releases), others⟩))
    (hstaged : s.staging.find? (.staged t d) = some release) :
    renameToPublished t d s =
      (s.setStaging (s.staging.erase (.staged t d))).setTenant t (some (.directory access
        ⟨some (.directory access' (releases.insert (.deployment d) release)), others⟩)) := by
  have htenant' : (s.setStaging (s.staging.erase (.staged t d))).tenants.find? t =
      some (.directory access ⟨some (.directory access' releases), others⟩) := htenant
  simp only [renameToPublished, hstaged, releasesOf_of_find? htenant,
    setReleases_of_find? htenant']

/-- The name of the release is free: the staged tree takes it, and a later call verifies it. -/
theorem publish_free {expected : Digest} {m : ReleaseTreeMeasurement}
    (hformat : requireReleaseTreeDigest expected = .ok ())
    (hkeys : s.staging.keys = [.staged t d]) (hreleases : HasReleases t s)
    (hmeasure : measureStaging host t d s.staging = .ok m) (hdigest : m.digest = expected)
    (hfree : (s.releasesOf t).find? (.deployment d) = none) :
    PublishesOnly t d s (renameToPublished t d s) ∧
      renameOrReplay host ⟨t, d, .staged t d, m⟩ false s =
        ⟨[renameToPublished t d s], renameToPublished t d s, .ok ⟨m, true⟩⟩ ∧
      resumePublication host t d expected (renameToPublished t d s) =
        ⟨[], renameToPublished t d s, .ok ⟨m, false⟩⟩ := by
  obtain ⟨access, access', releases, others, htenant⟩ := hreleases
  obtain ⟨release, hstaged⟩ := Option.isSome_iff_exists.1
    (Directory.mem_keys.1 (show StagingName.staged t d ∈ s.staging.keys by rw [hkeys]; simp))
  have hrenamed := renameToPublished_of_find? htenant hstaged
  generalize hu : renameToPublished t d s = u at *
  have htenantu : u.tenants.find? t = some (.directory access
      ⟨some (.directory access' (releases.insert (.deployment d) release)), others⟩) := by
    rw [hrenamed]
    exact setTenant_find? _
  have hstagingu : u.staging = s.staging.erase (.staged t d) := by
    rw [hrenamed]
    exact setTenant_staging _
  have hmeasureu : measure host t d u = .ok m := by
    rw [measure_of_find? htenantu, Directory.find?_insert_self, ← hstaged]
    exact hmeasure
  -- the rename leaves no staged tree behind
  have hkeysu : u.staging.keys = [] := by
    refine Directory.keys_eq List.Pairwise.nil fun name => ?_
    rw [← Directory.mem_keys, hstagingu, Directory.mem_keys_erase, hkeys, List.mem_singleton]
    exact ⟨fun h => (nomatch h), fun h => absurd h.2 h.1⟩
  have hgone : (u.staging.find? (.staged t d)).isSome = false := by
    rw [hstagingu, Directory.find?_erase_self]
    rfl
  refine ⟨?_, ?_, ?_⟩
  · intro t' d'
    by_cases ht : t' = t
    · subst ht
      rw [release?_of_find? htenantu, release?_of_find? htenant, release?_of_find? htenant]
      by_cases hd : d' = d
      · subst hd
        rw [releasesOf_of_find? htenant] at hfree
        exact Or.inr ⟨rfl, rfl, hfree⟩
      · exact Or.inl (Directory.find?_insert_of_ne _ (by simpa using hd) _)
    · refine Or.inl (release?_congr ?_)
      rw [hrenamed]
      exact setTenant_find?_of_ne _ ht
  · have hpublished : requirePublished host ⟨t, d, .staged t d, m⟩ u = .ok m := by
      simp only [requirePublished, hmeasureu, ok_bind, decide_true, require_true]
      rfl
    have hrun : renameOrReplay host ⟨t, d, .staged t d, m⟩ false s =
        ((do
          let published ← Durable.query (requirePublished host ⟨t, d, .staged t d, m⟩)
          pure ⟨published, true⟩ : Durable ReleaseSpace AgentError PublishedDeploymentRelease)
            u).after u := by
      rw [← hu]
      exact Durable.effect_after
    rw [hrun, (Durable.Quiet.query hpublished).bind]
    rfl
  · rw [resumePublication_run hformat, hgone]
    -- a later call scans the empty staging root, sweeps nothing and verifies the published tree
    have hscanned : Scanned [] u.staging := by
      refine ⟨by rw [hkeysu]; exact Nat.zero_le _, ?_, ?_, fun _ h => (nomatch h)⟩
      · intro name hname
        rw [hkeysu] at hname
        cases hname
      · intro t' d' hname
        rw [hkeysu] at hname
        cases hname
    have hsweep : Durable.Quiet (onStaging (sweep host (protectedTree t d expected false))) u () := by
      refine Durable.zoom_quiet ?_ rfl
      refine (sweep_of_scanned host hscanned).trans ?_
      rw [hkeysu]
      rfl
    exact hsweep.bind.trans (Durable.Quiet.query (requireRecovered_ok hmeasureu hdigest))

/-- The name of the release is taken by the same content: the staged tree is discarded, and a later
call goes on with that. -/
theorem publish_taken {expected : Digest} {m existing : ReleaseTreeMeasurement}
    (hformat : requireReleaseTreeDigest expected = .ok ())
    (hkeys : s.staging.keys = [.staged t d]) (hdigest : m.digest = expected)
    (hexisting : requireExisting host ⟨t, d, .staged t d, m⟩ s = .ok existing) :
    ∃ u, SameReleases s u ∧
      renameOrReplay host ⟨t, d, .staged t d, m⟩ true s =
        (resumePublication host t d expected u).after u := by
  have hpresent : (s.staging.find? (.staged t d)).isSome = true := by
    rw [← Directory.mem_keys, hkeys]
    simp
  have hnodiscarded : s.staging.find? (.discarded t d) = none := by
    rw [← Directory.not_mem_keys, hkeys]
    simp
  let staging' := renameEntry (.staged t d) (.discarded t d) s.staging
  have hkeys' : Directory.keys staging' = [.discarded t d] :=
    renamed_keys [] [] hkeys fun name hname => by
      rw [hkeys, List.mem_singleton] at hname
      exact ⟨t, d, hname⟩
  refine ⟨s.setStaging staging', fun _ _ => rfl, ?_⟩
  -- the interrupted call goes on with the removal of the discarded tree
  have hmeasure : measure host t d s = .ok existing ∧ existing.digest = m.digest := by
    simp only [requireExisting, bind_eq_ok, require_eq_ok, decide_eq_true_eq, pure_eq_ok] at hexisting
    obtain ⟨_, hmeasure, _, hsame, rfl⟩ := hexisting
    exact ⟨hmeasure, hsame⟩
  have hrun : renameOrReplay host ⟨t, d, .staged t d, m⟩ true s =
      ((do
        onStaging (removeStagingTree host t d)
        pure ⟨existing, false⟩ : Durable ReleaseSpace AgentError PublishedDeploymentRelease)
          (s.setStaging staging')).after (s.setStaging staging') := by
    refine (Durable.Quiet.query hexisting).bind.trans ?_
    refine Durable.bind_after ?_
    exact Durable.zoom_after (removeDiscardTransition_renames host hpresent hnodiscarded) rfl fun _ => rfl
  -- a new call finds the discarded tree alone
  have hscanned : Scanned [] staging' := by
    refine ⟨by rw [hkeys']; exact Nat.le_succ 1, ?_, ?_, fun _ h => (nomatch h)⟩
    · intro name hname raw
      rw [hkeys', List.mem_singleton] at hname
      rw [hname]
      simp
    · intro t' d' _ hname
      rw [hkeys', List.mem_singleton] at hname
      cases hname
  have hgone : ((s.setStaging staging').staging.find? (.staged t d)).isSome = false := by
    show (staging'.find? (.staged t d)).isSome = false
    rw [← Bool.not_eq_true, ← Directory.mem_keys, hkeys']
    simp
  have hsweep : sweep host (protectedTree t d expected false) staging' =
      removeStagingTree host t d staging' := by
    refine (sweep_of_scanned host hscanned).trans ?_
    rw [hkeys']
    exact congrFun (bind_pure (removeStagingTree host t d)) staging'
  have hzoom : onStaging (sweep host (protectedTree t d expected false)) (s.setStaging staging') =
      onStaging (removeStagingTree host t d) (s.setStaging staging') :=
    Durable.zoom_congr_at hsweep
  rw [hrun, resumePublication_run hformat, hgone]
  refine congrArg _ (Eq.trans ?_ (Durable.bind_congr_run _ hzoom).symm)
  refine Durable.bind_congr_at fun _ _ => ?_
  -- both report the existing release, which the removal does not touch
  have hmeasurew : measure host t d (onStaging (removeStagingTree host t d)
      (s.setStaging staging')).state = .ok existing := (measure_congr rfl).trans hmeasure.1
  exact (Durable.Quiet.query (requireRecovered_ok hmeasurew (hmeasure.2.trans hdigest))).symm

/-- A resumed publication changes nothing, or restarts from its first change. Only the flag that
says who published the release may differ. -/
theorem resumePublication_restarts (host : ReleaseHost) (t d : Uuid7) (expected : Digest) (s : ReleaseSpace) :
    (resumePublication host t d expected s).trace = [] ∨
      ∃ u, PublishesOnly t d s u ∧
        (resumePublication host t d expected s).trace =
          u :: (resumePublication host t d expected u).trace ∧
        (resumePublication host t d expected u).state =
          (resumePublication host t d expected s).state ∧
        SameOutcome SameMeasurement (resumePublication host t d expected u).result
          (resumePublication host t d expected s).result := by
  have hafter : ∀ u, PublishesOnly t d s u →
      Steps (resumePublication host t d expected) s u → ∃ u, PublishesOnly t d s u ∧
        (resumePublication host t d expected s).trace =
          u :: (resumePublication host t d expected u).trace ∧
        (resumePublication host t d expected u).state =
          (resumePublication host t d expected s).state ∧
        SameOutcome SameMeasurement (resumePublication host t d expected u).result
          (resumePublication host t d expected s).result := by
    rintro u hkept (hrun | ⟨e, e', hs, hu⟩)
    · refine ⟨u, hkept, by rw [hrun]; rfl, by rw [hrun]; rfl, ?_⟩
      rw [hrun]
      exact SameOutcome.refl (fun a => show SameMeasurement a a from rfl) _
    · exact ⟨u, hkept, by rw [hs, hu], by rw [hs, hu], by rw [hs, hu]; exact True.intro⟩
  cases hformat : requireReleaseTreeDigest expected with
  | error e =>
      left
      have herror : resumePublication host t d expected s = ⟨[], s, .error e⟩ :=
        Durable.query_bind_error hformat
      rw [herror]
  | ok _ =>
      rcases sweep_restarts host (protectedTree_canonical t d expected s.staging) with
        ⟨e, herror⟩ | ⟨hquiet, hverified⟩ | ⟨staging', hkept, hsweep⟩
      · left
        have hrun : resumePublication host t d expected s = ⟨[], s, .error e⟩ :=
          (resumePublication_run hformat s).trans
            (Durable.bind_error (Durable.zoom_error herror rfl))
        rw [hrun]
      · have hkeys := keys_of_verified hverified
        cases hstaged : (s.staging.find? (.staged t d)).isSome with
        | false =>
            -- nothing is staged and the release is verified
            left
            rw [resumePublication_run hformat]
            have hnext : (onStaging (sweep host (protectedTree t d expected
                (s.staging.find? (.staged t d)).isSome)) >>= fun _ =>
                  publishOrVerify host t d expected (s.staging.find? (.staged t d)).isSome) s =
                publishOrVerify host t d expected (s.staging.find? (.staged t d)).isSome s :=
              (Durable.zoom_quiet hquiet rfl).bind
            rw [hnext, hstaged]
            rfl
        | true =>
            rw [hstaged] at hquiet hverified hkeys
            obtain ⟨m, hmeasure, hdigest⟩ := measured_of_verified hverified hstaged
            have hrun : ∀ u : ReleaseSpace, u.staging = s.staging →
                resumePublication host t d expected u = completePublication host t d m u := by
              intro u hu
              refine resumePublication_staged hformat ?_ ?_ ?_ hdigest
              · rw [hu]
                exact hquiet
              · rw [hu]
                exact hstaged
              · rw [hu]
                exact hmeasure
            rw [hrun s rfl]
            have hpublishes : ∀ u : ReleaseSpace, u.staging = s.staging → SameReleases s u →
                Steps (completePublication host t d m) s u → _ := fun u hu hsame hsteps =>
              hafter u hsame.publishesOnly (by
                rw [Steps, hrun s rfl, hrun u hu]
                exact hsteps)
            rcases namespace_restarts host t s with
              ⟨e, herror⟩ | ⟨hopened, hreleases⟩ | ⟨u, hu, hsame, hsteps⟩
            · left
              have hstop : completePublication host t d m s = ⟨[], s, .error e⟩ :=
                Durable.bind_error herror
              rw [hstop]
            · have htaken : completePublication host t d m s =
                  renameOrReplay host ⟨t, d, .staged t d, m⟩
                    ((s.releasesOf t).find? (.deployment d)).isSome s := by
                refine hopened.bind.trans ?_
                exact (Durable.Quiet.reading (fun s : ReleaseSpace =>
                  ((s.releasesOf t).find? (.deployment d)).isSome) s).bind
              rw [if_pos rfl] at hkeys
              cases hfound : (s.releasesOf t).find? (.deployment d) with
              | none =>
                  right
                  obtain ⟨honly, hfirst, hagain⟩ :=
                    publish_free hformat hkeys hreleases hmeasure hdigest hfound
                  refine ⟨renameToPublished t d s, honly, ?_⟩
                  rw [htaken, hfound, hagain]
                  show (renameOrReplay host _ false s).trace = _ ∧ _ =
                    (renameOrReplay host _ false s).state ∧ SameOutcome SameMeasurement _
                      (renameOrReplay host _ false s).result
                  rw [hfirst]
                  exact ⟨rfl, rfl, rfl⟩
              | some existing =>
                  cases hexisting : requireExisting host ⟨t, d, .staged t d, m⟩ s with
                  | error e =>
                      left
                      have hstop : renameOrReplay host ⟨t, d, .staged t d, m⟩ true s =
                          ⟨[], s, .error e⟩ := Durable.query_bind_error hexisting
                      rw [htaken, hfound]
                      show (renameOrReplay host _ true s).trace = []
                      rw [hstop]
                  | ok replayed =>
                      right
                      obtain ⟨u, hsame, hreplay⟩ := publish_taken hformat hkeys hdigest hexisting
                      have h := hafter u hsame.publishesOnly (Or.inl (by
                        rw [hrun s rfl, htaken, hfound]
                        exact hreplay))
                      rwa [hrun s rfl] at h
            · right
              have h := hpublishes u hu hsame hsteps.bind
              rwa [hrun s rfl] at h
      · right
        refine hafter (s.setStaging staging') (SameReleases.publishesOnly fun _ _ => rfl) ?_
        have hstill : ((s.setStaging staging').staging.find? (.staged t d)).isSome =
            (s.staging.find? (.staged t d)).isSome := staged_kept hkept
        left
        rw [resumePublication_run hformat s, resumePublication_run hformat (s.setStaging staging'),
          hstill]
        exact Durable.bind_after (Durable.zoom_after hsweep rfl fun _ => rfl)

end Publication

end StaticHostAgent.Releases
