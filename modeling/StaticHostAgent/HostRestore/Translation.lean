import StaticHostAgent.HostRestore.RuntimeMapping

/-!
# Translating a request through a chain of mappings

A chain translates a request by its mappings one after the other. Once a mapping has translated a
request it leaves the result alone, and no later mapping of a chain with fresh generations undoes
that; so a second translation changes nothing.
-/

set_option autoImplicit false

namespace StaticHostAgent.HostRestore

open Library Contracts State
open Caddy (TenantRouteInput activeInput)

variable {manifest : Site} {source : TenantRouteInput} {z : RuntimeRequest} {i j : RuntimeInputs}
  {chain : List RuntimeMapping}

/-! ## Projected observations -/

theorem projectObserved_state (g : Uuid7) (o : TenantObservedState) :
    (projectObserved g o).observedState = o.observedState := by
  unfold projectObserved
  split <;> rfl

theorem projectObserved_active {o : TenantObservedState} (g : Uuid7)
    (h : o.observedState = .active) : (projectObserved g o).runtimeGenerationId = some g := by
  unfold projectObserved
  rw [if_pos h]

theorem projectObserved_inactive {o : TenantObservedState} (g : Uuid7)
    (h : o.observedState ≠ .active) : projectObserved g o = o := if_neg h

/-! ## One mapping -/

/-- The request after one mapping that raises nothing. -/
def mapRequest (i : RuntimeInputs) (manifest : Site) (z : RuntimeRequest) : RuntimeRequest :=
  mapCaptured i i.tenants manifest.metadata.id manifest z

/-- The generation after the mapping of a listed tenant. -/
def mappedGeneration (i : RuntimeInputs) (source : TenantRouteInput) (g : Option Uuid7) :
    Option Uuid7 :=
  if g ≠ none ∧ (g = some i.oldGlobal ∨ g = source.observedState.runtimeGenerationId)
  then some i.newGenerationId else g

/-- The request observed what the capture of the tenant knows. -/
def Known (i : RuntimeInputs) (source : TenantRouteInput) (z : RuntimeRequest) : Prop :=
  z.observed = some source.observedState ∨
    z.observed = some (projectObserved i.newGenerationId source.observedState) ∨
      z.observed = none ∧ z.generationId = some i.oldGlobal

/-- A mapping leaves the request alone, translates it by a captured tenant, or translates the
global generation of an archived one. -/
inductive Mapped (i : RuntimeInputs) (manifest : Site) (z : RuntimeRequest) : RuntimeRequest → Prop
  | same : Mapped i manifest z z
  | listed (source : TenantRouteInput) (hmem : source ∈ i.tenants)
      (hmanifest : source.manifest = manifest)
      (hfound : i.tenants.find? (fun tenant =>
        decide (tenantIdOf tenant = manifest.metadata.id)) = some source)
      (hknown : Known i source z) :
      Mapped i manifest z ⟨mappedGeneration i source z.generationId,
        some (projectObserved i.newGenerationId source.observedState)⟩
  | unlisted (hglobal : z.generationId = some i.oldGlobal)
      (hnone : i.tenants.find? (fun tenant =>
        decide (tenantIdOf tenant = manifest.metadata.id)) = none)
      (harchived : archivedObservation manifest.metadata.id manifest z.observed = true) :
      Mapped i manifest z ⟨some i.newGenerationId, z.observed⟩

theorem mapListed_known (hmanifest : source.manifest = manifest) (h : Known i source z) :
    mapListed i source manifest z = ⟨mappedGeneration i source z.generationId,
      some (projectObserved i.newGenerationId source.observedState)⟩ := by
  unfold mapListed
  rw [if_neg (not_not.2 hmanifest), if_neg]
  · rfl
  · rintro ⟨hsource, htarget, hnone⟩
    obtain h | h | h := h
    · exact hsource h
    · exact htarget h
    · exact hnone h

theorem mapListed_unknown (h : source.manifest ≠ manifest ∨ ¬ Known i source z) :
    mapListed i source manifest z = z := by
  unfold mapListed
  by_cases hmanifest : source.manifest = manifest
  · have hunknown := h.resolve_left (not_not.2 hmanifest)
    unfold Known at hunknown
    simp only [not_or] at hunknown
    rw [if_neg (not_not.2 hmanifest), if_pos hunknown]
  · rw [if_pos hmanifest]

theorem mapListed_mapped (z : RuntimeRequest) (hfound : i.tenants.find? (fun tenant =>
      decide (tenantIdOf tenant = manifest.metadata.id)) = some source) :
    Mapped i manifest z (mapListed i source manifest z) := by
  by_cases h : source.manifest = manifest ∧ Known i source z
  · rw [mapListed_known h.1 h.2]
    exact .listed source (List.mem_of_find?_eq_some hfound) h.1 hfound h.2
  · rw [mapListed_unknown (not_and_or.1 h)]
    exact .same

theorem mapUnlisted_mapped (z : RuntimeRequest) (hnone : i.tenants.find? (fun tenant =>
      decide (tenantIdOf tenant = manifest.metadata.id)) = none) :
    Mapped i manifest z (mapUnlisted i manifest.metadata.id manifest z) := by
  unfold mapUnlisted
  by_cases h : z.generationId = some i.oldGlobal ∧
      archivedObservation manifest.metadata.id manifest z.observed = true
  · rw [if_pos h]
    exact .unlisted h.1 hnone h.2
  · rw [if_neg h]
    exact .same

theorem mapRequest_listed (hfound : i.tenants.find? (fun tenant =>
        decide (tenantIdOf tenant = manifest.metadata.id)) = some source) :
    mapRequest i manifest z = mapListed i source manifest z := by
  unfold mapRequest mapCaptured
  rw [hfound]

theorem mapRequest_unlisted (hnone : i.tenants.find? (fun tenant =>
        decide (tenantIdOf tenant = manifest.metadata.id)) = none) :
    mapRequest i manifest z = mapUnlisted i manifest.metadata.id manifest z := by
  unfold mapRequest mapCaptured
  rw [hnone]

theorem mapRequest_mapped (i : RuntimeInputs) (manifest : Site) (z : RuntimeRequest) :
    Mapped i manifest z (mapRequest i manifest z) := by
  cases hfound : i.tenants.find? fun tenant =>
      decide (tenantIdOf tenant = manifest.metadata.id) with
  | none =>
      rw [mapRequest_unlisted hfound]
      exact mapUnlisted_mapped z hfound
  | some source =>
      rw [mapRequest_listed hfound]
      exact mapListed_mapped z hfound

theorem mappedGeneration_idempotent (i : RuntimeInputs) (source : TenantRouteInput)
    (g : Option Uuid7) :
    mappedGeneration i source (mappedGeneration i source g) = mappedGeneration i source g := by
  unfold mappedGeneration
  by_cases h : g ≠ none ∧ (g = some i.oldGlobal ∨ g = source.observedState.runtimeGenerationId)
  · rw [if_pos h]
    split <;> rfl
  · rw [if_neg h, if_neg h]

theorem mappedGeneration_new {n : Uuid7} (hglobal : i.oldGlobal ≠ n)
    (hcaptured : source.observedState.runtimeGenerationId ≠ some n) :
    mappedGeneration i source (some n) = some n := by
  unfold mappedGeneration
  rw [if_neg]
  rintro ⟨-, h | h⟩
  · exact hglobal (Option.some.inj h).symm
  · exact hcaptured h.symm

/-- A mapping leaves alone what it has translated. -/
theorem mapRequest_idempotent (i : RuntimeInputs) (manifest : Site) (z : RuntimeRequest) :
    mapRequest i manifest (mapRequest i manifest z) = mapRequest i manifest z := by
  have hmapped := mapRequest_mapped i manifest z
  generalize hresult : mapRequest i manifest z = result at hmapped
  cases hmapped with
  | same => exact hresult
  | listed source hmem hmanifest hfound hknown =>
      rw [mapRequest_listed hfound, mapListed_known hmanifest (Or.inr (Or.inl rfl)),
        mappedGeneration_idempotent]
  | unlisted hglobal hnone harchived =>
      rw [mapRequest_unlisted hnone]
      unfold mapUnlisted
      split <;> rfl

/-! ## Two mappings -/

/-- The generation of the later inputs is new to the earlier capture. -/
structure Fresh (i j : RuntimeInputs) : Prop where
  generation : i.newGenerationId ≠ j.newGenerationId
  global : i.oldGlobal ≠ j.newGenerationId
  captured : ∀ tenant ∈ i.tenants,
    tenant.observedState.runtimeGenerationId ≠ some j.newGenerationId

/-- An observation that a later mapping installed is known to an earlier one only where neither
changes it. -/
theorem Fresh.installed (h : Fresh i j) {later : TenantObservedState} (hmem : source ∈ i.tenants)
    (hknown : projectObserved j.newGenerationId later = source.observedState ∨
      projectObserved j.newGenerationId later =
        projectObserved i.newGenerationId source.observedState) :
    projectObserved j.newGenerationId later = later ∧
      projectObserved i.newGenerationId source.observedState = later := by
  by_cases hactive : later.observedState = .active
  · have hnew := projectObserved_active j.newGenerationId hactive
    obtain hsource | htarget := hknown
    · rw [hsource] at hnew
      exact absurd hnew (h.captured source hmem)
    · have hstate : source.observedState.observedState = .active := by
        rw [← projectObserved_state i.newGenerationId, ← htarget, projectObserved_state]
        exact hactive
      rw [htarget, projectObserved_active i.newGenerationId hstate] at hnew
      exact absurd (Option.some.inj hnew) h.generation
  · have hsame := projectObserved_inactive j.newGenerationId hactive
    refine ⟨hsame, ?_⟩
    rw [hsame] at hknown
    obtain hsource | htarget := hknown
    · rw [← hsource]
      exact projectObserved_inactive i.newGenerationId hactive
    · exact htarget.symm

theorem mappedGeneration_cases (i : RuntimeInputs) (source : TenantRouteInput)
    (g : Option Uuid7) :
    mappedGeneration i source g = some i.newGenerationId ∨ mappedGeneration i source g = g := by
  unfold mappedGeneration
  split
  · exact Or.inl rfl
  · exact Or.inr rfl

/-- A request without an observation takes the new generation with the new observation. -/
theorem mappedGeneration_unobserved (hknown : Known i source z) (hnone : z.observed = none) :
    mappedGeneration i source z.generationId = some i.newGenerationId := by
  obtain h | h | h := hknown
  · rw [hnone] at h
    cases h
  · rw [hnone] at h
    cases h
  · unfold mappedGeneration
    rw [if_pos ⟨by rw [h.2]; exact Option.some_ne_none _, Or.inl h.2⟩]

/-- The generation after a later mapping is the new one, or the request has it and has observed
what the later capture knows. -/
theorem Known.generation {j : RuntimeInputs} {later : TenantRouteInput} (h : Known j later z) :
    mappedGeneration j later z.generationId = some j.newGenerationId ∨
      mappedGeneration j later z.generationId = z.generationId ∧
        (z.observed = some later.observedState ∨
          z.observed = some (projectObserved j.newGenerationId later.observedState)) := by
  obtain hnew | hkept := mappedGeneration_cases j later z.generationId
  · exact Or.inl hnew
  · obtain hsource | htarget | hnone := h
    · exact Or.inr ⟨hkept, Or.inl hsource⟩
    · exact Or.inr ⟨hkept, Or.inr htarget⟩
    · exact Or.inl (mappedGeneration_unobserved (Or.inr (Or.inr hnone)) hnone.1)

theorem mapUnlisted_settled (h : Fresh i j) {later : TenantRouteInput} (hknown : Known j later z)
    (hz : mapUnlisted i manifest.metadata.id manifest z = z) :
    mapUnlisted i manifest.metadata.id manifest ⟨mappedGeneration j later z.generationId,
        some (projectObserved j.newGenerationId later.observedState)⟩ =
      ⟨mappedGeneration j later z.generationId,
        some (projectObserved j.newGenerationId later.observedState)⟩ := by
  unfold mapUnlisted at hz ⊢
  by_cases hcondition : mappedGeneration j later z.generationId = some i.oldGlobal ∧
      archivedObservation manifest.metadata.id manifest
        (some (projectObserved j.newGenerationId later.observedState)) = true
  · obtain ⟨hglobal, harchived⟩ := hcondition
    have hstate : later.observedState.observedState ≠ .active := by
      unfold archivedObservation at harchived
      simp only [Option.any_some, Bool.and_eq_true, decide_eq_true_eq] at harchived
      rw [← projectObserved_state j.newGenerationId, harchived.2.1.2]
      decide
    have hsame := projectObserved_inactive j.newGenerationId hstate
    obtain hnew | ⟨hkept, hobserved⟩ := hknown.generation
    · rw [hnew] at hglobal
      exact absurd (Option.some.inj hglobal).symm h.global
    · have hobserved : z.observed =
          some (projectObserved j.newGenerationId later.observedState) := by
        obtain hsource | htarget := hobserved
        · rw [hsource, hsame]
        · exact htarget
      rw [if_pos ⟨hkept ▸ hglobal, by rw [hobserved]; exact harchived⟩] at hz
      have hgeneration : some i.newGenerationId = z.generationId :=
        congrArg RuntimeRequest.generationId hz
      rw [if_pos ⟨hglobal, harchived⟩, hkept, ← hgeneration]
  · rw [if_neg hcondition]

theorem mapListed_settled (h : Fresh i j) {source later : TenantRouteInput}
    (hmem : source ∈ i.tenants)
    (hknown : Known j later z) (hz : mapListed i source manifest z = z) :
    mapListed i source manifest ⟨mappedGeneration j later z.generationId,
        some (projectObserved j.newGenerationId later.observedState)⟩ =
      ⟨mappedGeneration j later z.generationId,
        some (projectObserved j.newGenerationId later.observedState)⟩ := by
  by_cases hcondition : source.manifest = manifest ∧ Known i source
      ⟨mappedGeneration j later z.generationId,
        some (projectObserved j.newGenerationId later.observedState)⟩
  · obtain ⟨hmanifest, hboth⟩ := hcondition
    have hseen : projectObserved j.newGenerationId later.observedState = source.observedState ∨
        projectObserved j.newGenerationId later.observedState =
          projectObserved i.newGenerationId source.observedState := by
      obtain hsource | htarget | hnone := hboth
      · exact Or.inl (Option.some.inj hsource)
      · exact Or.inr (Option.some.inj htarget)
      · cases hnone.1
    have hinstalled := h.installed hmem hseen
    rw [mapListed_known hmanifest hboth, hinstalled.2, hinstalled.1]
    show RuntimeRequest.mk (mappedGeneration i source (mappedGeneration j later z.generationId)) _ =
      _
    obtain hnew | ⟨hkept, hobserved⟩ := hknown.generation
    · rw [hnew, mappedGeneration_new h.global (h.captured source hmem)]
    · -- the request already had the observation, so the earlier mapping has settled its generation
      have hobserved : z.observed =
          some (projectObserved i.newGenerationId source.observedState) := by
        rw [hinstalled.2]
        rw [hinstalled.1] at hobserved
        exact hobserved.elim id id
      rw [mapListed_known hmanifest (Or.inr (Or.inl hobserved))] at hz
      have hgeneration : mappedGeneration i source z.generationId = z.generationId :=
        congrArg RuntimeRequest.generationId hz
      rw [hkept, hgeneration]
  · exact mapListed_unknown (not_and_or.1 hcondition)

/-- What an earlier mapping leaves alone, it leaves alone after a later one. -/
theorem mapRequest_settled (h : Fresh i j) (hz : mapRequest i manifest z = z) :
    mapRequest i manifest (mapRequest j manifest z) = mapRequest j manifest z := by
  have hmapped := mapRequest_mapped j manifest z
  generalize mapRequest j manifest z = result at hmapped
  cases hmapped with
  | same => exact hz
  | listed later hlater hmanifest hfound' hknown =>
      cases hfound : i.tenants.find? fun tenant =>
          decide (tenantIdOf tenant = manifest.metadata.id) with
      | none =>
          rw [mapRequest_unlisted hfound] at hz ⊢
          exact mapUnlisted_settled h hknown hz
      | some source =>
          rw [mapRequest_listed hfound] at hz ⊢
          exact mapListed_settled h (List.mem_of_find?_eq_some hfound) hknown hz
  | unlisted hglobal hnone harchived =>
      cases hfound : i.tenants.find? fun tenant =>
          decide (tenantIdOf tenant = manifest.metadata.id) with
      | none =>
          rw [mapRequest_unlisted hfound]
          unfold mapUnlisted
          rw [if_neg]
          rintro ⟨hsame, -⟩
          exact h.global (Option.some.inj hsame).symm
      | some source =>
          have hmem := List.mem_of_find?_eq_some hfound
          rw [mapRequest_listed hfound] at hz ⊢
          by_cases hknown : source.manifest = manifest ∧
              Known i source ⟨some j.newGenerationId, z.observed⟩
          · have hobserved : z.observed ≠ none := by
              intro hnone
              rw [hnone] at harchived
              unfold archivedObservation at harchived
              rw [Option.any_none, Bool.and_false] at harchived
              cases harchived
            have hknown' : Known i source z := by
              obtain hsource | htarget | hnone := hknown.2
              · exact Or.inl hsource
              · exact Or.inr (Or.inl htarget)
              · exact absurd hnone.1 hobserved
            rw [mapListed_known hknown.1 hknown'] at hz
            rw [mapListed_known hknown.1 hknown.2,
              mappedGeneration_new h.global (h.captured source hmem), ← hz]
          · exact mapListed_unknown (not_and_or.1 hknown)

/-! ## Chains -/

/-- The request after a chain that raises nothing. -/
def mapChain (chain : List RuntimeMapping) (manifest : Site) (z : RuntimeRequest) :
    RuntimeRequest :=
  chain.foldl (fun z m => mapRequest m.inputs manifest z) z

/-- A mapping whose text is committed raises nothing. -/
theorem mapRuntimeRequest_committed {h : MappingHost} {m : RuntimeMapping} {raw : Bytes}
    (hcommitted : m.toBytes h = .ok raw) (manifest : Site) (z : RuntimeRequest) :
    mapRuntimeRequest h m manifest.metadata.id manifest z =
      .ok (mapRequest m.inputs manifest z) := by
  have hraw := hcommitted
  unfold RuntimeMapping.toBytes RuntimeInputs.routes RuntimeInputs.projected at hraw
  simp only [bind_eq_ok] at hraw
  obtain ⟨routes, ⟨target, ⟨original, horiginal, -⟩, -⟩, -⟩ := hraw
  have hvalue := horiginal
  unfold RuntimeInputs.original at hvalue
  simp only [bind_eq_ok] at hvalue
  obtain ⟨-, -, -, -, hvalue⟩ := hvalue
  unfold mapRuntimeRequest
  rw [hcommitted, ok_bind, horiginal, ok_bind, ← pure_eq_ok.1 hvalue]
  rfl

theorem translateRuntimeRequest_committed {h : MappingHost}
    (hcommitted : ∀ m ∈ chain, ∃ raw, m.toBytes h = .ok raw) (manifest : Site)
    (z : RuntimeRequest) :
    translateRuntimeRequest h chain manifest z = .ok (mapChain chain manifest z) := by
  unfold translateRuntimeRequest
  induction chain generalizing z with
  | nil => rfl
  | cons m chain ih =>
      obtain ⟨raw, hraw⟩ := hcommitted m List.mem_cons_self
      rw [List.foldlM_cons, mapRuntimeRequest_committed hraw, ok_bind]
      exact ih (fun k hk => hcommitted k (List.mem_cons_of_mem m hk)) _

/-- A settled request stays settled through a chain of later mappings. -/
theorem mapChain_settled (hfresh : ∀ m ∈ chain, Fresh i m.inputs)
    (hz : mapRequest i manifest z = z) :
    mapRequest i manifest (mapChain chain manifest z) = mapChain chain manifest z := by
  induction chain generalizing z with
  | nil => exact hz
  | cons m chain ih =>
      exact ih (fun k hk => hfresh k (List.mem_cons_of_mem m hk))
        (mapRequest_settled (hfresh m List.mem_cons_self) hz)

theorem mapChain_idempotent (hfresh : chain.Pairwise fun m k => Fresh m.inputs k.inputs)
    (z : RuntimeRequest) :
    mapChain chain manifest (mapChain chain manifest z) = mapChain chain manifest z := by
  induction chain generalizing z with
  | nil => rfl
  | cons m chain ih =>
      obtain ⟨hm, hchain⟩ := List.pairwise_cons.1 hfresh
      have hsettled : mapRequest m.inputs manifest (mapChain chain manifest
          (mapRequest m.inputs manifest z)) =
            mapChain chain manifest (mapRequest m.inputs manifest z) :=
        mapChain_settled hm (mapRequest_idempotent m.inputs manifest z)
      show mapChain chain manifest (mapRequest m.inputs manifest (mapChain chain manifest
        (mapRequest m.inputs manifest z))) = _
      rw [hsettled]
      exact ih hchain _

/-- A manifest that no capture lists for its tenant changes at most the generation. -/
theorem mapChain_observed
    (hforeign : ∀ m ∈ chain, ∀ tenant ∈ m.inputs.tenants, tenant.manifest ≠ manifest)
    (z : RuntimeRequest) : (mapChain chain manifest z).observed = z.observed := by
  induction chain generalizing z with
  | nil => rfl
  | cons m chain ih =>
      have hrest := ih (fun k hk => hforeign k (List.mem_cons_of_mem m hk))
        (mapRequest m.inputs manifest z)
      refine Eq.trans hrest ?_
      have hmapped := mapRequest_mapped m.inputs manifest z
      generalize mapRequest m.inputs manifest z = result at hmapped
      cases hmapped with
      | same => rfl
      | listed source hmem hmanifest hfound hknown =>
          exact absurd hmanifest (hforeign m List.mem_cons_self source hmem)
      | unlisted hglobal hnone harchived => rfl

/-- Such a request is unchanged unless it is an archived one whose generation some capture that does
not list the tenant found selected. -/
theorem mapChain_foreign
    (hforeign : ∀ m ∈ chain, ∀ tenant ∈ m.inputs.tenants, tenant.manifest ≠ manifest)
    (hunlisted : archivedObservation manifest.metadata.id manifest z.observed = true →
      ∀ m ∈ chain, (∀ tenant ∈ m.inputs.tenants, tenantIdOf tenant ≠ manifest.metadata.id) →
        z.generationId ≠ some m.inputs.oldGlobal) :
    mapChain chain manifest z = z := by
  induction chain with
  | nil => rfl
  | cons m chain ih =>
      have hmapped := mapRequest_mapped m.inputs manifest z
      have hsame : mapRequest m.inputs manifest z = z := by
        generalize mapRequest m.inputs manifest z = result at hmapped
        cases hmapped with
        | same => rfl
        | listed source hmem hmanifest hfound hknown =>
            exact absurd hmanifest (hforeign m List.mem_cons_self source hmem)
        | unlisted hglobal hnone harchived =>
            refine absurd hglobal (hunlisted harchived m List.mem_cons_self fun tenant htenant => ?_)
            have hne := List.find?_eq_none.1 hnone tenant htenant
            exact of_decide_eq_false (Bool.not_eq_true _ ▸ hne)
      show mapChain chain manifest (mapRequest m.inputs manifest z) = z
      rw [hsame]
      exact ih (fun k hk => hforeign k (List.mem_cons_of_mem m hk))
        fun harchived k hk => hunlisted harchived k (List.mem_cons_of_mem m hk)

/-- The later inputs were captured after the earlier mapping was applied: none of their observations
is one that the mapping replaced. -/
def CapturedAfter (i j : RuntimeInputs) : Prop :=
  ∀ source ∈ i.tenants, ∀ later ∈ j.tenants, later.manifest = source.manifest →
    later.observedState = source.observedState →
      projectObserved i.newGenerationId source.observedState = source.observedState

/-- What a later mapping captured passes through the mappings before it. -/
theorem mapChain_captured {j : RuntimeInputs} {later : TenantRouteInput} (hlater : later ∈ j.tenants)
    (horder : ∀ m ∈ chain, CapturedAfter m.inputs j)
    (hz : z.observed = some later.observedState) :
    (mapChain chain later.manifest z).observed = some later.observedState := by
  induction chain generalizing z with
  | nil => exact hz
  | cons m chain ih =>
      have hnext : (mapRequest m.inputs later.manifest z).observed = some later.observedState := by
        have hmapped := mapRequest_mapped m.inputs later.manifest z
        generalize mapRequest m.inputs later.manifest z = result at hmapped
        cases hmapped with
        | same => exact hz
        | listed source hmem hmanifest hfound hknown =>
            refine congrArg some ?_
            obtain hsource | htarget | hnone := hknown
            · have hobserved := Option.some.inj (hz.symm.trans hsource)
              rw [horder m List.mem_cons_self source hmem later hlater hmanifest.symm hobserved,
                ← hobserved]
            · exact (Option.some.inj (hz.symm.trans htarget)).symm
            · rw [hz] at hnone
              cases hnone.1
        | unlisted hglobal hnone harchived => exact hz
      exact ih (fun k hk => horder k (List.mem_cons_of_mem m hk)) hnext

theorem find?_tenant {tenants : List TenantRouteInput}
    (hsorted : (tenants.map tenantIdOf).Pairwise (· < ·)) {tenant : TenantRouteInput}
    (hmem : tenant ∈ tenants) :
    tenants.find? (fun t => decide (tenantIdOf t = tenantIdOf tenant)) = some tenant := by
  induction tenants with
  | nil => cases hmem
  | cons head tenants ih =>
      rw [List.map_cons, List.pairwise_cons] at hsorted
      obtain rfl | htail := List.mem_cons.1 hmem
      · exact List.find?_cons_of_pos (decide_eq_true rfl)
      · have hlt := hsorted.1 (tenantIdOf tenant) (List.mem_map_of_mem htail)
        rw [List.find?_cons_of_neg (by simp [ne_of_lt hlt])]
        exact ih hsorted.2 htail

/-- The last mapping of a chain installs its observation for the one it captured. -/
theorem mapChain_installed {last : RuntimeMapping}
    (hsorted : (last.inputs.tenants.map tenantIdOf).Pairwise (· < ·))
    (horder : ∀ m ∈ chain, CapturedAfter m.inputs last.inputs)
    (hsource : source ∈ last.inputs.tenants) (hz : z.observed = some source.observedState) :
    (mapChain (chain ++ [last]) source.manifest z).observed =
      some (projectObserved last.inputs.newGenerationId source.observedState) := by
  have hcaptured := mapChain_captured hsource horder hz
  unfold mapChain at hcaptured ⊢
  rw [List.foldl_append, List.foldl_cons, List.foldl_nil]
  rw [mapRequest_listed (find?_tenant hsorted hsource), mapListed_known rfl (Or.inl hcaptured)]

/-- A translation goes through exactly if every mapping of the chain has its text. -/
theorem translateRuntimeRequest_eq_ok {h : MappingHost} {z z' : RuntimeRequest} :
    translateRuntimeRequest h chain manifest z = .ok z' ↔
      (∀ m ∈ chain, ∃ raw, m.toBytes h = .ok raw) ∧ z' = mapChain chain manifest z := by
  constructor
  · intro hok
    have hcommitted : ∀ m ∈ chain, ∃ raw, m.toBytes h = .ok raw := by
      unfold translateRuntimeRequest at hok
      induction chain generalizing z with
      | nil =>
          intro m hm
          cases hm
      | cons m chain ih =>
          rw [List.foldlM_cons] at hok
          obtain ⟨next, hnext, hrest⟩ := bind_eq_ok.1 hok
          obtain ⟨raw, hraw, -⟩ := bind_eq_ok.1 hnext
          intro k hk
          rcases List.mem_cons.1 hk with rfl | hk
          · exact ⟨raw, hraw⟩
          · exact ih hrest k hk
    rw [translateRuntimeRequest_committed hcommitted] at hok
    exact ⟨hcommitted, (Except.ok.inj hok).symm⟩
  · rintro ⟨hcommitted, rfl⟩
    exact translateRuntimeRequest_committed hcommitted manifest z

/-- The text of a mapping has sorted tenants. -/
theorem toBytes_sorted {h : MappingHost} {m : RuntimeMapping} {raw : Bytes}
    (hraw : m.toBytes h = .ok raw) : (m.inputs.tenants.map tenantIdOf).Pairwise (· < ·) := by
  unfold RuntimeMapping.toBytes RuntimeInputs.routes RuntimeInputs.projected at hraw
  simp only [bind_eq_ok] at hraw
  obtain ⟨routes, ⟨target, ⟨original, horiginal, -⟩, -⟩, -⟩ := hraw
  unfold RuntimeInputs.original at horiginal
  simp only [bind_eq_ok, require_eq_ok, decide_eq_true_eq] at horiginal
  obtain ⟨u, -, u', hsorted, -⟩ := horiginal
  exact hsorted

/-- What the translation of a request through a chain of mappings does. -/
structure TranslationLaws (h : MappingHost) (chain : List RuntimeMapping) (manifest : Site)
    (z : RuntimeRequest) : Prop where
  /-- A chain whose generations are new to the captures before them translates a request once:
  translating the result changes nothing. -/
  again : chain.Pairwise (fun m k => Fresh m.inputs k.inputs) →
    ∀ z', translateRuntimeRequest h chain manifest z = .ok z' →
      translateRuntimeRequest h chain manifest z' = .ok z'
  /-- The observation of a tenant whose manifest no mapping captured is left alone, and so is the
  request, unless it observes an archived tenant under the generation a capture had selected. -/
  foreign : (∀ m ∈ chain, ∀ tenant ∈ m.inputs.tenants, tenant.manifest ≠ manifest) →
    ∀ z', translateRuntimeRequest h chain manifest z = .ok z' →
      z'.observed = z.observed ∧
        ((archivedObservation manifest.metadata.id manifest z.observed = true →
          ∀ m ∈ chain, (∀ tenant ∈ m.inputs.tenants, tenantIdOf tenant ≠ manifest.metadata.id) →
            z.generationId ≠ some m.inputs.oldGlobal) → z' = z)
  /-- The observation that the last mapping captured becomes the one it installed, if the mappings
  before it were applied before the capture. -/
  installed : ∀ earlier last, chain = earlier ++ [last] →
    (∀ m ∈ earlier, CapturedAfter m.inputs last.inputs) →
      ∀ source ∈ last.inputs.tenants, source.manifest = manifest →
        z.observed = some source.observedState →
          ∀ z', translateRuntimeRequest h chain manifest z = .ok z' →
            z'.observed = some (projectObserved last.inputs.newGenerationId source.observedState)

theorem translateRuntimeRequest_laws (h : MappingHost) (chain : List RuntimeMapping)
    (manifest : Site) (z : RuntimeRequest) : TranslationLaws h chain manifest z where
  again := by
    intro hfresh z' hz
    obtain ⟨hcommitted, rfl⟩ := translateRuntimeRequest_eq_ok.1 hz
    exact translateRuntimeRequest_eq_ok.2 ⟨hcommitted, (mapChain_idempotent hfresh z).symm⟩
  foreign := by
    intro hforeign z' hz
    obtain ⟨-, rfl⟩ := translateRuntimeRequest_eq_ok.1 hz
    exact ⟨mapChain_observed hforeign z, fun hunlisted => mapChain_foreign hforeign hunlisted⟩
  installed := by
    rintro earlier last rfl horder source hsource rfl hobserved z' hz
    obtain ⟨hcommitted, rfl⟩ := translateRuntimeRequest_eq_ok.1 hz
    obtain ⟨raw, hraw⟩ := hcommitted last (List.mem_append_right _ List.mem_cons_self)
    exact mapChain_installed (toBytes_sorted hraw) horder hsource hobserved

/-- A request that the capture observed is translated to the new generation. -/
theorem sampleRequest_translated :
    ∃ z, translateRuntimeRequest sampleMappingHost [sampleMapping] activeInput.manifest
        ⟨some (sampleId 7), some activeInput.observedState⟩ = .ok z ∧
      z.observed = some (projectObserved (sampleId 9) activeInput.observedState) := by
  have hok : (translateRuntimeRequest sampleMappingHost [sampleMapping] activeInput.manifest
      ⟨some (sampleId 7), some activeInput.observedState⟩).isOk = true := by decide +kernel
  cases hz : translateRuntimeRequest sampleMappingHost [sampleMapping] activeInput.manifest
      ⟨some (sampleId 7), some activeInput.observedState⟩ with
  | error e =>
      rw [hz] at hok
      cases hok
  | ok z =>
      refine ⟨z, rfl, ?_⟩
      exact (translateRuntimeRequest_laws _ _ _ _).installed [] sampleMapping rfl
        (fun _ hmem => absurd hmem List.not_mem_nil) activeInput List.mem_cons_self rfl rfl z hz

end StaticHostAgent.HostRestore
