import StaticHostAgent.Caddy.Routes
import StaticHostAgent.Contracts.TableEncoding

/-!
# Isolation of the tenant routes

For tenant state that `buildTenantCaddyRoutes` accepts: a host belongs to the
content of at most one tenant, no alias is a canonical or platform host, the
hosts of tenants that are not active get the dark response, and the order of the
input does not matter (`route_isolation`). Everything is said of the folded host
of a request; the routes of the configuration are told apart by what a folded
host may be (`TenantHost`, `NetHost`).
-/

set_option autoImplicit false

namespace StaticHostAgent.Caddy

open Library Contracts

/-! ## Hosts of the two domains -/

/-- One label under the tenant domain. -/
def TenantHost (label host : List Char) : Prop :=
  '.' ∉ label ∧ host = label ++ '.' :: tenantDomain.toList

theorem TenantHost.label_eq {a b host : List Char} (ha : TenantHost a host)
    (hb : TenantHost b host) : a = b :=
  List.append_cancel_right (ha.2.symm.trans hb.2)

/-- A host under the tenant domain ends otherwise than a host under the platform domain. -/
theorem TenantHost.not_net {label host front : List Char} (h : TenantHost label host) :
    host ≠ front ++ platformDomain.toList := by
  intro heq
  have hlast := congrArg List.getLast? (h.2.symm.trans heq)
  have htenant : (label ++ '.' :: tenantDomain.toList).getLast? = some 'm' := by
    rw [List.getLast?_append]
    rfl
  have hnet : (front ++ platformDomain.toList).getLast? = some 't' := by
    rw [List.getLast?_append]
    rfl
  rw [htenant, hnet] at hlast
  exact absurd hlast (by decide)

theorem domains_plain :
    (∀ c ∈ platformDomain.toList, hostCharacter c = true) ∧
      ∀ c ∈ tenantDomain.toList, hostCharacter c = true := by
  decide

section Matching

variable {f : HostFolding} {request : Request}

theorem hostMatcher_accepts {hosts : List String} :
    (hostMatcher hosts).accepts f request = true ↔
      ∃ pattern ∈ hosts, hostMatches f pattern request.host = true := by
  simp [hostMatcher, Matcher.accepts]

theorem accepts_single {handle : List Handler} {matcher : Matcher} {terminal : Bool} :
    (Route.mk handle [matcher] terminal).accepts f request = matcher.accepts f request := by
  simp [Route.accepts]

/-- The platform routes take no host under the tenant domain. -/
theorem platform_rejects {label : List Char} (h : TenantHost label (f.text request.host.toList))
    {hosts : List String}
    (hhosts : ∀ pattern ∈ hosts, pattern = platformWildcard ∨
      ∃ front, (∀ c ∈ pattern.toList, hostCharacter c = true) ∧
        pattern.toList = front ++ platformDomain.toList) :
    (hostMatcher hosts).accepts f request = false := by
  rw [Bool.eq_false_iff]
  intro haccepts
  obtain ⟨pattern, hmem, hmatch⟩ := hostMatcher_accepts.mp haccepts
  rcases hhosts pattern hmem with rfl | ⟨front, hplain, hfront⟩
  · obtain ⟨first, _, htext⟩ := (hostMatches_wildcard domains_plain.1).mp hmatch
    refine (@TenantHost.not_net _ _ (first ++ ['.'])) h ?_
    rw [htext, List.append_assoc]
    rfl
  · rw [hostMatches_plain hplain, hfront] at hmatch
    exact h.not_net hmatch

/-- The dark routes take every host under the tenant domain. -/
theorem dark_accepts {label : List Char} (h : TenantHost label (f.text request.host.toList)) :
    (hostMatcher [tenantApex, tenantWildcard]).accepts f request = true := by
  rw [hostMatcher_accepts]
  exact ⟨tenantWildcard, by simp, (hostMatches_wildcard domains_plain.2).mpr ⟨label, h.1, h.2⟩⟩

end Matching

/-! ## Validated tenants -/

/-- The host of a tenant's alias. -/
def TenantRouteInput.aliasHost (t : TenantRouteInput) : String :=
  t.manifest.metadata.slug ++ "." ++ tenantDomain

/-- The host of a tenant's canonical origin. -/
def TenantRouteInput.canonicalHost (t : TenantRouteInput) : String :=
  t.manifest.metadata.canonicalOrigin.text

def TenantRouteInput.isActive (t : TenantRouteInput) : Bool :=
  decide (t.manifest.spec.desiredState = .active)

/-- The directory of the tenant's selected release. -/
def TenantRouteInput.releaseRoot (t : TenantRouteInput) : Option String :=
  t.deployment.map fun deployment =>
    tenantReleaseRoot ++ "/" ++ t.manifest.metadata.id.text ++ "/releases/" ++ deployment.id.text

/-- What a validated tenant has from its input. -/
structure RouteBound (e : Encoding) (source : TenantRouteInput) (v : ValidatedTenantRoute) : Prop
    where
  fields : v.tenantId = source.manifest.metadata.id ∧ v.slug = source.manifest.metadata.slug ∧
    v.canonicalOrigin = source.manifest.metadata.canonicalOrigin ∧
    v.lifecycle = source.manifest.spec.desiredState ∧ v.deployment = source.deployment
  slug : slugPattern v.slug = true
  unreserved : canonicalOriginSlug v.slug = false
  origin : v.canonicalOrigin = canonicalOrigin v.tenantId
  root : validateSelectedDeployment e source = .ok v.releaseRoot

theorem validateSlug_ok {slug : String} (h : validateSlug slug = .ok ()) :
    slugPattern slug = true ∧ canonicalOriginSlug slug = false := by
  unfold validateSlug at h
  obtain ⟨_, hpattern, hreserved⟩ := bind_eq_ok.mp h
  have hfree := require_eq_ok.mp hreserved
  rw [Bool.and_eq_true, Bool.not_eq_true'] at hfree
  exact ⟨require_eq_ok.mp hpattern, hfree.2⟩

theorem liftContract_eq_ok {α : Type} {x : Except ContractError α} {a : α} :
    liftContract x = .ok a ↔ x = .ok a := mapError_eq_ok

theorem routeBound_of_ok {e : Encoding} {source : TenantRouteInput} {v : ValidatedTenantRoute}
    (h : validateTenantRouteInput e source = .ok v) : RouteBound e source v := by
  unfold validateTenantRouteInput at h
  obtain ⟨_, hsite, h⟩ := bind_eq_ok.mp h
  obtain ⟨_, _, h⟩ := bind_eq_ok.mp h
  obtain ⟨_, horigin, h⟩ := bind_eq_ok.mp h
  obtain ⟨_, _, h⟩ := bind_eq_ok.mp h
  obtain ⟨_, _, h⟩ := bind_eq_ok.mp h
  obtain ⟨_, _, h⟩ := bind_eq_ok.mp h
  obtain ⟨_, _, h⟩ := bind_eq_ok.mp h
  obtain ⟨_, _, h⟩ := bind_eq_ok.mp h
  obtain ⟨_, _, h⟩ := bind_eq_ok.mp h
  obtain ⟨root, hroot, h⟩ := bind_eq_ok.mp h
  obtain rfl := pure_eq_ok.mp h
  obtain ⟨⟨_, hsemantic, _⟩, _⟩ := validateContract_eq_ok.mp (liftContract_eq_ok.mp hsite)
  obtain ⟨_, hslug, _⟩ := bind_eq_ok.mp (hsemantic : validateSite source.manifest = .ok ())
  have hfree := validateSlug_ok hslug
  have hderived := of_decide_eq_true (require_eq_ok.mp (liftContract_eq_ok.mp horigin))
  exact ⟨⟨rfl, rfl, rfl, rfl, rfl⟩, hfree.1, hfree.2, hderived, hroot⟩

namespace RouteBound

variable {e : Encoding} {source other : TenantRouteInput} {v w : ValidatedTenantRoute}

theorem aliasHost (b : RouteBound e source v) : v.aliasHost = source.aliasHost := by
  rw [ValidatedTenantRoute.aliasHost, TenantRouteInput.aliasHost, b.fields.2.1]

theorem canonicalHost (b : RouteBound e source v) : v.canonicalHost = source.canonicalHost := by
  rw [ValidatedTenantRoute.canonicalHost, TenantRouteInput.canonicalHost, b.fields.2.2.1]

theorem isActive (b : RouteBound e source v) : v.isActive = source.isActive := by
  rw [ValidatedTenantRoute.isActive, TenantRouteInput.isActive, b.fields.2.2.2.1]

/-- An active tenant's content route serves its own selected release. -/
theorem content (b : RouteBound e source v) (hactive : v.isActive = true) :
    ∃ root, source.releaseRoot = some root ∧ v.releaseRoot = some root ∧
      tenantContentRoute v =
        .ok ⟨releaseHandlers root, [hostMatcher [v.canonicalHost]], true⟩ := by
  have hroot := b.root
  have hstate : source.manifest.spec.desiredState = .active := by
    rw [← b.fields.2.2.2.1]
    exact of_decide_eq_true hactive
  unfold validateSelectedDeployment at hroot
  simp only [hstate] at hroot
  cases hdeployment : source.deployment with
  | none =>
      rw [hdeployment] at hroot
      nomatch hroot
  | some deployment =>
      rw [hdeployment] at hroot
      obtain ⟨_, _, hroot⟩ := bind_eq_ok.mp hroot
      split at hroot
      · nomatch hroot
      · obtain ⟨_, _, hroot⟩ := bind_eq_ok.mp hroot
        obtain ⟨_, _, hroot⟩ := bind_eq_ok.mp hroot
        have hvalue := pure_eq_ok.mp hroot
        refine ⟨_, ?_, hvalue.symm, ?_⟩
        · rw [TenantRouteInput.releaseRoot, hdeployment]
          rfl
        · rw [tenantContentRoute, ← hvalue]

end RouteBound

/-! ## Hosts of tenants -/

theorem slug_plain {slug : String} (h : slugPattern slug = true) :
    '.' ∉ slug.toList ∧ ∀ c ∈ slug.toList, hostCharacter c = true := by
  simp only [slugPattern, Bool.and_eq_true, List.all_eq_true] at h
  have hall := h.1.1.2
  refine ⟨fun hdot => ?_, fun c hc => ?_⟩
  · exact absurd (hall '.' hdot) (by decide)
  · have hslug := hall c hc
    unfold slugCharacter at hslug
    unfold hostCharacter
    rw [hslug]
    rfl

theorem hexDigits_plain {c : Char} (hc : c ∈ hexDigits) : c ≠ '.' ∧ hostCharacter c = true := by
  have hall : ∀ c ∈ hexDigits, c ≠ '.' ∧ hostCharacter c = true := by decide
  exact hall c hc

/-- The label of a canonical host. -/
def originLabel (origin : CanonicalOrigin) : List Char := ['t', '-'] ++ hexNumber origin.label

theorem originLabel_plain (origin : CanonicalOrigin) :
    '.' ∉ originLabel origin ∧ ∀ c ∈ originLabel origin, hostCharacter c = true := by
  have hinitial : ∀ c ∈ ['t', '-'], c ≠ '.' ∧ hostCharacter c = true := by decide
  have hall : ∀ c ∈ originLabel origin, c ≠ '.' ∧ hostCharacter c = true := by
    intro c hc
    rcases List.mem_append.mp hc with hc | hc
    · exact hinitial c hc
    · exact hexDigits_plain (hexNumber_mem hc)
  exact ⟨fun hdot => (hall '.' hdot).1 rfl, fun c hc => (hall c hc).2⟩

theorem canonicalOrigin_host (origin : CanonicalOrigin) :
    TenantHost (originLabel origin) origin.text.toList := by
  refine ⟨(originLabel_plain origin).1, ?_⟩
  rw [CanonicalOrigin.text, String.toList_ofList]
  rfl

theorem alias_host {slug : String} (h : slugPattern slug = true) :
    TenantHost slug.toList (slug ++ "." ++ tenantDomain).toList := by
  refine ⟨(slug_plain h).1, ?_⟩
  rw [String.toList_append, String.toList_append, List.append_assoc]
  rfl

theorem tenantHost_plain {label host : List Char} (h : TenantHost label host)
    (hlabel : ∀ c ∈ label, hostCharacter c = true) : ∀ c ∈ host, hostCharacter c = true := by
  intro c hc
  rw [h.2, List.mem_append, List.mem_cons] at hc
  rcases hc with hc | rfl | hc
  · exact hlabel c hc
  · decide
  · exact domains_plain.2 c hc

/-- The reserved slugs are exactly the labels of canonical hosts. -/
theorem originLabel_reserved {origin : CanonicalOrigin} (hlabel : origin.label < 2 ^ 128)
    {slug : String} (h : slug.toList = originLabel origin) : canonicalOriginSlug slug = true := by
  have hhex : ∀ c ∈ hexDigits,
      (('0' ≤ c && c ≤ '9') || ('a' ≤ c && c ≤ 'f')) = true := by decide
  have hlength : (originLabel origin).length = 34 := by
    rw [originLabel, List.length_append, hexNumber_length hlabel]
    rfl
  have hdrop : (originLabel origin).drop 2 = hexNumber origin.label := rfl
  have htake : (originLabel origin).take 2 = ['t', '-'] := rfl
  unfold canonicalOriginSlug
  simp only [h, hlength, hdrop, htake, List.all_eq_true.mpr fun c hc => hhex c (hexNumber_mem hc)]
  decide

/-- Canonical hosts belong to one tenant. -/
theorem canonicalOrigin_text_injective {a b : Uuid7}
    (h : (canonicalOrigin a).text = (canonicalOrigin b).text) : a = b := by
  have ha := canonicalOrigin_host (canonicalOrigin a)
  have hb := canonicalOrigin_host (canonicalOrigin b)
  rw [h] at ha
  have hlabel := ha.label_eq hb
  have hhex := List.append_cancel_left hlabel
  exact Uuid7.packed_injective (hexNumber_injective a.packed_lt b.packed_lt hhex)

/-! ## The accepted configuration -/

/-- What an accepted call has checked of its tenants, and the route lists it produced. -/
structure RoutesBuilt (e : Encoding) (tenants : List TenantRouteInput)
    (config : TenantCaddyRoutes) (validated : List ValidatedTenantRoute)
    (contentRoutes : List Route) : Prop where
  bound : ∀ t ∈ tenants, ∃ v ∈ validated, RouteBound e t v
  source : ∀ v ∈ validated, ∃ t ∈ tenants, RouteBound e t v
  ids : (tenants.map fun t => t.manifest.metadata.id).Nodup
  slugs : (tenants.map fun t => t.manifest.metadata.slug).Nodup
  content : (validated.filter ValidatedTenantRoute.isActive).mapM tenantContentRoute =
    .ok contentRoutes
  production : config.production.routes =
    productionRoutes contentRoutes (validated.filter ValidatedTenantRoute.isActive)
  http : config.http.routes = httpRoutes (validated.filter ValidatedTenantRoute.isActive)

theorem mem_sortTenants {tenants : List ValidatedTenantRoute} {v : ValidatedTenantRoute} :
    v ∈ sortTenants tenants ↔ v ∈ tenants :=
  (List.perm_insertionSort _ tenants).mem_iff

theorem requireUniqueTenantRoutes_ok {tenants : List ValidatedTenantRoute}
    (h : requireUniqueTenantRoutes tenants = .ok ()) :
    (tenants.map ValidatedTenantRoute.tenantId).Nodup ∧
      (tenants.map ValidatedTenantRoute.slug).Nodup := by
  unfold requireUniqueTenantRoutes at h
  obtain ⟨_, hids, h⟩ := bind_eq_ok.mp h
  obtain ⟨_, hslugs, _⟩ := bind_eq_ok.mp h
  exact ⟨of_decide_eq_true (require_eq_ok.mp hids), of_decide_eq_true (require_eq_ok.mp hslugs)⟩

theorem forall₂_mem_left {α β : Type} {r : α → β → Prop} {as : List α} {bs : List β}
    (h : List.Forall₂ r as bs) {a : α} (ha : a ∈ as) : ∃ b ∈ bs, r a b := by
  induction h with
  | nil => nomatch ha
  | cons hab _ ih =>
      rcases List.mem_cons.mp ha with rfl | ha
      · exact ⟨_, List.mem_cons_self, hab⟩
      · obtain ⟨b, hb, hr⟩ := ih ha
        exact ⟨b, List.mem_cons_of_mem _ hb, hr⟩

theorem forall₂_mem_right {α β : Type} {r : α → β → Prop} {as : List α} {bs : List β}
    (h : List.Forall₂ r as bs) {b : β} (hb : b ∈ bs) : ∃ a ∈ as, r a b :=
  forall₂_mem_left (r := flip r) (List.Forall₂.flip h) hb

theorem forall₂_map_eq {α β γ : Type} {r : α → β → Prop} {f : α → γ} {g : β → γ}
    (hr : ∀ a b, r a b → g b = f a) {as : List α} {bs : List β} (h : List.Forall₂ r as bs) :
    bs.map g = as.map f := by
  induction h with
  | nil => rfl
  | cons hab _ ih => rw [List.map_cons, List.map_cons, hr _ _ hab, ih]

section Built

variable {e : Encoding} {codec : RouteCodec} {platformNamespace : PlatformNamespace}
  {tenants : List TenantRouteInput} {runtimeGenerationId : Uuid7} {originPullCaDer : List Bytes}
  {originPullRequired : Bool} {config : TenantCaddyRoutes}

theorem routesBuilt_of_ok
    (h : buildTenantCaddyRoutes e codec platformNamespace tenants runtimeGenerationId
      originPullCaDer originPullRequired = .ok config) :
    ∃ validated contentRoutes, RoutesBuilt e tenants config validated contentRoutes := by
  unfold buildTenantCaddyRoutes at h
  obtain ⟨_, _, h⟩ := bind_eq_ok.mp h
  obtain ⟨_, _, h⟩ := bind_eq_ok.mp h
  obtain ⟨inputs, hinputs, h⟩ := bind_eq_ok.mp h
  obtain ⟨_, hunique, h⟩ := bind_eq_ok.mp h
  obtain ⟨contentRoutes, hcontent, h⟩ := bind_eq_ok.mp h
  obtain ⟨_, _, h⟩ := bind_eq_ok.mp h
  obtain ⟨_, _, h⟩ := bind_eq_ok.mp h
  obtain rfl := pure_eq_ok.mp h
  have hall := mapM_eq_ok_iff.mp hinputs
  obtain ⟨hids, hslugs⟩ := requireUniqueTenantRoutes_ok hunique
  have hperm := List.perm_insertionSort (fun a b : ValidatedTenantRoute => a.tenantId ≤ b.tenantId)
    inputs
  refine ⟨sortTenants inputs, contentRoutes, ?_, ?_, ?_, ?_, hcontent, rfl, rfl⟩
  · intro t ht
    obtain ⟨v, hv, hok⟩ := forall₂_mem_left hall ht
    exact ⟨v, mem_sortTenants.mpr hv, routeBound_of_ok hok⟩
  · intro v hv
    obtain ⟨t, ht, hok⟩ := forall₂_mem_right hall (mem_sortTenants.mp hv)
    exact ⟨t, ht, routeBound_of_ok hok⟩
  · have hmap := forall₂_map_eq (f := fun t : TenantRouteInput => t.manifest.metadata.id)
      (g := ValidatedTenantRoute.tenantId) (fun _ _ hok => (routeBound_of_ok hok).fields.1) hall
    rw [← hmap]
    exact (hperm.map _).nodup_iff.mp hids
  · have hmap := forall₂_map_eq (f := fun t : TenantRouteInput => t.manifest.metadata.slug)
      (g := ValidatedTenantRoute.slug) (fun _ _ hok => (routeBound_of_ok hok).fields.2.1) hall
    rw [← hmap]
    exact (hperm.map _).nodup_iff.mp hslugs

end Built

/-- The route that serves the tenant's selected release. -/
def TenantRouteInput.contentRoute (t : TenantRouteInput) : Option Route :=
  t.releaseRoot.map fun root => ⟨releaseHandlers root, [hostMatcher [t.canonicalHost]], true⟩

namespace RoutesBuilt

variable {e : Encoding} {tenants : List TenantRouteInput} {config : TenantCaddyRoutes}
  {validated : List ValidatedTenantRoute} {contentRoutes : List Route}
  {t u : TenantRouteInput} (built : RoutesBuilt e tenants config validated contentRoutes)

theorem canonical_host :
    TenantHost (originLabel t.manifest.metadata.canonicalOrigin) t.canonicalHost.toList :=
  canonicalOrigin_host _

theorem canonical_plain : ∀ c ∈ t.canonicalHost.toList, hostCharacter c = true :=
  tenantHost_plain (canonicalOrigin_host _) (originLabel_plain _).2

include built

theorem same_tenant (ht : t ∈ tenants) (hu : u ∈ tenants)
    (h : t.manifest.metadata.id = u.manifest.metadata.id) : t = u :=
  List.inj_on_of_nodup_map built.ids ht hu h

theorem same_slug (ht : t ∈ tenants) (hu : u ∈ tenants)
    (h : t.manifest.metadata.slug = u.manifest.metadata.slug) : t = u :=
  List.inj_on_of_nodup_map built.slugs ht hu h

/-- The checked facts of an input, under the names of the manifest. -/
theorem checked (ht : t ∈ tenants) :
    slugPattern t.manifest.metadata.slug = true ∧
      canonicalOriginSlug t.manifest.metadata.slug = false ∧
      t.manifest.metadata.canonicalOrigin = canonicalOrigin t.manifest.metadata.id := by
  obtain ⟨v, _, b⟩ := built.bound t ht
  obtain ⟨hid, hslug, horigin, _⟩ := b.fields
  rw [← hslug, ← horigin, ← hid]
  exact ⟨b.slug, b.unreserved, b.origin⟩

theorem alias_host (ht : t ∈ tenants) :
    TenantHost t.manifest.metadata.slug.toList t.aliasHost.toList :=
  Caddy.alias_host (built.checked ht).1

theorem alias_plain (ht : t ∈ tenants) : ∀ c ∈ t.aliasHost.toList, hostCharacter c = true :=
  tenantHost_plain (built.alias_host ht) (slug_plain (built.checked ht).1).2

/-- Tenants with one canonical host are one tenant. -/
theorem canonical_unique (ht : t ∈ tenants) (hu : u ∈ tenants)
    (h : t.canonicalHost.toList = u.canonicalHost.toList) : t = u := by
  refine built.same_tenant ht hu (canonicalOrigin_text_injective ?_)
  rw [← (built.checked ht).2.2, ← (built.checked hu).2.2]
  exact String.toList_inj.mp h

/-- Tenants with one alias are one tenant. -/
theorem alias_unique (ht : t ∈ tenants) (hu : u ∈ tenants)
    (h : t.aliasHost.toList = u.aliasHost.toList) : t = u := by
  have hother := built.alias_host hu
  rw [← h] at hother
  have hlabel := (built.alias_host ht).label_eq hother
  exact built.same_slug ht hu (String.toList_inj.mp hlabel)

/-- An alias is no canonical host, because the labels of canonical hosts are reserved slugs. -/
theorem alias_ne_canonical (ht : t ∈ tenants) (hu : u ∈ tenants) :
    t.aliasHost.toList ≠ u.canonicalHost.toList := by
  intro h
  have hother := @canonical_host u
  rw [← h] at hother
  have hlabel := (built.alias_host ht).label_eq hother
  obtain ⟨_, hfree, _⟩ := built.checked ht
  obtain ⟨_, _, horigin⟩ := built.checked hu
  have hbound : u.manifest.metadata.canonicalOrigin.label < 2 ^ 128 := by
    rw [horigin]
    exact Uuid7.packed_lt _
  rw [originLabel_reserved hbound hlabel] at hfree
  nomatch hfree

/-- The content routes are those of the active tenants. -/
theorem mem_contentRoutes {route : Route} (h : route ∈ contentRoutes) :
    ∃ t ∈ tenants, t.isActive = true ∧ t.contentRoute = some route := by
  obtain ⟨v, hv, hok⟩ := forall₂_mem_right (mapM_eq_ok_iff.mp built.content) h
  obtain ⟨hmem, hactive⟩ := List.mem_filter.mp hv
  obtain ⟨t, ht, b⟩ := built.source v hmem
  obtain ⟨root, hroot, _, hcontent⟩ := b.content hactive
  rw [hcontent] at hok
  obtain rfl := Except.ok.inj hok
  refine ⟨t, ht, b.isActive ▸ hactive, ?_⟩
  rw [TenantRouteInput.contentRoute, hroot, b.canonicalHost]
  rfl

theorem mem_aliasRoutes {route : Route}
    (h : route ∈ (validated.filter ValidatedTenantRoute.isActive).map tenantAliasRoute) :
    ∃ t ∈ tenants, t.isActive = true ∧ ∃ v, RouteBound e t v ∧ route = tenantAliasRoute v := by
  obtain ⟨v, hv, rfl⟩ := List.mem_map.mp h
  obtain ⟨hmem, hactive⟩ := List.mem_filter.mp hv
  obtain ⟨t, ht, b⟩ := built.source v hmem
  exact ⟨t, ht, b.isActive ▸ hactive, v, b, rfl⟩

end RoutesBuilt

/-! ## Who answers -/

section Answers

variable {f : HostFolding} {request : Request} {t : TenantRouteInput} {route : Route}

theorem contentRoute_accepts (h : t.contentRoute = some route) :
    route.accepts f request = true ↔ f.text request.host.toList = t.canonicalHost.toList := by
  obtain ⟨root, _, rfl⟩ := Option.map_eq_some_iff.mp h
  rw [accepts_single, hostMatcher_accepts, ← hostMatches_plain RoutesBuilt.canonical_plain]
  simp

theorem aliasRoute_accepts {e : Encoding} {v : ValidatedTenantRoute} (b : RouteBound e t v)
    (hplain : ∀ c ∈ t.aliasHost.toList, hostCharacter c = true)
    (h : (tenantAliasRoute v).accepts f request = true) :
    f.text request.host.toList = t.aliasHost.toList := by
  rw [tenantAliasRoute, accepts_single] at h
  simp only [Matcher.accepts, Bool.and_eq_true, List.any_eq_true, List.mem_singleton] at h
  obtain ⟨pattern, rfl, hmatch⟩ := h.1.1.1
  rw [b.aliasHost] at hmatch
  exact (hostMatches_plain hplain).mp hmatch

theorem firstMatch_append_of_rejects {before after : List Route}
    (h : ∀ r ∈ before, r.accepts f request = false) :
    firstMatch f (before ++ after) request = firstMatch f after request := by
  have hnone : before.find? (fun r => r.accepts f request) = none := by
    rw [List.find?_eq_none]
    intro r hr
    rw [h r hr]
    simp
  rw [firstMatch, firstMatch, List.find?_append, hnone, Option.none_or]

theorem firstMatch_cons_of_accepts {after : List Route} (h : route.accepts f request = true) :
    firstMatch f (route :: after) request = some route :=
  List.find?_cons_of_pos h

/-- The fixed hosts of the platform domain. -/
def platformNames : List String :=
  [platformApex] ++ platformCompatibilityHosts ++ [platformSecureHost]

theorem platformNames_net {pattern : String} (h : pattern ∈ platformNames) :
    ∃ front, (∀ c ∈ pattern.toList, hostCharacter c = true) ∧
      pattern.toList = front ++ platformDomain.toList := by
  simp only [platformNames, platformCompatibilityHosts, List.mem_append, List.mem_cons,
    List.not_mem_nil, or_false] at h
  rcases h with (rfl | rfl | rfl) | rfl
  · exact ⟨[], by decide, rfl⟩
  · exact ⟨"hosting.".toList, by decide, rfl⟩
  · exact ⟨"www.".toList, by decide, rfl⟩
  · exact ⟨"secure.".toList, by decide, rfl⟩

/-- A route whose patterns are names of the platform takes no host under the tenant domain. -/
theorem platformRoute_rejects {label : List Char}
    (h : TenantHost label (f.text request.host.toList)) {handle : List Handler}
    {hosts : List String}
    (hhosts : ∀ pattern ∈ hosts, pattern = platformWildcard ∨ pattern ∈ platformNames) :
    (Route.mk handle [hostMatcher hosts] true).accepts f request = false := by
  rw [accepts_single]
  refine platform_rejects h ?_
  intro pattern hmem
  rcases hhosts pattern hmem with hwildcard | hname
  · exact .inl hwildcard
  · exact .inr (platformNames_net hname)

/-- The fixed routes before the tenants' take no host under the tenant domain. -/
theorem platformRoutes_reject {label : List Char}
    (h : TenantHost label (f.text request.host.toList)) :
    ∀ r ∈ [compatibilityRedirectRoute, platformApexRoute, platformUnknownRoute],
      r.accepts f request = false := by
  intro r hr
  simp only [List.mem_cons, List.not_mem_nil, or_false] at hr
  rcases hr with rfl | rfl | rfl
  · exact platformRoute_rejects h fun pattern hmem => .inr (by simp [platformNames, hmem])
  · exact platformRoute_rejects h fun pattern hmem => .inr (by
      simp [platformNames, List.mem_singleton.mp hmem])
  · refine platformRoute_rejects h fun pattern hmem => ?_
    rcases List.mem_cons.mp hmem with rfl | hmem
    · exact .inr (by simp [platformNames])
    · exact .inl (List.mem_singleton.mp hmem)

theorem plainHttpPlatformRoute_rejects {label : List Char}
    (h : TenantHost label (f.text request.host.toList)) :
    plainHttpPlatformRoute.accepts f request = false := by
  refine platformRoute_rejects h fun pattern hmem => ?_
  simp only [List.mem_append, List.mem_cons, List.not_mem_nil, or_false] at hmem
  rcases hmem with (hmem | hmem) | hmem | hmem
  · exact .inr (by simp [platformNames, hmem])
  · exact .inr (by simp [platformNames, hmem])
  · exact .inr (by simp [platformNames, hmem])
  · exact .inl hmem

theorem tenantNamespaceDarkRoute_accepts {label : List Char}
    (h : TenantHost label (f.text request.host.toList)) :
    tenantNamespaceDarkRoute.accepts f request = true := by
  rw [tenantNamespaceDarkRoute, accepts_single]
  exact dark_accepts h

theorem plainHttpTenantRoute_accepts {label : List Char}
    (h : TenantHost label (f.text request.host.toList)) :
    plainHttpTenantRoute.accepts f request = true := by
  rw [plainHttpTenantRoute, accepts_single]
  exact dark_accepts h

end Answers

namespace RoutesBuilt

variable {e : Encoding} {tenants : List TenantRouteInput} {config : TenantCaddyRoutes}
  {validated : List ValidatedTenantRoute} {contentRoutes : List Route}
  {f : HostFolding} {request : Request} {t : TenantRouteInput}
  (built : RoutesBuilt e tenants config validated contentRoutes)

include built

/-- The hosts of a tenant are under the tenant domain. -/
theorem own_host (ht : t ∈ tenants) (hhost : f.text request.host.toList = t.canonicalHost.toList ∨
      f.text request.host.toList = t.aliasHost.toList) :
    ∃ label, TenantHost label (f.text request.host.toList) := by
  rcases hhost with h | h
  · exact ⟨_, h ▸ canonical_host⟩
  · exact ⟨_, h ▸ built.alias_host ht⟩

/-- No content route takes a host of a tenant that is not active. -/
theorem content_rejects (ht : t ∈ tenants) (hinactive : t.isActive = false)
    (hhost : f.text request.host.toList = t.canonicalHost.toList ∨
      f.text request.host.toList = t.aliasHost.toList) :
    ∀ r ∈ contentRoutes, r.accepts f request = false := by
  intro r hr
  rw [Bool.eq_false_iff]
  intro haccepts
  obtain ⟨u, hu, hactive, hroute⟩ := built.mem_contentRoutes hr
  have hother := (contentRoute_accepts hroute).mp haccepts
  rcases hhost with h | h
  · rw [h] at hother
    rw [built.canonical_unique ht hu hother, hactive] at hinactive
    nomatch hinactive
  · rw [h] at hother
    exact built.alias_ne_canonical ht hu hother

/-- No alias route takes a host of a tenant that is not active. -/
theorem alias_rejects (ht : t ∈ tenants) (hinactive : t.isActive = false)
    (hhost : f.text request.host.toList = t.canonicalHost.toList ∨
      f.text request.host.toList = t.aliasHost.toList) :
    ∀ r ∈ (validated.filter ValidatedTenantRoute.isActive).map tenantAliasRoute,
      r.accepts f request = false := by
  intro r hr
  rw [Bool.eq_false_iff]
  intro haccepts
  obtain ⟨u, hu, hactive, v, b, rfl⟩ := built.mem_aliasRoutes hr
  have hother := aliasRoute_accepts b (built.alias_plain hu) haccepts
  rcases hhost with h | h
  · rw [h] at hother
    exact built.alias_ne_canonical hu ht hother.symm
  · rw [h] at hother
    rw [built.alias_unique ht hu hother, hactive] at hinactive
    nomatch hinactive

/-- Hosts of tenants that are not active are answered by the dark responses. -/
theorem inactive_dark (ht : t ∈ tenants) (hinactive : t.isActive = false)
    (hhost : f.text request.host.toList = t.canonicalHost.toList ∨
      f.text request.host.toList = t.aliasHost.toList) :
    firstMatch f config.production.routes request = some tenantNamespaceDarkRoute ∧
      firstMatch f config.http.routes request = some plainHttpTenantRoute := by
  obtain ⟨label, hown⟩ := built.own_host ht hhost
  have hcontent := built.content_rejects ht hinactive hhost
  have halias := built.alias_rejects ht hinactive hhost
  constructor
  · rw [built.production, productionRoutes, List.append_assoc, List.append_assoc,
      firstMatch_append_of_rejects (platformRoutes_reject hown),
      firstMatch_append_of_rejects hcontent, firstMatch_append_of_rejects halias]
    exact firstMatch_cons_of_accepts (tenantNamespaceDarkRoute_accepts hown)
  · rw [built.http, httpRoutes, List.append_assoc,
      firstMatch_append_of_rejects (fun r hr => by
        rw [List.mem_singleton.mp hr]
        exact plainHttpPlatformRoute_rejects hown),
      firstMatch_append_of_rejects halias]
    exact firstMatch_cons_of_accepts (plainHttpTenantRoute_accepts hown)

/-- Every request for the canonical host of an active tenant gets that tenant's content. -/
theorem active_content (ht : t ∈ tenants) (hactive : t.isActive = true)
    (hhost : f.text request.host.toList = t.canonicalHost.toList) :
    ∃ route, t.contentRoute = some route ∧
      firstMatch f config.production.routes request = some route := by
  obtain ⟨label, hown⟩ := built.own_host ht (.inl hhost)
  obtain ⟨v, hv, b⟩ := built.bound t ht
  have hvActive : v.isActive = true := b.isActive ▸ hactive
  obtain ⟨root, hroot, _, hcontent⟩ := b.content hvActive
  obtain ⟨own, hown', hok⟩ := forall₂_mem_left (mapM_eq_ok_iff.mp built.content)
    (List.mem_filter.mpr ⟨hv, hvActive⟩)
  have hroute : t.contentRoute = some own := by
    rw [hcontent] at hok
    rw [TenantRouteInput.contentRoute, hroot, ← b.canonicalHost, ← Except.ok.inj hok]
    rfl
  refine ⟨own, hroute, ?_⟩
  rw [built.production, productionRoutes, List.append_assoc, List.append_assoc,
    firstMatch_append_of_rejects (platformRoutes_reject hown)]
  -- the first content route that accepts belongs to the same host, so to the same tenant
  have hsome : (contentRoutes.find? fun r => r.accepts f request).isSome = true := by
    rw [List.find?_isSome]
    exact ⟨own, hown', (contentRoute_accepts hroute).mpr hhost⟩
  obtain ⟨first, hfirst⟩ := Option.isSome_iff_exists.mp hsome
  obtain ⟨u, hu, _, hother⟩ := built.mem_contentRoutes (List.mem_of_find?_eq_some hfirst)
  have haccepts : first.accepts f request = true := by simpa using List.find?_some hfirst
  have hsame := (contentRoute_accepts hother).mp haccepts
  rw [hhost] at hsame
  obtain rfl := built.canonical_unique ht hu hsame
  rw [firstMatch, List.find?_append, hfirst, ← hroute, hother]
  rfl

/-- A file server answers for the platform fixture, or for an active tenant at its own
canonical host. -/
theorem content_only {route : Route}
    (h : firstMatch f config.production.routes request = some route)
    (hfiles : Handler.fileServer ∈ route.handle) :
    route = platformApexRoute ∨ ∃ t ∈ tenants, t.isActive = true ∧ t.contentRoute = some route ∧
      f.text request.host.toList = t.canonicalHost.toList := by
  have hmem := List.mem_of_find?_eq_some h
  have haccepts : route.accepts f request = true := by simpa using List.find?_some h
  rw [built.production, productionRoutes] at hmem
  simp only [List.mem_append] at hmem
  rcases hmem with ((hmem | hmem) | hmem) | hmem
  · simp only [List.mem_cons, List.not_mem_nil, or_false] at hmem
    rcases hmem with rfl | rfl | rfl
    · exact absurd hfiles (by decide)
    · exact .inl rfl
    · exact absurd hfiles (by decide)
  · obtain ⟨t, ht, hactive, hroute⟩ := built.mem_contentRoutes hmem
    exact .inr ⟨t, ht, hactive, hroute, (contentRoute_accepts hroute).mp haccepts⟩
  · obtain ⟨_, _, _, v, _, rfl⟩ := built.mem_aliasRoutes hmem
    simp [tenantAliasRoute] at hfiles
  · simp only [List.mem_cons, List.not_mem_nil, or_false] at hmem
    rcases hmem with rfl | rfl
    · exact absurd hfiles (by decide)
    · exact absurd hfiles (by decide)

/-- The server on port 80 serves no files. -/
theorem http_no_content {route : Route} (h : route ∈ config.http.routes) :
    Handler.fileServer ∉ route.handle := by
  rw [built.http, httpRoutes] at h
  simp only [List.mem_append, List.mem_cons, List.not_mem_nil, or_false] at h
  rcases h with (rfl | h) | rfl | rfl
  · decide
  · obtain ⟨_, _, _, v, _, rfl⟩ := built.mem_aliasRoutes h
    simp [tenantAliasRoute]
  · decide
  · decide

end RoutesBuilt

/-! ## The order of the tenants -/

theorem sortTenants_perm {tenants others : List ValidatedTenantRoute} (hperm : tenants.Perm others)
    (hids : (tenants.map ValidatedTenantRoute.tenantId).Nodup) :
    sortTenants tenants = sortTenants others := by
  have htotal : Std.Total fun a b : ValidatedTenantRoute => a.tenantId ≤ b.tenantId :=
    ⟨fun a b => le_total a.tenantId b.tenantId⟩
  have htrans : IsTrans ValidatedTenantRoute fun a b => a.tenantId ≤ b.tenantId :=
    ⟨fun _ _ _ => le_trans⟩
  refine List.Perm.eq_of_pairwise ?_ (List.pairwise_insertionSort _ tenants)
    (List.pairwise_insertionSort _ others) ?_
  · intro a b ha hb hab hba
    have hmem : b ∈ tenants := hperm.mem_iff.mpr (mem_sortTenants.mp hb)
    exact List.inj_on_of_nodup_map hids (mem_sortTenants.mp ha) hmem (le_antisymm hab hba)
  · exact (List.perm_insertionSort _ tenants).trans
      (hperm.trans (List.perm_insertionSort _ others).symm)

section Order

variable {e : Encoding} {codec : RouteCodec} {platformNamespace : PlatformNamespace}
  {tenants : List TenantRouteInput} {runtimeGenerationId : Uuid7} {originPullCaDer : List Bytes}
  {originPullRequired : Bool} {config : TenantCaddyRoutes}

/-- The whole configuration does not depend on the order of the tenants. -/
theorem build_perm {others : List TenantRouteInput} (hperm : tenants.Perm others)
    (h : buildTenantCaddyRoutes e codec platformNamespace tenants runtimeGenerationId
      originPullCaDer originPullRequired = .ok config) :
    buildTenantCaddyRoutes e codec platformNamespace others runtimeGenerationId originPullCaDer
      originPullRequired = .ok config := by
  unfold buildTenantCaddyRoutes at h ⊢
  obtain ⟨_, hnamespace, h⟩ := bind_eq_ok.mp h
  obtain ⟨certs, hcerts, h⟩ := bind_eq_ok.mp h
  obtain ⟨inputs, hinputs, h⟩ := bind_eq_ok.mp h
  obtain ⟨inputs', hinputs', hsame⟩ := mapM_perm hperm hinputs
  obtain ⟨_, hunique, _⟩ := bind_eq_ok.mp h
  have hids : (inputs.map ValidatedTenantRoute.tenantId).Nodup :=
    ((List.perm_insertionSort _ inputs).map _).nodup_iff.mp (requireUniqueTenantRoutes_ok hunique).1
  have hsort := sortTenants_perm hsame hids
  rw [hnamespace, hcerts, ok_bind, ok_bind, hinputs', ok_bind, ← hsort]
  exact h

/-- A tenant whose content the host matches on the server that serves content. -/
def HostsContent (f : HostFolding) (config : TenantCaddyRoutes) (t : TenantRouteInput)
    (host : String) : Prop :=
  ∃ route ∈ config.production.routes, t.contentRoute = some route ∧
    ∃ request : Request, request.host = host ∧ route.accepts f request = true

/-- The fixed hosts of the platform and of the tenant domain. -/
def platformHosts : List String :=
  [platformApex] ++ platformCompatibilityHosts ++
    [platformSecureHost, platformWildcard, tenantApex, tenantWildcard]

theorem alias_not_platform {slug : String} (h : slugPattern slug = true) :
    slug ++ "." ++ tenantDomain ∉ platformHosts := by
  intro hmem
  have hhost := alias_host h
  have hnames : slug ++ "." ++ tenantDomain ∉ platformNames := by
    intro hname
    obtain ⟨front, _, hfront⟩ := platformNames_net hname
    exact hhost.not_net hfront
  simp only [platformHosts, List.mem_append, List.mem_cons, List.not_mem_nil, or_false] at hmem
  rcases hmem with (hmem | hmem) | hmem | hmem | hmem | hmem
  · exact hnames (by simp [platformNames, hmem])
  · exact hnames (by simp [platformNames, hmem])
  · exact hnames (by simp [platformNames, hmem])
  · exact (@TenantHost.not_net _ _ "*.".toList) hhost (by rw [hmem]; rfl)
  · have hlength := congrArg (fun text => text.toList.length) hmem
    simp only [hhost.2, List.length_append, List.length_cons, tenantApex] at hlength
    omega
  · have hwild : TenantHost ['*'] (slug ++ "." ++ tenantDomain).toList := by
      rw [hmem]
      exact ⟨by decide, rfl⟩
    have hstar := (slug_plain h).2 '*' (by rw [hhost.label_eq hwild]; simp)
    exact absurd hstar (by decide)

/-- Route isolation: for every accepted set of tenants and every request, content belongs to one
tenant and only its canonical host reaches it, aliases are no canonical or platform hosts,
tenants that are not active are dark, and the order of the tenants does not matter. -/
theorem route_isolation (f : HostFolding)
    (h : buildTenantCaddyRoutes e codec platformNamespace tenants runtimeGenerationId
      originPullCaDer originPullRequired = .ok config) :
    (∀ t ∈ tenants, ∀ u ∈ tenants, ∀ host, HostsContent f config t host →
      HostsContent f config u host → t = u) ∧
    (∀ request route, firstMatch f config.production.routes request = some route →
      Handler.fileServer ∈ route.handle → route = platformApexRoute ∨
        ∃ t ∈ tenants, t.isActive = true ∧ t.contentRoute = some route ∧
          f.text request.host.toList = t.canonicalHost.toList) ∧
    (∀ t ∈ tenants, t.isActive = true → ∀ request : Request,
      f.text request.host.toList = t.canonicalHost.toList →
        ∃ route, t.contentRoute = some route ∧
          firstMatch f config.production.routes request = some route) ∧
    (∀ route ∈ config.http.routes, Handler.fileServer ∉ route.handle) ∧
    (∀ t ∈ tenants, t.aliasHost ∉ platformHosts ∧ ∀ u ∈ tenants, t.aliasHost ≠ u.canonicalHost) ∧
    (∀ t ∈ tenants, t.isActive = false → ∀ request : Request,
      (f.text request.host.toList = t.canonicalHost.toList ∨
        f.text request.host.toList = t.aliasHost.toList) →
      firstMatch f config.production.routes request = some tenantNamespaceDarkRoute ∧
        firstMatch f config.http.routes request = some plainHttpTenantRoute) ∧
    ∀ others : List TenantRouteInput, tenants.Perm others →
      buildTenantCaddyRoutes e codec platformNamespace others runtimeGenerationId originPullCaDer
        originPullRequired = .ok config := by
  obtain ⟨validated, contentRoutes, built⟩ := routesBuilt_of_ok h
  refine ⟨?_, ?_, ?_, ?_, ?_, ?_, fun others hperm => build_perm hperm h⟩
  · rintro t ht u hu host ⟨route, _, hroute, request, rfl, haccepts⟩
      ⟨route', _, hroute', request', hhost, haccepts'⟩
    have hcanonical := (contentRoute_accepts hroute).mp haccepts
    have hcanonical' := (contentRoute_accepts hroute').mp haccepts'
    rw [hhost, hcanonical] at hcanonical'
    exact built.canonical_unique ht hu hcanonical'
  · intro request route hfirst hfiles
    exact built.content_only hfirst hfiles
  · intro t ht hactive request hhost
    exact built.active_content ht hactive hhost
  · intro route hmem
    exact built.http_no_content hmem
  · intro t ht
    refine ⟨alias_not_platform (built.checked ht).1, fun u hu heq => ?_⟩
    exact built.alias_ne_canonical ht hu (congrArg String.toList heq)
  · intro t ht hinactive request hhost
    exact built.inactive_dark ht hinactive hhost

end Order

/-! ## Two tenants -/

/-- Folding of the Latin letters, which is all of it for ASCII hosts. -/
def asciiFolding : HostFolding where
  fold := Char.toLower
  plain := by
    intro c h
    unfold Char.toLower
    split
    · rename_i hupper
      simp only [hostCharacter, Bool.or_eq_true, Bool.and_eq_true, decide_eq_true_eq, beq_iff_eq,
        Char.le_def, UInt32.le_iff_toNat_le, ge_iff_le] at h hupper
      rcases h with ((h | h) | rfl) | rfl
      · have hbelow : 'Z'.val.toNat < 'a'.val.toNat := by decide
        omega
      · have hbelow : '9'.val.toNat < 'A'.val.toNat := by decide
        omega
      · exact absurd hupper (by decide)
      · exact absurd hupper (by decide)
    · rfl
  dot := by
    intro c h
    unfold Char.toLower at h
    split at h
    · rename_i hupper
      have hvalue := congrArg (fun c => c.val.toNat) h
      simp only [UInt32.toNat_add, ge_iff_le, UInt32.le_iff_toNat_le] at hvalue hupper
      have hdot : '.'.val.toNat = 46 := rfl
      have hlow : 'A'.val.toNat = 65 := rfl
      have hhigh : 'Z'.val.toNat = 90 := rfl
      have hshift : ('a'.val - 'A'.val).toNat = 32 := rfl
      omega
    · exact h

def activeDeployment : DeploymentRecord :=
  ⟨sampleId 5, sampleTenant, 0, ⟨.releaseTree, 0⟩, sampleTime, sampleCorrelation, none⟩

/-- An active tenant. -/
def activeInput : TenantRouteInput :=
  ⟨sampleSite .active (some (sampleId 5)),
    sampleObserved (placeDigest .manifest 0) .active (some (sampleId 5)) (some (sampleId 7)),
    some activeDeployment⟩

/-- A tenant without a deployment. -/
def undeployedInput : TenantRouteInput :=
  ⟨⟨⟨sampleId 6, "other", canonicalOrigin (sampleId 6)⟩, ⟨.undeployed, ⟨1, 1⟩, none⟩⟩,
    ⟨sampleId 6, placeDigest .manifest 1, .undeployed, none, none, sampleTime⟩, none⟩

noncomputable def routeEncoding : Encoding :=
  tableEncoding [.site activeInput.manifest, .site undeployedInput.manifest,
    .tenantObservedState activeInput.observedState,
    .tenantObservedState undeployedInput.observedState, .deploymentRecord activeDeployment]

/-- The certificate of the example is the single byte one. -/
def routeCodec : RouteCodec := ⟨fun _ => "AQ==", fun _ => .ok 0⟩

theorem undeployed_alias_dark :
    ∃ config, buildTenantCaddyRoutes routeEncoding routeCodec ⟨tenantDomain, sampleTime⟩
        [activeInput, undeployedInput] sampleIntentId [[1]] true = .ok config ∧
      firstMatch asciiFolding config.production.routes
        ⟨"OTHER.lowerduckpond.com", "GET", "/", ""⟩ = some tenantNamespaceDarkRoute := by
  have haccepted : (buildTenantCaddyRoutes routeEncoding routeCodec ⟨tenantDomain, sampleTime⟩
      [activeInput, undeployedInput] sampleIntentId [[1]] true).toBool = true := by
    rfl
  cases hbuild : buildTenantCaddyRoutes routeEncoding routeCodec ⟨tenantDomain, sampleTime⟩
      [activeInput, undeployedInput] sampleIntentId [[1]] true with
  | error error =>
      rw [hbuild] at haccepted
      nomatch haccepted
  | ok config =>
      refine ⟨config, rfl, ?_⟩
      have hdark := (route_isolation asciiFolding hbuild).2.2.2.2.2.1 undeployedInput (by simp)
        (by decide) ⟨"OTHER.lowerduckpond.com", "GET", "/", ""⟩ (.inr (by decide))
      exact hdark.1

end StaticHostAgent.Caddy
