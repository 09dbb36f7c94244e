import StaticHostAgent.Caddy.Matching
import StaticHostAgent.Contracts.Texts
import StaticHostAgent.Contracts.Validation
import StaticHostAgent.Library.Directory
import Mathlib.Data.List.Sort
import Mathlib.Data.String.Basic

/-!
# Tenant routes

`build_tenant_caddy_routes` of `caddy_routes.py`: the complete route lists of both
servers and the route state, derived from validated tenant state. Base64 and the
digest of the canonical route state are libraries or files of another module; a
`RouteCodec` holds them. The constant TLS automation and logging objects of the
configuration, which depend on no input, are left out.
-/

set_option autoImplicit false

namespace StaticHostAgent.Caddy

open Library Contracts

inductive RouteError where
  | contract (error : ContractError)
  | caddyRoute (message : String)
  | value (message : String)
  | typeError
  deriving DecidableEq

def liftContract {α : Type} : Except ContractError α → Except RouteError α :=
  mapError RouteError.contract

def platformDomain : String := "lowerduckpond.net"

def tenantDomain : String := "lowerduckpond.com"

def platformApex : String := platformDomain

def platformCompatibilityHosts : List String :=
  ["hosting." ++ platformDomain, "www." ++ platformDomain]

def platformSecureHost : String := "secure." ++ platformDomain

def platformWildcard : String := "*." ++ platformDomain

def tenantApex : String := tenantDomain

def tenantWildcard : String := "*." ++ tenantDomain

def platformFixtureRoot : String := "/srv/lowerduckpond/fixture"

def tenantReleaseRoot : String := "/srv/lowerduckpond/sites"

def platformCanonicalOrigin : String := "https://" ++ platformApex

def genericNotFoundBody : String :=
  "No Lower Duck Pond site has been provisioned for this name."

def aliasRedirectBody : String := "Redirecting to the canonical Lower Duck Pond site."

def noTransform : String := "no-transform"

def noStoreNoTransform : String := "no-store, no-transform"

def maximumDnsHostnameBytes : Nat := 253

def maximumOriginPullCaCertificates : Nat := 2

def maximumOriginPullCaDerBytes : Nat := 64 * 1024

/-! ## Tenant state -/

/-- The exact desired, observed, and selected-deployment state for one tenant. -/
structure TenantRouteInput where
  manifest : Site
  observedState : TenantObservedState
  deployment : Option DeploymentRecord
  deriving DecidableEq

structure ValidatedTenantRoute where
  tenantId : Uuid7
  slug : String
  canonicalOrigin : CanonicalOrigin
  lifecycle : LifecycleState
  releaseRoot : Option String
  manifest : Site
  observedState : TenantObservedState
  deployment : Option DeploymentRecord
  deriving DecidableEq

/-- The host of the tenant's alias. -/
def ValidatedTenantRoute.aliasHost (tenant : ValidatedTenantRoute) : String :=
  tenant.slug ++ "." ++ tenantDomain

/-- The host of the tenant's canonical origin. -/
def ValidatedTenantRoute.canonicalHost (tenant : ValidatedTenantRoute) : String :=
  tenant.canonicalOrigin.text

section Validation

variable (e : Encoding)

/-- The release root of a validated tenant by its lifecycle, with the bindings of the selected
deployment. -/
def validateSelectedDeployment (source : TenantRouteInput) :
    Except RouteError (Option String) := do
  let tenantId := source.manifest.metadata.id
  let observed := source.observedState
  match source.manifest.spec.desiredState with
  | .undeployed =>
      require source.deployment.isNone
        (.caddyRoute "undeployed tenant unexpectedly retains a deployment")
      require (observed.activeDeploymentId.isNone && observed.runtimeGenerationId.isNone)
        (.caddyRoute "undeployed tenant unexpectedly retains runtime state")
      pure none
  | .active | .suspended =>
      match source.deployment with
      | none => .error (.caddyRoute "deployed tenant has no selected deployment record")
      | some deployment => do
          let _ ← liftContract (validateContract e (.deploymentRecord deployment))
          match source.manifest.spec.desiredDeployment with
          | none => .error .typeError
          | some desiredDeployment => do
              require (decide (deployment.tenantId = tenantId ∧
                  deployment.id = desiredDeployment.id ∧
                  deployment.archiveSha256 = desiredDeployment.archiveSha256 ∧
                  observed.activeDeploymentId = some deployment.id))
                (.caddyRoute "selected deployment is not bound across tenant state")
              require (!(decide (source.manifest.spec.desiredState = .suspended) &&
                  observed.runtimeGenerationId.isSome))
                (.caddyRoute "suspended tenant unexpectedly retains a runtime generation")
              pure (some (tenantReleaseRoot ++ "/" ++ tenantId.text ++ "/releases/" ++
                deployment.id.text))
  | _ => .error (.caddyRoute "tenant lifecycle cannot produce routes")

/-- `_validate_tenant_route_input`. -/
def validateTenantRouteInput (source : TenantRouteInput) :
    Except RouteError ValidatedTenantRoute := do
  let manifest := source.manifest
  let observed := source.observedState
  let _ ← liftContract (validateContract e (.site manifest))
  let _ ← liftContract (validateContract e (.tenantObservedState observed))
  let tenantId := manifest.metadata.id
  liftContract (validateCanonicalOrigin tenantId manifest.metadata.canonicalOrigin)
  require (decide (observed.tenantId = tenantId))
    (.caddyRoute "tenant desired and observed identities disagree")
  require (decide (observed.desiredManifestDigest = manifestDigest e manifest))
    (.caddyRoute "tenant observed state does not bind the desired manifest")
  let lifecycle := manifest.spec.desiredState
  require (decide (observed.observedState = lifecycle))
    (.caddyRoute "tenant desired and observed lifecycle states disagree")
  require (decide (lifecycle ≠ .archived))
    (.caddyRoute "archived route derivation is deferred until M3.10")
  let aliasHostname := manifest.metadata.slug ++ "." ++ tenantDomain
  require (aliasHostname.toList.all fun c => decide (c.toNat < 128))
    (.caddyRoute "tenant alias hostname is not ASCII")
  require (decide (aliasHostname.toList.length ≤ maximumDnsHostnameBytes))
    (.caddyRoute "tenant alias hostname exceeds the DNS hostname limit")
  let releaseRoot ← validateSelectedDeployment e source
  pure ⟨tenantId, manifest.metadata.slug, manifest.metadata.canonicalOrigin, lifecycle, releaseRoot,
    manifest, observed, source.deployment⟩

end Validation

/-- `require_unique` of `_require_unique_tenant_routes`. -/
def requireUnique {α : Type} [DecidableEq α] (values : List α) (label : String) :
    Except RouteError Unit :=
  require (decide values.Nodup)
    (.caddyRoute ("tenant route inputs contain a duplicate " ++ label))

/-- `_require_unique_tenant_routes`. -/
def requireUniqueTenantRoutes (tenants : List ValidatedTenantRoute) : Except RouteError Unit := do
  requireUnique (tenants.map ValidatedTenantRoute.tenantId) "tenant identity"
  requireUnique (tenants.map ValidatedTenantRoute.slug) "slug"
  requireUnique (tenants.map ValidatedTenantRoute.canonicalOrigin) "canonical origin"
  requireUnique (tenants.filterMap fun item => item.deployment.map DeploymentRecord.id)
    "deployment identity"

/-! ## Routes -/

def notFoundResponse : Handler := .staticResponse genericNotFoundBody [] (.code 404)

def responseHeaders (headers : List (String × List String)) : Handler :=
  .responseHeaders false [] headers

def nonCacheableResponseHeaders : Handler :=
  .responseHeaders true ["Set-Cookie"] [("Cache-Control", [noStoreNoTransform])]

/-- A matcher for hosts alone. -/
def hostMatcher (hosts : List String) : Matcher := ⟨hosts, none, none, false⟩

def compatibilityRedirectRoute : Route :=
  ⟨[responseHeaders [("Cache-Control", [noStoreNoTransform])],
    .staticResponse "" [("Location", [platformCanonicalOrigin ++ "\x7bhttp.request.uri\x7d"])]
      (.code 301)],
    [hostMatcher platformCompatibilityHosts], true⟩

def platformApexRoute : Route :=
  ⟨[.vars platformFixtureRoot, responseHeaders [("Cache-Control", [noTransform])], .fileServer],
    [hostMatcher [platformApex]], true⟩

def platformUnknownRoute : Route :=
  ⟨[responseHeaders [("Cache-Control", [noStoreNoTransform])], notFoundResponse],
    [hostMatcher [platformSecureHost, platformWildcard]], true⟩

def tenantNamespaceDarkRoute : Route :=
  ⟨[.requestHeaders ["Cookie"], nonCacheableResponseHeaders, notFoundResponse],
    [hostMatcher [tenantApex, tenantWildcard]], true⟩

def plainHttpPlatformRoute : Route :=
  ⟨[responseHeaders [("Cache-Control", [noStoreNoTransform])], notFoundResponse],
    [hostMatcher ([platformApex] ++ platformCompatibilityHosts ++
      [platformSecureHost, platformWildcard])], true⟩

def plainHttpTenantRoute : Route :=
  ⟨[.requestHeaders ["Cookie"], nonCacheableResponseHeaders, notFoundResponse],
    [hostMatcher [tenantApex, tenantWildcard]], true⟩

def catchAllUnknownRoute : Route :=
  ⟨[.requestHeaders ["Cookie"], nonCacheableResponseHeaders, notFoundResponse], [], true⟩

/-- The route that answers errors; it is not terminal. -/
def errorRoute : Route :=
  ⟨[nonCacheableResponseHeaders,
    .staticResponse genericNotFoundBody [] (.placeholder "\x7bhttp.error.status_code\x7d")],
    [], false⟩

/-- The handlers that serve a release. -/
def releaseHandlers (releaseRoot : String) : List Handler :=
  [.requestHeaders ["Cookie"], .vars releaseRoot,
    .responseHeaders true ["Set-Cookie"] [("Cache-Control", [noTransform])], .fileServer]

def tenantContentRoute (tenant : ValidatedTenantRoute) : Except RouteError Route :=
  match tenant.releaseRoot with
  | none => .error (.caddyRoute "validated active tenant lost its release binding")
  | some releaseRoot =>
      .ok ⟨releaseHandlers releaseRoot, [hostMatcher [tenant.canonicalHost]], true⟩

def tenantAliasRoute (tenant : ValidatedTenantRoute) : Route :=
  ⟨[.requestHeaders ["Cookie"],
    .responseHeaders true ["Set-Cookie"]
      [("Cache-Control", [noStoreNoTransform]), ("Referrer-Policy", ["no-referrer"])],
    .staticResponse aliasRedirectBody
      [("Location", ["https://" ++ tenant.canonicalHost ++ "/"])] (.code 302)],
    [⟨[tenant.aliasHost], some ["GET", "HEAD"], some ["/"], true⟩], true⟩

/-! ## Route state -/

/-- One entry of the routes in the route state. `otherwise` is the entry that names no hosts. -/
structure RouteEntry where
  routeClass : String
  behavior : String
  cacheControl : String
  hosts : List String
  otherwise : Bool
  targetOrigin : Option String
  deploymentDigest : Option Digest
  releaseRoot : Option String
  cookiesRemoved : Bool
  tenantId : Option Uuid7
  deriving DecidableEq

/-- The state of one tenant in the route state. -/
structure TenantRouteState where
  activeDeployment : Option DeploymentRecord
  desiredManifest : Site
  observedState : TenantObservedState
  routesPresent : Bool
  deriving DecidableEq

structure PlatformNamespace where
  tenantOriginSuffix : String
  initializedAt : Timestamp
  deriving DecidableEq

/-- The authoritative route state of one generation. -/
structure RouteState where
  routes : List RouteEntry
  tenantRouteCount : Nat
  originPullCaSha256 : List Sha256
  originPullRequired : Bool
  platformNamespace : PlatformNamespace
  runtimeGenerationId : Uuid7
  tenantStates : List TenantRouteState
  deriving DecidableEq

def platformApexEntry : RouteEntry :=
  ⟨"platform-apex", "serve-platform-fixture", noTransform, [platformApex], false, none, none, none,
    false, none⟩

def platformCompatibilityEntry : RouteEntry :=
  ⟨"platform-compatibility", "permanent-equivalent-uri-redirect", noStoreNoTransform,
    platformCompatibilityHosts, false, some platformCanonicalOrigin, none, none, false, none⟩

def platformUnknownEntry : RouteEntry :=
  ⟨"platform-reserved-or-unknown", "generic-not-found", noStoreNoTransform,
    [platformSecureHost, platformWildcard], false, none, none, none, false, none⟩

def tenantNamespaceDarkEntry : RouteEntry :=
  ⟨"tenant-namespace-dark", "generic-not-found", noStoreNoTransform, [tenantApex, tenantWildcard],
    false, none, none, none, true, none⟩

def unmatchedHostEntry : RouteEntry :=
  ⟨"unmatched-host", "generic-not-found", noStoreNoTransform, [], true, none, none, none, true,
    none⟩

/-- The two entries of an active tenant. -/
def tenantRouteEntries (e : Encoding) (item : ValidatedTenantRoute) :
    Except RouteError (List RouteEntry) :=
  match item.deployment, item.releaseRoot with
  | some deployment, some releaseRoot =>
      .ok [⟨"tenant-canonical", "serve-immutable-release", noTransform, [item.canonicalHost], false,
          none, some (deploymentRecordDigest e deployment), some releaseRoot, true,
          some item.tenantId⟩,
        ⟨"tenant-alias", "bare-root-canonical-redirect", noStoreNoTransform, [item.aliasHost], false,
          some ("https://" ++ item.canonicalHost), none, none, true, some item.tenantId⟩]
  | _, _ => .error (.caddyRoute "validated active tenant lost its deployment binding")

def ValidatedTenantRoute.isActive (item : ValidatedTenantRoute) : Bool :=
  decide (item.lifecycle = .active)

/-- `_tenant_route_state`. -/
def tenantRouteState (e : Encoding) (platformNamespace : PlatformNamespace)
    (tenants : List ValidatedTenantRoute) (runtimeGenerationId : Uuid7)
    (originPullCaDer : List Bytes) (originPullRequired : Bool) : Except RouteError RouteState := do
  let tenantRoutes ← (tenants.filter ValidatedTenantRoute.isActive).mapM (tenantRouteEntries e)
  let entries := tenantRoutes.flatten
  pure
    { routes := [platformApexEntry, platformCompatibilityEntry, platformUnknownEntry] ++ entries ++
        [tenantNamespaceDarkEntry, unmatchedHostEntry]
      tenantRouteCount := entries.length
      originPullCaSha256 := originPullCaDer.map e.sha256
      originPullRequired := originPullRequired
      platformNamespace := platformNamespace
      runtimeGenerationId := runtimeGenerationId
      tenantStates := tenants.map fun item =>
        ⟨item.deployment, item.manifest, item.observedState, item.isActive⟩ }

/-! ## The whole configuration -/

/-- Base64, and the digest of a route state (`caddy_route_state_digest`), which fails when the
canonical state exceeds its limit. -/
structure RouteCodec where
  base64 : Bytes → String
  routeStateDigest : RouteState → Except ContractError Sha256

/-- One server of the HTTP app; `tls` are the trusted certificates and whether they are
required, on the server that speaks TLS. -/
structure HttpServer where
  listen : List String
  loggerNames : Directory String (List String)
  routes : List Route
  errors : List Route
  tls : Option (List String × Bool)

structure TenantCaddyRoutes where
  http : HttpServer
  production : HttpServer
  certificateSubjects : List String
  routeState : RouteState
  routeStateDigest : Sha256

/-- `_origin_pull_ca_certificates`. -/
def originPullCaCertificates (codec : RouteCodec) (certificates : List Bytes) :
    Except RouteError (List String) := do
  require (decide (certificates ≠ [] ∧ certificates.length ≤ maximumOriginPullCaCertificates ∧
      (∀ certificate ∈ certificates,
        certificate ≠ [] ∧ certificate.length ≤ maximumOriginPullCaDerBytes) ∧
      certificates.Nodup))
    (.value "origin-pull trust must contain one or two distinct DER certificates")
  pure (certificates.map codec.base64)

def accessLoggerName : String := "log0"

def aliasLoggerName : String := "alias"

/-- The loggers of the fixed subjects and of every active tenant's hosts. -/
def loggerNames (active : List ValidatedTenantRoute) : Directory String (List String) :=
  active.foldl
    (fun names tenant =>
      (names.insert tenant.canonicalHost [accessLoggerName]).insert tenant.aliasHost
        [aliasLoggerName])
    ((((Directory.empty.insert platformApex [accessLoggerName]).insert platformWildcard
      [accessLoggerName]).insert tenantApex [aliasLoggerName]).insert tenantWildcard
      [aliasLoggerName])

/-- The routes of the server on port 80. -/
def httpRoutes (active : List ValidatedTenantRoute) : List Route :=
  [plainHttpPlatformRoute] ++ active.map tenantAliasRoute ++
    [plainHttpTenantRoute, catchAllUnknownRoute]

/-- The routes of the server on port 443, around the content routes of the active tenants. -/
def productionRoutes (contentRoutes : List Route) (active : List ValidatedTenantRoute) :
    List Route :=
  [compatibilityRedirectRoute, platformApexRoute, platformUnknownRoute] ++ contentRoutes ++
    active.map tenantAliasRoute ++ [tenantNamespaceDarkRoute, catchAllUnknownRoute]

/-- Tenants in the order of their identities. -/
def sortTenants (tenants : List ValidatedTenantRoute) : List ValidatedTenantRoute :=
  tenants.insertionSort fun a b => a.tenantId ≤ b.tenantId

/-- `build_tenant_caddy_routes`. -/
def buildTenantCaddyRoutes (e : Encoding) (codec : RouteCodec)
    (platformNamespace : PlatformNamespace) (tenants : List TenantRouteInput)
    (runtimeGenerationId : Uuid7) (originPullCaDer : List Bytes) (originPullRequired : Bool) :
    Except RouteError TenantCaddyRoutes := do
  require (decide (platformNamespace.tenantOriginSuffix = tenantDomain))
    (.contract (schemaInvalid "contract does not match its schema"))
  let trustedCaCerts ← originPullCaCertificates codec originPullCaDer
  let inputs ← tenants.mapM (validateTenantRouteInput e)
  let validated := sortTenants inputs
  requireUniqueTenantRoutes validated
  let active := validated.filter ValidatedTenantRoute.isActive
  let serverLogs := loggerNames active
  let contentRoutes ← active.mapM tenantContentRoute
  let http : HttpServer := ⟨[":80"], serverLogs, httpRoutes active, [], none⟩
  let production : HttpServer :=
    ⟨[":443"], serverLogs, productionRoutes contentRoutes active, [errorRoute],
      some (trustedCaCerts, originPullRequired)⟩
  let routeState ← tenantRouteState e platformNamespace validated runtimeGenerationId
    originPullCaDer originPullRequired
  let digest ← liftContract (codec.routeStateDigest routeState)
  let certificateSubjects :=
    [platformApex, platformWildcard, tenantApex, tenantWildcard].insertionSort (· ≤ ·)
  pure ⟨http, production, certificateSubjects, routeState, digest⟩

end StaticHostAgent.Caddy
