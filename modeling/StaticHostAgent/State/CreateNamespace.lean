import StaticHostAgent.State.Operations

/-!
# The namespace of a tenant under its create intent

The tenant directory, its two children and the first state of the tenant, all of them made only
while the sole intent is the create of this tenant.
-/

set_option autoImplicit false

namespace StaticHostAgent.State

open Library Contracts Host Audit

section CreateNamespace

variable (host : StateHost)

/-- The active create intents of a tenant among some intents. -/
def matchingCreates (t : Uuid7) (records : List (StateRecordPath × Document)) :
    List TransactionIntent :=
  records.filterMap fun record =>
    match record.2 with
    | .transactionIntent intent =>
        if intent.operation = .create ∧ intent.tenantId = t then some intent else none
    | _ => none

/-- The sole intent is the create of the tenant. -/
def requireCreateIntent (t : Uuid7) (s : Store) : Except AgentError TransactionIntent := do
  let inventory ← measureIntentRecords host s
  let records ← inventory.mapM fun intentId => readIntent host intentId s
  match matchingCreates t records, inventory with
  | [intent], [_] => pure intent
  | _, _ => throw (.stateRecord "create mutation requires one matching active create intent")

/-- The number of directories that are missing. -/
def measureCreateTenantNamespaceGrowth (t : Uuid7) (s : Store) : Except AgentError Nat := do
  let _ ← requireCreateIntent host t s
  match s.tenants.find? t with
  | none => pure 3
  | some n => pure ((!n.archives).toNat + (!n.deployments).toNat)

/-- A new tenant fits the inventory. -/
def admitCreateTenantIdentity (t : Uuid7) (s : Store) : Except AgentError Unit := do
  let inventory ← measureInventory host s
  checkIf (decide (t ∉ inventory.tenantIds)) (admitStateInventory inventory ⟨1, 0, 0⟩)

/-- Make a child of the tenant directory. -/
def makeTenantChild (t : Uuid7) (child : TenantChild) (s : Store) : Store :=
  match s.tenants.find? t with
  | some n => s.makeTenant t (n.with child)
  | none => s

/-- Make a child of the tenant directory, or find it there. -/
def ensureTenantChild (t : Uuid7) (child : TenantChild) : Durable Store AgentError Unit := do
  let missing ← Durable.query fun s => pure (!(s.tenants.find? t).any (·.has child))
  Durable.when missing (Durable.effect (makeTenantChild t child))

/-- Ensure the tenant directory and its children. -/
def ensureCreateTenantNamespace (t : Uuid7) : Durable Store AgentError Unit := do
  let _ ← Durable.query (requireCreateIntent host t)
  Durable.query (admitCreateTenantIdentity host t)
  let missing ← Durable.query fun s => pure (s.tenants.find? t).isNone
  Durable.when missing (Durable.effect (Store.makeTenant t ⟨false, false⟩))
  ensureTenantChild t .archives
  ensureTenantChild t .deployments

/-- The tenant directory has both children and they are empty. -/
def requireEmptyCreateNamespace (t : Uuid7) (s : Store) : Except AgentError Unit :=
  match s.tenants.find? t with
  | none => throw .fileNotFound
  | some n => do
      require (n.archives && n.deployments)
        (.stateRecord "create tenant namespace contains unexpected state")
      require (decide ((Listing.archives t).ids s = []) &&
          decide ((Listing.deployments t).ids s = []))
        (.stateRecord "create tenant namespace contains release history")

/-- The stored record, or `none` where there is none. -/
def readOptional (path : StateRecordPath) (s : Store) : Except AgentError (Option Document) :=
  match readLocked host path s with
  | .ok current => pure (some current)
  | .error .fileNotFound => pure none
  | .error error => throw error

/-- Create a record, or find it with the same revision. -/
def ensureImmutableExact (path : StateRecordPath) (document : Document) :
    Durable Store AgentError Document := do
  Durable.query fun _ => encodeNew host path document
  match ← Durable.query (readOptional host path) with
  | none => createImmutableBytes host path document
  | some current => do
      Durable.query fun _ =>
        require (decide (revision host current = revision host document))
          (.stateConflict "existing immutable state disagrees with create intent")
      pure current

/-- The state to be created is the undeployed one the intent announces. -/
def requireCreateAuthority (intent : TransactionIntent) (manifest : Site)
    (observedState : TenantObservedState) : Except AgentError Unit :=
  match intent.lifecycleRecovery with
  | none => throw (.stateRecord "create intent lifecycle recovery is malformed")
  | some recovery => do
      require (decide (manifest.spec.desiredState = .undeployed) &&
          decide (manifest.spec.desiredDeployment = none))
        (.stateRecord "create candidate manifest is not undeployed")
      require (decide (intent.sourceManifest = none) &&
          decide (intent.sourceManifestDigest = none) &&
          decide (intent.candidateManifestDigest =
            some (manifestDigest host.encoding manifest)) &&
          decide (recovery.sourceObservedState = none) &&
          decide (recovery.sourceRouteSet = .absent) &&
          decide (recovery.candidateObservedState = some observedState) &&
          decide (recovery.candidateRouteSet = .absent))
        (.stateRecord "create state disagrees with its active intent")

/-- Complete the first state of a tenant under its intent. -/
def ensureCreateTenantState (t : Uuid7) (manifest : Site) (observedState : TenantObservedState) :
    Durable Store AgentError Unit := do
  let intent ← Durable.query (requireCreateIntent host t)
  Durable.query fun _ => requireCreateAuthority host intent manifest observedState
  ensureCreateTenantNamespace host t
  Durable.query (requireEmptyCreateNamespace t)
  let _ ← ensureImmutableExact host (.tenantDesired t) (.site manifest)
  let _ ← ensureImmutableExact host (.tenantObserved t) (.tenantObservedState observedState)
  pure ()

end CreateNamespace

variable {host : StateHost} {t : Uuid7} {s s₀ : Store}

/-- The intents alone authorize the create. -/
theorem requireCreateIntent_same (h : ∀ i, s.find? (.intent i) = s₀.find? (.intent i)) :
    requireCreateIntent host t s = requireCreateIntent host t s₀ := by
  unfold requireCreateIntent measureIntentRecords readIntent
  simp only [measureRecords_same (l := Listing.intents) h, h]

/-- The directories that a create makes. -/
def namespaceSteps (t : Uuid7) : List CommitStep :=
  [.makeTenant t, .makeChild t .archives, .makeChild t .deployments]

/-- The missing directories are the pending steps. -/
theorem measureGrowth_eq_ok {n : Nat} :
    measureCreateTenantNamespaceGrowth host t s = .ok n ↔
      (∃ intent, requireCreateIntent host t s = .ok intent) ∧
        n = pendingSum host CommitStep.inodes (namespaceSteps t) s := by
  have hgrowth : (match s.tenants.find? t with
      | none => (pure 3 : Except AgentError Nat)
      | some n => pure ((!n.archives).toNat + (!n.deployments).toNat)) =
      .ok (pendingSum host CommitStep.inodes (namespaceSteps t) s) := by
    cases hfind : s.tenants.find? t with
    | none => simp [pendingSum, namespaceSteps, CommitStep.pending, CommitStep.inodes, hfind,
        pure, Except.pure]
    | some n =>
        obtain ⟨archives, deployments⟩ := n
        cases archives <;> cases deployments <;>
          simp [pendingSum, namespaceSteps, CommitStep.pending, CommitStep.inodes, hfind,
            TenantNamespace.has, pure, Except.pure]
  unfold measureCreateTenantNamespaceGrowth
  rw [bind_eq_ok]
  constructor
  · rintro ⟨intent, hintent, h⟩
    exact ⟨⟨intent, hintent⟩, Except.ok.inj (h.symm.trans hgrowth)⟩
  · rintro ⟨⟨intent, hintent⟩, rfl⟩
    exact ⟨intent, hintent, hgrowth⟩

/-- Three directories are missing exactly if the tenant is. -/
theorem growth_eq_three :
    pendingSum host CommitStep.inodes (namespaceSteps t) s = 3 ↔ s.tenants.find? t = none := by
  cases hfind : s.tenants.find? t with
  | none => simp [pendingSum, namespaceSteps, CommitStep.pending, CommitStep.inodes, hfind]
  | some n =>
      obtain ⟨archives, deployments⟩ := n
      cases archives <;> cases deployments <;>
        simp [pendingSum, namespaceSteps, CommitStep.pending, CommitStep.inodes, hfind,
          TenantNamespace.has]

theorem admitCreateTenantIdentity_eq_ok {u : Unit} :
    admitCreateTenantIdentity host t s = .ok u ↔
      ∃ inventory, measureInventory host s = .ok inventory ∧
        (t ∉ inventory.tenantIds → admitStateInventory inventory ⟨1, 0, 0⟩ = .ok ()) := by
  unfold admitCreateTenantIdentity
  simp only [bind_eq_ok, checkIf_eq_ok, decide_eq_true_eq]

theorem ensureTenantChild_performs (child : TenantChild) :
    Performs (ensureTenantChild t child) (stepsOf host [.makeChild t child]) s () := by
  refine Performs.query_bind (a := !(s.tenants.find? t).any (·.has child)) rfl ?_
  refine Performs.when (e := CommitStep.toStep host (.makeChild t child)) (fun hmissing => ?_) id
  exact Performs.effect (e := CommitStep.toStep host (.makeChild t child)) hmissing

variable (host) in
/-- The tenant directory is there once its step is settled, and stays. -/
theorem tenant_settled (s : Store) (children : List TenantChild) :
    ((settleAll (stepsOf host (.makeTenant t :: children.map (.makeChild t))) s).tenants.find?
      t).isSome = true := by
  have hmade : (((CommitStep.toStep host (.makeTenant t)).settle s).tenants.find? t).isSome =
      true := by
    cases hfind : s.tenants.find? t with
    | none =>
        rw [Step.settle_of_pending (e := CommitStep.toStep host (.makeTenant t))
          (show (s.tenants.find? t).isNone = true by rw [hfind]; rfl)]
        show ((Directory.insert _ _ _).find? t).isSome = true
        rw [Directory.find?_insert_self]
        rfl
    | some n =>
        rw [Step.settle_of_settled (e := CommitStep.toStep host (.makeTenant t))
          (show (s.tenants.find? t).isNone = false by rw [hfind]; rfl), hfind]
        rfl
  have hkept := (@CommitStep.settleAll_same host (children.map (.makeChild t)) ((CommitStep.toStep host (.makeTenant t)).settle s) (.tenant t))
    (by simp [CommitStep.touches])
  exact Eq.trans hkept hmade

/-- Making the namespace performs its three steps. -/
theorem ensureCreateTenantNamespace_performs {intent : TransactionIntent}
    (hintent : requireCreateIntent host t s = .ok intent)
    (hidentity : admitCreateTenantIdentity host t s = .ok ()) :
    Performs (ensureCreateTenantNamespace host t) (stepsOf host (namespaceSteps t)) s () := by
  refine Performs.query_bind hintent (Performs.query_bind (a := ()) hidentity
    (Performs.query_bind (a := (s.tenants.find? t).isNone) rfl ?_))
  have htenant : Performs (Durable.when (s.tenants.find? t).isNone
      (Durable.effect (Store.makeTenant t ⟨false, false⟩)) : Durable Store AgentError Unit)
      (stepsOf host [.makeTenant t]) s () :=
    Performs.when (e := CommitStep.toStep host (.makeTenant t))
      (fun hmissing => Performs.effect (e := CommitStep.toStep host (.makeTenant t)) hmissing) id
  refine htenant.bind ((@Performs.bind _ _ _ _ _ _ (stepsOf host [.makeChild t .archives]))
    (ensureTenantChild_performs .archives) ?_)
  exact ensureTenantChild_performs .deployments

theorem ensureCreateTenantNamespace_ok {u : Unit}
    (h : (ensureCreateTenantNamespace host t s).result = .ok u) :
    admitCreateTenantIdentity host t s = .ok () := by
  obtain ⟨intent, -, h⟩ := Durable.query_bind_result_ok h
  obtain ⟨⟨⟩, hidentity, -⟩ := Durable.query_bind_result_ok h
  exact hidentity

/-- The tenant has no history. -/
def NoHistory (t : Uuid7) (s : Store) : Prop :=
  (Listing.archives t).ids s = [] ∧ (Listing.deployments t).ids s = []

theorem NoHistory.same (h : NoHistory t s₀)
    (hfind : ∀ d, s.find? (.archive t d) = s₀.find? (.archive t d) ∧
      s.find? (.deployment t d) = s₀.find? (.deployment t d)) : NoHistory t s := by
  obtain ⟨harchives, hdeployments⟩ := h
  refine ⟨?_, ?_⟩
  · rw [← harchives]
    exact Listing.ids_congr fun d => (hfind d).1
  · rw [← hdeployments]
    exact Listing.ids_congr fun d => (hfind d).2

theorem requireEmptyCreateNamespace_eq_ok {u : Unit} :
    requireEmptyCreateNamespace t s = .ok u ↔
      s.tenants.find? t = some ⟨true, true⟩ ∧ NoHistory t s := by
  unfold requireEmptyCreateNamespace NoHistory
  cases hfind : s.tenants.find? t with
  | none =>
      constructor
      · intro h
        cases h
      · rintro ⟨h, -⟩
        cases h
  | some n =>
      obtain ⟨archives, deployments⟩ := n
      simp only [bind_eq_ok, require_eq_ok, Bool.and_eq_true, decide_eq_true_eq,
        Option.some.injEq, TenantNamespace.mk.injEq]
      exact ⟨fun ⟨_, h⟩ => h, fun h => ⟨(), h⟩⟩

variable (host) in
/-- After its steps the namespace is complete. -/
theorem namespace_complete (s : Store) :
    (settleAll (stepsOf host (namespaceSteps t)) s).tenants.find? t = some ⟨true, true⟩ := by
  have htenant := tenant_settled host (t := t) s [.archives, .deployments]
  have hready : ∀ c, ∀ u : Store, (u.tenants.find? t).isSome = true →
      CommitStep.Ready host (.makeChild t c) u := fun _ _ hu => hu
  obtain ⟨n, hn⟩ := Option.isSome_iff_exists.1 htenant
  have hseparate : Separate host (namespaceSteps t) := by
    simp [Separate, namespaceSteps, CommitStep.observes, CommitStep.touches]
  have hsettled : ∀ e ∈ namespaceSteps t,
      e.pending host (settleAll (stepsOf host (namespaceSteps t)) s) = false := by
    refine (@settled_settleAll_append _ [.makeTenant t]) hseparate
      (settled_single fun _ => trivial) ?_
    refine (@settled_settleAll_append _ [.makeChild t .archives])
      (List.pairwise_cons.1 hseparate).2
      (settled_single fun _ => hready _ _ (tenant_settled _ s [])) ?_
    exact settled_single fun _ => hready _ _ (tenant_settled _ s [.archives])
  have harchives := hsettled (.makeChild t .archives) (by simp [namespaceSteps])
  have hdeployments := hsettled (.makeChild t .deployments) (by simp [namespaceSteps])
  change (settleAll (stepsOf host (namespaceSteps t)) s).tenants.find? t = some n at hn
  simp only [CommitStep.pending, hn, Option.any_some, TenantNamespace.has,
    Bool.not_eq_eq_eq_not, Bool.not_false] at harchives hdeployments
  obtain ⟨archives, deployments⟩ := n
  simp only at harchives hdeployments
  rw [hn, harchives, hdeployments]

theorem readOptional_eq_ok {path : StateRecordPath} {r : Option Document} :
    readOptional host path s = .ok r ↔ (s.find? path.components = none ∧ r = none) ∨
      ∃ d, readLocked host path s = .ok d ∧ r = some d := by
  unfold readOptional
  split
  · rename_i current hread
    have hfind := (readLocked_eq_ok.1 hread).1
    simp only [pure_eq_ok, hread, hfind, Except.ok.injEq, reduceCtorEq, false_and, false_or,
      exists_eq_left']
    exact eq_comm
  · rename_i hread
    have hfind := readLocked_eq_fileNotFound.1 hread
    simp only [hread, hfind, pure_eq_ok, true_and, reduceCtorEq, false_and, exists_false, or_false]
    exact eq_comm
  · rename_i error hother hread
    have hfind : s.find? path.components ≠ none := fun h => by
      rw [readLocked_eq_fileNotFound.2 h] at hread
      exact hother (Except.error.inj hread).symm
    simp [hread, hfind, throw, throwThe, MonadExceptOf.throw]

/-- A record that is missing or exact is there afterwards. -/
theorem ensureImmutableExact_performs {path : StateRecordPath} {d : Document}
    (hencode : encodeNew host path d = .ok ()) (hparent : hasParent s path.components = true)
    (h : s.find? path.components = none ∨ readLocked host path s = .ok d) :
    Performs (ensureImmutableExact host path d) (stepsOf host [.put path.components d]) s d := by
  refine Performs.query_bind (a := ()) hencode ?_
  rcases h with habsent | hread
  · refine Performs.query_bind (readOptional_eq_ok.2 (Or.inl ⟨habsent, rfl⟩)) ?_
    exact Performs.query_bind (a := ()) (requireAbsent_eq_ok.2 ⟨hparent, habsent⟩)
      (put_read_performs (encodeNew_fits hencode))
  · refine Performs.query_bind (readOptional_eq_ok.2 (Or.inr ⟨d, hread, rfl⟩)) ?_
    refine Performs.query_bind (a := ()) (by rw [decide_eq_true rfl]; rfl) ?_
    refine Performs.skip (e := CommitStep.toStep host (.put path.components d)) ?_
      (Performs.pure d s)
    show decide (s.find? path.components ≠ some d) = false
    rw [(readLocked_eq_ok.1 hread).1]
    simp

theorem ensureImmutableExact_ok {path : StateRecordPath} {d r : Document}
    (h : (ensureImmutableExact host path d s).result = .ok r) : encodeNew host path d = .ok () := by
  obtain ⟨⟨⟩, hencode, -⟩ := Durable.query_bind_result_ok h
  exact hencode

end StaticHostAgent.State
