import StaticHostAgent.Contracts.Validation

/-!
# What valid contracts bind

The identities that contract validation already makes agree: those of the manifests and the observed
states of an intent, and those of a result and its manifest.
-/

set_option autoImplicit false

namespace StaticHostAgent.Contracts

open Library

variable {e : Encoding}

/-! ## Transaction intents -/

theorem transactionIntent_validated {i : TransactionIntent}
    (h : ValidContract e (.transactionIntent i)) : validateTransactionIntent e i = .ok () := h.2.1

theorem validatedTransactionSource_bound {i : TransactionIntent} {m : Site} {r : Option Site}
    (h : validatedTransactionSource e i = .ok r) (hcreate : i.operation ≠ .create)
    (hm : i.sourceManifest = some m) : m.metadata.id = i.tenantId := by
  unfold validatedTransactionSource at h
  rw [if_neg hcreate, hm] at h
  simp only [bind_eq_ok, require_eq_ok, decide_eq_true_eq] at h
  obtain ⟨-, -, -, htenant, -⟩ := h
  exact htenant

/-- The source manifest of a current intent has the intent's tenant. -/
theorem intent_source_tenant {i : TransactionIntent} {m : Site}
    (h : ValidContract e (.transactionIntent i)) (hcurrent : i.current = true)
    (hcreate : i.operation ≠ .create) (hm : i.sourceManifest = some m) :
    m.metadata.id = i.tenantId := by
  have h := transactionIntent_validated h
  unfold validateTransactionIntent at h
  simp only [bind_eq_ok, hcurrent, if_true] at h
  obtain ⟨-, -, source, hsource, -⟩ := h
  exact validatedTransactionSource_bound hsource hcreate hm

theorem intent_recovery {i : TransactionIntent} {r : LifecycleRecovery}
    (h : ValidContract e (.transactionIntent i)) (harchive : i.operation ≠ .archive)
    (hexport : i.operation ≠ .export) (hr : i.lifecycleRecovery = some r) :
    validateLifecycleRecovery i r = .ok () := by
  have h := transactionIntent_validated h
  have hnonarchive : validateNonarchiveTransactionIntent i = .ok () := by
    unfold validateTransactionIntent at h
    cases hcurrent : i.current with
    | true =>
        simp only [hcurrent, if_true, bind_eq_ok, if_pos harchive] at h
        obtain ⟨-, -, source, -, candidate, -, -, -, h⟩ := h
        exact h
    | false =>
        simp only [hcurrent, Bool.false_eq_true, if_false, bind_eq_ok, if_pos harchive] at h
        obtain ⟨-, -, source, -, candidate, -, h⟩ := h
        exact h
  unfold validateNonarchiveTransactionIntent at hnonarchive
  rw [if_neg hexport, hr] at hnonarchive
  simp only [bind_eq_ok] at hnonarchive
  obtain ⟨-, -, hrecovery⟩ := hnonarchive
  exact hrecovery

theorem validateObservedRecoveryBinding_tenant {i : TransactionIntent} {o : TenantObservedState}
    {digest : Option Digest} {routes : RouteSet} {runtime : Option Uuid7} {u : Unit}
    (h : validateObservedRecoveryBinding i o digest routes runtime = .ok u) :
    o.tenantId = i.tenantId := by
  unfold validateObservedRecoveryBinding at h
  simp only [bind_eq_ok, require_eq_ok, Bool.and_eq_true, decide_eq_true_eq] at h
  obtain ⟨-, ⟨htenant, -⟩, -⟩ := h
  exact htenant

/-- The observed states of a recovery have the intent's tenant. -/
theorem recovery_tenants {i : TransactionIntent} {r : LifecycleRecovery}
    (h : validateLifecycleRecovery i r = .ok ()) :
    (∀ o, r.sourceObservedState = some o → o.tenantId = i.tenantId) ∧
      ∀ o, r.candidateObservedState = some o → o.tenantId = i.tenantId := by
  unfold validateLifecycleRecovery at h
  simp only [bind_eq_ok] at h
  obtain ⟨-, -, -, -, source, hsource, candidate, hcandidate, -⟩ := h
  refine ⟨fun o ho => ?_, fun o ho => ?_⟩
  · unfold validateLifecycleSourceRecovery at hsource
    rw [ho] at hsource
    simp only at hsource
    split at hsource
    · simp only [bind_eq_ok, require_eq_ok, decide_eq_true_eq] at hsource
      exact hsource.choose_spec.1
    · simp only [bind_eq_ok] at hsource
      obtain ⟨u, hbinding, -⟩ := hsource
      exact validateObservedRecoveryBinding_tenant hbinding
  · unfold validateLifecycleCandidateRecovery at hcandidate
    rw [ho] at hcandidate
    simp only [bind_eq_ok] at hcandidate
    obtain ⟨u, hbinding, -⟩ := hcandidate
    exact validateObservedRecoveryBinding_tenant hbinding

/-- The source manifest and the observed source of a current intent have its tenant. -/
theorem intent_sources_tenant {i : TransactionIntent} {m : Site} {r : LifecycleRecovery}
    {o : TenantObservedState} (h : ValidContract e (.transactionIntent i))
    (hcurrent : i.current = true) (hoperation : i.operation ∉ [Operation.create, .archive, .export])
    (hm : i.sourceManifest = some m) (hr : i.lifecycleRecovery = some r)
    (ho : r.sourceObservedState = some o) :
    m.metadata.id = i.tenantId ∧ o.tenantId = i.tenantId := by
  simp only [List.mem_cons, List.not_mem_nil, or_false, not_or] at hoperation
  obtain ⟨hcreate, harchive, hexport⟩ := hoperation
  exact ⟨intent_source_tenant h hcurrent hcreate hm,
    (recovery_tenants (intent_recovery h harchive hexport hr)).1 o ho⟩

/-! ## Results -/

/-- A result with a manifest has the manifest's tenant. -/
theorem result_tenant {r : OperationResult} {m : Site} (h : ValidContract e (.operationResult r))
    (hm : r.manifest = some m) : r.tenantId = some m.metadata.id := by
  have h : validateResult e r = .ok () := h.2.1
  unfold validateResult at h
  simp only [hm] at h
  split at h
  · simp only [bind_eq_ok, require_eq_ok, decide_eq_true_eq] at h
    obtain ⟨-, -, -, htenant, -⟩ := h
    exact htenant
  · simp only [bind_eq_ok, require_eq_ok, decide_eq_true_eq] at h
    obtain ⟨-, -, -, -, -, htenant, -⟩ := h
    exact htenant
  · cases h

end StaticHostAgent.Contracts
