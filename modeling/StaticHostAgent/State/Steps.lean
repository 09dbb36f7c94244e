import StaticHostAgent.State.Repository
import StaticHostAgent.Audit.AppendInvariant

/-!
# The durable steps of a commit

A `CommitStep` is one durable change that a commit may make, with the test whether it is still to be
made. Each step tests one place of the state and changes few. `along_split` is what a later
run finds: at a step of the list either this step and all before it are done, or its place is as it
was at the start. `spends_along` accounts for what the steps on the way took from the filesystem.
-/

set_option autoImplicit false

namespace StaticHostAgent.State

open Library Contracts Host Audit

inductive TenantChild where
  | archives | deployments
  deriving DecidableEq

/-- Whether a child of the tenant directory exists. -/
def TenantNamespace.has (n : TenantNamespace) : TenantChild → Bool
  | .archives => n.archives
  | .deployments => n.deployments

def TenantNamespace.with (n : TenantNamespace) : TenantChild → TenantNamespace
  | .archives => { n with archives := true }
  | .deployments => { n with deployments := true }

/-- The places of the state that steps test and change. -/
inductive Place where
  | file (path : FilePath)
  | audit
  | release (name : ReleaseName)
  | tenant (tenantId : Uuid7)
  | child (tenantId : Uuid7) (child : TenantChild)
  deriving DecidableEq

/-- The place looks the same in both states. -/
def Place.Same (s s' : Store) : Place → Prop
  | .file p => s'.find? p = s.find? p
  | .audit => s'.audit = s.audit
  | .release n => s'.releases.find? n = s.releases.find? n
  | .tenant t => (s'.tenants.find? t).isSome = (s.tenants.find? t).isSome
  | .child t c => (s'.tenants.find? t).any (·.has c) = (s.tenants.find? t).any (·.has c)

theorem Place.Same.refl (s : Store) (place : Place) : place.Same s s := by
  cases place <;> rfl

theorem Place.Same.trans {s s' s'' : Store} {place : Place} (h : place.Same s s')
    (h' : place.Same s' s'') : place.Same s s'' := by
  cases place <;> exact Eq.trans h' h

/-- One durable change. -/
inductive CommitStep where
  | put (path : FilePath) (document : Document)
  | remove (path : FilePath)
  | append (entry : AuditEntry)
  | retire (tenantId deploymentId : Uuid7) (digest : Digest)
  | discard (tenantId deploymentId : Uuid7) (digest : Digest)
  | makeTenant (tenantId : Uuid7)
  | makeChild (tenantId : Uuid7) (child : TenantChild)
  deriving DecidableEq

/-- The entry extends the chain as it stands. -/
def auditMissing (host : StateHost) (entry : AuditEntry) (s : Store) : Bool :=
  match inspectStateAudit host s with
  | .ok state =>
      decide (state.entryCount = entry.sequence) &&
        decide (entry.previousEntryDigest = state.terminalDigest)
  | .error _ => false

namespace CommitStep

/-- The change is still to be made. -/
def pending (host : StateHost) : CommitStep → Store → Bool
  | put p d, s => decide (s.find? p ≠ some d)
  | remove p, s => (s.find? p).isSome
  | append entry, s => auditMissing host entry s
  | retire t d _, s => (s.releases.find? ⟨t, d, none⟩).isSome
  | discard t d digest, s => (s.releases.find? ⟨t, d, some digest.value⟩).isSome
  | makeTenant t, s => (s.tenants.find? t).isNone
  | makeChild t c, s => !(s.tenants.find? t).any (·.has c)

/-- The audit directory with the entry appended. -/
def appended (host : StateHost) (entry : AuditEntry) (s : Store) : Store :=
  match planAppend host.toAuditHost defaultAuditLimits (host.capacity s) entry false s.audit with
  | .ok plan => s.setAudit (s.audit.write plan)
  | .error _ => s

def apply (host : StateHost) : CommitStep → Store → Store
  | put p d, s => s.put p d
  | remove p, s => s.remove p
  | append entry, s => appended host entry s
  | retire t d digest, s => s.retireRelease t d digest
  | discard t d digest, s => s.discardRelease t d digest
  | makeTenant t, s => s.makeTenant t ⟨false, false⟩
  | makeChild t c, s =>
      match s.tenants.find? t with
      | some n => s.makeTenant t (n.with c)
      | none => s

/-- The change as a step of a durable program. -/
def toStep (host : StateHost) (e : CommitStep) : Step Store := ⟨e.pending host, e.apply host⟩

/-- The place the test looks at. -/
def observes : CommitStep → Place
  | put p _ => .file p
  | remove p => .file p
  | append _ => .audit
  | retire t d _ => .release ⟨t, d, none⟩
  | discard t d digest => .release ⟨t, d, some digest.value⟩
  | makeTenant t => .tenant t
  | makeChild t c => .child t c

/-- The places the change is seen at. -/
def touches : CommitStep → List Place
  | put p _ => [.file p]
  | remove p => [.file p]
  | append _ => [.audit]
  | retire t d digest => [.release ⟨t, d, none⟩, .release ⟨t, d, some digest.value⟩]
  | discard t d digest => [.release ⟨t, d, some digest.value⟩]
  | makeTenant t => [.tenant t]
  | makeChild t c => [.child t c]

/-- The bytes that the admission reserves for the change. -/
def bytes (host : StateHost) : CommitStep → Nat
  | put _ d => writeAllocation host.allocation (host.encoding.canonical d).length
  | append _ => writeAllocation host.allocation defaultAuditLimits.maximumSegmentBytes
  | makeTenant _ | makeChild _ _ => host.allocation.namespaceAllocationUpperBound 1
  | remove _ | retire _ _ _ | discard _ _ _ => 0

/-- The inodes that the admission reserves for the change. -/
def inodes : CommitStep → Nat
  | put _ _ | append _ | makeTenant _ | makeChild _ _ => 1
  | remove _ | retire _ _ _ | discard _ _ _ => 0

variable {host : StateHost}

/-- The test depends on the observed place alone. -/
theorem pending_same {e : CommitStep} {s s' : Store} (h : e.observes.Same s s') :
    e.pending host s' = e.pending host s := by
  cases e with
  | put p d => simp only [pending]; rw [show s'.find? p = s.find? p from h]
  | remove p => simp only [pending]; rw [show s'.find? p = s.find? p from h]
  | append entry =>
      simp only [pending, auditMissing, inspectStateAudit]
      rw [show s'.audit = s.audit from h]
  | retire t d g => exact congrArg Option.isSome h
  | discard t d g => exact congrArg Option.isSome h
  | makeTenant t =>
      have hsome : (s'.tenants.find? t).isSome = (s.tenants.find? t).isSome := h
      simp only [pending]
      rw [← Option.not_isSome, ← Option.not_isSome, hsome]
  | makeChild t c => exact congrArg Bool.not h

theorem appended_same {entry : AuditEntry} {s : Store} {place : Place} (h : place ≠ .audit) :
    place.Same s (appended host entry s) := by
  unfold appended
  split
  · cases place with
    | audit => exact absurd rfl h
    | _ => rfl
  · exact Place.Same.refl s place

/-- Elsewhere nothing changes. -/
theorem apply_same {e : CommitStep} {s : Store} {place : Place}
    (hpending : e.pending host s = true) (h : place ∉ e.touches) :
    place.Same s (e.apply host s) := by
  -- a step and a place of different kinds never meet; of one kind, the names differ
  cases e with
  | put p d =>
      cases place with
      | file q => exact Store.find?_put_of_ne (fun hq => h (by simp [touches, hq])) d s
      | _ => rfl
  | remove p =>
      cases place with
      | file q => exact Store.find?_remove_of_ne (fun hq => h (by simp [touches, hq])) s
      | _ => rfl
  | append entry => exact appended_same fun hplace => h (by simp [touches, hplace])
  | retire t d g =>
      cases place with
      | release n =>
          have hn : n ≠ ⟨t, d, none⟩ ∧ n ≠ ⟨t, d, some g.value⟩ := by
            simpa [touches] using h
          show (Directory.insert _ _ _).find? n = _
          rw [Directory.find?_insert_of_ne _ hn.2, Directory.find?_erase_of_ne _ hn.1]
      | _ => rfl
  | discard t d g =>
      cases place with
      | release n =>
          have hn : n ≠ ⟨t, d, some g.value⟩ := by simpa [touches] using h
          exact Directory.find?_erase_of_ne _ hn
      | _ => rfl
  | makeTenant t =>
      have hnone : s.tenants.find? t = none := Option.isNone_iff_eq_none.1 hpending
      cases place with
      | tenant u =>
          have hu : u ≠ t := by simpa [touches] using h
          show ((Directory.insert _ _ _).find? u).isSome = _
          rw [Directory.find?_insert_of_ne _ hu]
      | child u c =>
          show ((Directory.insert _ _ _).find? u).any _ = _
          by_cases hu : u = t
          · rw [hu, Directory.find?_insert_self, hnone]
            cases c <;> rfl
          · rw [Directory.find?_insert_of_ne _ hu]
      | _ => rfl
  | makeChild t c =>
      simp only [apply]
      cases hfind : s.tenants.find? t with
      | none => exact Place.Same.refl s place
      | some n =>
          cases place with
          | tenant u =>
              show ((Directory.insert _ _ _).find? u).isSome = _
              by_cases hu : u = t
              · rw [hu, Directory.find?_insert_self, hfind]
                rfl
              · rw [Directory.find?_insert_of_ne _ hu]
          | child u c' =>
              show ((Directory.insert _ _ _).find? u).any _ = _
              by_cases hu : u = t
              · have hc : c' ≠ c := fun hc => h (by simp [touches, hu, hc])
                rw [hu, Directory.find?_insert_self, hfind]
                cases c <;> cases c' <;> first | exact absurd rfl hc | rfl
              · rw [Directory.find?_insert_of_ne _ hu]
          | _ => rfl

theorem settle_same {e : CommitStep} {s : Store} {place : Place} (h : place ∉ e.touches) :
    place.Same s ((e.toStep host).settle s) := by
  cases hpending : e.pending host s with
  | true =>
      rw [Step.settle_of_pending (e := e.toStep host) hpending]
      exact apply_same hpending h
  | false =>
      rw [Step.settle_of_settled (e := e.toStep host) hpending]
      exact Place.Same.refl s place

theorem settleAll_same {es : List CommitStep} {s : Store} {place : Place}
    (h : ∀ e ∈ es, place ∉ e.touches) :
    place.Same s (settleAll (es.map (toStep host)) s) := by
  induction es generalizing s with
  | nil => exact Place.Same.refl s place
  | cons e es ih =>
      exact (settle_same (h e List.mem_cons_self)).trans
        (ih fun f hf => h f (List.mem_cons_of_mem e hf))

/-- What the change needs in order to settle its own test. -/
def Ready (host : StateHost) : CommitStep → Store → Prop
  | append entry, s => auditMissing host entry (appended host entry s) = false
  | makeChild t _, s => (s.tenants.find? t).isSome = true
  | _, _ => True

theorem apply_settles {e : CommitStep} {s : Store} (hready : e.Ready host s) :
    e.pending host (e.apply host s) = false := by
  cases e with
  | put p d => simp [pending, apply]
  | remove p => simp [pending, apply]
  | append entry => exact hready
  | retire t d g =>
      show ((Directory.insert _ _ _).find? _).isSome = false
      rw [Directory.find?_insert_of_ne _ (by simp), Directory.find?_erase_self]
      rfl
  | discard t d g =>
      show ((Directory.erase _ _).find? _).isSome = false
      rw [Directory.find?_erase_self]
      rfl
  | makeTenant t =>
      show ((Directory.insert _ _ _).find? _).isNone = false
      rw [Directory.find?_insert_self]
      rfl
  | makeChild t c =>
      obtain ⟨n, hfind⟩ := Option.isSome_iff_exists.1 hready
      simp only [pending, apply, hfind]
      show (!((Directory.insert _ _ _).find? _).any _) = false
      rw [Directory.find?_insert_self]
      cases c <;> rfl

end CommitStep

/-! ## Lists of steps -/

section Steps

variable (host : StateHost)

/-- The steps as steps of a durable program. -/
def stepsOf (steps : List CommitStep) : List (Step Store) := steps.map (CommitStep.toStep host)

/-- No later step changes what an earlier one tests, and only removals of releases change what a
later one tests. -/
def Separate (steps : List CommitStep) : Prop :=
  steps.Pairwise fun f e => f.observes ∉ e.touches ∧ (e.observes ∈ f.touches → e.bytes host = 0 ∧
    e.inodes = 0)

/-- The weight of the steps that are still to be made. -/
def pendingSum (weight : CommitStep → Nat) (steps : List CommitStep) (s : Store) : Nat :=
  (steps.map fun e => if e.pending host s then weight e else 0).sum

end Steps

variable {host : StateHost}

theorem stepsOf_append (es fs : List CommitStep) :
    stepsOf host (es ++ fs) = stepsOf host es ++ stepsOf host fs := List.map_append

theorem settled_stepsOf {es : List CommitStep} {s : Store} :
    Settled (stepsOf host es) s ↔ ∀ e ∈ es, e.pending host s = false := by
  unfold Settled stepsOf
  simp only [List.mem_map, forall_exists_index, and_imp, forall_apply_eq_imp_iff₂]
  exact Iff.rfl

/-- The states on the way of a list of steps. -/
def OnTheWay (host : StateHost) (steps : List CommitStep) : Store → Store → Prop :=
  Along (stepsOf host steps)

theorem onTheWay_cases {steps : List CommitStep} {s₀ s : Store}
    (h : OnTheWay host steps s₀ s) : ∃ pre post, steps = pre ++ post ∧
      s = settleAll (stepsOf host pre) s₀ ∧ ∀ e ∈ pre, e.pending host s = false := by
  obtain ⟨pre, post, hsplit, hs, hsettled⟩ := h
  obtain ⟨es, fs, rfl, rfl, rfl⟩ := List.map_eq_append_iff.1 hsplit
  exact ⟨es, fs, rfl, hs, settled_stepsOf.1 hsettled⟩

/-- At a step of the list, either it and all before it are done, or its place is as at the start. -/
theorem along_split {steps before after : List CommitStep} {f : CommitStep} {s₀ s : Store}
    (h : OnTheWay host steps s₀ s) (hsteps : steps = before ++ f :: after)
    (hfree : ∀ e ∈ before, f.observes ∉ e.touches) :
    ((∀ e ∈ before, e.pending host s = false) ∧ f.pending host s = false) ∨
      f.observes.Same s₀ s := by
  obtain ⟨pre, post, hsplit, hs, hsettled⟩ := onTheWay_cases h
  rcases List.append_eq_append_iff.1 (hsteps.symm.trans hsplit) with ⟨mid, hpre, htail⟩ |
    ⟨mid, hbefore, -⟩
  · cases mid with
    | nil =>
        right
        rw [hs, hpre, List.append_nil]
        exact CommitStep.settleAll_same hfree
    | cons g mid =>
        left
        obtain rfl : f = g := (List.cons.inj htail).1
        refine ⟨fun e he => hsettled e ?_, hsettled f ?_⟩
        · rw [hpre]
          exact List.mem_append_left _ he
        · rw [hpre]
          exact List.mem_append_right _ List.mem_cons_self
  · right
    rw [hs]
    refine CommitStep.settleAll_same fun e he => hfree e ?_
    rw [hbefore]
    exact List.mem_append_left _ he

/-- A file that is written once on the way has its new content, with every earlier step done, or its
old one. -/
theorem put_along {steps before after : List CommitStep} {p : FilePath} {d : Document}
    {s₀ s : Store} (h : OnTheWay host steps s₀ s) (hsteps : steps = before ++ .put p d :: after)
    (hfree : ∀ e ∈ before, Place.file p ∉ e.touches) :
    ((∀ e ∈ before, e.pending host s = false) ∧ s.find? p = some d) ∨
      s.find? p = s₀.find? p := by
  rcases along_split h hsteps hfree with ⟨hbefore, hdone⟩ | hsame
  · left
    refine ⟨hbefore, ?_⟩
    simpa [CommitStep.pending] using hdone
  · exact Or.inr hsame

/-- While a step is still to be made, the state is on the way of the steps before it. -/
theorem along_before {steps before after : List CommitStep} {f : CommitStep} {s₀ s : Store}
    (h : OnTheWay host steps s₀ s) (hsteps : steps = before ++ f :: after)
    (hf : f.pending host s = true) : OnTheWay host before s₀ s := by
  obtain ⟨pre, post, hsplit, hs, hsettled⟩ := onTheWay_cases h
  rcases List.append_eq_append_iff.1 (hsteps.symm.trans hsplit) with ⟨mid, hpre, htail⟩ |
    ⟨mid, hbefore, -⟩
  · cases mid with
    | nil =>
        rw [List.append_nil] at hpre
        rw [hpre] at hs hsettled
        exact ⟨stepsOf host before, [], (List.append_nil _).symm, hs, settled_stepsOf.2 hsettled⟩
    | cons g mid =>
        obtain rfl : f = g := (List.cons.inj htail).1
        have hdone := hsettled f (hpre ▸ List.mem_append_right _ List.mem_cons_self)
        rw [hf] at hdone
        cases hdone
  · exact ⟨stepsOf host pre, stepsOf host mid, hbefore ▸ stepsOf_append pre mid, hs,
      settled_stepsOf.2 hsettled⟩

/-- A place that no step changes is as at the start. -/
theorem along_same {steps : List CommitStep} {s₀ s : Store} {place : Place}
    (h : OnTheWay host steps s₀ s) (hfree : ∀ e ∈ steps, place ∉ e.touches) :
    place.Same s₀ s := by
  obtain ⟨pre, post, rfl, rfl, -⟩ := onTheWay_cases h
  exact CommitStep.settleAll_same fun e he => hfree e (List.mem_append_left _ he)

/-- What every step keeps holds along the way. -/
theorem along_invariant {steps : List CommitStep} {s₀ s : Store} {P : Store → Prop}
    (h : OnTheWay host steps s₀ s) (hstep : ∀ e ∈ steps, ∀ u, P u → P (e.apply host u))
    (hstart : P s₀) : P s := by
  obtain ⟨pre, post, rfl, rfl, -⟩ := onTheWay_cases h
  refine settleAll_invariant (fun e he u hu => ?_) hstart
  obtain ⟨c, hc, rfl⟩ := List.mem_map.1 he
  exact hstep c (List.mem_append_left _ hc) u hu

/-- Separate steps that settle their own tests are orderly along the way. -/
theorem orderly_along {steps : List CommitStep} {s₀ : Store} (hseparate : Separate host steps)
    (hready : ∀ before e after, steps = before ++ e :: after → ∀ s, OnTheWay host steps s₀ s →
      (∀ f ∈ before, f.pending host s = false) → e.pending host s = true → e.Ready host s) :
    Orderly (stepsOf host steps) (OnTheWay host steps s₀) := by
  refine Orderly.along fun pre e post hes s hs hpre hpending => ?_
  obtain ⟨before, rest, rfl, rfl, hrest⟩ := List.map_eq_append_iff.1 hes
  obtain ⟨c, after, rfl, rfl, rfl⟩ := List.map_eq_cons_iff.1 hrest
  have hbefore := settled_stepsOf.1 hpre
  have hdone := CommitStep.apply_settles (hready before c after rfl s hs hbefore hpending)
  obtain ⟨-, -, hcross⟩ := List.pairwise_append.1 hseparate
  refine settled_append.2 ⟨settled_stepsOf.2 fun f hf => ?_, fun f hf => ?_⟩
  · have hapart := (hcross f hf c List.mem_cons_self).1
    rw [← hbefore f hf]
    exact CommitStep.pending_same (CommitStep.apply_same hpending hapart)
  · rw [List.mem_singleton.1 hf]
    exact hdone

/-- What the first steps settled stays settled under separate later steps. -/
theorem settled_settleAll_append {es fs : List CommitStep} {s : Store}
    (hseparate : Separate host (es ++ fs))
    (hes : ∀ e ∈ es, e.pending host (settleAll (stepsOf host es) s) = false)
    (hfs : ∀ e ∈ fs, e.pending host
      (settleAll (stepsOf host fs) (settleAll (stepsOf host es) s)) = false) :
    ∀ e ∈ es ++ fs, e.pending host (settleAll (stepsOf host (es ++ fs)) s) = false := by
  obtain ⟨-, -, hcross⟩ := List.pairwise_append.1 hseparate
  intro e he
  rw [stepsOf_append, settleAll_append]
  rcases List.mem_append.1 he with he | he
  · rw [← hes e he]
    exact CommitStep.pending_same (CommitStep.settleAll_same fun f hf => (hcross e he f hf).1)
  · exact hfs e he

/-- A step that is ready where it is made is settled by it. -/
theorem settled_single {e : CommitStep} {s : Store}
    (hready : e.pending host s = true → e.Ready host s) :
    ∀ f ∈ [e], f.pending host (settleAll (stepsOf host [e]) s) = false := by
  intro f hf
  rw [List.mem_singleton.1 hf]
  show e.pending host ((e.toStep host).settle s) = false
  cases hpending : e.pending host s with
  | true =>
      rw [Step.settle_of_pending (e := e.toStep host) hpending]
      exact CommitStep.apply_settles (hready hpending)
  | false =>
      rw [Step.settle_of_settled (e := e.toStep host) hpending]
      exact hpending

/-- Separate steps that are ready wherever they are made are settled in the end. -/
theorem settled_settleAll {steps : List CommitStep} {s : Store} (hseparate : Separate host steps)
    (hready : ∀ e ∈ steps, ∀ u, e.Ready host u) :
    ∀ e ∈ steps, e.pending host (settleAll (stepsOf host steps) s) = false := by
  induction steps generalizing s with
  | nil =>
      intro e he
      cases he
  | cons f steps ih =>
      refine (@settled_settleAll_append _ [f]) hseparate
        (settled_single fun _ => hready f List.mem_cons_self s) ?_
      exact ih (List.pairwise_cons.1 hseparate).2 fun e he => hready e (List.mem_cons_of_mem f he)

/-- Where everything is settled, nothing else is on the way. -/
theorem onTheWay_of_settled {steps : List CommitStep} {s₀ s : Store}
    (h : OnTheWay host steps s₀ s) (hsettled : ∀ e ∈ steps, e.pending host s₀ = false) :
    s = s₀ := by
  obtain ⟨pre, post, rfl, rfl, -⟩ := onTheWay_cases h
  exact settleAll_of_settled (settled_stepsOf.2 fun e he =>
    hsettled e (List.mem_append_left _ he))

/-- Settling a first part of the list stays on the way. -/
theorem onTheWay_settleAll {steps pre post : List CommitStep} {s₀ s : Store}
    (ho : Orderly (stepsOf host steps) (OnTheWay host steps s₀)) (hsteps : steps = pre ++ post)
    (h : OnTheWay host steps s₀ s) : OnTheWay host steps s₀ (settleAll (stepsOf host pre) s) :=
  (ho.settle_prefix (stepsOf host pre) [] (stepsOf host post)
    (by rw [hsteps, stepsOf_append]; rfl) s h (settled_nil s)).1

/-! ## What the steps take -/

theorem Spends.refl (f : FilesystemCapacity) (bytes inodes : Nat) : Spends f f bytes inodes :=
  ⟨rfl, rfl, Nat.le_add_right _ _, Nat.le_add_right _ _⟩

theorem Spends.trans {f g h : FilesystemCapacity} {b b' n n' : Nat} (hfg : Spends f g b n)
    (hgh : Spends g h b' n') : Spends f h (b + b') (n + n') := by
  obtain ⟨h1, h2, h3, h4⟩ := hfg
  obtain ⟨k1, k2, k3, k4⟩ := hgh
  exact ⟨k1.trans h1, k2.trans h2, by omega, by omega⟩

theorem Spends.weaken {f g : FilesystemCapacity} {b b' n n' : Nat} (h : Spends f g b n)
    (hb : b ≤ b') (hn : n ≤ n') : Spends f g b' n' := by
  obtain ⟨h1, h2, h3, h4⟩ := h
  exact ⟨h1, h2, by omega, by omega⟩

theorem writeAllocation_mono (allocation : Allocation) {m n : Nat} (h : m ≤ n) :
    writeAllocation allocation m ≤ writeAllocation allocation n :=
  Nat.add_le_add_right (allocation.allocationUpperBound_mono h) _

/-- A planned segment is no larger than a segment may be. -/
theorem plan_payload_le {h : AuditHost} {limits : AuditLimits} {capacity : FilesystemCapacity}
    {entry : AuditEntry} {administrator : Bool} {a : AuditStore} {plan : AuditAppendPlan}
    (hplan : planAppend h limits capacity entry administrator a = .ok plan) :
    plan.payload.length ≤ limits.maximumSegmentBytes := by
  obtain ⟨archive, segments, scan, headroom, hp⟩ := planAppend_eq_ok.1 hplan
  rcases appendTarget_eq_ok.1 hp.target with ⟨last, -, -, -, hpayload, hfits⟩ |
    ⟨-, -, hpayload, -, -⟩
  · rw [hpayload, List.length_append]
    exact hfits
  · rw [hpayload]
    exact hp.valid.2.2.trans limits.segment_admits_entry

theorem CommitStep.apply_spends {e : CommitStep} {s : Store} (hpending : e.pending host s = true) :
    Spends (host.capacity s) (host.capacity (e.apply host s)) (e.bytes host) e.inodes := by
  cases e with
  | put p d => exact host.put_spends p d s
  | remove p => exact host.remove_spends p s
  | append entry =>
      simp only [apply, appended]
      split
      · rename_i plan hplan
        exact (host.segment_spends plan s).weaken
          (writeAllocation_mono _ (plan_payload_le hplan)) le_rfl
      · exact Spends.refl _ _ _
  | retire t d g => exact host.retire_spends t d g s hpending
  | discard t d g => exact host.discard_spends t d g s
  | makeTenant t => exact host.tenant_spends t _ s
  | makeChild t c =>
      simp only [apply]
      split
      · exact host.tenant_spends t _ s
      · exact Spends.refl _ _ _

variable (host) in
theorem CommitStep.settle_spends (e : CommitStep) (s : Store) :
    Spends (host.capacity s) (host.capacity ((e.toStep host).settle s))
      (if e.pending host s then e.bytes host else 0) (if e.pending host s then e.inodes else 0) := by
  cases hpending : e.pending host s with
  | true =>
      rw [Step.settle_of_pending (e := e.toStep host) hpending]
      exact apply_spends hpending
  | false =>
      rw [Step.settle_of_settled (e := e.toStep host) hpending]
      exact Spends.refl _ _ _

/-- A weight that the steps whose test an earlier step may turn on do not have. -/
def Unaffected (weight : CommitStep → Nat) (steps : List CommitStep) : Prop :=
  steps.Pairwise fun f e => e.observes ∈ f.touches → weight e = 0

theorem pendingSum_settle {weight : CommitStep → Nat} {e : CommitStep} {es : List CommitStep}
    {s : Store} (h : ∀ f ∈ es, f.observes ∈ e.touches → weight f = 0) :
    pendingSum host weight es ((e.toStep host).settle s) = pendingSum host weight es s := by
  unfold pendingSum
  refine congrArg List.sum (List.map_congr_left fun f hf => ?_)
  by_cases hseen : f.observes ∈ e.touches
  · rw [h f hf hseen]
    simp
  · rw [CommitStep.pending_same (CommitStep.settle_same hseen)]

/-- Settling a first part spends no more than was reserved for it. -/
theorem spends_settleAll {pre post : List CommitStep} {s : Store}
    (hbytes : Unaffected (CommitStep.bytes host) (pre ++ post))
    (hinodes : Unaffected CommitStep.inodes (pre ++ post))
    (hsettled : ∀ e ∈ pre, e.pending host (settleAll (stepsOf host pre) s) = false) :
    ∃ b n, Spends (host.capacity s) (host.capacity (settleAll (stepsOf host pre) s)) b n ∧
      pendingSum host (CommitStep.bytes host) (pre ++ post) (settleAll (stepsOf host pre) s) + b =
        pendingSum host (CommitStep.bytes host) (pre ++ post) s ∧
      pendingSum host CommitStep.inodes (pre ++ post) (settleAll (stepsOf host pre) s) + n =
        pendingSum host CommitStep.inodes (pre ++ post) s := by
  induction pre generalizing s with
  | nil => exact ⟨0, 0, Spends.refl _ _ _, rfl, rfl⟩
  | cons e pre ih =>
      rw [List.cons_append] at hbytes hinodes
      obtain ⟨hbytes₁, hbytes₂⟩ := List.pairwise_cons.1 hbytes
      obtain ⟨hinodes₁, hinodes₂⟩ := List.pairwise_cons.1 hinodes
      obtain ⟨b, n, hspends, hb, hn⟩ := ih (s := (e.toStep host).settle s) hbytes₂ hinodes₂
        fun f hf => hsettled f (List.mem_cons_of_mem e hf)
      rw [pendingSum_settle hbytes₁] at hb
      rw [pendingSum_settle hinodes₁] at hn
      have hdone := hsettled e List.mem_cons_self
      have hend : settleAll (stepsOf host (e :: pre)) s =
          settleAll (stepsOf host pre) ((e.toStep host).settle s) := rfl
      have hcons : ∀ weight u, pendingSum host weight (e :: (pre ++ post)) u =
          (if e.pending host u then weight e else 0) + pendingSum host weight (pre ++ post) u :=
        fun weight u => List.sum_cons
      have hfirst := e.settle_spends host s
      rw [hend] at hdone ⊢
      refine ⟨_, _, hfirst.trans hspends, ?_, ?_⟩
      · rw [List.cons_append, hcons, hcons, hdone]
        simp only [Bool.false_eq_true, if_false]
        omega
      · rw [List.cons_append, hcons, hcons, hdone]
        simp only [Bool.false_eq_true, if_false]
        omega

/-- What was admitted for the pending steps at the start is admitted for those still pending, each
time beside a constant reservation. -/
theorem admits_along {steps : List CommitStep} {s₀ s : Store} {limits : HostCapacityLimits}
    {bytes inodes : Nat} (h : OnTheWay host steps s₀ s) (hseparate : Separate host steps)
    (hadmits : Admits limits ⟨pendingSum host (CommitStep.bytes host) steps s₀ + bytes,
      pendingSum host CommitStep.inodes steps s₀ + inodes⟩ (host.capacity s₀)) :
    Admits limits ⟨pendingSum host (CommitStep.bytes host) steps s + bytes,
      pendingSum host CommitStep.inodes steps s + inodes⟩ (host.capacity s) := by
  obtain ⟨pre, post, rfl, rfl, hsettled⟩ := onTheWay_cases h
  obtain ⟨b, n, hspends, hb, hn⟩ := (@spends_settleAll _ _ post)
    (hseparate.imp fun h hseen => (h.2 hseen).1) (hseparate.imp fun h hseen => (h.2 hseen).2)
    hsettled
  obtain ⟨h1, h2, h3, h4⟩ := hspends
  refine hadmits.weaken h1 h2 ?_ ?_ ?_ ?_ <;> simp only <;> omega

/-- On the way no more inodes are pending than at the start. -/
theorem pendingSum_inodes_le {steps : List CommitStep} {s₀ s : Store}
    (h : OnTheWay host steps s₀ s) (hseparate : Separate host steps) :
    pendingSum host CommitStep.inodes steps s ≤ pendingSum host CommitStep.inodes steps s₀ := by
  obtain ⟨pre, post, rfl, rfl, hsettled⟩ := onTheWay_cases h
  obtain ⟨b, n, -, -, hn⟩ := (@spends_settleAll _ _ post)
    (hseparate.imp fun h hseen => (h.2 hseen).1) (hseparate.imp fun h hseen => (h.2 hseen).2)
    hsettled
  omega

end StaticHostAgent.State
