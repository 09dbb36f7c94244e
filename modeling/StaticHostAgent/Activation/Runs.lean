import StaticHostAgent.Activation.Calls
import StaticHostAgent.Activation.Commits

/-!
# Runs of an activation

An activation is run any number of times, each time with other answers, and may crash behind every
durable change. `TwoGenerations` is what such runs keep. The route activation keeps all of it but
one: once its commit has started it may still go back to the source, which the archive
activation never does.
-/

set_option autoImplicit false

namespace StaticHostAgent.Activation

open Library Contracts Host Audit State Commit

/-! ## Runs -/

/-- A run with new answers, which ends or crashes. -/
def Resumed {α : Type} (p : Activate α) (Allowed : ActivationState → Prop)
    (w u : ActivationState) : Prop :=
  ∃ answers, Allowed { w with answers := answers } ∧
    (u = { w with answers := answers } ∨ u ∈ (p { w with answers := answers }).trace ∨
      u = (p { w with answers := answers }).state)

/-- Any number of runs, each of which may crash. -/
abbrev Reached {α : Type} (p : Activate α) (Allowed : ActivationState → Prop) :
    ActivationState → ActivationState → Prop := Relation.ReflTransGen (Resumed p Allowed)

/-- What the runs of an activation keep; runs that are `Allowed` also never go back. -/
structure TwoGenerations {α : Type} (p : Activate α) (source candidate : CaddyGenerationManifest)
    (Allowed : ActivationState → Prop) (start : ActivationState) : Prop where
  returned : ∀ w, Reached p (fun _ => True) start w → ∀ a, (p w).result = .ok a →
    OnGeneration candidate (p w).state
  rejected : ∀ w, Reached p (fun _ => True) start w → ∀ e, (p w).result = .error e →
    e.isCapacity = true → (p w).state.writes = 0 → OnGeneration source (p w).state
  forward : ∀ w u, Reached p Allowed start w → 0 < w.writes → Reached p Allowed w u →
    u.active = candidate.generationId
  selected : ∀ w, Reached p (fun _ => True) start w →
    w.active = source.generationId ∨ w.active = candidate.generationId

/-- The writes of a commit stay. -/
theorem Reached.writes_le {α : Type} {p : Activate α} {Allowed : ActivationState → Prop}
    (hp : Grows p) {w u : ActivationState} (h : Reached p Allowed w u) : w.writes ≤ u.writes := by
  induction h with
  | refl => exact le_rfl
  | @tail u v _ hstep ih =>
      obtain ⟨answers, -, hcases⟩ := hstep
      have hspec := hp { u with answers := answers }
      refine ih.trans ?_
      rcases hcases with rfl | hmem | rfl
      · exact le_rfl
      · exact hspec.visited _ hmem
      · cases hresult : (p { u with answers := answers }).result with
        | ok a => exact hspec.post a hresult
        | error e => exact hspec.raised e hresult

/-- An invariant that every run keeps, whatever its outcome. -/
theorem Reached.invariant {α : Type} {p : Activate α} {Allowed I : ActivationState → Prop}
    (hanswers : ∀ w answers, I w → I { w with answers := answers })
    (hrun : ∀ w, Allowed w → I w → Durable.Spec w p I (fun _ => I) (fun _ => I))
    {start w : ActivationState} (hstart : I start) (h : Reached p Allowed start w) : I w := by
  induction h with
  | refl => exact hstart
  | @tail u v _ hstep ih =>
      obtain ⟨answers, hallowed, hcases⟩ := hstep
      have hspec := hrun _ hallowed (hanswers _ answers ih)
      rcases hcases with rfl | hmem | rfl
      · exact hanswers _ answers ih
      · exact hspec.visited _ hmem
      · cases hresult : (p { u with answers := answers }).result with
        | ok a => exact hspec.post a hresult
        | error e => exact hspec.raised e hresult

/-! ## The records -/

section Records

variable {w : ActivationState} {Visited : ActivationState → Prop} {α β : Type}
  {Raised : ActivationError → ActivationState → Prop}

theorem readStore_bind {f : Store → Except AgentError β} {g : β → Activate α}
    {Post : α → ActivationState → Prop}
    (herror : ∀ e, f w.store = .error e → Raised (.agent e) w)
    (hok : ∀ b, f w.store = .ok b → Durable.Spec w (g b) Visited Post Raised) :
    Durable.Spec w (readStore f >>= g) Visited Post Raised := by
  refine Durable.Spec.query_bind (fun e he => ?_) fun b hb => hok b (mapError_eq_ok.1 hb)
  cases hf : f w.store with
  | ok b =>
      rw [hf] at he
      cases he
  | error e' =>
      rw [hf] at he
      cases he
      exact herror e' hf

/-- A commit counts its writes: without a write it ends where it began. -/
theorem onStore_spec {p : Durable Store AgentError α} {V : Store → Prop} {P : α → Store → Prop}
    {R : AgentError → Store → Prop} {Post : α → ActivationState → Prop}
    (hp : Durable.Spec w.store p V P R) (honest : p.Honest)
    (hvisited : ∀ t m, V t → Visited (w.written t (m + 1)))
    (hpost : ∀ a t m, P a t → (m = 0 → t = w.store) → (0 < m → V t) → Post a (w.written t m))
    (hraised : ∀ e t m, R e t → (m = 0 → t = w.store) → (0 < m → V t) →
      Raised (.agent e) (w.written t m)) :
    Durable.Spec w (onStore p) Visited Post Raised := by
  have hend := honest w.store
  have hzero : (p w.store).trace.length = 0 → (p w.store).state = w.store := by
    intro hlength
    rw [hend, List.length_eq_zero_iff.1 hlength]
    rfl
  have hsome : 0 < (p w.store).trace.length → V (p w.store).state := by
    intro hlength
    cases hlast : (p w.store).trace.getLast? with
    | none =>
        rw [List.getLast?_eq_none_iff] at hlast
        rw [hlast] at hlength
        cases hlength
    | some t =>
        rw [hend, hlast]
        exact hp.visited t (List.mem_of_getLast? hlast)
  refine ⟨fun u hu => ?_, fun a ha => ?_, fun e he => ?_⟩
  · obtain ⟨m, hm, rfl⟩ := List.mem_mapIdx.1 hu
    exact hvisited _ m (hp.visited _ (List.getElem_mem hm))
  · exact hpost a _ _ (hp.post a (mapError_eq_ok.1 ha)) hzero hsome
  · have hresult : mapError ActivationError.agent (p w.store).result = .error e := he
    cases hp' : (p w.store).result with
    | ok a =>
        rw [hp'] at hresult
        cases hresult
    | error e' =>
        rw [hp'] at hresult
        cases hresult
        exact hraised e' _ _ (hp.raised e' hp') hzero hsome

/-- A handler of capacity errors leaves every other error as it is. -/
theorem rescueCapacity_spec {p : Activate α} {handler : ActivationError → Activate α}
    {B : ActivationError → ActivationState → Prop} {Post : α → ActivationState → Prop}
    (hp : Durable.Spec w p Visited Post B)
    (hother : ∀ e u, B e u → e.isCapacity = false → Raised e u)
    (hcapacity : ∀ e u, B e u → e.isCapacity = true →
      Durable.Spec u (handler e) Visited Post Raised) :
    Durable.Spec w (rescueCapacity p handler) Visited Post Raised := by
  refine Durable.Spec.rescue hp fun e u hu => ?_
  cases he : e.isCapacity with
  | true => exact hcapacity e u hu he
  | false => exact Durable.Spec.fail (hother e u hu he)

end Records

/-! ## Routes -/

section Route

variable {host : ActivationHost} {prepared : PreparedRouteTransition}
  {source : CaddyGenerationManifest} {start w : ActivationState}

/-- The prepared route transition, with its source active and running and no write made. -/
structure RouteStart (host : ActivationHost) (prepared : PreparedRouteTransition)
    (source : CaddyGenerationManifest) (w : ActivationState) : Prop where
  recovery : ∃ recovery, prepared.plan.intent.lifecycleRecovery = some recovery ∧
    recovery.sourceRuntimeGenerationId = source.generationId
  stored : host.generations source.generationId = some source
  intents : ∃ records, measureIntentRecords host.toStateHost w.store = .ok records ∧ records ≠ []
  writes : w.writes = 0
  selected : OnGeneration source w

/-- No capacity error. -/
def Harmless (e : ActivationError) : Prop := e.isCapacity = false

theorem lifted_harmless {β : Type} {x : Except AgentError β} (h : Raises Ordinary x) :
    Raises Harmless (mapError ActivationError.agent x) := by
  cases x with
  | ok b => exact Raises.ok b
  | error e => exact Raises.throw (h e rfl)

theorem requireExactJob_harmless (job : AuthorizationJob) (s : Store) :
    Raises Harmless (requireExactJob host job s) :=
  Raises.bind (lifted_harmless (readJob_ordinary _ s)) fun _ _ =>
    Raises.bind (Raises.require rfl) fun _ _ => Raises.pure _

theorem requireSoleIntent_harmless {intentId : Uuid7} {intent : TransactionIntent} {s : Store}
    {records : List Uuid7} (hmeasured : measureIntentRecords host.toStateHost s = .ok records) :
    Raises Harmless (requireSoleIntent host intentId intent s) := by
  unfold requireSoleIntent
  rw [hmeasured]
  refine Raises.bind (Raises.ok records) fun _ _ => ?_
  refine Raises.bind (Raises.require rfl) fun _ _ => ?_
  exact Raises.bind (lifted_harmless (readIntent_ordinary _ s)) fun _ _ => Raises.require rfl

theorem require_harmless {condition : Bool} {error e : ActivationError}
    (h : require condition error = .error e) (herror : Harmless error) : Harmless e :=
  Raises.require herror e h

/-- The verified generation that an identity names, if it is complete. -/
theorem openVerifiedGeneration_spec {generationId : Uuid7} {Visited : ActivationState → Prop}
    {Raised : ActivationError → ActivationState → Prop} (hraised : ∀ e, Harmless e → Raised e w) :
    Durable.Spec w (openVerifiedGeneration host generationId) Visited
      (fun g u => u = w ∧ host.generations generationId = some g) Raised := by
  unfold openVerifiedGeneration
  cases hfound : host.generations generationId with
  | none =>
      refine Durable.Spec.query (fun _ hok => (nomatch hok)) fun e he => hraised e ?_
      cases he
      rfl
  | some generation =>
      refine Durable.Spec.query (fun g hok => ?_) fun e he => hraised e ?_
      · obtain ⟨_, -, hok⟩ := bind_eq_ok.1 hok
        obtain rfl : generation = g := pure_eq_ok.1 hok
        exact ⟨rfl, rfl⟩
      · have hopen : Raises Harmless (do
            require (decide (generation.generationId = generationId))
              (.caddyGeneration "generation directory name disagrees with its manifest")
            pure generation) := Raises.bind (Raises.require rfl) fun _ _ => Raises.pure _
        exact hopen e he

/-- An activation stops with an ordinary error, or finds no intent, or runs the candidate. -/
theorem activateRouteTransition_rule {Visited : ActivationState → Prop}
    {Post : CommitOutcome → ActivationState → Prop}
    {Raised : ActivationError → ActivationState → Prop} (hstart : RouteStart host prepared source start)
    (hordinary : ∀ e u, u = w ∨ u = w.next → Harmless e → Raised e u)
    (hunmeasured : ∀ e, measureIntentRecords host.toStateHost w.store = .error e →
      Raised (.agent e) w.next)
    (hcleared : measureIntentRecords host.toStateHost w.store = .ok [] → ∀ job,
      Durable.Spec w.next (onStore (finalizeRoute host.toStateHost prepared.capacityLimits job
        prepared.plan)) Visited Post Raised)
    (hgenerations : ∀ records job,
      measureIntentRecords host.toStateHost w.store = .ok records → records ≠ [] →
        requireExactJob host prepared.job w.store = .ok job →
          prepared.candidateManifest.generationId ≠ source.generationId →
            (w.answers 0).passes = true →
              Durable.Spec w.next (activateGenerations host prepared job source
                prepared.candidateManifest) Visited Post Raised) :
    Durable.Spec w (activateRouteTransition host prepared) Visited Post Raised := by
  unfold activateRouteTransition
  refine readStore_bind (fun e he => ?_) fun documents hfreeze => ?_
  · exact hordinary _ w (Or.inl rfl) (freezeRoute_ordinary _ _ e he)
  refine Durable.Spec.bind (M := fun _ u => u = w.next ∧ (w.answers 0).passes = true) ?_ ?_
  · refine probe_spec.weaken (fun _ h => h) (fun _ _ h => ⟨h.1, h.2.2⟩) ?_
    rintro e u ⟨rfl, hreading | ⟨error, rfl⟩⟩
    · cases hreading
    · exact hordinary _ _ (Or.inr rfl) rfl
  rintro - u ⟨rfl, hopen⟩
  have hnext : ∀ e, Harmless e → Raised e w.next := fun e => hordinary e _ (Or.inr rfl)
  refine Durable.Spec.query_bind (fun e he => hnext e (requireExactJob_harmless _ _ e he))
    fun job hjob => ?_
  refine readStore_bind hunmeasured fun records hmeasured => ?_
  split
  · rename_i hnil
    exact hcleared (hnil ▸ hmeasured) job
  rename_i hne
  unfold activatePrepared
  refine Durable.Spec.query_bind
    (fun e he => hnext e (requireSoleIntent_harmless hmeasured e he)) fun _ _ => ?_
  obtain ⟨recovery, hrecovery, hsource⟩ := hstart.recovery
  rw [hrecovery]
  refine Durable.Spec.query_bind
    (fun e he => hnext e (require_harmless he rfl)) fun _ hcandidate => ?_
  rw [require_eq_ok, decide_eq_true_eq] at hcandidate
  refine Durable.Spec.bind (openVerifiedGeneration_spec hnext) ?_
  rintro opened - ⟨rfl, hopened⟩
  refine Durable.Spec.bind (openVerifiedGeneration_spec hnext) ?_
  rintro candidate - ⟨rfl, -⟩
  refine Durable.Spec.query_bind
    (fun e he => hnext e (require_harmless he rfl)) fun _ hsame => ?_
  rw [require_eq_ok, decide_eq_true_eq] at hsame
  rw [hsource, hstart.stored] at hopened
  obtain rfl := Option.some.inj hopened
  subst hsame
  refine hgenerations records job hmeasured hne hjob ?_ hopen
  -- the validated plan goes from one generation to another one
  obtain ⟨⟨target, hchecked⟩, -⟩ := (freezeRoute_eq_ok host.toStateHost).1 hfreeze
  have hdistinct := hchecked.agreement.recoveryBound.runtimes
  have hplanned : recovery = documents.recovery :=
    Option.some.inj (hrecovery.symm.trans hchecked.recovery)
  rw [hcandidate, ← hsource, hplanned]
  exact hdistinct.symm

/-- What every run of a route activation keeps: one of the two generations is selected, the records
change with the writes alone, and the intent is there until the candidate runs. -/
structure RouteInv (source candidate : CaddyGenerationManifest) (start w : ActivationState) :
    Prop where
  active : w.active = source.generationId ∨ w.active = candidate.generationId
  store : w.writes = 0 → w.store = start.store
  intents : (∃ i, (w.store.find? (.intent i)).isSome = true) ∨ OnGeneration candidate w

theorem RouteInv.next {candidate : CaddyGenerationManifest}
    (h : RouteInv source candidate start w) : RouteInv source candidate start w.next :=
  ⟨h.active, h.store, h.intents.imp_right fun hon => ⟨hon.active, hon.running⟩⟩

/-- While the intent is there, the runtime may be on either side. -/
theorem RouteInv.kept {candidate : CaddyGenerationManifest} {u : ActivationState}
    (h : RouteInv source candidate start w)
    (hintent : ∃ i, (w.store.find? (.intent i)).isSome = true)
    (hu : Kept source candidate w.store w.writes u) : RouteInv source candidate start u := by
  refine ⟨hu.active, fun hzero => ?_, Or.inl ?_⟩
  · rw [hu.store]
    exact h.store (hu.writes ▸ hzero)
  · rw [hu.store]
    exact hintent

theorem found_of_measured {s : Store} {records : List Uuid7}
    (hmeasured : measureIntentRecords host.toStateHost s = .ok records) (hne : records ≠ []) :
    ∃ i, (s.find? (.intent i)).isSome = true := by
  obtain ⟨hids, -, -⟩ := measureIntentRecords_eq_ok.1 hmeasured
  cases records with
  | nil => exact absurd rfl hne
  | cons i rest =>
      have hmem : i ∈ Listing.intents.ids s := hids ▸ List.mem_cons_self
      exact ⟨i, Listing.mem_ids.1 hmem⟩

theorem not_found_of_cleared {s : Store}
    (hmeasured : measureIntentRecords host.toStateHost s = .ok []) (i : Uuid7) :
    ¬ (s.find? (.intent i)).isSome = true := by
  obtain ⟨hids, -, -⟩ := measureIntentRecords_eq_ok.1 hmeasured
  intro hfound
  have hmem : i ∈ Listing.intents.ids s := Listing.mem_ids.2 hfound
  rw [← hids] at hmem
  cases hmem

/-- A raised capacity error without a write leaves the source selected and running. -/
def RouteRaised (source candidate : CaddyGenerationManifest) (start : ActivationState)
    (e : ActivationError) (u : ActivationState) : Prop :=
  RouteInv source candidate start u ∧
    (e.isCapacity = true → u.writes = 0 → OnGeneration source u)

theorem RouteRaised.harmless {candidate : CaddyGenerationManifest} {e : ActivationError}
    (h : RouteInv source candidate start w) (he : Harmless e) :
    RouteRaised source candidate start e w := by
  refine ⟨h, fun hcapacity => ?_⟩
  rw [he] at hcapacity
  cases hcapacity

/-- A run of verified generations: it ends on the candidate or restores the source. -/
theorem activateGenerations_spec {job : AuthorizationJob} {candidate : CaddyGenerationManifest}
    (h : RouteInv source candidate start w)
    (hintent : ∃ i, (w.store.find? (.intent i)).isSome = true) :
    Durable.Spec w (activateGenerations host prepared job source candidate)
      (RouteInv source candidate start)
      (fun _ u => RouteInv source candidate start u ∧ OnGeneration candidate u)
      (RouteRaised source candidate start) := by
  have hkept : ∀ u, Kept source candidate w.store w.writes u → RouteInv source candidate start u :=
    fun _ hu => h.kept hintent hu
  have hrejected : ∀ e u, Rejected source candidate w.store w.writes e u →
      RouteRaised source candidate start e u :=
    fun _ u hu => ⟨hkept u hu.kept, fun hcapacity _ => hu.capacity hcapacity⟩
  have hhere : Kept source candidate w.store w.writes w.next := ⟨rfl, rfl, h.active⟩
  refine Durable.Spec.bind (M := fun _ u => u = w.next) ?_ ?_
  · refine probe_spec.weaken (fun _ h => h) (fun _ _ h => h.1) ?_
    rintro e u ⟨rfl, hreading | ⟨error, rfl⟩⟩
    · cases hreading
    · exact RouteRaised.harmless (hkept _ hhere) rfl
  rintro - u rfl
  refine Durable.Spec.bind (M := fun _ => Kept source candidate w.store w.writes) ?_ ?_
  · -- the admission
    refine rescueCapacity_spec (B := fun _ u => u = w.next) ?_ ?_ ?_
    · refine Durable.Spec.query (fun _ _ => hhere) fun _ _ => rfl
    · rintro e u rfl he
      exact RouteRaised.harmless (hkept _ hhere) he
    · rintro e u rfl _
      exact (rejectCapacityBeforeActivation_spec hhere e).weaken hkept (fun _ _ h => h.elim)
        hrejected
  rintro - u hu
  refine Durable.Spec.bind ((ensureCandidateRunning_spec hu _).weaken hkept (fun _ _ h => h)
    hrejected) ?_
  rintro - v ⟨hv, hcandidate⟩
  -- the commit, with the candidate selected and running
  have hcommitted : ∀ t m, (m = 0 → t = v.store) →
      RouteInv source candidate start (v.written t m) := by
    intro t m hzero
    refine ⟨hv.active, fun hwrites => ?_, Or.inr ⟨hcandidate.active, hcandidate.running⟩⟩
    have hnone : v.writes + m = 0 := hwrites
    obtain ⟨hbefore, hm⟩ := Nat.add_eq_zero_iff.1 hnone
    show t = start.store
    rw [hzero hm, hv.store]
    exact h.store (hv.writes ▸ hbefore)
  refine rescueCapacity_spec (B := fun _ t => RouteInv source candidate start t ∧
      ∃ i, (t.store.find? (.intent i)).isSome = true) ?_ ?_ ?_
  · refine onStore_spec finalizeRoute_spec (finalizeRoute_honest _) ?_ ?_ ?_
    · intro t m _
      exact hcommitted t (m + 1) fun hzero => absurd hzero (Nat.succ_ne_zero m)
    · intro o t m _ hzero _
      exact ⟨hcommitted t m hzero, hcandidate.active, hcandidate.running⟩
    · rintro e t m ⟨hintents, -⟩ hzero _
      obtain ⟨i, hi⟩ := hintent
      refine ⟨hcommitted t m hzero, i, ?_⟩
      show (t.find? _).isSome = true
      rw [hintents i, hv.store]
      exact hi
  · rintro e t ⟨ht, -⟩ he
    exact RouteRaised.harmless ht he
  · rintro e t ⟨ht, hfound⟩ _
    refine (restoreSource_spec ⟨rfl, rfl, ht.active⟩ e).weaken (fun _ hx => ht.kept hfound hx)
      (fun _ _ h => h.elim) fun e' x hx => ?_
    exact ⟨ht.kept hfound hx.kept, fun hcapacity _ => hx.capacity hcapacity⟩

/-- Whatever the calls answer, a route activation keeps its invariant, returns on the candidate, and
raises a capacity error before its first write on the source. -/
theorem activateRouteTransition_spec (hstart : RouteStart host prepared source start)
    (h : RouteInv source prepared.candidateManifest start w) :
    Durable.Spec w (activateRouteTransition host prepared)
      (RouteInv source prepared.candidateManifest start)
      (fun _ u => RouteInv source prepared.candidateManifest start u ∧
        OnGeneration prepared.candidateManifest u)
      (RouteRaised source prepared.candidateManifest start) := by
  obtain ⟨started, hbegun, hne⟩ := hstart.intents
  refine activateRouteTransition_rule hstart ?_ ?_ ?_ ?_
  · rintro e u (rfl | rfl) he
    · exact RouteRaised.harmless h he
    · exact RouteRaised.harmless h.next he
  · intro e he
    refine ⟨h.next, fun _ hzero => ?_⟩
    rw [h.store hzero, hbegun] at he
    cases he
  · intro hcleared job
    have hcandidate := h.intents.resolve_left fun ⟨i, hi⟩ => not_found_of_cleared hcleared i hi
    have hsame : ∀ t m, t = w.store → (m = 0 → t = w.store) →
        RouteInv source prepared.candidateManifest start (w.next.written t m) := by
      rintro t m rfl -
      refine ⟨h.active, fun hwrites => h.store ?_, Or.inr ⟨hcandidate.active, hcandidate.running⟩⟩
      exact (Nat.add_eq_zero_iff.1 hwrites).1
    refine onStore_spec (finalizeRoute_quiet hcleared) (finalizeRoute_honest _) ?_ ?_ ?_
    · exact fun _ _ hnone => hnone.elim
    · intro o t m ht hzero _
      exact ⟨hsame t m ht hzero, hcandidate.active, hcandidate.running⟩
    · intro e t m ht hzero _
      refine ⟨hsame t m ht hzero, fun _ hwrites => ?_⟩
      have hbefore := h.store (Nat.add_eq_zero_iff.1 hwrites).1
      rw [hbefore, hbegun] at hcleared
      exact absurd (Except.ok.inj hcleared) hne
  · intro records job hmeasured hsome _ _ _
    exact activateGenerations_spec h.next (found_of_measured hmeasured hsome)

/-! ### Once the commit has started -/

/-- The run of a started commit is not disturbed: its calls succeed and its admission raises no
capacity error; and the append of any run raises none. -/
structure Undisturbed (host : ActivationHost) (prepared : PreparedRouteTransition)
    (job : AuthorizationJob) (w : ActivationState) : Prop where
  append : FinalizeSpared host.toStateHost prepared.capacityLimits job prepared.plan w.store
  calls : 0 < w.writes → Calm w
  admission : 0 < w.writes →
    Raises Ordinary (admitRoute host.toStateHost prepared.capacityLimits job prepared.plan w.store)

/-- The gate is open, the cleanup succeeds and the selected generation can be read; a run that fails
in one of these calls changes nothing. -/
def Entered (w : ActivationState) : Prop := ∀ k < 3, (w.answers k).passes = true

def RouteUndisturbed (host : ActivationHost) (prepared : PreparedRouteTransition)
    (w : ActivationState) : Prop :=
  Entered w → ∀ job, requireExactJob host prepared.job w.store = .ok job →
    Undisturbed host prepared job w

/-- Once the commit has started, the candidate is selected and running. -/
def Forward (candidate : CaddyGenerationManifest) (w : ActivationState) : Prop :=
  0 < w.writes → OnGeneration candidate w

theorem Forward.next {candidate : CaddyGenerationManifest} (h : Forward candidate w) :
    Forward candidate w.next := fun hpositive => ⟨(h hpositive).active, (h hpositive).running⟩

theorem Undisturbed.next {job : AuthorizationJob} (h : Undisturbed host prepared job w) :
    Undisturbed host prepared job w.next :=
  ⟨h.append, fun hpositive => (h.calls hpositive).next, h.admission⟩

theorem Kept.forward {candidate : CaddyGenerationManifest} {s : Store} {u : ActivationState}
    (h : Kept source candidate s 0 u) : Forward candidate u := by
  intro hpositive
  rw [h.writes] at hpositive
  exact absurd hpositive (Nat.lt_irrefl 0)

/-- The candidate stays, or becomes, the running generation, or nothing is written yet. -/
theorem ensureCandidateRunning_forward {candidate : CaddyGenerationManifest}
    (hactive : w.active = source.generationId ∨ w.active = candidate.generationId)
    (hdistinct : candidate.generationId ≠ source.generationId) (hforward : Forward candidate w)
    (hcalm : 0 < w.writes → (w.answers 0).passes = true → Calm w.next) (durable : Bool) :
    Durable.Spec w (ensureCandidateRunning source candidate durable) (Forward candidate)
      (fun _ u => Kept source candidate w.store w.writes u ∧ OnGeneration candidate u)
      (fun _ u => Forward candidate u) := by
  rcases Nat.eq_zero_or_pos w.writes with hzero | hpositive
  · have hw : Kept source candidate w.store 0 w := ⟨rfl, hzero, hactive⟩
    rw [hzero]
    exact (ensureCandidateRunning_spec hw durable).weaken (fun _ h => h.forward) (fun _ _ h => h)
      fun _ _ h => h.kept.forward
  · have hon := hforward hpositive
    have hw : Located w.store w.writes candidate.generationId w := ⟨rfl, rfl, hon.active⟩
    refine (ensureCandidateRunning_calm hw hon.running (hcalm hpositive) hdistinct durable).weaken
      (fun _ h _ => h) ?_ fun _ _ h _ => h
    rintro - u ⟨hu, hcandidate⟩
    exact ⟨hu.onCandidate, hcandidate⟩

/-- A run of verified generations that is not disturbed does not go back. -/
theorem activateGenerations_forward {job : AuthorizationJob} {candidate : CaddyGenerationManifest}
    (hactive : w.active = source.generationId ∨ w.active = candidate.generationId)
    (hdistinct : candidate.generationId ≠ source.generationId) (hforward : Forward candidate w)
    (h : (w.answers 0).passes = true → (w.answers 1).passes = true →
      Undisturbed host prepared job w) :
    Durable.Spec w (activateGenerations host prepared job source candidate) (Forward candidate)
      (fun _ => Forward candidate) (fun _ => Forward candidate) := by
  refine Durable.Spec.bind (M := fun _ u => u = w.next ∧ (w.answers 0).passes = true) ?_ ?_
  · refine probe_spec.weaken (fun _ h => h) (fun _ _ h => ⟨h.1, h.2.2⟩) ?_
    rintro e u ⟨rfl, -⟩
    exact hforward.next
  rintro - u ⟨rfl, hclean⟩
  replace h : (w.next.answers 0).passes = true → Undisturbed host prepared job w := h hclean
  refine Durable.Spec.bind (M := fun _ u => u = w.next ∧ admitRoute host.toStateHost
    prepared.capacityLimits job prepared.plan w.store = .ok ()) ?_ ?_
  · -- a capacity error of the admission is one before the first write, or goes no further than to
    -- the reading of the selected generation
    refine rescueCapacity_spec (B := fun e u => u = w.next ∧ mapError ActivationError.agent
      (admitRoute host.toStateHost prepared.capacityLimits job prepared.plan w.store) =
        .error e) ?_ ?_ ?_
    · exact Durable.Spec.query (fun _ hok => ⟨rfl, mapError_eq_ok.1 hok⟩) fun _ he => ⟨rfl, he⟩
    · rintro e u ⟨rfl, -⟩ -
      exact hforward.next
    · rintro e u ⟨rfl, he⟩ hcapacity
      rcases Nat.eq_zero_or_pos w.writes with hzero | hpositive
      · have hw : Kept source candidate w.store 0 w.next := ⟨rfl, hzero, hactive⟩
        exact (rejectCapacityBeforeActivation_spec hw e).weaken (fun _ h => h.forward)
          (fun _ _ h => h.elim) fun _ _ h => h.kept.forward
      · refine readActive_bind hforward.next.next fun hread => ?_
        rw [lifted_harmless ((h hread).admission hpositive) e he] at hcapacity
        cases hcapacity
  rintro - u ⟨rfl, hadmitted⟩
  refine Durable.Spec.bind (((@ensureCandidateRunning_forward source w.next candidate) hactive
    hdistinct hforward.next (fun hpositive hread => ((h hread).calls hpositive).next.next) _).both
    (ensureCandidateRunning_reads _) |>.weaken (fun _ h => h.1) (fun _ _ h => h)
    fun _ _ h => h.1) ?_
  rintro - v ⟨⟨hv, hcandidate⟩, hread⟩
  have hstore : v.store = w.store := hv.store
  have hcommitted : ∀ t m, Forward candidate (v.written t m) :=
    fun _ _ _ => ⟨hcandidate.active, hcandidate.running⟩
  refine rescueCapacity_spec (B := fun e t => Harmless e ∧ Forward candidate t) ?_ ?_ ?_
  · refine onStore_spec finalizeRoute_spec (finalizeRoute_honest _) (fun t m _ => hcommitted t _)
      (fun _ t m _ _ _ => hcommitted t m) ?_
    rintro e t m ⟨-, hspared⟩ - -
    rw [hstore] at hspared
    exact ⟨hspared (h hread).append hadmitted, hcommitted t m⟩
  · exact fun e t ht _ => ht.2
  · rintro e t ⟨he, -⟩ hcapacity
    rw [he] at hcapacity
    cases hcapacity

/-- A route activation that is not disturbed does not go back once its commit has started. -/
theorem activateRouteTransition_forward (hstart : RouteStart host prepared source start)
    (h : RouteInv source prepared.candidateManifest start w)
    (hforward : Forward prepared.candidateManifest w) (hallowed : RouteUndisturbed host prepared w) :
    Durable.Spec w (activateRouteTransition host prepared) (Forward prepared.candidateManifest)
      (fun _ => Forward prepared.candidateManifest)
      (fun _ => Forward prepared.candidateManifest) := by
  refine activateRouteTransition_rule hstart ?_ ?_ ?_ ?_
  · rintro e u (rfl | rfl) _
    · exact hforward
    · exact hforward.next
  · exact fun _ _ => hforward.next
  · intro hcleared job
    have hcandidate := h.intents.resolve_left fun ⟨i, hi⟩ => not_found_of_cleared hcleared i hi
    have hon : ∀ t m, Forward prepared.candidateManifest (w.next.written t m) :=
      fun _ _ _ => ⟨hcandidate.active, hcandidate.running⟩
    exact onStore_spec (finalizeRoute_quiet hcleared) (finalizeRoute_honest _)
      (fun t m _ => hon t _) (fun _ t m _ _ _ => hon t m) fun _ t m _ _ _ => hon t m
  · intro records job _ _ hjob hdistinct hopen
    refine activateGenerations_forward h.active hdistinct hforward.next fun hclean hread => ?_
    have hentered : Entered w
      | 0, _ => hopen
      | 1, _ => hclean
      | 2, _ => hread
    exact (hallowed hentered job hjob).next

theorem activateRouteTransition_grows (host : ActivationHost) (prepared : PreparedRouteTransition) :
    Grows (activateRouteTransition host prepared) := by
  refine Grows.bind (Grows.query _) fun _ => Grows.bind (Grows.probe _ _) fun _ => ?_
  refine Grows.bind (Grows.query _) fun job => Grows.bind (Grows.query _) fun records => ?_
  split
  · exact Grows.onStore _
  unfold activatePrepared
  refine Grows.bind (Grows.query _) fun _ => ?_
  split
  · exact Grows.fail _
  refine Grows.bind (Grows.query _) fun _ => Grows.bind (Grows.query _) fun g => ?_
  refine Grows.bind (Grows.query _) fun g' => Grows.bind (Grows.query _) fun _ => ?_
  refine Grows.bind (Grows.probe _ _) fun _ => ?_
  refine Grows.bind (Grows.rescueCapacity (Grows.query _) (Grows.rejectCapacity g g')) fun _ => ?_
  refine Grows.bind (Grows.ensureCandidateRunning g g' _) fun _ => ?_
  exact Grows.rescueCapacity (Grows.onStore _) (Grows.restoreSource g)

/-- Every run of a route activation keeps to its two generations, and goes back after the start of the
commit only if it is disturbed. -/
theorem RouteStart.twoGenerations (hstart : RouteStart host prepared source start) :
    TwoGenerations (activateRouteTransition host prepared) source prepared.candidateManifest
      (RouteUndisturbed host prepared) start := by
  have hbegin : RouteInv source prepared.candidateManifest start start := by
    obtain ⟨records, hmeasured, hne⟩ := hstart.intents
    exact ⟨Or.inl hstart.selected.active, fun _ => rfl, Or.inl (found_of_measured hmeasured hne)⟩
  have hanswers : ∀ (w : ActivationState) (answers : Nat → Answer),
      RouteInv source prepared.candidateManifest start w →
        RouteInv source prepared.candidateManifest start { w with answers := answers } :=
    fun _ _ h => ⟨h.active, h.store, h.intents.imp_right fun hon => ⟨hon.active, hon.running⟩⟩
  have hinv : ∀ w, Reached (activateRouteTransition host prepared) (fun _ => True) start w →
      RouteInv source prepared.candidateManifest start w := by
    intro w hw
    refine hw.invariant hanswers (fun u _ hu => ?_) hbegin
    exact (activateRouteTransition_spec hstart hu).weaken (fun _ h => h) (fun _ _ h => h.1)
      fun _ _ h => h.1
  have hforward : ∀ w, Reached (activateRouteTransition host prepared)
      (RouteUndisturbed host prepared) start w →
        RouteInv source prepared.candidateManifest start w ∧
          Forward prepared.candidateManifest w := by
    intro w hw
    refine hw.invariant (I := fun w => RouteInv source prepared.candidateManifest start w ∧
      Forward prepared.candidateManifest w) (fun u answers h => ⟨hanswers u answers h.1,
        fun hpositive => ⟨(h.2 hpositive).active, (h.2 hpositive).running⟩⟩)
      (fun u hallowed hu => ?_) ⟨hbegin, fun hpositive => ?_⟩
    · refine ((activateRouteTransition_spec hstart hu.1).both
        (activateRouteTransition_forward hstart hu.1 hu.2 hallowed)).weaken (fun _ h => h) ?_ ?_
      · exact fun _ _ h => ⟨h.1.1, h.2⟩
      · exact fun _ _ h => ⟨h.1.1, h.2⟩
    · rw [hstart.writes] at hpositive
      cases hpositive
  refine ⟨fun w hw a ha => ?_, fun w hw e he => ?_, fun w u hw hpositive hu => ?_,
    fun w hw => (hinv w hw).active⟩
  · exact ((activateRouteTransition_spec hstart (hinv w hw)).post a ha).2
  · exact ((activateRouteTransition_spec hstart (hinv w hw)).raised e he).2
  · exact ((hforward u (hw.trans hu)).2
      (hpositive.trans_le (hu.writes_le (activateRouteTransition_grows host prepared)))).active

end Route

/-! ## Archives -/

section Archive

variable {host : ActivationHost} {prepared : PreparedArchiveTransition}
  {source : CaddyGenerationManifest} {start w : ActivationState}

/-- The prepared archive transition, with its source active and running and no record written. -/
structure ArchiveStart (host : ActivationHost) (prepared : PreparedArchiveTransition)
    (source : CaddyGenerationManifest) (w : ActivationState) : Prop where
  recovery : ∃ recovery, prepared.plan.intent.archiveRecovery = some recovery ∧
    recovery.sourceRuntimeGenerationId = source.generationId
  stored : host.generations source.generationId = some source
  unbound : ¬ RecordBound prepared.plan w.store
  writes : w.writes = 0
  selected : OnGeneration source w

/-- What every run of an archive activation keeps: the record is there and the candidate selected
once the commit has started. -/
structure ArchiveInv (prepared : PreparedArchiveTransition) (source : CaddyGenerationManifest)
    (start w : ActivationState) : Prop where
  active : w.active = source.generationId ∨ w.active = prepared.candidateManifest.generationId
  store : w.writes = 0 → w.store = start.store
  started : 0 < w.writes → RecordBound prepared.plan w.store ∧
    w.active = prepared.candidateManifest.generationId

def ArchiveRaised (prepared : PreparedArchiveTransition) (source : CaddyGenerationManifest)
    (start : ActivationState) (e : ActivationError) (u : ActivationState) : Prop :=
  ArchiveInv prepared source start u ∧ (e.isCapacity = true → u.writes = 0 → OnGeneration source u)

theorem ArchiveInv.next (h : ArchiveInv prepared source start w) :
    ArchiveInv prepared source start w.next := ⟨h.active, h.store, h.started⟩

theorem ArchiveRaised.harmless (h : ArchiveInv prepared source start w) {e : ActivationError}
    (he : Harmless e) : ArchiveRaised prepared source start e w := by
  refine ⟨h, fun hcapacity => ?_⟩
  rw [he] at hcapacity
  cases hcapacity

/-- The record tells that a write was made. -/
theorem ArchiveInv.bound_iff (hstart : ArchiveStart host prepared source start)
    (h : ArchiveInv prepared source start w) : RecordBound prepared.plan w.store ↔ 0 < w.writes := by
  refine ⟨fun hbound => Nat.pos_of_ne_zero fun hzero => ?_, fun hpositive =>
    (h.started hpositive).1⟩
  rw [h.store hzero] at hbound
  exact hstart.unbound hbound

/-- Before the first write the runtime may be on either side. -/
theorem ArchiveInv.unwritten (h : ArchiveInv prepared source start w) (hzero : w.writes = 0)
    {u : ActivationState} (hu : Kept source prepared.candidateManifest w.store w.writes u) :
    ArchiveInv prepared source start u := by
  refine ⟨hu.active, fun _ => hu.store.trans (h.store hzero), fun hpositive => ?_⟩
  rw [hu.writes, hzero] at hpositive
  cases hpositive

/-- Behind the first write the runtime stays on the candidate. -/
theorem ArchiveInv.forward (h : ArchiveInv prepared source start w) (hpositive : 0 < w.writes)
    {u : ActivationState}
    (hu : Located w.store w.writes prepared.candidateManifest.generationId u) :
    ArchiveInv prepared source start u := by
  refine ⟨Or.inr hu.active, fun hzero => ?_, fun _ => ⟨?_, hu.active⟩⟩
  · rw [hu.writes] at hzero
    exact absurd hzero (Nat.pos_iff_ne_zero.1 hpositive)
  · rw [hu.store]
    exact (h.started hpositive).1

theorem commitStarted_ordinary (plan : ArchiveTransitionPlan) (s : Store) :
    Raises Ordinary (commitStarted host plan s) := by
  unfold commitStarted
  split
  · exact Raises.pure true
  · exact Raises.pure false
  · rename_i error _ hread
    exact Raises.throw (readLocked_ordinary _ _ error hread)

theorem commitStarted_eq {plan : ArchiveTransitionPlan} {s : Store} {started : Bool}
    (h : commitStarted host plan s = .ok started) : started = true ↔ RecordBound plan s := by
  unfold commitStarted at h
  unfold RecordBound
  split at h
  · rename_i record hread
    obtain rfl : true = started := pure_eq_ok.1 h
    rw [show s.find? (.archive plan.tenantId plan.archiveRecord.deploymentId) = some record from
      (readLocked_eq_ok.1 hread).1]
    simp
  · rename_i hread
    obtain rfl : false = started := pure_eq_ok.1 h
    rw [show s.find? (.archive plan.tenantId plan.archiveRecord.deploymentId) = none from
      readLocked_eq_fileNotFound.1 hread]
    simp
  · cases h

/-- The candidate is selected and running behind the runtime part, or the source is restored. -/
theorem archiveRuntime_spec (hstart : ArchiveStart host prepared source start)
    (h : ArchiveInv prepared source start w) {started : Bool}
    (hstarted : started = true ↔ RecordBound prepared.plan w.store) :
    Durable.Spec w (runArchiveCandidate source prepared.candidateManifest started)
      (ArchiveInv prepared source start)
      (fun _ u => Kept source prepared.candidateManifest w.store w.writes u ∧
        OnGeneration prepared.candidateManifest u)
      (ArchiveRaised prepared source start) := by
  cases started with
  | true =>
      have hpositive := (h.bound_iff hstart).1 (hstarted.1 rfl)
      have hw : Located w.store w.writes prepared.candidateManifest.generationId w :=
        ⟨rfl, rfl, (h.started hpositive).2⟩
      have hinv : ∀ u, Located w.store w.writes prepared.candidateManifest.generationId u →
          ArchiveInv prepared source start u := fun _ hu => h.forward hpositive hu
      refine (ensureForwardCandidate_spec hw).weaken hinv ?_ ?_
      · rintro - u ⟨hu, hon⟩
        exact ⟨hu.onCandidate, hon⟩
      · intro e u hu
        have hlocated : Located w.store w.writes prepared.candidateManifest.generationId u :=
          hu.elim id id
        refine ⟨hinv u hlocated, fun _ hzero => ?_⟩
        rw [hlocated.writes] at hzero
        exact absurd hzero (Nat.pos_iff_ne_zero.1 hpositive)
  | false =>
      have hzero : w.writes = 0 := Nat.eq_zero_of_not_pos fun hpositive =>
        Bool.false_ne_true (hstarted.2 (h.started hpositive).1)
      have hw : Kept source prepared.candidateManifest w.store w.writes w := ⟨rfl, rfl, h.active⟩
      refine (ensureCandidateRunning_spec hw false).weaken (fun u hu => h.unwritten hzero hu)
        (fun _ _ h => h) fun e u hu => ?_
      exact ⟨h.unwritten hzero hu.kept, fun hcapacity _ => hu.capacity hcapacity⟩

/-- A refused admission leaves the source before the first write, and the candidate behind it. -/
theorem rejectArchiveCapacity_spec (hstart : ArchiveStart host prepared source start)
    (h : ArchiveInv prepared source start w) {started : Bool}
    (hstarted : started = true ↔ RecordBound prepared.plan w.store) (error : ActivationError) :
    Durable.Spec w (rejectArchiveCapacity source prepared.candidateManifest started error)
      (ArchiveInv prepared source start) (fun _ _ => False)
      (ArchiveRaised prepared source start) := by
  cases started with
  | true =>
      have hpositive := (h.bound_iff hstart).1 (hstarted.1 rfl)
      refine Durable.Spec.bind (archiveRuntime_spec hstart h hstarted) ?_
      rintro - u ⟨hu, hon⟩
      have hlocated : Located w.store w.writes prepared.candidateManifest.generationId u :=
        ⟨hu.store, hu.writes, hon.active⟩
      refine Durable.Spec.fail ⟨h.forward hpositive hlocated, fun _ hzero => ?_⟩
      rw [hu.writes] at hzero
      exact absurd hzero (Nat.pos_iff_ne_zero.1 hpositive)
  | false =>
      have hzero : w.writes = 0 := Nat.eq_zero_of_not_pos fun hpositive =>
        Bool.false_ne_true (hstarted.2 (h.started hpositive).1)
      have hw : Kept source prepared.candidateManifest w.store w.writes w := ⟨rfl, rfl, h.active⟩
      refine (rejectCapacityBeforeActivation_spec hw error).weaken
        (fun u hu => h.unwritten hzero hu) (fun _ _ h => h) fun e u hu => ?_
      exact ⟨h.unwritten hzero hu.kept, fun hcapacity _ => hu.capacity hcapacity⟩

/-- A capacity error of the commit goes back only before the first write. -/
theorem abandonArchive_spec (hstart : ArchiveStart host prepared source start)
    (h : ArchiveInv prepared source start w) (error : ActivationError) :
    Durable.Spec w (abandonArchive host prepared.plan source error)
      (ArchiveInv prepared source start)
      (fun _ _ => False) (ArchiveRaised prepared source start) := by
  refine readStore_bind (fun e he => ?_) fun started hstarted => ?_
  · exact ArchiveRaised.harmless h (commitStarted_ordinary _ _ e he)
  have hbound := commitStarted_eq hstarted
  cases started with
  | true =>
      refine Durable.Spec.fail ⟨h, fun _ hzero => ?_⟩
      exact absurd hzero (Nat.pos_iff_ne_zero.1 ((h.bound_iff hstart).1 (hbound.1 rfl)))
  | false =>
      have hzero : w.writes = 0 := Nat.eq_zero_of_not_pos fun hpositive =>
        Bool.false_ne_true (hbound.2 (h.started hpositive).1)
      have hw : Kept source prepared.candidateManifest w.store w.writes w := ⟨rfl, rfl, h.active⟩
      refine (restoreSource_spec hw error).weaken (fun u hu => h.unwritten hzero hu)
        (fun _ _ h => h) fun e u hu => ?_
      exact ⟨h.unwritten hzero hu.kept, fun hcapacity _ => hu.capacity hcapacity⟩

/-- A run of verified generations keeps the invariant, whatever its calls answer. -/
theorem activateArchiveGenerations_spec {job : AuthorizationJob}
    (hstart : ArchiveStart host prepared source start) (h : ArchiveInv prepared source start w) :
    Durable.Spec w (activateArchiveGenerations host prepared job source prepared.candidateManifest)
      (ArchiveInv prepared source start)
      (fun _ u => ArchiveInv prepared source start u ∧ OnGeneration prepared.candidateManifest u)
      (ArchiveRaised prepared source start) := by
  refine readStore_bind (fun e he => ?_) fun started hstarted => ?_
  · exact ArchiveRaised.harmless h (commitStarted_ordinary _ _ e he)
  have hbound := commitStarted_eq hstarted
  refine Durable.Spec.bind (M := fun _ u => u = w) ?_ ?_
  · refine rescueCapacity_spec (B := fun _ u => u = w)
      (Durable.Spec.query (fun _ _ => rfl) fun _ _ => rfl) ?_ ?_
    · rintro e u rfl he
      exact ArchiveRaised.harmless h he
    · rintro e u rfl _
      exact (rejectArchiveCapacity_spec hstart h hbound e).weaken (fun _ h => h)
        (fun _ _ h => h.elim) fun _ _ h => h
  rintro - u rfl
  refine Durable.Spec.bind (M := fun _ v => v = u.next) ?_ ?_
  · refine probe_spec.weaken (fun _ h => h) (fun _ _ h => h.1) ?_
    rintro e v ⟨rfl, hreading | ⟨error, rfl⟩⟩
    · cases hreading
    · exact ArchiveRaised.harmless h.next rfl
  rintro - v rfl
  refine Durable.Spec.bind (archiveRuntime_spec hstart h.next hbound) ?_
  rintro - x ⟨hx, hon⟩
  -- the commit, with the candidate selected and running
  have hcommitted : ∀ t m, (m = 0 → t = x.store) → (0 < m → RecordBound prepared.plan t) →
      ArchiveInv prepared source start (x.written t m) := by
    intro t m hzero hsome
    refine ⟨hx.active, fun hwrites => ?_, fun hpositive => ⟨?_, hon.active⟩⟩
    · obtain ⟨hbefore, hm⟩ := Nat.add_eq_zero_iff.1 (show x.writes + m = 0 from hwrites)
      show t = start.store
      rw [hzero hm, hx.store]
      exact h.store (hx.writes ▸ hbefore)
    · rcases Nat.eq_zero_or_pos m with hm | hm
      · show RecordBound prepared.plan t
        rw [hzero hm, hx.store]
        refine (h.started ?_).1
        have hwrites : 0 < x.writes + m := hpositive
        rwa [hm, Nat.add_zero, hx.writes] at hwrites
      · exact hsome hm
  refine rescueCapacity_spec (B := fun _ => ArchiveInv prepared source start) ?_ ?_ ?_
  · refine onStore_spec finalizeArchive_spec (finalizeArchive_honest _) ?_ ?_ ?_
    · exact fun t m ht => hcommitted t (m + 1)
        (fun hzero => absurd hzero (Nat.succ_ne_zero m)) fun _ => ht
    · exact fun _ t m _ hzero hsome =>
        ⟨hcommitted t m hzero hsome, hon.active, hon.running⟩
    · exact fun _ t m _ hzero hsome => hcommitted t m hzero hsome
  · exact fun e t ht he => ArchiveRaised.harmless ht he
  · intro e t ht _
    exact (abandonArchive_spec hstart ht e).weaken (fun _ h => h) (fun _ _ h => h.elim)
      fun _ _ h => h

theorem activateArchiveTransition_spec (hstart : ArchiveStart host prepared source start)
    (h : ArchiveInv prepared source start w) :
    Durable.Spec w (activateArchiveTransition host prepared) (ArchiveInv prepared source start)
      (fun _ u => ArchiveInv prepared source start u ∧ OnGeneration prepared.candidateManifest u)
      (ArchiveRaised prepared source start) := by
  obtain ⟨recovery, hrecovery, hsource⟩ := hstart.recovery
  unfold activateArchiveTransition
  rw [hrecovery]
  refine Durable.Spec.query_bind
    (fun e he => ArchiveRaised.harmless h (require_harmless he rfl)) fun _ _ => ?_
  refine Durable.Spec.bind (M := fun _ u => u = w.next) ?_ ?_
  · refine probe_spec.weaken (fun _ h => h) (fun _ _ h => h.1) ?_
    rintro e u ⟨rfl, hreading | ⟨error, rfl⟩⟩
    · cases hreading
    · exact ArchiveRaised.harmless h.next rfl
  rintro - u rfl
  refine readStore_bind (fun e he => ?_) fun job _ => ?_
  · exact ArchiveRaised.harmless h.next (requireSameJob_ordinary _ _ _ _ e he)
  have hnext : ∀ e, Harmless e → ArchiveRaised prepared source start e w.next :=
    fun e he => ArchiveRaised.harmless h.next he
  refine Durable.Spec.bind (openVerifiedGeneration_spec hnext) ?_
  rintro opened - ⟨rfl, hopened⟩
  refine Durable.Spec.bind (openVerifiedGeneration_spec hnext) ?_
  rintro candidate - ⟨rfl, -⟩
  refine Durable.Spec.query_bind
    (fun e he => hnext e (require_harmless he rfl)) fun _ hsame => ?_
  rw [require_eq_ok, decide_eq_true_eq] at hsame
  rw [hsource, hstart.stored] at hopened
  obtain rfl := Option.some.inj hopened
  subst hsame
  exact activateArchiveGenerations_spec hstart h.next

theorem activateArchiveTransition_grows (host : ActivationHost)
    (prepared : PreparedArchiveTransition) : Grows (activateArchiveTransition host prepared) := by
  unfold activateArchiveTransition
  split
  · exact Grows.fail _
  refine Grows.bind (Grows.query _) fun _ => Grows.bind (Grows.probe _ _) fun _ => ?_
  refine Grows.bind (Grows.query _) fun job => ?_
  refine Grows.bind (Grows.query _) fun g => Grows.bind (Grows.query _) fun g' => ?_
  refine Grows.bind (Grows.query _) fun _ => Grows.bind (Grows.query _) fun started => ?_
  refine Grows.bind (Grows.rescueCapacity (Grows.query _) fun e => ?_) fun _ => ?_
  · unfold rejectArchiveCapacity
    split
    · exact Grows.bind (Grows.ensureForwardCandidate g g') fun _ => Grows.fail e
    · exact Grows.rejectCapacity g g' e
  refine Grows.bind (Grows.probe _ _) fun _ => Grows.bind ?_ fun _ => ?_
  · unfold runArchiveCandidate
    split
    · exact Grows.ensureForwardCandidate g g'
    · exact Grows.ensureCandidateRunning g g' false
  refine Grows.rescueCapacity (Grows.onStore _) fun e => Grows.bind (Grows.query _) fun again => ?_
  split
  · exact Grows.fail e
  · exact Grows.restoreSource g e

/-- Every run of an archive activation keeps to its two generations, and never goes back. -/
theorem ArchiveStart.twoGenerations (hstart : ArchiveStart host prepared source start) :
    TwoGenerations (activateArchiveTransition host prepared) source prepared.candidateManifest
      (fun _ => True) start := by
  have hbegin : ArchiveInv prepared source start start := by
    refine ⟨Or.inl hstart.selected.active, fun _ => rfl, fun hpositive => ?_⟩
    rw [hstart.writes] at hpositive
    cases hpositive
  have hinv : ∀ w, Reached (activateArchiveTransition host prepared) (fun _ => True) start w →
      ArchiveInv prepared source start w := by
    intro w hw
    refine hw.invariant (fun _ _ h => ⟨h.active, h.store, h.started⟩) (fun u _ hu => ?_) hbegin
    exact (activateArchiveTransition_spec hstart hu).weaken (fun _ h => h) (fun _ _ h => h.1)
      fun _ _ h => h.1
  refine ⟨fun w hw a ha => ?_, fun w hw e he => ?_, fun w u hw hpositive hu => ?_,
    fun w hw => (hinv w hw).active⟩
  · exact ((activateArchiveTransition_spec hstart (hinv w hw)).post a ha).2
  · exact ((activateArchiveTransition_spec hstart (hinv w hw)).raised e he).2
  · exact ((hinv u (hw.trans hu)).started
      (hpositive.trans_le (hu.writes_le (activateArchiveTransition_grows host prepared)))).2

end Archive

end StaticHostAgent.Activation
