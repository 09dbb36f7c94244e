import StaticHostAgent.Activation.Route

/-!
# What the runtime calls of an activation do

One rule for each call, for every answer of the stream. `Located` says where a state stands; from the
rules of the single calls follow those of the handlers: whatever fails, a capacity error leaves the
source selected and running (`Rejected`), and a success leaves the candidate verified.
-/

set_option autoImplicit false

namespace StaticHostAgent.Activation

open Library Contracts Host State

/-- The generation is selected and its configuration runs. -/
structure OnGeneration (g : CaddyGenerationManifest) (w : ActivationState) : Prop where
  active : w.active = g.generationId
  running : w.running = g.configuration.sha256

/-- The records, the writes and the selected generation of a state. -/
structure Located (s : Store) (n : Nat) (a : Uuid7) (w : ActivationState) : Prop where
  store : w.store = s
  writes : w.writes = n
  active : w.active = a

/-- Every further call succeeds. -/
def Calm (w : ActivationState) : Prop := ∀ k, (w.answers k).passes = true

theorem Calm.next {w : ActivationState} (h : Calm w) : Calm w.next := fun k => h (k + 1)

variable {s : Store} {n : Nat} {a : Uuid7} {w : ActivationState}

theorem Located.next (h : Located s n a w) : Located s n a w.next := ⟨h.store, h.writes, h.active⟩

/-! ## Single calls -/

theorem probe_passes {reading : ActivationState → Except ActivationError Unit}
    {refused : ActivationError → ActivationError} (h : (w.answers 0).passes = true) :
    probe reading refused w = ⟨[], w.next, reading w⟩ := by
  unfold probe
  cases hanswer : w.answers 0 with
  | succeeds | succeedsInVain => rfl
  | refuses error | appliesAndRaises error =>
      rw [hanswer] at h
      cases h

/-- A reading call moves only the stream. -/
theorem probe_spec {reading : ActivationState → Except ActivationError Unit}
    {refused : ActivationError → ActivationError} {Visited : ActivationState → Prop} :
    Durable.Spec w (probe reading refused) Visited
      (fun _ u => u = w.next ∧ reading w = .ok () ∧ (w.answers 0).passes = true)
      (fun e u => u = w.next ∧ (reading w = .error e ∨ ∃ error, e = refused error)) := by
  cases hpasses : (w.answers 0).passes with
  | true =>
      have hrun := (@probe_passes w reading refused) hpasses
      refine ⟨?_, fun _ hok => ?_, fun e he => ?_⟩
      · rw [hrun]
        exact fun _ ht => (nomatch ht)
      · rw [hrun] at hok ⊢
        exact ⟨rfl, hok, rfl⟩
      · rw [hrun] at he ⊢
        exact ⟨rfl, Or.inl he⟩
  | false =>
      have hrun : ∃ error, probe reading refused w = ⟨[], w.next, .error (refused error)⟩ := by
        unfold probe
        cases hanswer : w.answers 0 with
        | succeeds | succeedsInVain =>
            rw [hanswer] at hpasses
            cases hpasses
        | refuses error | appliesAndRaises error => exact ⟨error, rfl⟩
      obtain ⟨error, hrun⟩ := hrun
      refine ⟨?_, fun _ hok => ?_, fun e he => ?_⟩
      · rw [hrun]
        exact fun _ ht => (nomatch ht)
      · rw [hrun] at hok
        cases hok
      · rw [hrun] at he ⊢
        cases he
        exact ⟨rfl, Or.inr ⟨error, rfl⟩⟩

theorem probe_calm {reading : ActivationState → Except ActivationError Unit}
    {refused : ActivationError → ActivationError} {Visited : ActivationState → Prop}
    (hcalm : Calm w) (hreading : reading w = .ok ()) :
    Durable.Spec w (probe reading refused) Visited (fun _ u => u = w.next) (fun _ _ => False) := by
  have hrun : probe reading refused w = ⟨[], w.next, .ok ()⟩ := by
    rw [probe_passes (hcalm 0), hreading]
  refine ⟨?_, fun _ _ => ?_, fun e he => ?_⟩
  · rw [hrun]
    exact fun _ ht => (nomatch ht)
  · rw [hrun]
  · rw [hrun] at he
    cases he

theorem change_passes {f : ActivationState → ActivationState}
    (h : (w.answers 0).passes = true) : change f w = ⟨[f w.next], f w.next, .ok ()⟩ := by
  unfold change
  cases hanswer : w.answers 0 with
  | succeeds | succeedsInVain => rfl
  | refuses error | appliesAndRaises error =>
      rw [hanswer] at h
      cases h

/-- A changing call makes its change, or nothing. -/
theorem change_spec (f : ActivationState → ActivationState) :
    Durable.Spec w (change f) (fun u => u = f w.next) (fun _ u => u = f w.next)
      (fun _ u => u = w.next ∨ u = f w.next) := by
  cases hanswer : w.answers 0 with
  | succeeds | succeedsInVain =>
      have hrun : change f w = ⟨[f w.next], f w.next, .ok ()⟩ := by
        apply change_passes
        rw [hanswer]
        rfl
      refine ⟨?_, fun _ _ => ?_, fun e he => ?_⟩ <;> rw [hrun] at *
      · exact fun t ht => List.mem_singleton.1 ht
      · cases he
  | refuses error =>
      have hrun : change f w = ⟨[], w.next, .error error⟩ := by
        unfold change
        rw [hanswer]
      refine ⟨?_, fun _ hok => ?_, fun e he => Or.inl ?_⟩ <;> rw [hrun] at *
      · exact fun _ ht => (nomatch ht)
      · cases hok
  | appliesAndRaises error =>
      have hrun : change f w = ⟨[f w.next], f w.next, .error error⟩ := by
        unfold change
        rw [hanswer]
      refine ⟨?_, fun _ _ => ?_, fun _ _ => Or.inr ?_⟩ <;> rw [hrun]
      exact fun t ht => List.mem_singleton.1 ht

theorem change_calm {f : ActivationState → ActivationState} (hcalm : Calm w) :
    Durable.Spec w (change f) (fun u => u = f w.next) (fun _ u => u = f w.next)
      (fun _ _ => False) := by
  have hrun : change f w = ⟨[f w.next], f w.next, .ok ()⟩ := change_passes (hcalm 0)
  refine ⟨?_, fun _ _ => ?_, fun e he => ?_⟩ <;> rw [hrun] at *
  · exact fun t ht => List.mem_singleton.1 ht
  · cases he

theorem selectActive_spec (hw : Located s n a w) (id : Uuid7) :
    Durable.Spec w (selectActive id) (fun u => Located s n id u)
      (fun _ u => Located s n id u ∧ u.running = w.running)
      (fun _ u => Located s n a u ∨ Located s n id u) := by
  have hselected : Located s n id { w.next with active := id } := ⟨hw.store, hw.writes, rfl⟩
  refine (change_spec fun w => { w with active := id }).weaken ?_ ?_ ?_
  · rintro u rfl
    exact hselected
  · rintro - u rfl
    exact ⟨hselected, rfl⟩
  · rintro e u (rfl | rfl)
    · exact Or.inl hw.next
    · exact Or.inr hselected

/-- A configuration that was accepted need not run. -/
theorem loadCaddyConfiguration_spec (hw : Located s n a w) (g : CaddyGenerationManifest) :
    Durable.Spec w (loadCaddyConfiguration g) (Located s n a) (fun _ u => Located s n a u)
      (fun _ u => Located s n a u) := by
  have hloaded : Located s n a { w.next with running := g.configuration.sha256 } :=
    ⟨hw.store, hw.writes, hw.active⟩
  by_cases hvain : w.answers 0 = .succeedsInVain
  · have hrun : loadCaddyConfiguration g w = ⟨[], w.next, .ok ()⟩ := if_pos hvain
    refine ⟨?_, fun _ _ => ?_, fun e he => ?_⟩ <;> rw [hrun] at *
    · exact fun _ ht => (nomatch ht)
    · exact hw.next
    · cases he
  · have hrun : loadCaddyConfiguration g w =
        change (fun w => { w with running := g.configuration.sha256 }) w := if_neg hvain
    have hchange : Durable.Spec w (change fun w => { w with running := g.configuration.sha256 })
        (Located s n a) (fun _ u => Located s n a u) (fun _ u => Located s n a u) := by
      refine (change_spec fun w => { w with running := g.configuration.sha256 }).weaken ?_ ?_ ?_
      · rintro u rfl
        exact hloaded
      · rintro - u rfl
        exact hloaded
      · rintro e u (rfl | rfl)
        · exact hw.next
        · exact hloaded
    refine ⟨?_, fun _ hok => ?_, fun e he => ?_⟩ <;> rw [hrun] at *
    · exact hchange.visited
    · exact hchange.post _ hok
    · exact hchange.raised e he

theorem verifyRunningCaddy_spec {Visited : ActivationState → Prop} (hw : Located s n a w)
    (g : CaddyGenerationManifest) :
    Durable.Spec w (verifyRunningCaddy g) Visited
      (fun _ u => Located s n a u ∧ u.running = g.configuration.sha256)
      (fun _ u => Located s n a u) := by
  refine probe_spec.weaken (fun _ h => h) ?_ ?_
  · rintro - u ⟨rfl, hreading, -⟩
    rw [require_eq_ok, decide_eq_true_eq] at hreading
    exact ⟨hw.next, hreading⟩
  · rintro e u ⟨rfl, -⟩
    exact hw.next

/-- A successful reload has verified the candidate. -/
theorem reloadCaddyGeneration_spec (hw : Located s n a w)
    (previous candidate : CaddyGenerationManifest) :
    Durable.Spec w (reloadCaddyGeneration previous candidate) (Located s n a)
      (fun _ u => Located s n a u ∧ u.running = candidate.configuration.sha256)
      (fun _ u => Located s n a u) := by
  refine Durable.Spec.query_bind (fun _ _ => hw) fun _ _ => ?_
  refine Durable.Spec.query_bind (fun _ _ => hw) fun _ _ => ?_
  refine Durable.Spec.bind ((verifyRunningCaddy_spec hw previous).weaken (fun _ h => h)
    (fun _ _ h => h.1) fun _ _ h => h) fun _ u hu => ?_
  exact Durable.Spec.bind (loadCaddyConfiguration_spec hu candidate) fun _ v hv =>
    verifyRunningCaddy_spec hv candidate

theorem restoreCaddyGeneration_spec (hw : Located s n a w) (g : CaddyGenerationManifest) :
    Durable.Spec w (restoreCaddyGeneration g) (Located s n a)
      (fun _ u => Located s n a u ∧ u.running = g.configuration.sha256)
      (fun _ u => Located s n a u) :=
  Durable.Spec.bind (loadCaddyConfiguration_spec hw g) fun _ _ hv => verifyRunningCaddy_spec hv g

/-- A reading of the selected generation fails without a change, or gives it. -/
theorem readActive_bind {α : Type} {f : Uuid7 → Activate α} {Visited : ActivationState → Prop}
    {Post : α → ActivationState → Prop} {Raised : ActivationError → ActivationState → Prop}
    (hfails : Raised .osError w.next)
    (h : (w.answers 0).passes = true → Durable.Spec w.next (f w.active) Visited Post Raised) :
    Durable.Spec w (readActive >>= f) Visited Post Raised := by
  refine Durable.Spec.bind (M := fun id u =>
    u = w.next ∧ id = w.active ∧ (w.answers 0).passes = true) ?_ ?_
  · refine Durable.Spec.bind (M := fun _ u => u = w.next ∧ (w.answers 0).passes = true) ?_ ?_
    · refine probe_spec.weaken (fun _ h => h) (fun _ _ h => ⟨h.1, h.2.2⟩) ?_
      rintro e u ⟨rfl, hreading | ⟨error, rfl⟩⟩
      · cases hreading
      · exact hfails
    · rintro - u ⟨rfl, hpasses⟩
      refine Durable.Spec.query ?_ fun _ he => (nomatch he)
      rintro id hid
      cases hid
      exact ⟨rfl, rfl, hpasses⟩
  · rintro id u ⟨rfl, rfl, hpasses⟩
    exact h hpasses

/-! ## Handlers -/

section Handlers

variable {source candidate : CaddyGenerationManifest}

/-- The records are unchanged and one of the two generations is selected. -/
structure Kept (source candidate : CaddyGenerationManifest) (s : Store) (n : Nat)
    (w : ActivationState) : Prop where
  store : w.store = s
  writes : w.writes = n
  active : w.active = source.generationId ∨ w.active = candidate.generationId

theorem Kept.located (h : Kept source candidate s n w) : Located s n w.active w :=
  ⟨h.store, h.writes, rfl⟩

theorem Located.kept (h : Located s n a w)
    (ha : a = source.generationId ∨ a = candidate.generationId) :
    Kept source candidate s n w := ⟨h.store, h.writes, h.active ▸ ha⟩

theorem Located.onSource (h : Located s n source.generationId w) :
    Kept source candidate s n w := h.kept (Or.inl rfl)

theorem Located.onCandidate (h : Located s n candidate.generationId w) :
    Kept source candidate s n w := h.kept (Or.inr rfl)

/-- What a rejected activation leaves: a capacity error only with the source restored. -/
structure Rejected (source candidate : CaddyGenerationManifest) (s : Store) (n : Nat)
    (e : ActivationError) (w : ActivationState) : Prop where
  kept : Kept source candidate s n w
  capacity : e.isCapacity = true → OnGeneration source w

theorem Rejected.failed (hw : Kept source candidate s n w) {e : ActivationError}
    (he : e.isCapacity = false) : Rejected source candidate s n e w := by
  refine ⟨hw, fun hcapacity => ?_⟩
  rw [he] at hcapacity
  cases hcapacity

/-- Whatever the error, it is raised with the source restored, or the activation fails closed. -/
theorem restoreSource_spec {α : Type} (hw : Kept source candidate s n w) (error : ActivationError) :
    Durable.Spec w (restoreSource source error : Activate α) (Kept source candidate s n)
      (fun _ _ => False) (Rejected source candidate s n) := by
  have hrestored : Durable.Spec w (do
      selectActive source.generationId
      restoreCaddyGeneration source) (Kept source candidate s n)
      (fun _ u => Kept source candidate s n u ∧ OnGeneration source u)
      (fun _ u => Kept source candidate s n u) := by
    refine Durable.Spec.bind ((selectActive_spec hw.located source.generationId).weaken
      (fun _ h => h.onSource) (fun _ _ h => h.1) ?_) fun _ u hu => ?_
    · rintro e u (hu | hu)
      · exact hu.kept hw.active
      · exact hu.onSource
    · refine (restoreCaddyGeneration_spec hu source).weaken (fun _ h => h.onSource) ?_
        fun _ _ h => h.onSource
      rintro - v ⟨hv, hrunning⟩
      exact ⟨hv.onSource, hv.active, hrunning⟩
  refine Durable.Spec.bind (Durable.Spec.rescue hrestored fun _ u hu =>
    Durable.Spec.fail (Rejected.failed hu rfl)) ?_
  rintro - u ⟨hu, hsource⟩
  exact Durable.Spec.fail ⟨hu, fun _ => hsource⟩

/-- From the source, the candidate is selected and verified, or the source is restored. -/
theorem activateFromSource_spec (hw : Kept source candidate s n w) :
    Durable.Spec w (activateFromSource source candidate) (Kept source candidate s n)
      (fun _ u => Kept source candidate s n u ∧ OnGeneration candidate u)
      (Rejected source candidate s n) := by
  refine Durable.Spec.rescue (B := fun _ => Kept source candidate s n) ?_
    fun e u hu => (restoreSource_spec hu e).weaken (fun _ h => h) (fun _ _ h => h.elim)
      fun _ _ h => h
  have hlocated : ∀ u, Located s n w.active u → Kept source candidate s n u :=
    fun _ h => h.kept hw.active
  refine Durable.Spec.bind (M := fun _ => Located s n w.active) ?_ fun _ u hu => ?_
  · refine Durable.Spec.rescue ((verifyRunningCaddy_spec hw.located source).weaken
      (fun _ h => h) (fun _ _ h => h.1) fun _ _ h => h) fun e u hu => ?_
    cases he : e.isException with
    | true =>
        simp only [↓reduceIte]
        exact (restoreCaddyGeneration_spec hu source).weaken hlocated (fun _ _ h => h.1)
          fun _ v h => hlocated v h
    | false => exact Durable.Spec.fail (hlocated u hu)
  refine Durable.Spec.bind ((selectActive_spec hu candidate.generationId).weaken
    (fun _ h => h.onCandidate) (fun _ _ h => h.1) ?_) fun _ v hv => ?_
  · rintro e v (hv | hv)
    · exact hlocated v hv
    · exact hv.onCandidate
  refine (reloadCaddyGeneration_spec hv source candidate).weaken (fun _ h => h.onCandidate) ?_
    fun _ _ h => h.onCandidate
  rintro - t ⟨ht, hrunning⟩
  exact ⟨ht.onCandidate, ht.active, hrunning⟩

/-- With the candidate selected, it is verified, or the source is restored. -/
theorem reactivateCandidate_spec (hw : Located s n candidate.generationId w) (durable : Bool) :
    Durable.Spec w (reactivateCandidate source candidate durable) (Kept source candidate s n)
      (fun _ u => Kept source candidate s n u ∧ OnGeneration candidate u)
      (Rejected source candidate s n) := by
  have hrestore : ∀ (e : ActivationError) (u : ActivationState), Kept source candidate s n u →
      Durable.Spec u (restoreSource source e : Activate Unit) (Kept source candidate s n)
        (fun _ v => Kept source candidate s n v ∧ OnGeneration candidate v)
        (Rejected source candidate s n) := fun e u hu =>
    (restoreSource_spec hu e).weaken (fun _ h => h) (fun _ _ h => h.elim) fun _ _ h => h
  refine Durable.Spec.bind (M := fun _ => Located s n candidate.generationId) ?_ fun _ u hu => ?_
  · refine Durable.Spec.when (fun _ => ?_) fun _ => hw
    refine Durable.Spec.rescue ((selectActive_spec hw candidate.generationId).weaken
      (fun _ h => h.onCandidate) (fun _ _ h => h.1) (B := fun _ => Kept source candidate s n)
      ?_) fun e u hu => (restoreSource_spec hu e).weaken (fun _ h => h) (fun _ _ h => h.elim)
        fun _ _ h => h
    rintro e u (hu | hu) <;> exact hu.onCandidate
  refine Durable.Spec.rescue ((verifyRunningCaddy_spec hu candidate).weaken (fun _ h => h) ?_
    fun _ _ h => h) fun e v hv => ?_
  · rintro - v ⟨hv, hrunning⟩
    exact ⟨hv.onCandidate, hv.active, hrunning⟩
  cases he : e.isException with
  | false => exact hrestore e v hv.onCandidate
  | true =>
      refine Durable.Spec.rescue ((reloadCaddyGeneration_spec hv source candidate).weaken
        (fun _ h => h.onCandidate) ?_ fun _ _ h => h.onCandidate) hrestore
      rintro - t ⟨ht, hrunning⟩
      exact ⟨ht.onCandidate, ht.active, hrunning⟩

theorem Kept.next (h : Kept source candidate s n w) : Kept source candidate s n w.next :=
  ⟨h.store, h.writes, h.active⟩

theorem ensureCandidateRunning_spec (hw : Kept source candidate s n w) (durable : Bool) :
    Durable.Spec w (ensureCandidateRunning source candidate durable) (Kept source candidate s n)
      (fun _ u => Kept source candidate s n u ∧ OnGeneration candidate u)
      (Rejected source candidate s n) := by
  refine readActive_bind (Rejected.failed hw.next rfl) fun _ => ?_
  split
  · exact activateFromSource_spec hw.next
  · rename_i hsource
    have hcandidate := hw.active.resolve_left hsource
    rw [if_pos hcandidate]
    have hselected : Located s n candidate.generationId w.next := ⟨hw.store, hw.writes, hcandidate⟩
    exact reactivateCandidate_spec hselected durable

/-- A run that brings the candidate up has read the selected generation. -/
theorem ensureCandidateRunning_reads (durable : Bool) :
    Durable.Spec w (ensureCandidateRunning source candidate durable) (fun _ => True)
      (fun _ _ => (w.answers 0).passes = true) (fun _ _ => True) :=
  readActive_bind trivial fun hread => ⟨fun _ _ => trivial, fun _ _ => hread, fun _ _ => trivial⟩

/-- A capacity error before the activation leaves the source selected and verified. -/
theorem rejectCapacityBeforeActivation_spec {α : Type} (hw : Kept source candidate s n w)
    (error : ActivationError) :
    Durable.Spec w (rejectCapacityBeforeActivation source candidate error : Activate α)
      (Kept source candidate s n) (fun _ _ => False) (Rejected source candidate s n) := by
  refine readActive_bind (Rejected.failed hw.next rfl) fun _ => ?_
  split
  · rename_i hsource
    have hlocated : Located s n source.generationId w.next := ⟨hw.store, hw.writes, hsource⟩
    refine Durable.Spec.bind (M := fun _ u => Kept source candidate s n u ∧ OnGeneration source u)
      ?_ ?_
    · refine Durable.Spec.rescue ((verifyRunningCaddy_spec hlocated source).weaken (fun _ h => h)
        ?_ fun _ _ h => h) fun e u hu => ?_
      · rintro - u ⟨hu, hrunning⟩
        exact ⟨hu.onSource, hu.active, hrunning⟩
      · exact (restoreSource_spec hu.onSource _).weaken (fun _ h => h) (fun _ _ h => h.elim)
          fun _ _ h => h
    · rintro - u ⟨hu, hsource⟩
      exact Durable.Spec.fail ⟨hu, fun _ => hsource⟩
  · rename_i hsource
    rw [if_pos (hw.active.resolve_left hsource)]
    exact restoreSource_spec hw.next error

/-- Going forward selects nothing but the candidate. -/
theorem ensureForwardCandidate_spec (hw : Located s n a w) :
    Durable.Spec w (ensureForwardCandidate source candidate)
      (Located s n candidate.generationId)
      (fun _ u => Located s n candidate.generationId u ∧ OnGeneration candidate u)
      (fun _ u => Located s n a u ∨ Located s n candidate.generationId u) := by
  refine readActive_bind (Or.inl hw.next) fun _ => ?_
  refine Durable.Spec.query_bind (fun _ _ => Or.inl hw.next) fun _ _ => ?_
  refine Durable.Spec.bind ((selectActive_spec hw.next candidate.generationId).weaken
    (fun _ h => h) (fun _ _ h => h.1) fun _ _ h => h) fun _ u hu => ?_
  refine Durable.Spec.rescue ((verifyRunningCaddy_spec hu candidate).weaken (fun _ h => h) ?_
    fun _ _ h => h) fun e v hv => ?_
  · rintro - v ⟨hv, hrunning⟩
    exact ⟨hv, hv.active, hrunning⟩
  cases he : e.isException with
  | false => exact Durable.Spec.fail (Or.inr hv)
  | true =>
      simp only [↓reduceIte]
      refine Durable.Spec.bind ((reloadCaddyGeneration_spec hv source candidate).weaken
        (fun _ h => h) (fun _ _ h => h.1) fun _ _ h => Or.inr h) fun _ t ht => ?_
      refine (verifyRunningCaddy_spec ht candidate).weaken (fun _ h => h) ?_
        fun _ _ h => Or.inr h
      rintro - x ⟨hx, hrunning⟩
      exact ⟨hx, hx.active, hrunning⟩

/-! ## The writes of the commit -/

/-- No run undoes a write of the commit. -/
def Grows {α : Type} (p : Activate α) : Prop :=
  ∀ w, Durable.Spec w p (fun u => w.writes ≤ u.writes) (fun _ u => w.writes ≤ u.writes)
    (fun _ u => w.writes ≤ u.writes)

namespace Grows

variable {α β : Type}

theorem pure (x : α) : Grows (Pure.pure x : Activate α) := fun _ => Durable.Spec.pure le_rfl

theorem fail (e : ActivationError) : Grows (Durable.fail e : Activate α) :=
  fun _ => Durable.Spec.fail le_rfl

theorem query (f : ActivationState → Except ActivationError α) :
    Grows (Durable.query f : Activate α) :=
  fun _ => Durable.Spec.query (fun _ _ => le_rfl) fun _ _ => le_rfl

theorem bind {p : Activate α} {f : α → Activate β} (hp : Grows p) (hf : ∀ x, Grows (f x)) :
    Grows (p >>= f) := by
  intro w
  refine Durable.Spec.bind (hp w) fun x u hu => ?_
  exact (hf x u).weaken (fun _ h => hu.trans h) (fun _ _ h => hu.trans h) fun _ _ h => hu.trans h

theorem rescue {p : Activate α} {handler : ActivationError → Activate α} (hp : Grows p)
    (hhandler : ∀ e, Grows (handler e)) : Grows (Durable.rescue p handler) := by
  intro w
  refine Durable.Spec.rescue (hp w) fun e u hu => ?_
  exact (hhandler e u).weaken (fun _ h => hu.trans h) (fun _ _ h => hu.trans h)
    fun _ _ h => hu.trans h

theorem rescueException {p : Activate α} {handler : ActivationError → Activate α} (hp : Grows p)
    (hhandler : ∀ e, Grows (handler e)) : Grows (Activation.rescueException p handler) := by
  refine rescue hp fun e => ?_
  cases e.isException with
  | true => exact hhandler e
  | false => exact fail e

theorem rescueCapacity {p : Activate α} {handler : ActivationError → Activate α} (hp : Grows p)
    (hhandler : ∀ e, Grows (handler e)) : Grows (Activation.rescueCapacity p handler) := by
  refine rescue hp fun e => ?_
  cases e.isCapacity with
  | true => exact hhandler e
  | false => exact fail e

theorem when (condition : Bool) {p : Activate Unit} (hp : Grows p) :
    Grows (Durable.when condition p) := by
  unfold Durable.when
  cases condition with
  | true => exact hp
  | false => exact pure ()

theorem probe (reading : ActivationState → Except ActivationError Unit)
    (refused : ActivationError → ActivationError) : Grows (probe reading refused) := by
  intro w
  refine probe_spec.weaken (fun _ h => h) ?_ ?_
  · rintro - u ⟨rfl, -⟩
    exact le_rfl
  · rintro e u ⟨rfl, -⟩
    exact le_rfl

theorem readActive : Grows readActive := bind (probe _ _) fun _ => query _

theorem selectActive (id : Uuid7) : Grows (selectActive id) := by
  intro w
  refine (selectActive_spec ⟨rfl, rfl, rfl⟩ id).weaken (fun _ h => h.writes.ge)
    (fun _ _ h => h.1.writes.ge) ?_
  rintro e u (h | h) <;> exact h.writes.ge

theorem load (g : CaddyGenerationManifest) : Grows (loadCaddyConfiguration g) := fun _ =>
  (loadCaddyConfiguration_spec ⟨rfl, rfl, rfl⟩ g).weaken (fun _ h => h.writes.ge)
    (fun _ _ h => h.writes.ge) fun _ _ h => h.writes.ge

theorem onStore (p : Durable Store AgentError α) : Grows (onStore p) := by
  intro w
  refine ⟨fun u hu => ?_, fun _ _ => Nat.le_add_right _ _, fun _ _ => Nat.le_add_right _ _⟩
  obtain ⟨m, hm, rfl⟩ := List.mem_mapIdx.1 hu
  exact Nat.le_add_right _ _

variable (source candidate : CaddyGenerationManifest)

theorem restore (g : CaddyGenerationManifest) : Grows (restoreCaddyGeneration g) :=
  bind (load g) fun _ => probe _ _

theorem reload : Grows (reloadCaddyGeneration source candidate) :=
  bind (query _) fun _ => bind (query _) fun _ => bind (probe _ _) fun _ =>
    bind (load candidate) fun _ => probe _ _

theorem restoreSource (e : ActivationError) : Grows (restoreSource source e : Activate α) :=
  bind (rescue (bind (selectActive _) fun _ => restore source) fun _ => fail _) fun _ => fail e

theorem ensureCandidateRunning (durable : Bool) :
    Grows (ensureCandidateRunning source candidate durable) := by
  refine bind readActive fun active => ?_
  split
  · refine rescue (bind (rescueException (probe _ _) fun _ => restore source) fun _ =>
      bind (selectActive _) fun _ => reload source candidate) fun e => restoreSource source e
  · split
    · refine bind (when _ (rescue (selectActive _) fun e => restoreSource source e)) fun _ => ?_
      refine rescue (probe _ _) fun e => ?_
      split
      · exact rescue (reload source candidate) fun e => restoreSource source e
      · exact restoreSource source e
    · exact fail _

theorem rejectCapacity (e : ActivationError) :
    Grows (rejectCapacityBeforeActivation source candidate e : Activate α) := by
  refine bind readActive fun active => ?_
  split
  · exact bind (rescue (probe _ _) fun _ => restoreSource source _) fun _ => fail e
  · split
    · exact restoreSource source e
    · exact fail _

theorem ensureForwardCandidate : Grows (ensureForwardCandidate source candidate) := by
  refine bind readActive fun active => bind (query _) fun _ => bind (selectActive _) fun _ => ?_
  exact rescueException (probe _ _) fun _ => bind (reload source candidate) fun _ => probe _ _

end Grows

/-! ## Calm calls -/

/-- With the candidate selected and running, calm calls only confirm it. -/
theorem ensureCandidateRunning_calm (hw : Located s n candidate.generationId w)
    (hrunning : w.running = candidate.configuration.sha256)
    (hcalm : (w.answers 0).passes = true → Calm w.next)
    (hdistinct : candidate.generationId ≠ source.generationId) (durable : Bool) :
    Durable.Spec w (ensureCandidateRunning source candidate durable) (OnGeneration candidate)
      (fun _ u => Located s n candidate.generationId u ∧ OnGeneration candidate u)
      (fun _ => OnGeneration candidate) := by
  refine readActive_bind ⟨hw.active, hrunning⟩ fun hpasses => ?_
  rw [if_neg (by rw [hw.active]; exact hdistinct), if_pos hw.active]
  replace hcalm := hcalm hpasses
  replace hw := hw.next
  replace hrunning : w.next.running = candidate.configuration.sha256 := hrunning
  generalize w.next = w at hw hrunning hcalm ⊢
  refine Durable.Spec.bind (M := fun _ u => Located s n candidate.generationId u ∧
    u.running = candidate.configuration.sha256 ∧ Calm u) ?_ ?_
  · refine Durable.Spec.when (fun _ => ?_) fun _ => ⟨hw, hrunning, hcalm⟩
    have hselected : Located s n candidate.generationId
        { w.next with active := candidate.generationId } := ⟨hw.store, hw.writes, rfl⟩
    refine Durable.Spec.rescue ((change_calm hcalm).weaken ?_ ?_ fun _ _ h => h)
      fun _ _ h => h.elim
    · rintro u rfl
      exact ⟨rfl, hrunning⟩
    · rintro - u rfl
      exact ⟨hselected, hrunning, hcalm.next⟩
  rintro - u ⟨hu, hsame, hstill⟩
  have hverified : require (decide (u.running = candidate.configuration.sha256))
      (ActivationError.caddyAdmin "running Caddy configuration disagrees with its generation") =
        .ok () := by
    rw [decide_eq_true hsame, require_true]
  refine Durable.Spec.rescue ((probe_calm hstill hverified).weaken (fun _ h => h) ?_
    fun _ _ h => h) fun _ _ h => h.elim
  rintro - v rfl
  exact ⟨hu.next, hu.active, hsame⟩

end Handlers

end StaticHostAgent.Activation
