import StaticHostAgent.Maintenance.Protocol

/-!
# Runs of the maintenance

What the record of a maintenance may show, over any number of runs with any answers and a crash
anywhere: `maintenance_permitted` says that every event was permitted by those before it.
-/

set_option autoImplicit false

namespace StaticHostAgent.Maintenance

open Library Contracts Host

/-! ## The record -/

/-- The last listing, unless something was forgotten since. -/
def freshListing : List Event → Option (List RepositorySnapshot)
  | [] => none
  | .listed snapshots :: _ => some snapshots
  | .forgets _ :: _ => none
  | .recorded _ :: log | .prunes :: log | .removed :: log => freshListing log

/-- The intent that is durable. -/
def outstanding : List Event → Option MaintenanceIntent
  | [] => none
  | .recorded intent :: _ => some intent
  | .removed :: _ => none
  | .listed _ :: log | .forgets _ :: log | .prunes :: log => outstanding log

/-- The intent that the maintenance began with, and the listing it was selected from. -/
def begun : List Event → Option (MaintenanceIntent × List RepositorySnapshot)
  | [] => none
  | .removed :: _ => none
  | .recorded intent :: log => begun log <|> (freshListing log).map fun listing => (intent, listing)
  | .listed _ :: log | .forgets _ :: log | .prunes :: log => begun log

/-- An intent differs from another at most in its phase. -/
def SamePlan (i j : MaintenanceIntent) : Prop := j = { i with phase := j.phase }

/-- The snapshots that a selection kept are still listed, and an identity that is still listed
names the snapshot it named. -/
structure StillThere (removeIds : List String) (selected listing : List RepositorySnapshot) :
    Prop where
  kept : ∀ s ∈ selected, s.snapshotId ∉ removeIds → s ∈ listing
  same : ∀ s ∈ listing, s.snapshotId ∈ removeIds → s ∈ selected

/-- Unless others removed what was kept, a part of the set leaves every group of a later listing. -/
theorem Chosen.spares {removeIds ids : List String} {selected listing : List RepositorySnapshot}
    (h : Chosen removeIds selected) (hids : ∀ id ∈ ids, id ∈ removeIds)
    (hstill : StillThere removeIds selected listing) : LeavesGroups ids listing := by
  intro s hs hid
  obtain ⟨kept, hkept, hsame, hscheduled, hkeep⟩ :=
    h.leaves s (hstill.same s hs (hids _ hid)) (hids _ hid)
  exact ⟨kept, hstill.kept kept hkept hkeep, hsame, hscheduled, fun hmem => hkeep (hids _ hmem)⟩

/-- The identities are a part of the recorded set, none of them is protected, and every group keeps
a snapshot that the recorded set does not name. The recorded protected list is the one that the
verification before the event has proved: `protects` says what it holds of the listing, and
`Reads.verifyProtected` that it holds every snapshot that the local archive refers to. -/
structure ForgetsOrdinary (log : List Event) (ids : List String) (intent first : MaintenanceIntent)
    (selected listing : List RepositorySnapshot) : Prop where
  durable : outstanding log = some intent
  begun : begun log = some (first, selected)
  fresh : freshListing log = some listing
  samePlan : SamePlan first intent
  recorded : ∀ id ∈ ids, id ∈ intent.removeIds
  unprotected : ∀ id ∈ ids, id ∉ intent.protectedSnapshotIds
  protects : ∀ s ∈ listing, isAuditSnapshot s = true ∨ lineageTag ∈ s.tags →
    s.snapshotId ∈ intent.protectedSnapshotIds
  chosen : Chosen first.removeIds selected
  spares : StillThere intent.removeIds selected listing → LeavesGroups ids listing

/-- What an event requires of the events before it. -/
def Permitted (log : List Event) : Event → Prop
  | .listed _ | .removed => True
  | .recorded intent => match outstanding log with
      | some current => SamePlan current intent
      | none => intent.phase = .prepared ∧
          ∃ selected, freshListing log = some selected ∧ Chosen intent.removeIds selected
  | .forgets ids => ∃ intent first selected listing,
      ForgetsOrdinary log ids intent first selected listing
  | .prunes => ∃ intent listing, outstanding log = some intent ∧ freshListing log = some listing ∧
      ∀ s ∈ listing, s.snapshotId ∉ intent.removeIds

def AllPermitted : List Event → Prop
  | [] => True
  | event :: log => Permitted log event ∧ AllPermitted log

theorem SamePlan.refl (i : MaintenanceIntent) : SamePlan i i := rfl

theorem SamePlan.trans {i j k : MaintenanceIntent} (hij : SamePlan i j) (hjk : SamePlan j k) :
    SamePlan i k := by
  unfold SamePlan at *
  rw [hjk, hij]

theorem SamePlan.removeIds {i j : MaintenanceIntent} (h : SamePlan i j) :
    j.removeIds = i.removeIds := by
  rw [h]

theorem SamePlan.phase (i : MaintenanceIntent) (p : MaintenancePhase) :
    SamePlan i { i with phase := p } := rfl

/-! ## Readings -/

section Readings

variable {w u : MaintenanceState} {α β : Type}

/-- The run changed neither the intent nor the record. -/
structure Untouched (w u : MaintenanceState) : Prop where
  intent : u.intent = w.intent
  events : u.events = w.events

theorem Untouched.trans {v : MaintenanceState} (h : Untouched w u) (h' : Untouched u v) :
    Untouched w v := ⟨h'.intent.trans h.intent, h'.events.trans h.events⟩

/-- A program that only reads, and what it returns. -/
abbrev Reads (w : MaintenanceState) (p : Maintain α) (Q : α → Prop) : Prop :=
  Durable.Spec w p (Untouched w) (fun a u => Untouched w u ∧ Q a) fun _ u => Untouched w u

theorem Reads.pure {a : α} {Q : α → Prop} (h : Q a) : Reads w (Pure.pure a) Q :=
  Durable.Spec.pure ⟨⟨rfl, rfl⟩, h⟩

theorem Reads.fail {e : AgentError} {Q : α → Prop} : Reads w (Durable.fail e : Maintain α) Q :=
  Durable.Spec.fail ⟨rfl, rfl⟩

theorem Reads.ask {Q : Answer → Prop} (h : Q (w.answers 0)) : Reads w ask Q := by
  refine ⟨fun _ ht => (nomatch ht), fun a ha => ?_, fun _ he => (nomatch he)⟩
  cases ha
  exact ⟨⟨rfl, rfl⟩, h⟩

theorem Reads.query {f : MaintenanceState → Except AgentError α} {Q : α → Prop}
    (h : ∀ a, f w = .ok a → Q a) : Reads w (Durable.query f) Q :=
  Durable.Spec.query (fun a ha => ⟨⟨rfl, rfl⟩, h a ha⟩) fun _ _ => ⟨rfl, rfl⟩

theorem Reads.bind {p : Maintain α} {f : α → Maintain β} {M : α → Prop} {Q : β → Prop}
    (hp : Reads w p M) (hf : ∀ a u, Untouched w u → M a → Reads u (f a) Q) :
    Reads w (p >>= f) Q := by
  refine Durable.Spec.bind hp fun a u ⟨hu, ha⟩ => ?_
  exact (hf a u hu ha).weaken (fun _ ht => hu.trans ht) (fun _ _ ht => ⟨hu.trans ht.1, ht.2⟩)
    fun _ _ ht => hu.trans ht

theorem Reads.command : Reads w command fun _ => True := by
  refine Reads.bind (Reads.ask (Q := fun _ => True) trivial) fun answer u _ _ => ?_
  cases answer.outcome with
  | succeeds => exact Reads.pure trivial
  | refuses error => exact Reads.fail
  | appliesAndRaises error => exact Reads.fail

variable {host : MaintenanceHost}

theorem Reads.genesis {identity : RepositoryIdentity} {snapshots : List RepositorySnapshot} :
    Reads w (repositoryGenesis identity snapshots) fun found => ∃ restored,
      genesisOf identity snapshots restored = .ok found :=
  Reads.bind (Reads.ask (Q := fun _ => True) trivial) fun answer _ _ _ =>
    Reads.query fun _ h => ⟨answer.restored, h⟩

/-- A reading of the local archive finds the durable intent. -/
theorem Reads.observe {lineage : LineageRecord} : Reads w (observeArchive host lineage)
    fun archive => archive.maintenanceIntent = w.intent := by
  refine Reads.bind (Reads.ask (Q := fun _ => True) trivial) fun answer u hu _ => ?_
  refine Reads.query fun archive h => ?_
  simp only [bind_eq_ok, pure_eq_ok] at h
  obtain ⟨found, -, -, -, -, -, -, -, -, -, rfl⟩ := h
  exact hu.intent

theorem Reads.protectCandidates {archive : LocalArchive} {referenced : List (String × Sha256)}
    {candidates : List RepositorySnapshot} : ∀ {acc : Protection} {w : MaintenanceState},
      Reads w (protectCandidates host archive referenced candidates acc) fun _ => True := by
  induction candidates with
  | nil => exact fun {_ _} => Reads.pure trivial
  | cons snapshot rest ih =>
      intro acc w
      refine Reads.bind (Reads.ask (Q := fun _ => True) trivial) fun _ _ _ _ => ?_
      exact Reads.bind (Reads.query (Q := fun _ => True) fun _ _ => trivial) fun _ _ _ _ => ih

/-- The genesis of a listing is its only snapshot with the tag of the lineage. -/
theorem genesis_unique {identity : RepositoryIdentity} {snapshots : List RepositorySnapshot}
    {restored : Except AgentError LineageRecord} {record : LineageRecord}
    (h : genesisOf identity snapshots restored = .ok (some record)) {genesis : RepositorySnapshot}
    (hfirst : firstGenesis snapshots = .ok genesis) :
    ∀ s ∈ snapshots, lineageTag ∈ s.tags → s = genesis := by
  intro s hs htag
  unfold firstGenesis at hfirst
  split at hfirst
  · cases hfirst
  rename_i found hfind
  obtain rfl : found = genesis := pure_eq_ok.1 hfirst
  have hgenesis : found ∈ snapshots.filter fun s => decide (lineageTag ∈ s.tags) :=
    List.mem_filter.2 ⟨List.mem_of_find?_eq_some hfind,
      List.find?_some (p := fun s : RepositorySnapshot => decide (lineageTag ∈ s.tags)) hfind⟩
  have hmem : s ∈ snapshots.filter fun s => decide (lineageTag ∈ s.tags) :=
    List.mem_filter.2 ⟨hs, decide_eq_true htag⟩
  unfold genesisOf at h
  split at h
  · cases h
  · rename_i only hfilter
    rw [hfilter, List.mem_singleton] at hgenesis hmem
    rw [hmem, hgenesis]
  · cases h

/-- The proof of a listing protects its audit snapshots and its genesis. -/
def Protects (listing : List RepositorySnapshot) (ids : List String) : Prop :=
  ∀ s ∈ listing, isAuditSnapshot s = true ∨ lineageTag ∈ s.tags → s.snapshotId ∈ ids

/-- It protects every snapshot that the local archive refers to. -/
def ProtectsReferences (host : MaintenanceHost) (archive : LocalArchive) (ids : List String) :
    Prop :=
  ∀ referenced, referencedSnapshots host archive = .ok referenced →
    ∀ entry ∈ referenced, entry.1 ∈ ids

theorem mem_candidatesOf {referenced : List (String × Sha256)} {snapshots : List RepositorySnapshot}
    {s : RepositorySnapshot} (hs : s ∈ snapshots)
    (hkept : isAuditSnapshot s = true ∨ s.snapshotId ∈ referenced.map Prod.fst) :
    s ∈ candidatesOf referenced snapshots := by
  refine (List.perm_insertionSort _ _).mem_iff.2 (List.mem_filter.2 ⟨hs, ?_⟩)
  rw [Bool.or_eq_true, decide_eq_true_eq]
  exact hkept

theorem Reads.verifyProtected {identity : RepositoryIdentity} {snapshots : List RepositorySnapshot}
    {archive : LocalArchive} : Reads w (verifyProtectedInventory host identity snapshots archive)
      fun proof => Protects snapshots proof.snapshotIds ∧
        ProtectsReferences host archive proof.snapshotIds := by
  refine Reads.bind (Reads.query (Q := fun _ => True) fun _ _ => trivial) fun _ _ _ _ => ?_
  refine Reads.bind Reads.genesis fun again _ _ ⟨restored, hagain⟩ => ?_
  refine Reads.bind (Reads.query (Q := fun _ => again = some archive.lineage) ?_) ?_
  · intro _ h
    exact of_decide_eq_true (require_eq_ok.1 h)
  rintro _ _ _ rfl
  refine Reads.bind (Reads.query fun _ h => h) fun genesis _ _ hgenesis => ?_
  refine Reads.bind (Reads.query fun _ h => h) fun referenced _ _ hreferenced => ?_
  refine Reads.bind (Reads.query fun _ h => require_eq_ok.1 h) fun _ _ _ hlisted => ?_
  refine Reads.bind Reads.protectCandidates fun _ _ _ _ => ?_
  refine Reads.bind (Reads.query (Q := fun _ => True) fun _ _ => trivial) fun _ _ _ _ => ?_
  refine Reads.pure ⟨fun s hs hprotected => mem_sortedTexts.2 ?_, fun found hfound entry hentry =>
    mem_sortedTexts.2 (List.mem_cons_of_mem _ ?_)⟩
  · rcases hprotected with haudit | htag
    · exact List.mem_cons_of_mem _ (List.mem_map_of_mem (mem_candidatesOf hs (Or.inl haudit)))
    · rw [genesis_unique hagain hgenesis s hs htag]
      exact List.mem_cons_self
  · -- a missing reference has been refused
    rw [hreferenced] at hfound
    obtain rfl := Except.ok.inj hfound
    have hmem := of_decide_eq_true (List.all_eq_true.1 hlisted entry hentry)
    obtain ⟨s, hs, hsame⟩ := List.mem_map.1 hmem
    rw [← hsame]
    refine List.mem_map_of_mem (mem_candidatesOf hs (Or.inr ?_))
    rw [hsame]
    exact List.mem_map_of_mem hentry

end Readings

/-! ## Verifications -/

section Verifications

variable {host : MaintenanceHost} {w : MaintenanceState}

/-- At most one more listing is recorded. -/
structure Listed (w u : MaintenanceState) : Prop where
  intent : u.intent = w.intent
  events : u.events = w.events ∨ ∃ listing, u.events = .listed listing :: w.events

theorem Untouched.listed {u : MaintenanceState} (h : Untouched w u) : Listed w u :=
  ⟨h.intent, Or.inl h.events⟩

/-- A verification is about the listing that the record ends with. -/
structure Proven (w u : MaintenanceState) (v : VerifiedArchive) : Prop where
  intent : u.intent = w.intent
  events : u.events = .listed v.snapshots :: w.events
  archive : v.archive.maintenanceIntent = w.intent
  unique : (snapshotIdsOf v.snapshots).Nodup
  protects : Protects v.snapshots v.proof.snapshotIds

theorem verifyLineage_reads {identity : RepositoryIdentity} {snapshots : List RepositorySnapshot}
    {lineage : LineageRecord} : Reads w (verifyLineage host identity snapshots lineage)
      fun v => v.snapshots = snapshots ∧ v.archive.maintenanceIntent = w.intent ∧
        Protects snapshots v.proof.snapshotIds := by
  refine Reads.bind Reads.observe fun captured u₁ h₁ _ => ?_
  refine Reads.bind Reads.verifyProtected fun proof u₂ h₂ hproof => ?_
  refine Reads.bind Reads.observe fun current u₃ h₃ _ => ?_
  refine Reads.bind (Reads.query (Q := fun _ => True) fun _ _ => trivial) fun _ u₄ h₄ _ => ?_
  refine Reads.bind (M := fun _ => True) ?_ fun _ u₅ h₅ _ => ?_
  · exact Reads.bind (Reads.query (Q := fun _ => True) fun _ _ => trivial) fun _ _ _ _ =>
      Reads.command
  refine Reads.bind Reads.observe fun committed u₆ h₆ hcommitted => Reads.pure ⟨rfl, ?_, hproof.1⟩
  rw [hcommitted, ((((h₁.trans h₂).trans h₃).trans h₄).trans h₅).intent]

theorem discoverRepository_spec : Durable.Spec w discoverRepository (Listed w)
    (fun found u => u.intent = w.intent ∧ u.events = .listed found.2 :: w.events ∧
      (snapshotIdsOf found.2).Nodup) fun _ => Untouched w := by
  have hask : Reads w ask fun _ => True := Reads.ask trivial
  refine Durable.Spec.bind (hask.weaken (fun _ h => h.listed) (fun _ _ h => h) fun _ _ h => h) ?_
  rintro answer u ⟨hu, -⟩
  refine Durable.Spec.query_bind (fun _ _ => hu) fun found _ => ?_
  refine Durable.Spec.query_bind (fun _ _ => hu) fun _ hvalid => ?_
  obtain ⟨_, -, hvalid⟩ := bind_eq_ok.1 hvalid
  rw [require_eq_ok, Bool.and_eq_true, decide_eq_true_eq] at hvalid
  have hevents : (MaintenanceState.note (.listed found.2) u).events =
      .listed found.2 :: w.events := congrArg _ hu.events
  refine Durable.Spec.bind (Durable.Spec.effect
    (Q := fun _ v => v = MaintenanceState.note (.listed found.2) u)
    ⟨hu.intent, Or.inr ⟨_, hevents⟩⟩ rfl) ?_
  rintro - v rfl
  exact Durable.Spec.pure ⟨hu.intent, hevents, hvalid.2⟩

/-- A verification lists the repository once, and changes nothing. -/
theorem verify_spec : Durable.Spec w (verify host) (Listed w) (fun v u => Proven w u v)
    fun _ => Listed w := by
  refine Durable.Spec.bind (discoverRepository_spec.weaken (fun _ h => h) (fun _ _ h => h)
    fun _ _ h => h.listed) ?_
  rintro found u ⟨hintent, hevents, hunique⟩
  have hlisted : ∀ t, Untouched u t → Listed w t := fun t ht =>
    ⟨ht.intent.trans hintent, Or.inr ⟨_, ht.events.trans hevents⟩⟩
  have hgenesis : Reads u (repositoryGenesis found.1 found.2) _ := Reads.genesis
  refine Durable.Spec.bind (hgenesis.weaken hlisted (fun _ _ h => h) fun _ => hlisted) ?_
  rintro genesis t ⟨ht, -⟩
  cases genesis with
  | none => exact Durable.Spec.fail (hlisted t ht)
  | some lineage =>
      have hreads : Reads t (verifyLineage host found.1 found.2 lineage) _ := verifyLineage_reads
      refine hreads.weaken (fun _ h => hlisted _ (ht.trans h)) ?_ fun _ _ h => hlisted _ (ht.trans h)
      rintro v x ⟨hx, hsnapshots, harchive, hprotects⟩
      refine ⟨(ht.trans hx).intent.trans hintent, ?_, ?_, ?_, ?_⟩
      · rw [hsnapshots, (ht.trans hx).events, hevents]
      · rw [harchive, ht.intent, hintent]
      · rw [hsnapshots]
        exact hunique
      · rw [hsnapshots]
        exact hprotects

end Verifications

/-! ## The invariant -/

/-- The record is permitted, and ends with the durable intent, which still has the remove set that
was selected first. -/
structure Orderly (w : MaintenanceState) : Prop where
  permitted : AllPermitted w.events
  durable : w.intent = outstanding w.events
  sound : ∀ intent, w.intent = some intent →
    (∀ id ∈ intent.protectedSnapshotIds, id ∉ intent.removeIds) ∧
    ∃ first selected, begun w.events = some (first, selected) ∧ SamePlan first intent ∧
      Chosen first.removeIds selected

theorem begun_outstanding {log : List Event} {b : MaintenanceIntent × List RepositorySnapshot}
    (h : begun log = some b) : (outstanding log).isSome = true := by
  induction log with
  | nil => cases h
  | cons event log ih =>
      cases event with
      | listed _ => exact ih h
      | recorded _ => rfl
      | forgets _ => exact ih h
      | prunes => exact ih h
      | removed => cases h

section Invariant

variable {host : MaintenanceHost} {w u : MaintenanceState}

theorem Orderly.untouched (h : Orderly w) (hu : Untouched w u) : Orderly u := by
  refine ⟨?_, ?_, fun intent hintent => ?_⟩
  · rw [hu.events]
    exact h.permitted
  · rw [hu.intent, hu.events, h.durable]
  · rw [hu.events]
    exact h.sound intent (hu.intent ▸ hintent)

theorem Orderly.listed (h : Orderly w) (hu : Listed w u) : Orderly u := by
  rcases hu.events with hevents | ⟨listing, hevents⟩
  · exact h.untouched ⟨hu.intent, hevents⟩
  refine ⟨?_, ?_, fun intent hintent => ?_⟩
  · rw [hevents]
    exact ⟨trivial, h.permitted⟩
  · rw [hu.intent, hevents, h.durable]
    rfl
  · rw [hevents]
    exact h.sound intent (hu.intent ▸ hintent)

/-- A recorded intent goes on, or begins. -/
theorem Orderly.record (h : Orderly w) {intent : MaintenanceIntent}
    (hdisjoint : ∀ id ∈ intent.protectedSnapshotIds, id ∉ intent.removeIds)
    (hplan : (∃ current, w.intent = some current ∧ SamePlan current intent) ∨
      w.intent = none ∧ intent.phase = .prepared ∧
        ∃ selected, freshListing w.events = some selected ∧ Chosen intent.removeIds selected) :
    Orderly (w.record intent) := by
  rcases hplan with ⟨current, hcurrent, hsame⟩ | ⟨hnone, hphase, selected, hfresh, hchosen⟩
  · obtain ⟨-, first, selected, hbegun, hfirst, hchosen⟩ := h.sound current hcurrent
    refine ⟨⟨?_, h.permitted⟩, rfl, fun i hi => ?_⟩
    · show match outstanding w.events with
        | some current => SamePlan current intent
        | none => _
      rw [← h.durable, hcurrent]
      exact hsame
    · obtain rfl : intent = i := Option.some.inj hi
      refine ⟨hdisjoint, first, selected, ?_, hfirst.trans hsame, hchosen⟩
      show (begun w.events <|> _) = _
      rw [hbegun]
      rfl
  · have hbegun : begun w.events = none := by
      cases hb : begun w.events with
      | none => rfl
      | some b =>
          have hsome := begun_outstanding hb
          rw [← h.durable, hnone] at hsome
          cases hsome
    refine ⟨⟨?_, h.permitted⟩, rfl, fun i hi => ?_⟩
    · show match outstanding w.events with
        | some current => SamePlan current intent
        | none => _
      rw [← h.durable, hnone]
      exact ⟨hphase, selected, hfresh, hchosen⟩
    · obtain rfl : intent = i := Option.some.inj hi
      refine ⟨hdisjoint, intent, selected, ?_, SamePlan.refl intent, hchosen⟩
      show (begun w.events <|> _) = _
      rw [hbegun, hfresh]
      rfl

theorem Orderly.remove (h : Orderly w) : Orderly w.remove :=
  ⟨⟨trivial, h.permitted⟩, rfl, fun _ hi => (nomatch hi)⟩

/-- Running an event that is permitted and is no record. -/
theorem Orderly.note (h : Orderly w) (event : Event) (hpermitted : Permitted w.events event)
    (houtstanding : outstanding (event :: w.events) = outstanding w.events)
    (hbegun : begun (event :: w.events) = begun w.events) : Orderly (w.note event) := by
  refine ⟨⟨hpermitted, h.permitted⟩, h.durable.trans houtstanding.symm, fun intent hintent => ?_⟩
  rw [show (w.note event).events = event :: w.events from rfl, hbegun]
  exact h.sound intent hintent

/-- The run keeps the invariant wherever it ends. -/
abbrev Keeps {α : Type} (w : MaintenanceState) (p : Maintain α)
    (Post : α → MaintenanceState → Prop) : Prop :=
  Durable.Spec w p Orderly (fun a u => Orderly u ∧ Post a u) fun _ => Orderly

theorem Keeps.reads {α : Type} {p : Maintain α} {Q : α → Prop} (h : Orderly w)
    (hp : Reads w p Q) : Keeps w p fun a u => Untouched w u ∧ Q a :=
  hp.weaken (fun _ ht => h.untouched ht) (fun _ _ ht => ⟨h.untouched ht.1, ht⟩)
    fun _ _ ht => h.untouched ht

theorem Keeps.query {α β : Type} {f : MaintenanceState → Except AgentError α}
    {g : α → Maintain β} {Post : β → MaintenanceState → Prop} (h : Orderly w)
    (hg : ∀ a, f w = .ok a → Keeps w (g a) Post) : Keeps w (Durable.query f >>= g) Post :=
  Durable.Spec.query_bind (fun _ _ => h) hg

theorem Keeps.bind {α β : Type} {p : Maintain α} {f : α → Maintain β}
    {M : α → MaintenanceState → Prop} {Post : β → MaintenanceState → Prop} (hp : Keeps w p M)
    (hf : ∀ a u, Orderly u → M a u → Keeps u (f a) Post) : Keeps w (p >>= f) Post :=
  Durable.Spec.bind hp fun a u ⟨hu, ha⟩ => hf a u hu ha

theorem verify_keeps (h : Orderly w) : Keeps w (verify host) fun v u => Proven w u v :=
  verify_spec.weaken (fun _ ht => h.listed ht)
    (fun v _ ht => ⟨h.listed ⟨ht.intent, Or.inr ⟨v.snapshots, ht.events⟩⟩, ht⟩)
    fun _ _ ht => h.listed ht

/-- A durable change takes effect or not. -/
theorem Keeps.change {f : MaintenanceState → MaintenanceState} (h : Orderly w)
    (hf : ∀ u, Untouched w u → Orderly u → Orderly (f u)) :
    Keeps w (change f) fun _ v => ∃ u, Untouched w u ∧ v = f u := by
  have hask : Reads w ask fun _ => True := Reads.ask trivial
  refine Keeps.bind (Keeps.reads h hask) ?_
  rintro answer u hu ⟨hsame, -⟩
  have hfu := hf u hsame hu
  have heffect : Keeps u (Durable.effect f) fun _ v => v = f u :=
    Durable.Spec.effect hfu ⟨hfu, rfl⟩
  cases answer.outcome with
  | succeeds =>
      exact heffect.weaken (fun _ ht => ht) (fun _ _ ht => ⟨ht.1, u, hsame, ht.2⟩)
        fun _ _ ht => ht
  | refuses error => exact Durable.Spec.fail hu
  | appliesAndRaises error =>
      exact Keeps.bind heffect fun _ _ hv _ => Durable.Spec.fail hv

end Invariant

/-! ## The phases -/

section Phases

variable {host : MaintenanceHost} {w u : MaintenanceState} {intent : MaintenanceIntent}
  {v : VerifiedArchive}

/-- The record ends with the listing that was verified, and the intent is durable. -/
structure Ready (intent : Option MaintenanceIntent) (v : VerifiedArchive) (w : MaintenanceState) :
    Prop where
  intent : w.intent = intent
  fresh : freshListing w.events = some v.snapshots
  unique : (snapshotIdsOf v.snapshots).Nodup
  protects : Protects v.snapshots v.proof.snapshotIds

theorem Proven.ready (h : Proven w u v) : Ready w.intent v u :=
  ⟨h.intent, by rw [h.events]; rfl, h.unique, h.protects⟩

theorem Ready.untouched {found : Option MaintenanceIntent} (h : Ready found v w)
    (hu : Untouched w u) : Ready found v u := by
  refine ⟨hu.intent.trans h.intent, ?_, h.unique, h.protects⟩
  rw [hu.events]
  exact h.fresh

theorem Ready.record {found : Option MaintenanceIntent} (h : Ready found v w) :
    Ready (some intent) v (w.record intent) := ⟨rfl, h.fresh, h.unique, h.protects⟩

theorem decodeMaintenanceIntent_eq_ok {found : MaintenanceIntent}
    (h : decodeMaintenanceIntent host intent = .ok found) :
    found = intent ∧ ∀ id ∈ intent.protectedSnapshotIds, id ∉ intent.removeIds := by
  unfold decodeMaintenanceIntent at h
  simp only [bind_eq_ok, pure_eq_ok, require_eq_ok, Bool.and_eq_true, decide_eq_true_eq] at h
  obtain ⟨_, -, ids, hids, removals, hremovals, _, ⟨-, hdisjoint⟩, rfl⟩ := h
  rw [snapshotIds_eq_ok hids, snapshotIds_eq_ok hremovals] at hdisjoint
  exact ⟨rfl, hdisjoint⟩

/-- What may be recorded: a later phase of the durable intent, or the first intent. -/
def Continues (w : MaintenanceState) (intent : MaintenanceIntent) : Prop :=
  (∃ current, w.intent = some current ∧ SamePlan current intent) ∨
    w.intent = none ∧ intent.phase = .prepared ∧
      ∃ selected, freshListing w.events = some selected ∧ Chosen intent.removeIds selected

theorem Continues.untouched (h : Continues w intent) (hu : Untouched w u) : Continues u intent := by
  unfold Continues
  rw [hu.intent, hu.events]
  exact h

theorem publishIntent_keeps {found : Option MaintenanceIntent} (h : Orderly w)
    (hready : Ready found v w) (hplan : Continues w intent) :
    Keeps w (publishIntent host v intent) fun _ => Ready (some intent) v := by
  refine Keeps.query h fun decoded hdecode => ?_
  have hdisjoint := (decodeMaintenanceIntent_eq_ok hdecode).2
  have hobserve : Reads w (observeArchive host v.archive.lineage) _ := Reads.observe
  refine Keeps.bind (Keeps.reads h hobserve) fun current u hu ⟨hsame, _⟩ => ?_
  refine Keeps.query hu fun _ _ => ?_
  refine (Keeps.change hu fun t ht hordered => ?_).weaken (fun _ ht => ht) ?_ fun _ _ ht => ht
  · exact hordered.record hdisjoint (hplan.untouched (hsame.trans ht))
  · rintro - x ⟨hx, t, ht, rfl⟩
    exact ⟨hx, (hready.untouched (hsame.trans ht)).record⟩

theorem refreshLocal_keeps {found : Option MaintenanceIntent} (h : Orderly w)
    (hready : Ready found v w) : Keeps w (refreshLocal host v) fun v' => Ready found v' := by
  have hreads : Reads w (refreshLocal host v) fun v' =>
      v'.snapshots = v.snapshots ∧ v'.proof = v.proof :=
    Reads.bind Reads.observe fun _ _ _ _ => Reads.pure ⟨rfl, rfl⟩
  refine (Keeps.reads h hreads).weaken (fun _ ht => ht) ?_ fun _ _ ht => ht
  rintro v' x ⟨hx, hsame, hsnapshots, hproof⟩
  have hx' := hready.untouched hsame
  refine ⟨hx, hx'.intent, ?_, ?_, ?_⟩
  · rw [hsnapshots]
    exact hx'.fresh
  · rw [hsnapshots]
    exact hx'.unique
  · rw [hsnapshots, hproof]
    exact hx'.protects

theorem requireMaintenanceProof_protected {u' : Unit}
    (h : requireMaintenanceProof host intent v = .ok u') :
    intent.protectedSnapshotIds = v.proof.snapshotIds := by
  unfold requireMaintenanceProof at h
  obtain ⟨head, -, h⟩ := bind_eq_ok.1 h
  obtain ⟨_, h, -⟩ := bind_eq_ok.1 h
  simp only [require_eq_ok, Bool.and_eq_true, decide_eq_true_eq] at h
  exact h.2

/-- What is passed on to be forgotten is recorded, ordinary, and not the last of a group. -/
theorem forgetExactIds_keeps {u' : Unit} (h : Orderly w) (hready : Ready (some intent) v w)
    (hproof : requireMaintenanceProof host intent v = .ok u') :
    Keeps w (forgetExactIds (intent.removeIds.filter fun id =>
      decide (id ∈ snapshotIdsOf v.snapshots))) fun _ u => u.intent = some intent := by
  refine Keeps.query h fun _ _ => ?_
  refine Durable.Spec.when (fun _ => ?_) fun _ => ⟨h, hready.intent⟩
  refine Keeps.query h fun _ _ => ?_
  obtain ⟨hdisjoint, first, selected, hbegun, hsame, hchosen⟩ := h.sound intent hready.intent
  have hnoted := h.note (.forgets (intent.removeIds.filter fun id =>
      decide (id ∈ snapshotIdsOf v.snapshots)))
    ⟨intent, first, selected, v.snapshots, {
      durable := h.durable.symm.trans hready.intent
      begun := hbegun
      fresh := hready.fresh
      samePlan := hsame
      recorded := fun id hid => (List.mem_filter.1 hid).1
      unprotected := fun id hid hprotected => hdisjoint id hprotected (List.mem_filter.1 hid).1
      protects := by
        rw [requireMaintenanceProof_protected hproof]
        exact hready.protects
      chosen := hchosen
      spares := by
        rw [hsame.removeIds]
        exact hchosen.spares fun id hid => hsame.removeIds ▸ (List.mem_filter.1 hid).1 }⟩ rfl rfl
  refine Keeps.bind (M := fun _ u => u.intent = some intent)
    (Durable.Spec.effect hnoted ⟨hnoted, hready.intent⟩) fun _ u hu hintent => ?_
  exact (Keeps.reads hu Reads.command).weaken (fun _ ht => ht)
    (fun _ _ ht => ⟨ht.1, ht.2.1.intent.trans hintent⟩) fun _ _ ht => ht

/-- A prune is run only when the last listing has nothing of the remove set. -/
theorem pruneRepository_keeps {current : MaintenanceIntent} {u' : Unit} (h : Orderly w)
    (hready : Ready (some current) v w) (hsame : SamePlan intent current)
    (hremoved : requireRemoved intent v = .ok u') :
    Keeps w pruneRepository fun _ u => u.intent = some current := by
  have habsent : ∀ s ∈ v.snapshots, s.snapshotId ∉ current.removeIds := by
    rw [hsame.removeIds]
    exact of_decide_eq_true (require_eq_ok.1 hremoved)
  have hnoted := h.note .prunes
    ⟨current, v.snapshots, h.durable.symm.trans hready.intent, hready.fresh, habsent⟩ rfl rfl
  refine Keeps.bind (M := fun _ u => u.intent = some current)
    (Durable.Spec.effect hnoted ⟨hnoted, hready.intent⟩) fun _ u hu hintent => ?_
  exact (Keeps.reads hu Reads.command).weaken (fun _ ht => ht)
    (fun _ _ ht => ⟨ht.1, ht.2.1.intent.trans hintent⟩) fun _ _ ht => ht

theorem reverify_keeps (h : Orderly w) (hintent : w.intent = some intent) :
    Keeps w (verify host) fun v => Ready (some intent) v :=
  (verify_keeps h).weaken (fun _ ht => ht)
    (fun _ _ ht => ⟨ht.1, hintent ▸ ht.2.ready⟩) fun _ _ ht => ht

theorem forgetRecorded_keeps {u' : Unit} (h : Orderly w) (hready : Ready (some intent) v w)
    (hproof : requireMaintenanceProof host intent v = .ok u') :
    Keeps w (forgetRecorded host intent v) fun found u =>
      Ready (some found.1) found.2 u := by
  refine Keeps.bind (forgetExactIds_keeps h hready hproof) fun _ u₁ h₁ hintent => ?_
  refine Keeps.bind (reverify_keeps h₁ hintent) fun again u₂ h₂ hagain => ?_
  refine Keeps.query h₂ fun _ _ => Keeps.query h₂ fun _ _ => ?_
  refine Keeps.bind (publishIntent_keeps h₂ hagain
    (Or.inl ⟨intent, hagain.intent, SamePlan.phase intent .forgotten⟩)) fun _ u₃ h₃ h' => ?_
  refine Keeps.bind (refreshLocal_keeps h₃ h') fun refreshed u₄ h₄ hrefreshed => ?_
  exact Durable.Spec.pure ⟨h₄, hrefreshed⟩

theorem forgetPhase_keeps {u' : Unit} (h : Orderly w) (hready : Ready (some intent) v w)
    (hproof : requireMaintenanceProof host intent v = .ok u') :
    Keeps w (forgetPhase host intent v) fun found u => Ready (some found.1) found.2 u := by
  unfold forgetPhase
  split
  · exact forgetRecorded_keeps h hready hproof
  · exact Durable.Spec.pure ⟨h, hready⟩

theorem prunePhase_keeps {u' : Unit} (h : Orderly w) (hready : Ready (some intent) v w)
    (hremoved : requireRemoved intent v = .ok u') :
    Keeps w (prunePhase host intent v) fun _ u =>
      ∃ current, u.intent = some current ∧ SamePlan intent current := by
  unfold prunePhase
  cases intent.phase with
  | prepared => exact Durable.Spec.pure ⟨h, intent, hready.intent, SamePlan.refl intent⟩
  | checked => exact Durable.Spec.pure ⟨h, intent, hready.intent, SamePlan.refl intent⟩
  | forgotten =>
      refine Keeps.bind (publishIntent_keeps h hready
        (Or.inl ⟨intent, hready.intent, SamePlan.phase intent .pruning⟩)) fun _ u hu h' => ?_
      exact (pruneRepository_keeps hu h' (SamePlan.phase intent .pruning) hremoved).weaken
        (fun _ ht => ht) (fun _ _ ht => ⟨ht.1, _, ht.2, SamePlan.phase intent .pruning⟩)
        fun _ _ ht => ht
  | pruning =>
      refine Keeps.bind (Keeps.reads h Reads.command) fun _ u₁ h₁ hsame => ?_
      refine Keeps.bind (reverify_keeps h₁ (hsame.1.intent.trans hready.intent))
        fun again u₂ h₂ hagain => ?_
      refine Keeps.query h₂ fun _ _ => Keeps.query h₂ fun _ hagainRemoved => ?_
      exact (pruneRepository_keeps h₂ hagain (SamePlan.refl intent) hagainRemoved).weaken
        (fun _ ht => ht) (fun _ _ ht => ⟨ht.1, _, ht.2, SamePlan.refl intent⟩) fun _ _ ht => ht

theorem finishMaintenance_keeps {current : MaintenanceIntent} (h : Orderly w)
    (hintent : w.intent = some current) (hsame : SamePlan intent current) :
    Keeps w (finishMaintenance host intent) fun _ _ => True := by
  refine Keeps.bind (Keeps.reads h Reads.command) fun _ u₁ h₁ hread => ?_
  refine Keeps.bind (reverify_keeps h₁ (hread.1.intent.trans hintent)) fun again u₂ h₂ hagain => ?_
  refine Keeps.query h₂ fun _ _ => Keeps.query h₂ fun _ _ => ?_
  have hplan : SamePlan current { intent with phase := .checked } := by
    rw [hsame]
    rfl
  refine Keeps.bind (publishIntent_keeps h₂ hagain (Or.inl ⟨current, hagain.intent, hplan⟩))
    fun _ u₃ h₃ h' => ?_
  refine Keeps.bind (refreshLocal_keeps h₃ h') fun refreshed u₄ h₄ _ => ?_
  have hobserve : Reads u₄ (observeArchive host refreshed.archive.lineage) _ := Reads.observe
  refine Keeps.bind (Keeps.reads h₄ hobserve) fun found u₅ h₅ _ => Keeps.query h₅ fun _ _ => ?_
  refine Keeps.bind (Keeps.change h₅ fun _ _ ht => ht.remove) fun _ u₆ h₆ _ => ?_
  have hrefresh : Reads u₆ (refreshLocal host refreshed) fun _ => True :=
    Reads.bind Reads.observe fun _ _ _ _ => Reads.pure trivial
  exact (Keeps.reads h₆ hrefresh).weaken (fun _ ht => ht) (fun _ _ ht => ⟨ht.1, trivial⟩)
    fun _ _ ht => ht

theorem resumeMaintenance_keeps (h : Orderly w) (hready : Ready (some intent) v w) :
    Keeps w (resumeMaintenance host intent v) fun _ _ => True := by
  refine Keeps.query h fun _ hproof => ?_
  refine Keeps.bind (forgetPhase_keeps h hready hproof) fun found u₁ h₁ hfound => ?_
  refine Keeps.query h₁ fun _ hremoved => ?_
  refine Keeps.bind (prunePhase_keeps h₁ hfound hremoved) ?_
  rintro _ u₂ h₂ ⟨current, hcurrent, hsame⟩
  exact finishMaintenance_keeps h₂ hcurrent hsame

/-- A new maintenance records what its listing allows. -/
theorem beginMaintenance_keeps (h : Orderly w) (hready : Ready none v w) :
    Keeps w (beginMaintenance host v) fun found u => Ready (some found.1) found.2 u := by
  have hask : Reads w ask fun _ => True := Reads.ask trivial
  refine Keeps.bind (Keeps.reads h hask) fun answer u₁ h₁ ⟨hread, _⟩ => ?_
  refine Keeps.query h₁ fun removals hremovals => ?_
  have hchosen := ordinaryRetentionIds_chosen hready.unique hremovals
  refine Keeps.query h₁ fun begun hbegun => ?_
  obtain ⟨head, -, hbegun⟩ := bind_eq_ok.1 hbegun
  obtain ⟨rfl, -⟩ := decodeMaintenanceIntent_eq_ok hbegun
  have hready₁ := hready.untouched hread
  refine Keeps.bind (publishIntent_keeps h₁ hready₁ (Or.inr ⟨hready₁.intent, rfl, v.snapshots,
    hready₁.fresh, hchosen⟩)) fun _ u₂ h₂ h' => ?_
  refine Keeps.bind (refreshLocal_keeps h₂ h') fun refreshed u₃ h₃ hrefreshed => ?_
  exact Durable.Spec.pure ⟨h₃, hrefreshed⟩

theorem maintain_keeps (h : Orderly w) : Keeps w (maintain host) fun _ _ => True := by
  refine Keeps.bind (verify_keeps h) fun v u hu hproven => ?_
  have hready := hproven.ready
  rw [← hproven.archive] at hready
  cases hintent : v.archive.maintenanceIntent with
  | some intent =>
      rw [hintent] at hready
      exact resumeMaintenance_keeps hu hready
  | none =>
      rw [hintent] at hready
      exact Keeps.bind (beginMaintenance_keeps hu hready) fun found t ht hfound =>
        resumeMaintenance_keeps ht hfound

theorem maintainArchive_keeps (h : Orderly w) : Keeps w (maintainArchive host) fun _ _ => True := by
  refine Durable.Spec.rescue (B := fun _ => Orderly) (maintain_keeps h) fun e u hu => ?_
  have hask : Reads u ask fun _ => True := Reads.ask trivial
  exact Keeps.bind (Keeps.reads hu hask) fun _ _ ht _ => Durable.Spec.fail ht

end Phases

/-! ## Any number of runs -/

/-- The next run is answered anew. -/
def Answered (w u : MaintenanceState) : Prop := ∃ answers, u = { w with answers := answers }

/-- No maintenance was begun. -/
structure Idle (w : MaintenanceState) : Prop where
  intent : w.intent = none
  events : w.events = []

/-- What the runs of the maintenance record is permitted at every event. -/
structure MaintenanceSafe (host : MaintenanceHost) : Prop where
  permitted : ∀ start w, Idle start → Durable.Reruns Answered (maintainArchive host) start w →
    AllPermitted w.events
  durable : ∀ start w, Idle start → Durable.Reruns Answered (maintainArchive host) start w →
    w.intent = outstanding w.events

theorem maintenance_permitted (host : MaintenanceHost) : MaintenanceSafe host := by
  have hinv : ∀ start w, Idle start →
      Durable.Reruns Answered (maintainArchive host) start w → Orderly w := by
    intro start w hidle hw
    refine Durable.Reruns.invariant ?_ (fun u hu => ?_) ?_ hw
    · rintro u - ⟨answers, rfl⟩ hu
      exact hu.untouched ⟨rfl, rfl⟩
    · exact (maintainArchive_keeps hu).weaken (fun _ ht => ht) (fun _ _ ht => ht.1) fun _ _ ht => ht
    · refine ⟨?_, ?_, fun intent hintent => ?_⟩
      · rw [hidle.events]
        trivial
      · rw [hidle.intent, hidle.events]
        rfl
      · rw [hidle.intent] at hintent
        cases hintent
  exact ⟨fun start w hidle hw => (hinv start w hidle hw).permitted,
    fun start w hidle hw => (hinv start w hidle hw).durable⟩

/-! ## A group that loses its last snapshot -/

section Emptied

def nodeIdentity : RepositoryIdentity := ⟨String.ofList (List.replicate 64 '0'), "node", "/backup"⟩

def nodeLineage : LineageRecord := ⟨⟨⟨0, 0, 0⟩, 0⟩, nodeIdentity, []⟩

def genesisSnapshot : RepositorySnapshot :=
  ⟨String.ofList (List.replicate 64 '0'), "node", lineageTags nodeLineage, ["/lineage"]⟩

/-- A scheduled backup whose identity repeats one digit. -/
def scheduledSnapshot (digit : Char) : RepositorySnapshot :=
  ⟨String.ofList (List.replicate 64 digit), "node", ["scheduled"], ["/data"]⟩

def scheduledRecord (digit : Char) : Json :=
  .object [("id", .string (scheduledSnapshot digit).snapshotId), ("hostname", .string "node"),
    ("tags", .array [.string "scheduled"]), ("paths", .array [.string "/data"])]

/-- Restic keeps the second of two backups. -/
def keepsSecond : Json :=
  .object [("groups", .array [.object [("tags", .null), ("host", .string "node"),
    ("paths", .array [.string "/data"]), ("keep", .array [scheduledRecord '2']),
    ("remove", .array [scheduledRecord '1']), ("reasons", .null)]])]

def plainHost : MaintenanceHost :=
  ⟨fun _ => some keepsSecond, fun _ => [], fun _ _ _ => [], fun _ => [], fun _ _ => 0⟩

/-- Every call succeeds, and the repository has these snapshots. -/
def answersWith (snapshots : List RepositorySnapshot) : Nat → Answer := fun _ =>
  ⟨.ok (nodeIdentity, snapshots), .ok nodeLineage,
    .ok ⟨nodeLineage, some [], [], none, none, none, none, none⟩,
    fun _ => .error (.backupIdentity "not an audit snapshot"), .ok [0], ⟨1, 0, 0⟩, .succeeds⟩

/-- The first run crashed behind the publication of its intent. -/
def crashedState : MaintenanceState :=
  (maintainArchive plainHost ⟨none, [], answersWith [genesisSnapshot, scheduledSnapshot '1',
    scheduledSnapshot '2']⟩).trace[1]?.getD ⟨none, [], answersWith []⟩

/-- Before the second run somebody removed the backup that was to be kept. -/
def emptiedState : MaintenanceState :=
  (maintainArchive plainHost { crashedState with
    answers := answersWith [genesisSnapshot, scheduledSnapshot '1'] }).trace[1]?.getD crashedState

/-- A resumed maintenance may forget the last snapshot that the repository has of a group. -/
theorem groups_may_be_emptied :
    ¬ ∀ (host : MaintenanceHost) (start w : MaintenanceState) (ids : List String)
      (log : List Event) (listing : List RepositorySnapshot), Idle start →
        Durable.Reruns Answered (maintainArchive host) start w →
          w.events = .forgets ids :: log → freshListing log = some listing →
            LeavesGroups ids listing := by
  intro h
  have hfirst : Durable.Rerun Answered (maintainArchive plainHost) ⟨none, [], answersWith []⟩
      crashedState := by
    refine ⟨_, ⟨answersWith [genesisSnapshot, scheduledSnapshot '1', scheduledSnapshot '2'], rfl⟩,
      Or.inr (Or.inl ?_)⟩
    have hlength : 1 < (maintainArchive plainHost ⟨none, [], answersWith [genesisSnapshot,
        scheduledSnapshot '1', scheduledSnapshot '2']⟩).trace.length := by decide +kernel
    unfold crashedState
    rw [List.getElem?_eq_getElem hlength]
    exact List.getElem_mem hlength
  have hsecond : Durable.Rerun Answered (maintainArchive plainHost) crashedState emptiedState := by
    refine ⟨_, ⟨answersWith [genesisSnapshot, scheduledSnapshot '1'], rfl⟩, Or.inr (Or.inl ?_)⟩
    have hlength : 1 < (maintainArchive plainHost { crashedState with
        answers := answersWith [genesisSnapshot, scheduledSnapshot '1'] }).trace.length := by
      decide +kernel
    unfold emptiedState
    rw [List.getElem?_eq_getElem hlength]
    exact List.getElem_mem hlength
  have hevents : emptiedState.events = .forgets [(scheduledSnapshot '1').snapshotId] ::
      emptiedState.events.tail := by decide +kernel
  have hlisting : freshListing emptiedState.events.tail =
      some [genesisSnapshot, scheduledSnapshot '1'] := by decide +kernel
  have hleaves := h plainHost ⟨none, [], answersWith []⟩ emptiedState _ _ _ ⟨rfl, rfl⟩
    (.tail (.single hfirst) hsecond) hevents hlisting
  obtain ⟨kept, hkept, hsame, -, hkeep⟩ := hleaves (scheduledSnapshot '1') (by simp) (by simp)
  have hpaths := hsame.paths
  simp only [List.mem_cons, List.not_mem_nil, or_false] at hkept
  rcases hkept with rfl | rfl
  · exact absurd hpaths (by decide)
  · exact hkeep (by simp)

end Emptied

end StaticHostAgent.Maintenance
