import StaticHostAgent.Intake.Slot
import Mathlib.Logic.Relation

/-!
# Runs of the intake slot

Every authorization has one identity and one binding, whichever of its copies is read (`Paired`), and
nothing elsewhere changes that. So an artifact that an unfinished authorization binds is removed by
no claim and by no reconciliation; what can remove it is an admission that is left by an exception
after its authorization became durable.
-/

set_option autoImplicit false

namespace StaticHostAgent.Intake

open Library Contracts Jobs

variable {sha256 : Bytes → Sha256} {w w' : IntakeWorld} {s t : IntakeState}
  {action : Action}

/-! ## Names -/

theorem artifactName_injective {c c' : Uuid7} (h : artifactName c = artifactName c') : c = c' := by
  have hlists := congrArg String.toList h
  unfold artifactName at hlists
  rw [String.toList_append, String.toList_append] at hlists
  exact Uuid7.text_injective (String.toList_injective (List.append_cancel_right hlists))

theorem isTemporary_artifactName (c : Uuid7) : isTemporary (artifactName c) = false := by
  obtain ⟨first, rest, htext, hfirst⟩ := c.text_head
  have hname : (artifactName c).toList = first :: (rest ++ ".artifact".toList) := by
    unfold artifactName
    rw [String.toList_append, htext, List.cons_append]
  have hdot : (first == '.') = false := by
    have hall : ∀ c ∈ hexDigits, (c == '.') = false := by decide
    exact hall first hfirst
  unfold isTemporary fullmatch
  rw [hname, show ".ldp-intake-".toList = '.' :: "ldp-intake-".toList from rfl, List.map_cons,
    List.cons_append, List.zipWith_cons_cons, List.all_cons, id_eq]
  rw [show (fun c => c == '.') first = false from hdot, Bool.false_and, Bool.and_false]

/-! ## The slot -/

theorem scanSlot_eq_ok {slot : Slot} {names : List String} :
    scanSlot slot = .ok names ↔ slot.size ≤ 1 ∧ slot.keys = names := by
  unfold scanSlot
  simp only [bind_eq_ok, require_eq_ok, decide_eq_true_eq, pure_eq_ok]
  exact ⟨fun ⟨_, hsize, hkeys⟩ => ⟨hsize, hkeys⟩, fun ⟨hsize, hkeys⟩ => ⟨(), hsize, hkeys⟩⟩

/-- A slot with a first name has no other. -/
theorem keys_singleton {slot : Slot} {name : String} {rest : List String} (hsize : slot.size ≤ 1)
    (hkeys : slot.keys = name :: rest) : slot.keys = [name] := by
  rw [← Directory.size_keys, hkeys, List.length_cons] at hsize
  rw [hkeys, List.length_eq_zero_iff.1 (by omega : rest.length = 0)]

theorem validateEntry_eq_ok {slot : Slot} {name : String} {entry : Entry} :
    validateEntry slot name = .ok entry ↔ slot.find? name = some entry ∧ entry.safe = true := by
  unfold validateEntry
  cases slot.find? name with
  | none => exact ⟨fun h => (nomatch h), fun h => (nomatch h.1)⟩
  | some found =>
      simp only [bind_eq_ok, require_eq_ok, pure_eq_ok, Option.some.injEq]
      constructor
      · rintro ⟨_, hsafe, rfl⟩
        exact ⟨rfl, hsafe⟩
      · rintro ⟨rfl, hsafe⟩
        exact ⟨(), hsafe, rfl⟩

theorem verifyExisting_eq_ok {declared : Artifact} {entry : Entry} {u : Unit}
    (h : verifyExisting sha256 declared entry = .ok u) : Exact sha256 declared entry.bytes := by
  unfold verifyExisting at h
  simp only [bind_eq_ok, require_eq_ok, Bool.and_eq_true, decide_eq_true_eq] at h
  obtain ⟨-, ⟨-, hsize⟩, hsha⟩ := h
  exact ⟨hsize.symm, hsha.symm⟩

/-- What an admission has found in the slot. -/
def BeforeAdmission.Found (filename : String) (slot : Slot) : BeforeAdmission → Prop
  | .vacant => slot.keys = []
  | .abandoned name => slot.keys = [name] ∧ isTemporary name = true
  | .existing => slot.keys = [filename]

theorem reconcileBeforeAdmission_eq_ok {filename : String} {declared : Artifact}
    {allowExisting : Bool} {slot : Slot} {found : BeforeAdmission}
    (h : reconcileBeforeAdmission sha256 filename declared allowExisting slot = .ok found) :
    slot.size ≤ 1 ∧ found.Found filename slot := by
  unfold reconcileBeforeAdmission at h
  obtain ⟨names, hnames, h⟩ := bind_eq_ok.1 h
  obtain ⟨hsize, hkeys⟩ := scanSlot_eq_ok.1 hnames
  refine ⟨hsize, ?_⟩
  cases names with
  | nil =>
      obtain rfl := pure_eq_ok.1 h
      exact hkeys
  | cons name rest =>
      have hone := keys_singleton hsize hkeys
      obtain ⟨entry, -, h⟩ := bind_eq_ok.1 h
      split at h
      · rename_i htemporary
        obtain rfl := pure_eq_ok.1 h
        exact ⟨hone, htemporary⟩
      · split at h
        · split at h
          · rename_i hname
            obtain ⟨_, -, h⟩ := bind_eq_ok.1 h
            obtain rfl := pure_eq_ok.1 h
            rw [Bool.and_eq_true, decide_eq_true_eq] at hname
            show slot.keys = [filename]
            rw [← hname.2]
            exact hone
          · cases h
        · cases h

/-- What a reconciliation has decided about the slot. -/
def Reconciled.Decided (sha256 : Bytes → Sha256) (authority : IntakeAuthority) (slot : Slot) :
    Reconciled → Prop
  | .vacant => slot.keys = []
  | .removed name => slot.keys = [name] ∧ (isTemporary name = true ∨
      authority.authorized.lookup name = none ∨ name ∈ authority.terminal)
  | .retained name => slot.keys = [name] ∧ name ∉ authority.terminal ∧ ∃ declared entry,
      authority.authorized.lookup name = some declared ∧ slot.find? name = some entry ∧
        Exact sha256 declared entry.bytes

theorem reconcileSlot_eq_ok {authority : IntakeAuthority} {slot : Slot} {found : Reconciled}
    (h : reconcileSlot sha256 authority slot = .ok found) :
    slot.size ≤ 1 ∧ found.Decided sha256 authority slot := by
  unfold reconcileSlot at h
  obtain ⟨names, hnames, h⟩ := bind_eq_ok.1 h
  obtain ⟨hsize, hkeys⟩ := scanSlot_eq_ok.1 hnames
  refine ⟨hsize, ?_⟩
  cases names with
  | nil =>
      obtain rfl := pure_eq_ok.1 h
      exact hkeys
  | cons name rest =>
      have hone := keys_singleton hsize hkeys
      obtain ⟨entry, hentry, h⟩ := bind_eq_ok.1 h
      split at h
      · rename_i htemporary
        obtain rfl := pure_eq_ok.1 h
        exact ⟨hone, Or.inl htemporary⟩
      · obtain ⟨_, -, h⟩ := bind_eq_ok.1 h
        split at h
        · rename_i hnone
          obtain rfl := pure_eq_ok.1 h
          exact ⟨hone, Or.inr (Or.inl hnone)⟩
        · rename_i declared hdeclared
          split at h
          · rename_i hterminal
            obtain rfl := pure_eq_ok.1 h
            exact ⟨hone, Or.inr (Or.inr hterminal)⟩
          · rename_i hterminal
            obtain ⟨_, hverified, h⟩ := bind_eq_ok.1 h
            obtain rfl := pure_eq_ok.1 h
            exact ⟨hone, hterminal, declared, entry, hdeclared, (validateEntry_eq_ok.1 hentry).1,
              verifyExisting_eq_ok hverified⟩

/-! ## Authorizations -/

/-- A copy of an authorization is stored. -/
def Stored (w : IntakeWorld) (document : AuthorizationJob) : Prop :=
  (∃ c, w.correlations.find? c = some document) ∨ ∃ jobId, w.jobs.find? jobId = some document

/-- The copies of an authorization agree, and each lies at its own path. -/
structure Paired (w : IntakeWorld) : Prop where
  correlationPath : ∀ c d, w.correlations.find? c = some d → correlationOf d = c
  jobPath : ∀ jobId d, w.jobs.find? jobId = some d → d.jobId = jobId
  identity : ∀ d d', Stored w d → Stored w d' → correlationOf d = correlationOf d' →
    d.jobId = d'.jobId
  binding : ∀ d d', Stored w d → Stored w d' → d.jobId = d'.jobId →
    durableBinding d = durableBinding d'

/-- What a binding tells of its document. -/
structure SameBinding (d d' : AuthorizationJob) : Prop where
  jobId : d.jobId = d'.jobId
  correlation : correlationOf d = correlationOf d'
  artifact : d.artifact = d'.artifact

theorem sameBinding {d d' : AuthorizationJob} (h : durableBinding d = durableBinding d') :
    SameBinding d d' :=
  ⟨congrArg DurableBinding.jobId h, congrArg (fun b => b.request.correlationId) h,
    congrArg DurableBinding.artifact h⟩

/-- Every copy is a copy of an authorization that was stored before. -/
def Shadows (w w' : IntakeWorld) : Prop :=
  ∀ d', Stored w' d' → ∃ d, Stored w d ∧ durableBinding d' = durableBinding d

theorem Paired.shadows (h : Paired w) (hshadows : Shadows w w')
    (hcorrelations : ∀ c d, w'.correlations.find? c = some d → correlationOf d = c)
    (hjobs : ∀ jobId d, w'.jobs.find? jobId = some d → d.jobId = jobId) : Paired w' := by
  refine ⟨hcorrelations, hjobs, fun d d' hd hd' hsame => ?_, fun d d' hd hd' hsame => ?_⟩
  all_goals
    obtain ⟨e, he, hde⟩ := hshadows d hd
    obtain ⟨e', he', hde'⟩ := hshadows d' hd'
    have hb := sameBinding hde
    have hb' := sameBinding hde'
  · rw [hb.jobId, hb'.jobId]
    exact h.identity e e' he he' (by rw [← hb.correlation, hsame, hb'.correlation])
  · rw [hde, hde']
    exact h.binding e e' he he' (by rw [← hb.jobId, hsame, hb'.jobId])

/-- An identity and a correlation that nothing stored has. -/
structure Unused (w : IntakeWorld) (candidate : AuthorizationJob) : Prop where
  correlation : ∀ d, Stored w d → correlationOf d ≠ correlationOf candidate
  identity : ∀ d, Stored w d → d.jobId ≠ candidate.jobId

/-- The checks of the pairs have passed: every stored copy is represented in the merged list. -/
theorem reconcilePairs_eq_ok {merged : List AuthorizationJob} (hw : Paired w)
    (h : w.reconcilePairs = .ok merged) :
    (∀ d ∈ merged, Stored w d) ∧
      ∀ d, Stored w d → ∃ m ∈ merged, durableBinding m = durableBinding d := by
  unfold IntakeWorld.reconcilePairs at h
  simp only [bind_eq_ok, pure_eq_ok] at h
  obtain ⟨-, -, -, -, -, -, -, -, -, -, -, -, rfl⟩ := h
  unfold IntakeWorld.merged
  constructor
  · intro d hd
    rcases List.mem_append.1 hd with hd | hd
    · obtain ⟨e, he, rfl⟩ := List.mem_map.1 hd
      exact Or.inl ⟨e.1, Directory.mem_entries.1 he⟩
    · obtain ⟨e, he, rfl⟩ := List.mem_map.1 (List.mem_filter.1 hd).1
      exact Or.inr ⟨e.1, Directory.mem_entries.1 he⟩
  · intro d hd
    rcases id hd with ⟨c, hc⟩ | ⟨jobId, hjob⟩
    · exact ⟨d, List.mem_append_left _ (List.mem_map.2 ⟨_, Directory.mem_entries.2 hc, rfl⟩), rfl⟩
    · cases hcorrelation : w.correlations.find? (correlationOf d) with
      | none =>
          refine ⟨d, List.mem_append_right _ (List.mem_filter.2 ⟨?_, ?_⟩), rfl⟩
          · exact List.mem_map.2 ⟨_, Directory.mem_entries.2 hjob, rfl⟩
          · rw [hcorrelation]
            rfl
      | some m =>
          have hm : Stored w m := Or.inl ⟨_, hcorrelation⟩
          have hsame := hw.identity m d hm hd (hw.correlationPath _ _ hcorrelation)
          exact ⟨m, List.mem_append_left _ (List.mem_map.2 ⟨_, Directory.mem_entries.2 hcorrelation, rfl⟩),
            hw.binding m d hm hd hsame⟩

/-- A new authorization is unused. -/
theorem resolve_admitted {candidate : AuthorizationJob} (hw : Paired w)
    (h : resolve w candidate = .ok .admitted) : Unused w candidate := by
  unfold resolve at h
  obtain ⟨_, -, h⟩ := bind_eq_ok.1 h
  obtain ⟨merged, hmerged, h⟩ := bind_eq_ok.1 h
  obtain ⟨-, hcovers⟩ := reconcilePairs_eq_ok hw hmerged
  split at h
  · obtain ⟨_, -, h⟩ := bind_eq_ok.1 h
    obtain ⟨_, -, h⟩ := bind_eq_ok.1 h
    cases h
  · rename_i hnone
    obtain ⟨_, -, h⟩ := bind_eq_ok.1 h
    obtain ⟨_, -, h⟩ := bind_eq_ok.1 h
    obtain ⟨_, hidentities, -⟩ := bind_eq_ok.1 h
    rw [require_eq_ok, List.all_eq_true] at hidentities
    constructor
    all_goals
      intro d hd hsame
      obtain ⟨m, hm, hbinding⟩ := hcovers d hd
      have hb := sameBinding hbinding
    · refine absurd ?_ (List.find?_eq_none.1 hnone m hm)
      exact decide_eq_true (hb.correlation.trans hsame)
    · exact absurd (hb.jobId.trans hsame) (of_decide_eq_true (hidentities m hm))

/-- A retry was established by a stored authorization with the same binding. -/
theorem findRetry_eq_some {binding : CallerBinding} {job : AuthorizationJob} (hw : Paired w)
    (h : findRetry w binding = .ok (some job)) :
    Stored w job ∧ correlationOf job = binding.request.correlationId ∧
      job.artifact = binding.artifact := by
  unfold findRetry at h
  obtain ⟨merged, hmerged, h⟩ := bind_eq_ok.1 h
  obtain ⟨hstored, -⟩ := reconcilePairs_eq_ok hw hmerged
  split at h
  · cases h
  · rename_i established hestablished
    obtain ⟨_, hbinding, h⟩ := bind_eq_ok.1 h
    obtain ⟨found, hread, h⟩ := bind_eq_ok.1 h
    obtain rfl := Option.some.inj (pure_eq_ok.1 h)
    have hmem := hstored established (List.mem_of_find?_eq_some hestablished)
    have hcaller := of_decide_eq_true (require_eq_ok.1 hbinding)
    have hjob : w.jobs.find? established.jobId = some found := by
      unfold readRetryJob at hread
      cases hfind : w.jobs.find? established.jobId with
      | none =>
          rw [hfind] at hread
          cases hread
      | some j =>
          rw [hfind] at hread
          rw [pure_eq_ok.1 hread]
    have hfound : Stored w found := Or.inr ⟨_, hjob⟩
    have hb := sameBinding (hw.binding found established hfound hmem (hw.jobPath _ _ hjob))
    refine ⟨hfound, ?_, ?_⟩
    · rw [hb.correlation, ← hcaller]
      rfl
    · rw [hb.artifact, ← hcaller]
      rfl

/-! ## Changes of the records -/

/-- The document repeats the binding of a stored one. -/
def Copies (w : IntakeWorld) (document : AuthorizationJob) : Prop :=
  ∃ d, Stored w d ∧ durableBinding document = durableBinding d

theorem Stored.copies {d : AuthorizationJob} (h : Stored w d) : Copies w d :=
  ⟨d, h, rfl⟩

/-- What every change of the records keeps. -/
structure Benign (w w' : IntakeWorld) : Prop where
  paired : Paired w'
  /-- Nothing that binds an artifact is new. -/
  known : ∀ d, Stored w' d → d.artifact = none ∨ Copies w d
  kept : ∀ d, Stored w d → Copies w' d
  results : ∀ jobId, w.resultExists jobId = true → w'.resultExists jobId = true

/-- A world with the same records. -/
theorem Benign.same (hw : Paired w) (hcorrelations : w'.correlations =
    w.correlations) (hjobs : w'.jobs = w.jobs) (hresults : ∀ jobId, w.resultExists jobId = true →
      w'.resultExists jobId = true) : Benign w w' := by
  have hstored : ∀ d, Stored w' d ↔ Stored w d := by
    intro d
    unfold Stored
    rw [hcorrelations, hjobs]
  refine ⟨⟨?_, ?_, ?_, ?_⟩, fun d hd => Or.inr ((hstored d).1 hd).copies,
    fun d hd => ((hstored d).2 hd).copies, hresults⟩
  · rw [hcorrelations]
    exact hw.correlationPath
  · rw [hjobs]
    exact hw.jobPath
  · exact fun d d' hd hd' => hw.identity d d' ((hstored d).1 hd) ((hstored d').1 hd')
  · exact fun d d' hd hd' => hw.binding d d' ((hstored d).1 hd) ((hstored d').1 hd')

theorem find?_insert_cases {K V : Type} [LinearOrder K] {d : Directory K V} {k j : K} {v x : V}
    (h : (d.insert k v).find? j = some x) : j = k ∧ x = v ∨ j ≠ k ∧ d.find? j = some x := by
  by_cases hj : j = k
  · rw [hj, Directory.find?_insert_self] at h
    exact Or.inl ⟨hj, (Option.some.inj h).symm⟩
  · rw [Directory.find?_insert_of_ne d hj] at h
    exact Or.inr ⟨hj, h⟩

/-- A copy of a stored authorization is written at its job path. -/
theorem Benign.insertJob {document : AuthorizationJob} (hw : Paired w) (hcopy : Copies w document) :
    Benign w { w with jobs := w.jobs.insert document.jobId document } := by
  have hstored : ∀ d, Stored { w with jobs := w.jobs.insert document.jobId document } d →
      Copies w d := by
    rintro d (⟨c, hc⟩ | ⟨jobId, hjob⟩)
    · exact (show Stored w d from Or.inl ⟨c, hc⟩).copies
    · rcases find?_insert_cases hjob with ⟨-, rfl⟩ | ⟨-, hjob⟩
      · exact hcopy
      · exact (show Stored w d from Or.inr ⟨jobId, hjob⟩).copies
  refine ⟨hw.shadows hstored hw.correlationPath ?_, fun d hd => Or.inr (hstored d hd), ?_,
    fun _ => id⟩
  · intro jobId d hjob
    rcases find?_insert_cases hjob with ⟨rfl, rfl⟩ | ⟨-, hjob⟩
    · rfl
    · exact hw.jobPath _ _ hjob
  · intro d hd
    rcases id hd with ⟨c, hc⟩ | ⟨jobId, hjob⟩
    · exact ⟨d, Or.inl ⟨c, hc⟩, rfl⟩
    · by_cases hsame : jobId = document.jobId
      · obtain ⟨e, he, hbinding⟩ := hcopy
        refine ⟨document, Or.inr ⟨document.jobId, Directory.find?_insert_self _ _ _⟩, ?_⟩
        rw [hbinding]
        refine hw.binding d e hd he ?_
        rw [hw.jobPath _ _ hjob, hsame]
        exact (sameBinding hbinding).jobId
      · exact ⟨d, Or.inr ⟨jobId, (Directory.find?_insert_of_ne _ hsame _).trans hjob⟩, rfl⟩

/-- A copy of a stored authorization is written at its correlation path. -/
theorem Benign.insertCorrelation {document : AuthorizationJob} (hw : Paired w)
    (hcopy : Copies w document) :
    Benign w { w with
      correlations := w.correlations.insert (correlationOf document) document } := by
  have hstored : ∀ d, Stored { w with
      correlations := w.correlations.insert (correlationOf document) document } d →
      Copies w d := by
    rintro d (⟨c, hc⟩ | ⟨jobId, hjob⟩)
    · rcases find?_insert_cases hc with ⟨-, rfl⟩ | ⟨-, hc⟩
      · exact hcopy
      · exact (show Stored w d from Or.inl ⟨c, hc⟩).copies
    · exact (show Stored w d from Or.inr ⟨jobId, hjob⟩).copies
  refine ⟨hw.shadows hstored ?_ hw.jobPath, fun d hd => Or.inr (hstored d hd), ?_, fun _ => id⟩
  · intro c d hc
    rcases find?_insert_cases hc with ⟨rfl, rfl⟩ | ⟨-, hc⟩
    · rfl
    · exact hw.correlationPath _ _ hc
  · intro d hd
    rcases id hd with ⟨c, hc⟩ | ⟨jobId, hjob⟩
    · by_cases hsame : c = correlationOf document
      · obtain ⟨e, he, hbinding⟩ := hcopy
        refine ⟨document, Or.inl ⟨_, Directory.find?_insert_self _ _ _⟩, ?_⟩
        rw [hbinding]
        refine hw.binding d e hd he (hw.identity d e hd he ?_)
        rw [hw.correlationPath _ _ hc, hsame]
        exact (sameBinding hbinding).correlation
      · exact ⟨d, Or.inl ⟨c, (Directory.find?_insert_of_ne _ hsame _).trans hc⟩, rfl⟩
    · exact ⟨d, Or.inr ⟨jobId, hjob⟩, rfl⟩

theorem stored_insertNew {candidate d : AuthorizationJob} (hd : Stored { w with
      correlations := w.correlations.insert (correlationOf candidate) candidate } d) :
    d = candidate ∨ Stored w d := by
  rcases hd with ⟨c, hc⟩ | ⟨jobId, hjob⟩
  · rcases find?_insert_cases hc with ⟨-, rfl⟩ | ⟨-, hc⟩
    · exact Or.inl rfl
    · exact Or.inr (Or.inl ⟨c, hc⟩)
  · exact Or.inr (Or.inr ⟨jobId, hjob⟩)

theorem stored_of_unused {candidate d : AuthorizationJob} (hunused : Unused w candidate)
    (hpaths : Paired w) (hd : Stored w d) :
    Stored { w with
      correlations := w.correlations.insert (correlationOf candidate) candidate } d := by
  rcases id hd with ⟨c, hc⟩ | ⟨jobId, hjob⟩
  · have hne : c ≠ correlationOf candidate := by
      rw [← hpaths.correlationPath _ _ hc]
      exact hunused.correlation d hd
    exact Or.inl ⟨c, (Directory.find?_insert_of_ne _ hne _).trans hc⟩
  · exact Or.inr ⟨jobId, hjob⟩

/-- A new authorization keeps the pairs. -/
theorem Paired.insertNew {candidate : AuthorizationJob} (hw : Paired w)
    (hunused : Unused w candidate) :
    Paired { w with
      correlations := w.correlations.insert (correlationOf candidate) candidate } := by
  refine ⟨?_, hw.jobPath, fun d d' hd hd' hsame => ?_, fun d d' hd hd' hsame => ?_⟩
  · intro c d hc
    rcases find?_insert_cases hc with ⟨rfl, rfl⟩ | ⟨-, hc⟩
    · rfl
    · exact hw.correlationPath _ _ hc
  · rcases stored_insertNew hd with rfl | hold <;> rcases stored_insertNew hd' with rfl | hold'
    · rfl
    · exact absurd hsame.symm (hunused.correlation d' hold')
    · exact absurd hsame (hunused.correlation d hold)
    · exact hw.identity d d' hold hold' hsame
  · rcases stored_insertNew hd with rfl | hold <;> rcases stored_insertNew hd' with rfl | hold'
    · rfl
    · exact absurd hsame.symm (hunused.identity d' hold')
    · exact absurd hsame (hunused.identity d hold)
    · exact hw.binding d d' hold hold' hsame

theorem Elsewhere.slot (h : Elsewhere action w w') :
    w'.slot = w.slot := by
  cases h <;> rfl

/-- Nothing that happens elsewhere changes what an authorization binds. -/
theorem Elsewhere.benign (hw : Paired w) (h : Elsewhere action w w') : Benign w w' := by
  cases h with
  | @result _ job r hjob hresult =>
      refine Benign.same hw rfl rfl fun jobId hold => ?_
      unfold IntakeWorld.resultExists at hold ⊢
      by_cases hsame : jobId = job.jobId
      · rw [hsame, Directory.find?_insert_self]
        rfl
      · rw [Directory.find?_insert_of_ne _ hsame]
        exact hold
  | @replaceJob _ job job' hjob hsame =>
      have hid : job.jobId = job'.jobId := (sameBinding hsame).jobId.symm
      rw [hid]
      exact Benign.insertJob hw ⟨job, Or.inr ⟨_, hjob⟩, hsame⟩
  | repairJob hcorrelation _ =>
      exact Benign.insertJob hw (show Stored w _ from Or.inl ⟨_, hcorrelation⟩).copies
  | repairCorrelation hjob _ =>
      exact Benign.insertCorrelation hw (show Stored w _ from Or.inr ⟨_, hjob⟩).copies
  | addIntent _ _ _ => exact Benign.same hw rfl rfl fun _ => id
  | removeIntent _ => exact Benign.same hw rfl rfl fun _ => id
  | @issue _ candidate hartifact hresolve =>
      have hunused := resolve_admitted hw hresolve
      refine ⟨hw.insertNew hunused, fun d hd => ?_,
        fun d hd => (stored_of_unused hunused hw hd).copies, fun _ => id⟩
      rcases stored_insertNew hd with rfl | hold
      · exact Or.inl hartifact
      · exact Or.inr hold.copies

/-! ## Bound artifacts -/

/-- The bytes are bound by a stored authorization that has no result. -/
def Bound (sha256 : Bytes → Sha256) (w : IntakeWorld) (c : Uuid7) (bytes : Bytes) : Prop :=
  ∃ d declared, Stored w d ∧ correlationOf d = c ∧ d.artifact = some declared ∧
    Exact sha256 declared bytes ∧ w.resultExists d.jobId = false

/-- The authorization of the correlation has its result. -/
def Settled (w : IntakeWorld) (c : Uuid7) : Prop :=
  ∃ d, Stored w d ∧ correlationOf d = c ∧ w.resultExists d.jobId = true

theorem Settled.unbound {c : Uuid7} {bytes : Bytes} (hw : Paired w) (h : Settled w c) :
    ¬ Bound sha256 w c bytes := by
  rintro ⟨d', declared, hd', hc', -, -, hnone⟩
  obtain ⟨d, hd, hc, hresult⟩ := h
  rw [hw.identity d d' hd hd' (hc.trans hc'.symm), hnone] at hresult
  cases hresult

theorem Settled.benign {c : Uuid7} (h : Settled w c) (hb : Benign w w') :
    Settled w' c := by
  obtain ⟨d, hd, hc, hresult⟩ := h
  obtain ⟨d', hd', hbinding⟩ := hb.kept d hd
  have hsame := sameBinding hbinding
  refine ⟨d', hd', hsame.correlation.symm.trans hc, ?_⟩
  rw [← hsame.jobId]
  exact hb.results _ hresult

/-- Nothing becomes bound by a change of the records. -/
theorem Bound.before {c : Uuid7} {bytes : Bytes} (hb : Benign w w') (h : Bound sha256 w' c bytes) :
    Bound sha256 w c bytes := by
  obtain ⟨d', declared, hd', hc, hartifact, hexact, hnone⟩ := h
  rcases hb.known d' hd' with hfree | ⟨d, hd, hbinding⟩
  · rw [hfree] at hartifact
    cases hartifact
  · have hsame := sameBinding hbinding
    refine ⟨d, declared, hd, hsame.correlation.symm.trans hc, hsame.artifact.symm.trans hartifact,
      hexact, ?_⟩
    rw [← hsame.jobId]
    cases hresult : w.resultExists d'.jobId with
    | false => rfl
    | true =>
        rw [hb.results _ hresult] at hnone
        cases hnone

/-! ## Snapshots -/

/-- A list of bindings in which equal names have equal values is looked up by membership. -/
theorem lookup_of_consistent {V : Type} {entries : List (String × V)} {name : String} {value : V}
    (hmem : (name, value) ∈ entries)
    (hsame : ∀ value', (name, value') ∈ entries → value' = value) :
    entries.lookup name = some value := by
  cases hlookup : entries.lookup name with
  | none =>
      have hnone := List.lookup_eq_none_iff.1 hlookup _ hmem
      simp at hnone
  | some value' =>
      obtain ⟨before, behind, hsplit, -⟩ := List.lookup_eq_some_iff.1 hlookup
      rw [hsame value' (by rw [hsplit]; exact List.mem_append_right _ List.mem_cons_self)]

theorem mem_of_lookup {V : Type} {entries : List (String × V)} {name : String} {value : V}
    (h : entries.lookup name = some value) : (name, value) ∈ entries := by
  obtain ⟨before, behind, hsplit, -⟩ := List.lookup_eq_some_iff.1 h
  rw [hsplit]
  exact List.mem_append_right _ List.mem_cons_self

/-- An unfinished authorization that binds the artifact of the name is stored. -/
def Named (w : IntakeWorld) (name : String) (declared : Artifact) : Prop :=
  ∃ d, Stored w d ∧ name = artifactName (correlationOf d) ∧ d.artifact = some declared ∧
    w.unfinished d = true

/-- The snapshot accounts for every stored authorization. -/
structure Covers (w : IntakeWorld) (authority : IntakeAuthority) : Prop where
  covered : ∀ d declared, Stored w d → d.artifact = some declared →
    artifactName (correlationOf d) ∈ authority.terminal ∨
      authority.authorized.lookup (artifactName (correlationOf d)) = some declared
  terminal : ∀ name ∈ authority.terminal, ∃ c, name = artifactName c ∧ Settled w c

theorem artifactBinding_eq_some {d : AuthorizationJob} {name : String} {declared : Artifact} :
    artifactBinding d = some (name, declared) ↔
      d.artifact = some declared ∧ name = artifactName (correlationOf d) := by
  unfold artifactBinding
  rw [Option.map_eq_some_iff]
  constructor
  · rintro ⟨found, hfound, hpair⟩
    cases hpair
    exact ⟨hfound, rfl⟩
  · rintro ⟨hartifact, rfl⟩
    exact ⟨declared, hartifact, rfl⟩

/-- What a snapshot is made of. -/
theorem loadAuthority_eq_ok {authority : IntakeAuthority} (hw : Paired w)
    (h : loadAuthority w = .ok authority) :
    Covers w authority ∧
      ∀ name declared, authority.authorized.lookup name = some declared →
        Named w name declared := by
  unfold loadAuthority at h
  simp only [bind_eq_ok, require_eq_ok, pure_eq_ok] at h
  obtain ⟨merged, hmerged, -, -, -, hresults, rfl⟩ := h
  obtain ⟨hstored, hcovers⟩ := reconcilePairs_eq_ok hw hmerged
  have hjob : ∀ j, j ∈ (merged.filterMap fun m => w.jobs.find? m.jobId) →
      w.jobs.find? j.jobId = some j := by
    intro j hj
    obtain ⟨m, -, hfind⟩ := List.mem_filterMap.1 hj
    rw [hw.jobPath _ _ hfind]
    exact hfind
  -- every binding of the list is one of an unfinished stored authorization
  have hnamed : ∀ name declared, (name, declared) ∈ (merged.filter fun m =>
      (w.jobs.find? m.jobId).isNone).filterMap artifactBinding ++
        ((merged.filterMap fun m => w.jobs.find? m.jobId).filter fun j =>
          !w.terminal j).filterMap artifactBinding → Named w name declared := by
    intro name declared hmem
    rcases List.mem_append.1 hmem with hmem | hmem
    · obtain ⟨m, hm, hbinding⟩ := List.mem_filterMap.1 hmem
      obtain ⟨hartifact, rfl⟩ := artifactBinding_eq_some.1 hbinding
      obtain ⟨hmerged', hnone⟩ := List.mem_filter.1 hm
      refine ⟨m, hstored m hmerged', rfl, hartifact, ?_⟩
      unfold IntakeWorld.unfinished
      rw [Option.isNone_iff_eq_none.1 hnone]
    · obtain ⟨j, hj, hbinding⟩ := List.mem_filterMap.1 hmem
      obtain ⟨hartifact, rfl⟩ := artifactBinding_eq_some.1 hbinding
      obtain ⟨hjobs, hopen⟩ := List.mem_filter.1 hj
      refine ⟨j, Or.inr ⟨_, hjob j hjobs⟩, rfl, hartifact, ?_⟩
      unfold IntakeWorld.unfinished
      rw [hjob j hjobs]
      exact hopen
  refine ⟨⟨fun d declared hd hartifact => ?_, fun name hname => ?_⟩, fun name declared hlookup =>
    hnamed name declared (mem_of_lookup hlookup)⟩
  · obtain ⟨m, hm, hbinding⟩ := hcovers d hd
    have hsame := sameBinding hbinding
    -- equal names are names of one authorization, which binds one artifact
    have hlookup : ∀ m', durableBinding m' = durableBinding d →
        (artifactName (correlationOf m'), declared) ∈ (merged.filter fun m =>
          (w.jobs.find? m.jobId).isNone).filterMap artifactBinding ++
            ((merged.filterMap fun m => w.jobs.find? m.jobId).filter fun j =>
              !w.terminal j).filterMap artifactBinding →
        ((merged.filter fun m => (w.jobs.find? m.jobId).isNone).filterMap artifactBinding ++
          ((merged.filterMap fun m => w.jobs.find? m.jobId).filter fun j =>
            !w.terminal j).filterMap artifactBinding).lookup (artifactName (correlationOf d)) =
              some declared := by
      intro m' hm' hmem
      rw [(sameBinding hm').correlation] at hmem
      refine lookup_of_consistent hmem fun value' hvalue' => ?_
      obtain ⟨e, he, hname, hartifact', -⟩ := hnamed _ _ hvalue'
      have hcorrelation := artifactName_injective hname
      have hagree := sameBinding (hw.binding d e hd he (hw.identity d e hd he hcorrelation))
      rw [← hagree.artifact, hartifact] at hartifact'
      exact (Option.some.inj hartifact').symm
    cases hfind : w.jobs.find? m.jobId with
    | none =>
        refine Or.inr (hlookup m hbinding (List.mem_append_left _ ?_))
        refine List.mem_filterMap.2 ⟨m, List.mem_filter.2 ⟨hm, by rw [hfind]; rfl⟩, ?_⟩
        exact artifactBinding_eq_some.2 ⟨hsame.artifact.trans hartifact, rfl⟩
    | some j =>
        have hj : Stored w j := Or.inr ⟨_, hfind⟩
        have hjd : durableBinding j = durableBinding d :=
          (hw.binding j m hj (hstored m hm) (hw.jobPath _ _ hfind)).trans hbinding
        have hmem : j ∈ merged.filterMap fun m => w.jobs.find? m.jobId :=
          List.mem_filterMap.2 ⟨m, hm, hfind⟩
        cases hterminal : w.terminal j with
        | true =>
            left
            refine List.mem_map.2 ⟨j, List.mem_filter.2 ⟨hmem, hterminal⟩, ?_⟩
            rw [(sameBinding hjd).correlation]
        | false =>
            refine Or.inr (hlookup j hjd (List.mem_append_right _ ?_))
            refine List.mem_filterMap.2 ⟨j, List.mem_filter.2 ⟨hmem, by rw [hterminal]; rfl⟩, ?_⟩
            exact artifactBinding_eq_some.2 ⟨(sameBinding hjd).artifact.trans hartifact, rfl⟩
  · obtain ⟨j, hj, rfl⟩ := List.mem_map.1 hname
    obtain ⟨hmem, hterminal⟩ := List.mem_filter.1 hj
    refine ⟨correlationOf j, rfl, j, Or.inr ⟨_, hjob j hmem⟩, rfl, ?_⟩
    have hresult := List.all_eq_true.1 hresults j hmem
    unfold IntakeWorld.terminal at hterminal
    simp only [Bool.and_eq_true, Bool.or_eq_true] at hterminal
    rcases hterminal.1.1 with hexists | hphase
    · exact hexists
    · rw [hphase, Bool.not_true, Bool.or_false] at hresult
      exact hresult

theorem Covers.benign {authority : IntakeAuthority} (h : Covers w authority) (hb : Benign w w') :
    Covers w' authority := by
  refine ⟨fun d' declared hd' hartifact => ?_, fun name hname => ?_⟩
  · rcases hb.known d' hd' with hfree | ⟨d, hd, hbinding⟩
    · rw [hfree] at hartifact
      cases hartifact
    · have hsame := sameBinding hbinding
      rw [hsame.correlation]
      exact h.covered d declared hd (hsame.artifact.symm.trans hartifact)
  · obtain ⟨c, rfl, hsettled⟩ := h.terminal name hname
    exact ⟨c, rfl, hsettled.benign hb⟩

/-- What a reconciliation removes is bound by nothing. -/
theorem Covers.unbound {authority : IntakeAuthority} {c : Uuid7} {bytes : Bytes} (hw : Paired w)
    (h : Covers w authority)
    (hremoved : isTemporary (artifactName c) = true ∨
      authority.authorized.lookup (artifactName c) = none ∨
        artifactName c ∈ authority.terminal) : ¬ Bound sha256 w c bytes := by
  rcases hremoved with htemporary | hnone | hterminal
  · rw [isTemporary_artifactName] at htemporary
    cases htemporary
  · rintro ⟨d, declared, hd, rfl, hartifact, hexact, hresult⟩
    rcases h.covered d declared hd hartifact with hterminal | hlookup
    · obtain ⟨c, hname, hsettled⟩ := h.terminal _ hterminal
      rw [← artifactName_injective hname] at hsettled
      exact hsettled.unbound hw
        ⟨d, declared, hd, rfl, hartifact, hexact, hresult⟩
    · rw [hnone] at hlookup
      cases hlookup
  · obtain ⟨c', hname, hsettled⟩ := h.terminal _ hterminal
    rw [artifactName_injective hname]
    exact hsettled.unbound hw

theorem needsReplay_iff {job : AuthorizationJob} :
    w.needsReplay job = true ↔ ∃ id intent, w.intents.find? id = some intent ∧
      intent.emergency = false ∧ intent.correlationId = correlationOf job := by
  unfold IntakeWorld.needsReplay
  rw [List.any_eq_true]
  constructor
  · rintro ⟨entry, hmem, hboth⟩
    rw [Bool.and_eq_true, Bool.not_eq_true', decide_eq_true_eq] at hboth
    exact ⟨entry.1, entry.2, Directory.mem_entries.1 hmem, hboth⟩
  · rintro ⟨id, intent, hfind, hemergency, hcorrelation⟩
    refine ⟨(id, intent), Directory.mem_entries.2 hfind, ?_⟩
    rw [hemergency, decide_eq_true hcorrelation]
    rfl

/-- Whether a job is terminal depends on its own result and its own intents. -/
theorem terminal_congr {job : AuthorizationJob}
    (hresult : w'.resultExists job.jobId = w.resultExists job.jobId)
    (hreplay : w'.needsReplay job = w.needsReplay job) : w'.terminal job = w.terminal job := by
  unfold IntakeWorld.terminal
  rw [hresult, hreplay]

theorem unfinished_congr {d : AuthorizationJob}
    (hjob : w'.jobs.find? d.jobId = w.jobs.find? d.jobId)
    (hterminal : ∀ j, w.jobs.find? d.jobId = some j → w'.terminal j = w.terminal j) :
    w'.unfinished d = w.unfinished d := by
  unfold IntakeWorld.unfinished
  rw [hjob]
  cases hfind : w.jobs.find? d.jobId with
  | none => rfl
  | some j => exact congrArg (! ·) (hterminal j hfind)

/-- Authorizations of different correlations have different identities. -/
theorem Paired.jobId_ne {d d' : AuthorizationJob} (hw : Paired w) (hd : Stored w d)
    (hd' : Stored w d') (h : correlationOf d' ≠ correlationOf d) :
    d.jobId ≠ d'.jobId := fun hsame =>
  h (sameBinding (hw.binding d d' hd hd' hsame)).correlation.symm

/-- What concerns other correlations leaves an unfinished authorization unfinished. -/
theorem Elsewhere.named {c : Uuid7} {declared : Artifact} (hw : Paired w)
    (h : Elsewhere action w w') (hother : action ≠ .touch c)
    (hn : Named w (artifactName c) declared) : Named w' (artifactName c) declared := by
  obtain ⟨d, hd, hname, hartifact, hopen⟩ := hn
  obtain rfl := artifactName_injective hname
  -- the job under the identity of `d` was issued for the same correlation
  have hagree : ∀ j, w.jobs.find? d.jobId = some j →
      j.jobId = d.jobId ∧ correlationOf j = correlationOf d := by
    intro j hj
    have hjob := hw.jobPath _ _ hj
    exact ⟨hjob, (sameBinding (hw.binding j d (Or.inr ⟨_, hj⟩) hd hjob)).correlation⟩
  have hclose : Stored w' d → w'.unfinished d = w.unfinished d →
      Named w' (artifactName (correlationOf d)) declared := fun hstored hsame =>
    ⟨d, hstored, rfl, hartifact, hsame.trans hopen⟩
  have hne : ∀ d', Stored w d' → action = .touch (correlationOf d') → d.jobId ≠ d'.jobId :=
    fun d' hd' haction => hw.jobId_ne hd hd' fun hsame => hother (by rw [haction, hsame])
  -- each action concerns the job, result or intent of another correlation
  cases h with
  | @result _ job r hjob hresult =>
      refine hclose hd (unfinished_congr rfl fun j hj => terminal_congr ?_ rfl)
      have hdifferent := hne job (Or.inr ⟨_, hjob⟩) rfl
      rw [(hagree j hj).1]
      unfold IntakeWorld.resultExists
      rw [Directory.find?_insert_of_ne _ hdifferent]
  | @replaceJob _ job job' hjob hsame =>
      have hdifferent := hne job (Or.inr ⟨_, hjob⟩) rfl
      have hfind : (w.jobs.insert job.jobId job').find? d.jobId = w.jobs.find? d.jobId :=
        Directory.find?_insert_of_ne _ hdifferent _
      refine hclose ?_ (unfinished_congr hfind fun j _ => terminal_congr rfl rfl)
      rcases id hd with hc | ⟨jobId, hj⟩
      · exact Or.inl hc
      · have hid : jobId = d.jobId := (hw.jobPath _ _ hj).symm
        exact Or.inr ⟨d.jobId, hfind.trans (hid ▸ hj)⟩
  | @repairJob _ document hcorrelation hjob =>
      have hdifferent := hne document (Or.inl ⟨_, hcorrelation⟩) rfl
      have hfind : (w.jobs.insert document.jobId document).find? d.jobId = w.jobs.find? d.jobId :=
        Directory.find?_insert_of_ne _ hdifferent _
      refine hclose ?_ (unfinished_congr hfind fun j _ => terminal_congr rfl rfl)
      rcases id hd with hc | ⟨jobId, hj⟩
      · exact Or.inl hc
      · have hid : jobId = d.jobId := (hw.jobPath _ _ hj).symm
        exact Or.inr ⟨d.jobId, hfind.trans (hid ▸ hj)⟩
  | @repairCorrelation _ job hjob hcorrelation =>
      refine hclose ?_ (unfinished_congr rfl fun j _ => terminal_congr rfl rfl)
      rcases id hd with ⟨c, hc⟩ | hj
      · have hdifferent : c ≠ correlationOf job := by
          rintro rfl
          rw [hcorrelation] at hc
          cases hc
        exact Or.inl ⟨c, (Directory.find?_insert_of_ne _ hdifferent _).trans hc⟩
      · exact Or.inr hj
  | addIntent id intent hid =>
      have hdifferent : intent.correlationId ≠ correlationOf d := fun hsame =>
        hother (by rw [hsame])
      refine hclose hd (unfinished_congr rfl fun j hj => terminal_congr rfl ?_)
      rw [Bool.eq_iff_iff, needsReplay_iff, needsReplay_iff]
      constructor
      · rintro ⟨id', intent', hfind, hrest⟩
        rcases find?_insert_cases hfind with ⟨-, rfl⟩ | ⟨-, hfind⟩
        · exact absurd (hrest.2.trans (hagree j hj).2) hdifferent
        · exact ⟨id', intent', hfind, hrest⟩
      · rintro ⟨id', intent', hfind, hrest⟩
        have hkey : id' ≠ id := by
          rintro rfl
          rw [hid] at hfind
          cases hfind
        exact ⟨id', intent', (Directory.find?_insert_of_ne _ hkey _).trans hfind, hrest⟩
  | @removeIntent _ id intent hid =>
      have hdifferent : intent.correlationId ≠ correlationOf d := fun hsame =>
        hother (by rw [hsame])
      refine hclose hd (unfinished_congr rfl fun j hj => terminal_congr rfl ?_)
      rw [Bool.eq_iff_iff, needsReplay_iff, needsReplay_iff]
      have hkey : ∀ id' intent', w.intents.find? id' = some intent' →
          intent'.correlationId = correlationOf j → id' ≠ id := by
        rintro id' intent' hfind hcorrelation rfl
        rw [hid] at hfind
        obtain rfl := Option.some.inj hfind
        exact hdifferent (hcorrelation.trans (hagree j hj).2)
      constructor
      · rintro ⟨id', intent', hfind, hrest⟩
        have hne' : id' ≠ id := by
          rintro rfl
          rw [Directory.find?_erase_self] at hfind
          cases hfind
        exact ⟨id', intent', (Directory.find?_erase_of_ne _ hne').symm.trans hfind, hrest⟩
      · rintro ⟨id', intent', hfind, hrest⟩
        exact ⟨id', intent',
          (Directory.find?_erase_of_ne _ (hkey id' intent' hfind hrest.2)).trans hfind, hrest⟩
  | @issue _ candidate _ hresolve =>
      exact hclose (stored_of_unused (resolve_admitted hw hresolve) hw hd)
        (unfinished_congr rfl fun j _ => terminal_congr rfl rfl)

/-! ## One step -/

/-- The file of the name is bound by nothing. -/
def Loose (sha256 : Bytes → Sha256) (w : IntakeWorld) (name : String) : Prop :=
  ∀ c entry, name = artifactName c → w.slot.find? name = some entry →
    ¬ Bound sha256 w c entry.bytes

/-- What the holder of the lock knows about the slot and the records. -/
def Holder.Knows (w : IntakeWorld) : Holder → Prop
  | .creating _ => w.slot.keys = []
  | .streaming _ temporary => w.slot.keys = [temporary] ∧ isTemporary temporary = true
  | .issuing _ _ candidate => Copies w candidate
  | .claimed job _ => Copies w job
  | .reconciling authority => Covers w authority
  | .sweeping name => w.slot.keys = [name] ∧ ∀ bytes sha256, ∀ c, name = artifactName c →
      ¬ Bound sha256 w c bytes
  | _ => True

/-- What holds in every state of every run. -/
structure Sane (s : IntakeState) : Prop where
  paired : Paired s.world
  single : s.world.slot.size ≤ 1
  knows : s.holder.Knows s.world

theorem Copies.benign {d : AuthorizationJob} (h : Copies w d) (hb : Benign w w') : Copies w' d := by
  obtain ⟨e, he, hde⟩ := h
  obtain ⟨e', he', hee'⟩ := hb.kept e he
  exact ⟨e', he', hde.trans hee'⟩

theorem Holder.Knows.benign {holder : Holder} (h : holder.Knows w) (hb : Benign w w')
    (hslot : w'.slot = w.slot) : holder.Knows w' := by
  cases holder with
  | creating a => exact (congrArg Directory.keys hslot).trans h
  | streaming a temporary => exact ⟨(congrArg Directory.keys hslot).trans h.1, h.2⟩
  | issuing a fresh candidate => exact Copies.benign h hb
  | claimed job declared => exact Copies.benign h hb
  | reconciling authority => exact Covers.benign h hb
  | sweeping name =>
      exact ⟨(congrArg Directory.keys hslot).trans h.1, fun bytes sha256 c hname hbound =>
        h.2 bytes sha256 c hname (hbound.before hb)⟩
  | _ => trivial

theorem keys_erase_singleton {slot : Slot} {name : String} (h : slot.keys = [name]) :
    (slot.erase name).keys = [] := by
  refine Directory.keys_eq List.Pairwise.nil fun k => ?_
  rw [← Directory.mem_keys, Directory.mem_keys_erase, h, List.mem_singleton]
  exact ⟨fun hk => absurd hk List.not_mem_nil, fun hk => absurd hk.2 hk.1⟩

theorem keys_insert_empty {slot : Slot} (h : slot.keys = []) (name : String) (entry : Entry) :
    (slot.insert name entry).keys = [name] := by
  refine Directory.keys_eq (List.pairwise_singleton _ _) fun k => ?_
  rw [← Directory.mem_keys, Directory.mem_keys_insert, h, List.mem_singleton]
  exact ⟨Or.inl, fun hk => hk.resolve_right List.not_mem_nil⟩

theorem size_of_keys {slot : Slot} {names : List String} (h : slot.keys = names) :
    slot.size = names.length := by
  rw [← Directory.size_keys, h]

theorem size_erase_le {slot : Slot} (h : slot.size ≤ 1) (name : String) :
    (slot.erase name).size ≤ 1 :=
  (List.length_filter_le _ _).trans h

/-- A world in which only the slot is another. -/
theorem Paired.withSlot (hw : Paired w) (slot : Slot) :
    Paired { w with slot := slot } :=
  (show Benign w { w with slot := slot } from Benign.same hw rfl rfl fun _ => id).paired

/-- Every step keeps what the holder knows, and a slot of at most one file. -/
theorem Sane.step (h : Sane s) (hstep : Step sha256 action s t) : Sane t := by
  obtain ⟨hpaired, hsingle, hknows⟩ := h
  -- one case a step: what the slot holds after it, and what its holder knows from the last read
  cases hstep with
  | request a => exact ⟨hpaired, hsingle, trivial⟩
  | findVacant hfound => exact ⟨hpaired, hsingle, (reconcileBeforeAdmission_eq_ok hfound).2⟩
  | removeAbandoned hfound =>
      obtain ⟨-, hkeys, -⟩ := reconcileBeforeAdmission_eq_ok hfound
      exact ⟨hpaired.withSlot _, size_erase_le hsingle _, keys_erase_singleton hkeys⟩
  | findExisting _ => exact ⟨hpaired, hsingle, trivial⟩
  | @create w a temporary hname _ =>
      have hkeys := keys_insert_empty hknows temporary ⟨true, []⟩
      exact ⟨hpaired.withSlot _, (size_of_keys hkeys).le, hkeys, hname⟩
  | @write w a temporary entry chunk hentry _ =>
      have hkeys := (Directory.keys_insert_old hentry ⟨true, entry.bytes ++ chunk⟩).trans hknows.1
      exact ⟨hpaired.withSlot _, (size_of_keys hkeys).le, hkeys, hknows.2⟩
  | @publish w a temporary entry _ _ _ _ =>
      have hkeys := keys_insert_empty (keys_erase_singleton hknows.1) a.filename entry
      exact ⟨hpaired.withSlot _, (size_of_keys hkeys).le, trivial⟩
  | retain _ _ => exact ⟨hpaired, hsingle, trivial⟩
  | discard _ _ => exact ⟨hpaired, hsingle, trivial⟩
  | resolveEstablished _ _ => exact ⟨hpaired, hsingle, trivial⟩
  | publishCorrelation _ hresolve =>
      exact ⟨hpaired.insertNew (resolve_admitted hpaired hresolve), hsingle,
        Stored.copies (Or.inl ⟨_, Directory.find?_insert_self _ _ _⟩)⟩
  | publishJob _ => exact ⟨(Benign.insertJob hpaired hknows).paired, hsingle, trivial⟩
  | failStreaming => exact ⟨hpaired, hsingle, trivial⟩
  | failLeased => exact ⟨hpaired, hsingle, trivial⟩
  | failIssuing => exact ⟨hpaired, hsingle, trivial⟩
  | failIssued _ => exact ⟨(Benign.insertJob hpaired hknows).paired, hsingle, trivial⟩
  | remove => exact ⟨hpaired.withSlot _, size_erase_le hsingle _, trivial⟩
  | claim hjob _ _ => exact ⟨hpaired, hsingle, Stored.copies (Or.inr ⟨_, hjob⟩)⟩
  | consume _ => exact ⟨hpaired, hsingle, trivial⟩
  | loadAuthority hload => exact ⟨hpaired, hsingle, (loadAuthority_eq_ok hpaired hload).1⟩
  | decideVacant _ => exact ⟨hpaired, hsingle, trivial⟩
  | decideRemoved hdecided =>
      obtain ⟨-, hkeys, hremoved⟩ := reconcileSlot_eq_ok hdecided
      refine ⟨hpaired, hsingle, hkeys, fun bytes sha256 c hname => ?_⟩
      rw [hname] at hremoved
      exact Covers.unbound hpaired hknows hremoved
  | decideRetained _ => exact ⟨hpaired, hsingle, trivial⟩
  | sweep => exact ⟨hpaired.withSlot _, size_erase_le hsingle _, trivial⟩
  | stop => exact ⟨hpaired, hsingle, trivial⟩
  | elsewhere hother =>
      have hb := hother.benign hpaired
      refine ⟨hb.paired, ?_, hknows.benign hb hother.slot⟩
      show Directory.size _ ≤ 1
      rw [hother.slot]
      exact hsingle

/-! ## Orderly steps -/

/-- The condition on a step, in the state before it: no exception leaves an admission while an
unfinished authorization binds the artifact in the slot, and while a reconciliation decides by its
snapshot nothing changes for the authorization whose artifact is in the slot. -/
def Orderly (sha256 : Bytes → Sha256) (action : Action) (s : IntakeState) : Prop :=
  (action = .fail → ∀ c entry, s.world.slot.find? (artifactName c) = some entry →
    ¬ Bound sha256 s.world c entry.bytes) ∧
  ∀ authority c, s.holder = .reconciling authority → action = .touch c →
    s.world.slot.find? (artifactName c) = none

/-- What holds of the holder in orderly runs. -/
def Holder.Guards (sha256 : Bytes → Sha256) (w : IntakeWorld) : Holder → Prop
  | .leaving name => Loose sha256 w name
  | .reconciling authority => ∀ name declared, (w.slot.find? name).isSome = true →
      authority.authorized.lookup name = some declared → Named w name declared
  | _ => True

theorem Loose.benign {name : String} (h : Loose sha256 w name) (hb : Benign w w')
    (hslot : w'.slot = w.slot) : Loose sha256 w' name := by
  intro c entry hname hentry hbound
  rw [hslot] at hentry
  exact h c entry hname hentry (hbound.before hb)

/-- Every orderly step keeps the guards. -/
theorem guards_step (h : Sane s) (hguards : s.holder.Guards sha256 s.world)
    (horderly : Orderly sha256 action s)
    (hstep : Step sha256 action s t) : t.holder.Guards sha256 t.world := by
  obtain ⟨hpaired, hsingle, hknows⟩ := h
  -- only steps that lead into `leaving` or `reconciling`, and those of others, need an argument
  cases hstep with
  | @discard w a fresh job hretry hneeded =>
      -- the retry found a result, so no unfinished authorization binds the artifact
      obtain ⟨hstored, hcorrelation, -⟩ := findRetry_eq_some hpaired hretry
      have hresult : w.resultExists job.jobId = true := by
        unfold retryRequiresArtifact at hneeded
        split at hneeded
        · obtain ⟨_, -, hneeded⟩ := bind_eq_ok.1 hneeded
          cases hneeded
        · rename_i hexists
          simpa using hexists
      intro c entry hname _
      have hsettled : Settled w c := ⟨_, hstored, hcorrelation.trans
        (artifactName_injective hname), hresult⟩
      exact hsettled.unbound hpaired
  | failStreaming =>
      intro c entry hname hentry
      exact horderly.1 rfl c entry (hname ▸ hentry)
  | failLeased =>
      intro c entry hname hentry
      exact horderly.1 rfl c entry (hname ▸ hentry)
  | failIssuing =>
      intro c entry hname hentry
      exact horderly.1 rfl c entry (hname ▸ hentry)
  | failIssued hnew =>
      refine Loose.benign ?_ (Benign.insertJob hpaired hknows) rfl
      intro c entry hname hentry
      exact horderly.1 rfl c entry (hname ▸ hentry)
  | @consume w job declared hresult =>
      obtain ⟨d, hd, hbinding⟩ := hknows
      have hsame := sameBinding hbinding
      intro c entry hname _
      have hsettled : Settled w c := by
        refine ⟨d, hd, hsame.correlation.symm.trans (artifactName_injective hname), ?_⟩
        rw [← hsame.jobId]
        exact hresult
      exact hsettled.unbound hpaired
  | loadAuthority hload =>
      intro name declared _ hlookup
      exact (loadAuthority_eq_ok hpaired hload).2 name declared hlookup
  | @elsewhere action w w' holder hother =>
      have hb := hother.benign hpaired
      cases holder with
      | leaving name => exact Loose.benign hguards hb hother.slot
      | reconciling authority =>
          intro name declared hslot hlookup
          rw [hother.slot] at hslot
          have hnamed := hguards name declared hslot hlookup
          obtain ⟨d, -, hname, -, -⟩ := id hnamed
          rw [hname] at hnamed hslot ⊢
          refine hother.named hpaired ?_ hnamed
          intro haction
          -- orderly: nothing touches the authorization whose artifact the snapshot keeps
          rw [horderly.2 authority _ rfl haction] at hslot
          cases hslot
      | _ => trivial
  | _ => trivial

/-- An orderly step keeps the artifact that an unfinished authorization binds. -/
theorem kept_step (h : Sane s) (hguards : s.holder.Guards sha256 s.world)
    (hstep : Step sha256 action s t) {c : Uuid7}
    {entry : Entry} (hentry : s.world.slot.find? (artifactName c) = some entry)
    (hbound : Bound sha256 s.world c entry.bytes) :
    t.world.slot.find? (artifactName c) = some entry := by
  have htemporary : ∀ name, isTemporary name = true → artifactName c ≠ name := by
    rintro name hname rfl
    rw [isTemporary_artifactName] at hname
    cases hname
  -- the artifact has a canonical name, so only `remove` and `sweep` could take it
  cases hstep with
  | removeAbandoned hfound =>
      obtain ⟨-, -, hname⟩ := reconcileBeforeAdmission_eq_ok hfound
      exact (Directory.find?_erase_of_ne _ (htemporary _ hname)).trans hentry
  | create hname _ =>
      exact (Directory.find?_insert_of_ne _ (htemporary _ hname) _).trans hentry
  | write _ _ _ =>
      exact (Directory.find?_insert_of_ne _ (htemporary _ h.knows.2) _).trans hentry
  | @publish w a temporary _ _ _ _ hnew =>
      have hne : artifactName c ≠ a.filename := by
        intro hsame
        rw [hsame, hnew] at hentry
        cases hentry
      refine (Directory.find?_insert_of_ne _ hne _).trans ?_
      exact (Directory.find?_erase_of_ne _ (htemporary _ h.knows.2)).trans hentry
  | @remove w name =>
      by_cases hsame : artifactName c = name
      · exact absurd hbound (hguards c entry hsame.symm (hsame ▸ hentry))
      · exact (Directory.find?_erase_of_ne _ hsame).trans hentry
  | @sweep w name =>
      by_cases hsame : artifactName c = name
      · exact absurd hbound (h.knows.2 entry.bytes sha256 c hsame.symm)
      · exact (Directory.find?_erase_of_ne _ hsame).trans hentry
  | elsewhere hother =>
      show Directory.find? _ _ = _
      rw [hother.slot]
      exact hentry
  | _ => exact hentry

/-- What is left when a reconciliation returns is named by an unfinished authorization. -/
theorem reconciled_step (h : Sane s) (hguards : s.holder.Guards sha256 s.world)
    (hstep : Step sha256 action s t)
    (hbefore : s.holder ≠ .reconciled) (hafter : t.holder = .reconciled) {name : String}
    {entry : Entry} (hentry : t.world.slot.find? name = some entry) :
    ∃ declared, Named t.world name declared ∧ Exact sha256 declared entry.bytes := by
  have hempty : ∀ slot : Slot, slot.keys = [] → slot.find? name ≠ some entry := by
    intro slot hkeys hfind
    have hmem : name ∈ slot.keys := Directory.mem_keys.2 (by rw [hfind]; rfl)
    rw [hkeys] at hmem
    cases hmem
  cases hstep with
  | decideVacant hdecided => exact absurd hentry (hempty _ (reconcileSlot_eq_ok hdecided).2)
  | decideRetained hdecided =>
      obtain ⟨-, hkeys, -, declared, found, hlookup, hfound, hexact⟩ :=
        reconcileSlot_eq_ok hdecided
      have hmem : name ∈ Directory.keys _ := Directory.mem_keys.2 (by rw [hentry]; rfl)
      rw [hkeys] at hmem
      obtain rfl := List.mem_singleton.1 hmem
      obtain rfl := Option.some.inj (hfound.symm.trans hentry)
      exact ⟨declared, hguards name declared (by rw [hfound]; rfl) hlookup, hexact⟩
  | sweep => exact absurd hentry (hempty _ (keys_erase_singleton h.knows.1))
  | elsewhere _ => exact absurd hafter hbefore
  | _ => cases hafter

/-! ## Runs -/

/-- A run starts with consistent records and nobody in the intake. -/
structure Starts (s : IntakeState) : Prop where
  paired : Paired s.world
  single : s.world.slot.size ≤ 1
  idle : s.holder = .idle

/-- Any number of steps. -/
abbrev Runs (sha256 : Bytes → Sha256) : IntakeState → IntakeState → Prop :=
  Relation.ReflTransGen fun s t => ∃ action, Step sha256 action s t

/-- Any number of orderly steps. -/
abbrev OrderlyRuns (sha256 : Bytes → Sha256) : IntakeState → IntakeState → Prop :=
  Relation.ReflTransGen fun s t => ∃ action, Orderly sha256 action s ∧ Step sha256 action s t

theorem Starts.sane {s : IntakeState} (h : Starts s) : Sane s := by
  refine ⟨h.paired, h.single, ?_⟩
  rw [h.idle]
  trivial

theorem Runs.sane (hs : Starts s) (hrun : Runs sha256 s t) : Sane t := by
  induction hrun with
  | refl => exact hs.sane
  | tail _ hstep ih =>
      obtain ⟨action, hstep⟩ := hstep
      exact ih.step hstep

theorem OrderlyRuns.guards (hs : Starts s) (hrun : OrderlyRuns sha256 s t) :
    Sane t ∧ t.holder.Guards sha256 t.world := by
  induction hrun with
  | refl =>
      refine ⟨hs.sane, ?_⟩
      rw [hs.idle]
      trivial
  | tail _ hstep ih =>
      obtain ⟨action, horderly, hstep⟩ := hstep
      exact ⟨ih.1.step hstep, guards_step ih.1 ih.2 horderly hstep⟩

/-- What holds of the intake slot: the first of every run, the others of every run whose steps are
orderly. -/
structure SlotSafe (sha256 : Bytes → Sha256) : Prop where
  /-- The slot never holds more than one file. -/
  single : ∀ s t, Starts s → Runs sha256 s t → t.world.slot.size ≤ 1
  /-- No step removes or replaces the artifact that an unfinished authorization binds. -/
  kept : ∀ s t u action, Starts s → OrderlyRuns sha256 s t → Orderly sha256 action t →
    Step sha256 action t u → ∀ c entry, t.world.slot.find? (artifactName c) = some entry →
      Bound sha256 t.world c entry.bytes → u.world.slot.find? (artifactName c) = some entry
  /-- When a reconciliation returns, an unfinished authorization binds whatever is in the slot. -/
  reconciled : ∀ s t u action, Starts s → OrderlyRuns sha256 s t → Orderly sha256 action t →
    Step sha256 action t u → t.holder ≠ .reconciled → u.holder = .reconciled →
      ∀ name entry, u.world.slot.find? name = some entry →
        ∃ declared, Named u.world name declared ∧ Exact sha256 declared entry.bytes

/-- The intake slot is safe in orderly runs. -/
theorem intake_slot_safe (sha256 : Bytes → Sha256) : SlotSafe sha256 where
  single _ _ hs hrun := (Runs.sane hs hrun).single
  kept _ _ _ _ hs hrun _ hstep _ _ hentry hbound :=
    kept_step (OrderlyRuns.guards hs hrun).1 (OrderlyRuns.guards hs hrun).2 hstep hentry hbound
  reconciled _ _ _ _ hs hrun _ hstep hbefore hafter _ _ hentry :=
    reconciled_step (OrderlyRuns.guards hs hrun).1 (OrderlyRuns.guards hs hrun).2 hstep hbefore
      hafter hentry

/-! ## A failed issuance -/

section Failed

def failedCorrelation : Uuid7 := ⟨1, 0, 0⟩

def failedRequest : OperationRequest :=
  ⟨.deploy, failedCorrelation, some ⟨2, 0, 0⟩, none, none, none, some ⟨1, 0⟩⟩

def failedAdmission : Admission where
  binding := ⟨"operator", failedRequest, ⟨.request, 0⟩, some ⟨1, 0⟩⟩
  declared := ⟨1, 0⟩
  bound := rfl
  valid := by decide

def failedJob : AuthorizationJob where
  compatibilityVersion := .staticJobV2
  jobId := ⟨3, 0, 0⟩
  operatorPrincipal := "operator"
  request := failedRequest
  requestDigest := ⟨.request, 0⟩
  artifact := some ⟨1, 0⟩
  expectedSource := ⟨false, some .active, none, none, none, ⟨.platformState, 0⟩, none⟩
  sourceAuthority := none
  acceptedAt := "2026-01-01T00:00:00Z"
  phase := .pending
  executionValidated := some false
  exportDelivery := none
  dispatch := Dispatch.none

def failedTemporary : String := ".ldp-intake-00000000000000000000000000000000"

/-- The records before and after the correlation copy is published, with one file in the slot. -/
def failedWorld (name : String) (bytes : Bytes) (issued : List AuthorizationJob) : IntakeWorld where
  slot := Directory.empty.insert name ⟨true, bytes⟩
  correlations := issued.foldl (fun d job => d.insert (correlationOf job) job) Directory.empty
  jobs := Directory.empty
  results := Directory.empty
  intents := Directory.empty

def vacantWorld : IntakeWorld :=
  ⟨Directory.empty, Directory.empty, Directory.empty, Directory.empty, Directory.empty⟩

theorem vacantWorld_starts : Starts ⟨vacantWorld, .idle⟩ := by
  refine ⟨⟨?_, ?_, ?_, ?_⟩, by decide, rfl⟩
  · intro c d hd
    cases hd
  · intro c d hd
    cases hd
  · rintro d d' (⟨c, hc⟩ | ⟨c, hc⟩) <;> cases hc
  · rintro d d' (⟨c, hc⟩ | ⟨c, hc⟩) <;> cases hc

/-- The upload is published and its correlation copy becomes durable; then the job copy fails. -/
theorem failed_issuance_runs : Runs (fun _ => 0) ⟨vacantWorld, .idle⟩
    ⟨failedWorld failedAdmission.filename [0] [failedJob], .leaving failedAdmission.filename⟩ := by
  let a := failedAdmission
  have admitted : Step (fun _ => 0) .request ⟨vacantWorld, .idle⟩ ⟨vacantWorld, .admitting a⟩ :=
    .request a
  have vacant : Step (fun _ => 0) .findVacant ⟨vacantWorld, .admitting a⟩
      ⟨vacantWorld, .creating a⟩ := .findVacant rfl
  have created : Step (fun _ => 0) .create ⟨vacantWorld, .creating a⟩
      ⟨failedWorld failedTemporary [] [], .streaming a failedTemporary⟩ :=
    .create (by rfl) rfl
  have hempty : (failedWorld failedTemporary [] []).slot.find? failedTemporary =
      some ⟨true, []⟩ := Directory.find?_insert_self _ _ _
  have written : Step (fun _ => 0) .write
      ⟨failedWorld failedTemporary [] [], .streaming a failedTemporary⟩
      ⟨{ failedWorld failedTemporary [] [] with
          slot := (failedWorld failedTemporary [] []).slot.insert failedTemporary ⟨true, [] ++ [0]⟩ },
        .streaming a failedTemporary⟩ :=
    .write [0] hempty (Nat.le_refl 1)
  have hwritten : ({ failedWorld failedTemporary [] [] with
      slot := (failedWorld failedTemporary [] []).slot.insert failedTemporary ⟨true, [] ++ [0]⟩ } :
        IntakeWorld) = failedWorld failedTemporary [0] [] :=
    congrArg (fun slot => { vacantWorld with slot := slot }) (Directory.insert_insert _ _ _ _)
  rw [hwritten] at written
  have published : Step (fun _ => 0) .publish
      ⟨failedWorld failedTemporary [0] [], .streaming a failedTemporary⟩
      ⟨{ failedWorld failedTemporary [0] [] with
          slot := ((failedWorld failedTemporary [0] []).slot.erase failedTemporary).insert a.filename
            ⟨true, [0]⟩ }, .leased a true⟩ :=
    .publish (Directory.find?_insert_self _ _ _) rfl ⟨rfl, rfl⟩ (by decide)
  have hpublished : ({ failedWorld failedTemporary [0] [] with
      slot := ((failedWorld failedTemporary [0] []).slot.erase failedTemporary).insert a.filename
        ⟨true, [0]⟩ } : IntakeWorld) = failedWorld a.filename [0] [] := by rfl
  rw [hpublished] at published
  have correlated : Step (fun _ => 0) .publishCorrelation
      ⟨failedWorld a.filename [0] [], .leased a true⟩
      ⟨failedWorld a.filename [0] [failedJob], .issuing a true failedJob⟩ :=
    .publishCorrelation rfl rfl
  have failed : Step (fun _ => 0) .fail
      ⟨failedWorld a.filename [0] [failedJob], .issuing a true failedJob⟩
      ⟨failedWorld a.filename [0] [failedJob], .leaving a.filename⟩ := .failIssuing
  exact .tail (.tail (.tail (.tail (.tail (.tail (.single ⟨_, admitted⟩) ⟨_, vacant⟩) ⟨_, created⟩)
    ⟨_, written⟩) ⟨_, published⟩) ⟨_, correlated⟩) ⟨_, failed⟩

/-- An exception after the correlation copy is durable removes the artifact that it binds. -/
theorem failed_issuance_loses_artifact : ¬ ∀ s t u action, Starts s → Runs (fun _ => 0) s t →
    Step (fun _ => 0) action t u → ∀ c entry,
      t.world.slot.find? (artifactName c) = some entry →
        Bound (fun _ => 0) t.world c entry.bytes →
          u.world.slot.find? (artifactName c) = some entry := by
  intro hkept
  have hbound : Bound (fun _ => 0) (failedWorld failedAdmission.filename [0] [failedJob])
      failedCorrelation [0] :=
    ⟨failedJob, ⟨1, 0⟩, Or.inl ⟨failedCorrelation, Directory.find?_insert_self _ _ _⟩, rfl, rfl,
      ⟨rfl, rfl⟩, rfl⟩
  have hlost := hkept _ _ _ _ vacantWorld_starts failed_issuance_runs .remove failedCorrelation
    ⟨true, [0]⟩ (Directory.find?_insert_self _ _ _) hbound
  have hgone := Directory.find?_erase_self
    (failedWorld failedAdmission.filename [0] [failedJob]).slot failedAdmission.filename
  cases hlost.symm.trans hgone

end Failed

end StaticHostAgent.Intake
