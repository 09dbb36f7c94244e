import StaticHostAgent.Releases.Namespace

/-!
# Restarting the reconciliation of the staging root

`sweep` is `reconcileStaging` without its count. Where every protected tree stands under its staged
name, a sweep verifies and changes nothing, or stops without a change, or restarts from its first
change (`sweep_restarts`). The first change discards a name or removes a part of a discarded tree,
so the next listing has the same trees in front or one tree less.
-/

set_option autoImplicit false

namespace StaticHostAgent.Releases

open Library Contracts Host

/-! ## Renaming an entry -/

section Rename

variable {K V : Type} [LinearOrder K] {source destination : K} {s : Directory K V} {value : V}

theorem renameEntry_of_find? (h : s.find? source = some value) :
    renameEntry source destination s = (s.erase source).insert destination value := by
  simp only [renameEntry, h]

theorem renameEntry_find?_of_ne {k : K} (hsource : k ≠ source) (hdestination : k ≠ destination) :
    (renameEntry source destination s).find? k = s.find? k := by
  unfold renameEntry
  split
  · rw [Directory.find?_insert_of_ne _ hdestination, Directory.find?_erase_of_ne _ hsource]
  · rfl

theorem renameEntry_find?_destination (h : s.find? source = some value) :
    (renameEntry source destination s).find? destination = some value := by
  rw [renameEntry_of_find? h, Directory.find?_insert_self]

theorem renameEntry_find?_source (hne : source ≠ destination) :
    (renameEntry source destination s).find? source = none := by
  cases h : s.find? source with
  | none => simp only [renameEntry, h]
  | some value =>
      rw [renameEntry_of_find? h, Directory.find?_insert_of_ne _ hne, Directory.find?_erase_self]

end Rename

/-! ## The listing -/

/-- What the listing must satisfy before any entry is touched. -/
structure Scanned (preserved : Protected) (s : Staging) : Prop where
  bound : s.keys.length ≤ maximumStagingEntries
  recognized : ∀ name ∈ s.keys, ∀ raw, name ≠ .other raw
  oneIdentity : ∀ t d, .discarded t d ∈ s.keys → .staged t d ∉ s.keys
  preserved : ∀ entry ∈ preserved,
    .staged entry.1.1 entry.1.2 ∈ s.keys ∨ .discarded entry.1.1 entry.1.2 ∈ s.keys

theorem scanStaging_eq_ok {preserved : Protected} {s : Staging} {names : List StagingName} :
    scanStaging preserved s = .ok names ↔ Scanned preserved s ∧ names = s.keys := by
  simp only [scanStaging, bind_eq_ok, require_eq_ok, pure_eq_ok, List.all_eq_true,
    decide_eq_true_eq, Bool.or_eq_true, exists_and_left, exists_const]
  constructor
  · rintro ⟨hbound, hrecognized, hidentity, hpreserved, rfl⟩
    refine ⟨⟨hbound, ?_, ?_, hpreserved⟩, rfl⟩
    · rintro name hname raw rfl
      exact absurd (hrecognized _ hname) (by simp)
    · intro t d hdiscarded
      simpa using hidentity _ hdiscarded
  · rintro ⟨h, rfl⟩
    refine ⟨h.bound, ?_, ?_, h.preserved, rfl⟩
    · intro name hname
      cases name with
      | other raw => exact absurd rfl (h.recognized _ hname raw)
      | staged t d => rfl
      | discarded t d => rfl
    · intro name hname
      cases name with
      | discarded t d => simpa using h.oneIdentity t d hname
      | staged t d => rfl
      | other raw => rfl

/-- The protected trees all stand under their staged names. -/
def Canonical (preserved : Protected) (s : Staging) : Prop :=
  ∀ entry ∈ preserved, (s.find? (.staged entry.1.1 entry.1.2)).isSome = true

theorem mem_of_lookup {t d : Uuid7} {preserved : Protected} {expected : Digest}
    (h : preserved.lookup (t, d) = some expected) : ((t, d), expected) ∈ preserved := by
  induction preserved with
  | nil => cases h
  | cons entry rest ih =>
      rw [List.lookup_cons] at h
      split at h
      · rename_i heq
        cases h
        rw [eq_of_beq heq]
        exact List.mem_cons_self
      · exact List.mem_cons_of_mem _ (ih h)

section Sweep

variable (host : ReleaseHost) (preserved : Protected)

/-- The reconciliation without its count. -/
def sweep : Durable Staging AgentError Unit := do
  let names ← Durable.query (scanStaging preserved)
  names.forM (reconcileEntry host preserved)

theorem reconcileStaging_eq {β : Type} (f : Durable Staging AgentError β) :
    (do
      let _ ← reconcileStaging host preserved
      f) = (do
      sweep host preserved
      f) := by
  simp only [reconcileStaging, sweep, bind_assoc, pure_bind]

variable {host preserved} {s : Staging}

theorem sweep_of_scanned (host : ReleaseHost) (h : Scanned preserved s) :
    sweep host preserved s = s.keys.forM (reconcileEntry host preserved) s :=
  (Durable.Quiet.query (scanStaging_eq_ok.2 ⟨h, rfl⟩)).bind

/-- The staged trees at the names are protected and as they must be. -/
def Verified (host : ReleaseHost) (preserved : Protected) (s : Staging)
    (names : List StagingName) : Prop :=
  ∀ name ∈ names, ∃ t d expected, name = .staged t d ∧ preserved.lookup (t, d) = some expected ∧
    requireStagedDigest host t d expected s = .ok ()

/-- Verified trees are passed over. -/
theorem Verified.quiet {names : List StagingName} (h : Verified host preserved s names) :
    Durable.Quiet (names.forM (reconcileEntry host preserved)) s () := by
  induction names with
  | nil => exact Durable.Quiet.pure () s
  | cons name names ih =>
      obtain ⟨t, d, expected, rfl, hlookup, hdigest⟩ := h name List.mem_cons_self
      have hfirst : Durable.Quiet (reconcileEntry host preserved (.staged t d)) s () := by
        simp only [reconcileEntry, hlookup]
        exact Durable.Quiet.query hdigest
      show ((reconcileEntry host preserved (.staged t d)) >>= fun _ =>
        names.forM (reconcileEntry host preserved)) s = _
      rw [hfirst.bind]
      exact ih fun other hother => h other (List.mem_cons_of_mem _ hother)

theorem Verified.forM_append {names rest : List StagingName}
    (h : Verified host preserved s names) :
    (names ++ rest).forM (reconcileEntry host preserved) s =
      rest.forM (reconcileEntry host preserved) s := by
  have happend : (names ++ rest).forM (reconcileEntry host preserved) =
      (names.forM (reconcileEntry host preserved) >>= fun _ =>
        rest.forM (reconcileEntry host preserved)) := List.forM_append
  exact (congrFun happend s).trans h.quiet.bind

/-- Trees stay verified where their entries stay. -/
theorem Verified.congr {names : List StagingName} {u : Staging}
    (h : Verified host preserved s names)
    (hfind : ∀ name ∈ names, u.find? name = s.find? name) : Verified host preserved u names := by
  intro name hname
  obtain ⟨t, d, expected, rfl, hlookup, hdigest⟩ := h name hname
  refine ⟨t, d, expected, rfl, hlookup, ?_⟩
  simpa only [requireStagedDigest, measureStaging, hfind _ hname] using hdigest

variable (host) in
/-- The removal of a discarded tree leaves the other names as they are. -/
theorem removeStagingTree_frame (t d : Uuid7) (s : Staging) {u : Staging}
    (h : u ∈ (removeStagingTree host t d s).trace ∨ u = (removeStagingTree host t d s).state)
    (name : StagingName) (hname : name ≠ .discarded t d) : u.find? name = s.find? name :=
  (removeTree_frame s).1 u h name hname

/-! ## The first change of a sweep -/

/-- What the first change of a sweep does to the staged names. -/
def StagedKept (preserved : Protected) (s u : Staging) : Prop :=
  ∀ t d, u.find? (.staged t d) = s.find? (.staged t d) ∨
    preserved.lookup (t, d) = none ∧ u.find? (.staged t d) = none

theorem Canonical.kept {u : Staging} (h : Canonical preserved s) (hkept : StagedKept preserved s u) :
    Canonical preserved u := by
  rintro ⟨⟨t, d⟩, expected⟩ hentry
  rcases hkept t d with hsame | ⟨hlookup, -⟩
  · rw [hsame]
    exact h _ hentry
  · -- a protected name is found by the lookup
    have hsome : (preserved.lookup (t, d)).isSome = true :=
      List.lookup_isSome_iff.2 ⟨((t, d), expected), hentry, beq_self_eq_true _⟩
    rw [hlookup] at hsome
    cases hsome

/-- The listing stays good where names only vanish or stay. -/
theorem Scanned.of_subset {u : Staging} (h : Scanned preserved s) (hcanonical : Canonical preserved u)
    (hkeys : ∀ name ∈ u.keys, name ∈ s.keys) (hlength : u.keys.length ≤ s.keys.length) :
    Scanned preserved u where
  bound := hlength.trans h.bound
  recognized := fun name hname => h.recognized name (hkeys name hname)
  oneIdentity := fun t d hd hs => h.oneIdentity t d (hkeys _ hd) (hkeys _ hs)
  preserved := fun entry hentry => Or.inl (Directory.mem_keys.2 (hcanonical entry hentry))

/-- Removing a part of a discarded tree keeps the staged names. -/
theorem stagedKept_shrunk (preserved : Protected) {t d : Uuid7} {u : Staging} (h : Shrunk (.discarded t d) s u) :
    StagedKept preserved s u :=
  fun _ _ => Or.inl (h.find?_of_ne (by simp))

/-- What is left after the first change of a discarded tree's removal goes on as the sweep does. -/
theorem sweep_discarded {t d : Uuid7} {rest : List StagingName} {u : Staging}
    (hscanned : Scanned preserved s) (hcanonical : Canonical preserved s)
    (hkeys : s.keys = .discarded t d :: rest) (hshrunk : Shrunk (.discarded t d) s u) :
    sweep host preserved u = (do
      removeStagingTree host t d
      rest.forM (reconcileEntry host preserved)) u := by
  have hcanonical' := hcanonical.kept (stagedKept_shrunk preserved hshrunk)
  cases hshrunk with
  | erased =>
      -- the tree is gone; its removal has nothing to do and the listing starts behind it
      have hkeys' : (s.erase (.discarded t d)).keys = rest := by
        have hsorted := s.keys_sorted
        rw [hkeys, List.pairwise_cons] at hsorted
        refine Directory.keys_eq hsorted.2 fun name => ?_
        rw [← Directory.mem_keys, Directory.mem_keys_erase, hkeys, List.mem_cons]
        constructor
        · exact fun hname => ⟨(hsorted.1 name hname).ne', Or.inr hname⟩
        · exact fun ⟨hne, hname⟩ => hname.resolve_left hne
      have hscanned' : Scanned preserved (s.erase (.discarded t d)) := by
        refine hscanned.of_subset hcanonical' ?_ ?_
        · exact fun name hname => (Directory.mem_keys_erase.1 hname).2
        · rw [hkeys', hkeys]
          exact Nat.le_succ _
      rw [sweep_of_scanned host hscanned', hkeys']
      have habsent : Durable.Quiet (removeStagingTree host t d) (s.erase (.discarded t d)) () :=
        removeTree_absent (Directory.find?_erase_self _ _)
      exact (habsent.bind (f := fun _ => rest.forM (reconcileEntry host preserved))).symm
  | emptied inode content content' old =>
      have hkeys' : (s.insert (.discarded t d) (.directory inode content')).keys = s.keys := by
        refine Directory.keys_eq s.keys_sorted fun name => ?_
        rw [← Directory.mem_keys, Directory.mem_keys_insert]
        refine ⟨Or.inr, fun h => h.elim ?_ id⟩
        rintro rfl
        exact Directory.mem_keys.2 (by rw [old]; rfl)
      have hscanned' : Scanned preserved (s.insert (.discarded t d) (.directory inode content')) :=
        hscanned.of_subset hcanonical' (fun name hname => hkeys' ▸ hname) (by rw [hkeys'])
      rw [sweep_of_scanned host hscanned', hkeys', hkeys]
      rfl

/-- The listing after a staged tree has been renamed: its discarded name is in front. -/
theorem renamed_keys {t d : Uuid7} (pre rest : List StagingName)
    (hkeys : s.keys = pre ++ .staged t d :: rest)
    (hstaged : ∀ name ∈ s.keys, ∃ t' d', name = .staged t' d') :
    (renameEntry (.staged t d) (.discarded t d) s).keys = .discarded t d :: (pre ++ rest) := by
  have hsorted := s.keys_sorted
  rw [hkeys, List.pairwise_append, List.pairwise_cons] at hsorted
  obtain ⟨hpre, ⟨hfirst, hrest⟩, hacross⟩ := hsorted
  have hmem : ∀ name ∈ pre ++ rest, name ∈ s.keys := by
    intro name hname
    rw [hkeys]
    rcases List.mem_append.1 hname with hname | hname
    · exact List.mem_append_left _ hname
    · exact List.mem_append_right _ (List.mem_cons_of_mem _ hname)
  have hfound : (s.find? (.staged t d)).isSome = true := by
    rw [← Directory.mem_keys, hkeys]
    exact List.mem_append_right _ List.mem_cons_self
  obtain ⟨value, hvalue⟩ := Option.isSome_iff_exists.1 hfound
  refine Directory.keys_eq ?_ fun name => ?_
  · refine List.pairwise_cons.2 ⟨fun name hname => ?_, ?_⟩
    · obtain ⟨t', d', rfl⟩ := hstaged name (hmem name hname)
      exact StagingName.discarded_lt_staged _ _ _ _
    · exact List.pairwise_append.2 ⟨hpre, hrest, fun a ha b hb =>
        hacross a ha b (List.mem_cons_of_mem _ hb)⟩
  · rw [← Directory.mem_keys, renameEntry_of_find? hvalue, Directory.mem_keys_insert,
      Directory.mem_keys_erase, List.mem_cons]
    refine or_congr_right ?_
    constructor
    · intro hname
      refine ⟨?_, hmem name hname⟩
      rintro rfl
      rcases List.mem_append.1 hname with hname | hname
      · exact absurd (hacross _ hname _ List.mem_cons_self) (lt_irrefl _)
      · exact absurd (hfirst _ hname) (lt_irrefl _)
    · rintro ⟨hne, hname⟩
      rw [hkeys] at hname
      rcases List.mem_append.1 hname with hname | hname
      · exact List.mem_append_left _ hname
      · exact List.mem_append_right _ ((List.mem_cons.1 hname).resolve_left hne)

/-- Renaming an unprotected tree keeps the other staged names. -/
theorem stagedKept_renamed {t d : Uuid7} (hlookup : preserved.lookup (t, d) = none) :
    StagedKept preserved s (renameEntry (.staged t d) (.discarded t d) s) := by
  intro t' d'
  by_cases hsame : StagingName.staged t' d' = .staged t d
  · obtain ⟨rfl, rfl⟩ : t' = t ∧ d' = d := by simpa using hsame
    exact Or.inr ⟨hlookup, renameEntry_find?_source (by simp)⟩
  · exact Or.inl (renameEntry_find?_of_ne hsame (by simp))

/-- The rename of a staged tree without a discarded one restarts its removal. -/
theorem removeDiscardTransition_renames (host : ReleaseHost) {t d : Uuid7}
    (hstaged : (s.find? (.staged t d)).isSome = true)
    (hdiscarded : s.find? (.discarded t d) = none) :
    removeDiscardTransition host t d s =
      (removeStagingTree host t d (renameEntry (.staged t d) (.discarded t d) s)).after
        (renameEntry (.staged t d) (.discarded t d) s) := by
  have hone : requireOneIdentity t d s = .ok (true, false) := by
    simp only [requireOneIdentity, hstaged, hdiscarded]
    rfl
  exact (Durable.Quiet.query hone).bind.trans Durable.effect_after

/-- The sweep of a staging root without discarded trees. -/
theorem sweep_staged (hscanned : Scanned preserved s) (hcanonical : Canonical preserved s)
    (hstaged : ∀ name ∈ s.keys, ∃ t d, name = .staged t d) :
    ∀ (rest pre : List StagingName), s.keys = pre ++ rest → Verified host preserved s pre →
      (∃ e, rest.forM (reconcileEntry host preserved) s = ⟨[], s, .error e⟩) ∨
      Verified host preserved s rest ∨
      ∃ u, StagedKept preserved s u ∧
        rest.forM (reconcileEntry host preserved) s = (sweep host preserved u).after u := by
  intro rest
  induction rest with
  | nil => exact fun _ _ _ => Or.inr (Or.inl fun _ h => (nomatch h))
  | cons name rest ih =>
      intro pre hkeys hpre
      obtain ⟨t, d, rfl⟩ := hstaged name (by rw [hkeys]; simp)
      cases hlookup : preserved.lookup (t, d) with
      | some expected =>
          have hentry : reconcileEntry host preserved (.staged t d) =
              Durable.query (requireStagedDigest host t d expected) := by
            simp only [reconcileEntry, hlookup]
          cases hdigest : requireStagedDigest host t d expected s with
          | error e =>
              left
              refine ⟨e, Durable.bind_error ?_⟩
              rw [hentry, Durable.query_run, hdigest]
          | ok u =>
              have hone : Verified host preserved s [.staged t d] := by
                intro name hname
                rw [List.mem_singleton.1 hname]
                exact ⟨t, d, expected, rfl, hlookup, hdigest⟩
              have hpre' : Verified host preserved s (pre ++ [.staged t d]) := fun name hname =>
                (List.mem_append.1 hname).elim (hpre name) (hone name)
              have hskip : (StagingName.staged t d :: rest).forM (reconcileEntry host preserved) s =
                  rest.forM (reconcileEntry host preserved) s := hone.forM_append
              rw [hskip]
              rcases ih (pre ++ [.staged t d]) (by rw [hkeys, List.append_assoc]; rfl) hpre' with
                herror | hverified | hchange
              · exact Or.inl herror
              · refine Or.inr (Or.inl fun name hname => ?_)
                rcases List.mem_cons.1 hname with rfl | hname
                · exact hone _ (List.mem_singleton_self _)
                · exact hverified name hname
              · exact Or.inr (Or.inr hchange)
      | none =>
          -- the unprotected tree is renamed; its discarded name heads the next listing
          right; right
          refine ⟨renameEntry (.staged t d) (.discarded t d) s, stagedKept_renamed hlookup, ?_⟩
          have hpresent : (s.find? (.staged t d)).isSome = true := by
            rw [← Directory.mem_keys, hkeys]
            simp
          have hfree : s.find? (.discarded t d) = none := by
            rw [← Directory.not_mem_keys]
            intro hmem
            obtain ⟨t', d', h⟩ := hstaged _ hmem
            cases h
          have hkeys' := renamed_keys _ _ hkeys hstaged
          have hcanonical' := hcanonical.kept (stagedKept_renamed (s := s) hlookup)
          have hscanned' : Scanned preserved (renameEntry (.staged t d) (.discarded t d) s) := by
            refine ⟨?_, ?_, ?_, fun entry hentry => Or.inl (Directory.mem_keys.2 (hcanonical' entry
              hentry))⟩
            · have hbound := hscanned.bound
              rw [hkeys] at hbound
              rw [hkeys']
              simpa [Nat.add_assoc] using hbound
            · intro name hname raw
              rw [hkeys', List.mem_cons, List.mem_append] at hname
              rcases hname with rfl | hname
              · simp
              · refine hscanned.recognized name ?_ raw
                rw [hkeys]
                simp only [List.mem_append, List.mem_cons]
                tauto
            · intro t' d' hdiscarded hstill
              rw [hkeys', List.mem_cons] at hdiscarded hstill
              rcases hdiscarded with h | hdiscarded
              · obtain ⟨rfl, rfl⟩ : t' = t ∧ d' = d := by simpa using h
                have hgone : (renameEntry (.staged t' d') (.discarded t' d') s).find?
                    (.staged t' d') = none := renameEntry_find?_source (by simp)
                refine Directory.not_mem_keys.2 hgone ?_
                rw [hkeys']
                exact List.mem_cons.2 hstill
              · obtain ⟨t'', d'', h⟩ := hstaged (.discarded t' d') (by
                  rw [hkeys]
                  simp only [List.mem_append, List.mem_cons] at hdiscarded ⊢
                  tauto)
                cases h
          rw [sweep_of_scanned host hscanned', hkeys']
          have hentry : reconcileEntry host preserved (.staged t d) =
              removeDiscardTransition host t d := by
            simp only [reconcileEntry, hlookup]
          have hrun := removeDiscardTransition_renames host hpresent hfree
          rw [← hentry] at hrun
          refine (Durable.bind_after hrun).trans (congrArg _ ?_)
          refine Durable.bind_congr_at fun _ _ => ?_
          -- what stood in front of the tree is verified still
          have hframe : ∀ other ∈ pre,
              (removeStagingTree host t d
                (renameEntry (.staged t d) (.discarded t d) s)).state.find? other =
                s.find? other := by
            intro other hother
            obtain ⟨t', d', rfl⟩ := hstaged other (by rw [hkeys]; exact List.mem_append_left _ hother)
            refine (removeStagingTree_frame host t d _ (Or.inr rfl) _ (by simp)).trans ?_
            refine renameEntry_find?_of_ne ?_ (by simp)
            rintro h
            have hsorted := s.keys_sorted
            rw [hkeys, List.pairwise_append] at hsorted
            exact absurd (hsorted.2.2 _ hother _ List.mem_cons_self) (by rw [h]; exact lt_irrefl _)
          exact ((hpre.congr hframe).forM_append).symm

theorem sweep_without_discarded (hscanned : Scanned preserved s)
    (hcanonical : Canonical preserved s) (hstaged : ∀ name ∈ s.keys, ∃ t d, name = .staged t d) :
    (∃ e, sweep host preserved s = ⟨[], s, .error e⟩) ∨
      (Durable.Quiet (sweep host preserved) s () ∧ Verified host preserved s s.keys) ∨
      ∃ u, StagedKept preserved s u ∧
        sweep host preserved s = (sweep host preserved u).after u := by
  have hrun := sweep_of_scanned host hscanned
  rcases sweep_staged hscanned hcanonical hstaged s.keys [] rfl fun _ h => (nomatch h) with
    ⟨e, herror⟩ | hverified | ⟨u, hkept, hafter⟩
  · exact Or.inl ⟨e, hrun.trans herror⟩
  · exact Or.inr (Or.inl ⟨hrun.trans hverified.quiet, hverified⟩)
  · exact Or.inr (Or.inr ⟨u, hkept, hrun.trans hafter⟩)

/-- A sweep stops without a change, or finds only verified trees, or restarts from its first
change. -/
theorem sweep_restarts (host : ReleaseHost) (hcanonical : Canonical preserved s) :
    (∃ e, sweep host preserved s = ⟨[], s, .error e⟩) ∨
      (Durable.Quiet (sweep host preserved) s () ∧ Verified host preserved s s.keys) ∨
      ∃ u, StagedKept preserved s u ∧
        sweep host preserved s = (sweep host preserved u).after u := by
  cases hscan : scanStaging preserved s with
  | error e => exact Or.inl ⟨e, Durable.query_bind_error hscan⟩
  | ok names =>
      obtain ⟨hscanned, -⟩ := scanStaging_eq_ok.1 hscan
      -- discarded names stand in front, so the first name decides
      cases hkeys : s.keys with
      | nil =>
          rw [← hkeys]
          refine sweep_without_discarded hscanned hcanonical fun name hname => ?_
          rw [hkeys] at hname
          cases hname
      | cons first rest =>
          cases first with
          | other raw =>
              exact absurd rfl (hscanned.recognized (.other raw) (by rw [hkeys]; simp) raw)
          | staged t d =>
              rw [← hkeys]
              refine sweep_without_discarded hscanned hcanonical fun name hname => ?_
              cases name with
              | other raw => exact absurd rfl (hscanned.recognized _ hname raw)
              | staged t' d' => exact ⟨t', d', rfl⟩
              | discarded t' d' =>
                  have hsorted := s.keys_sorted
                  rw [hkeys, List.pairwise_cons] at hsorted
                  rw [hkeys] at hname
                  have hlt := hsorted.1 _ ((List.mem_cons.1 hname).resolve_left (by simp))
                  exact absurd hlt (lt_asymm (StagingName.discarded_lt_staged _ _ _ _))
          | discarded t d =>
              have hrun : sweep host preserved s = (do
                  removeStagingTree host t d
                  rest.forM (reconcileEntry host preserved)) s := by
                rw [sweep_of_scanned host hscanned, hkeys]
                rfl
              rw [hrun]
              have hrestarts : (∃ e, removeStagingTree host t d s = ⟨[], s, .error e⟩) ∨
                  (s.find? (.discarded t d) = none ∧
                    Durable.Quiet (removeStagingTree host t d) s ()) ∨
                  ∃ u, Shrunk (.discarded t d) s u ∧
                    removeStagingTree host t d s = (removeStagingTree host t d u).after u :=
                removeTree_restarts
              rcases hrestarts with ⟨e, herror⟩ | ⟨habsent, -⟩ | ⟨u, hshrunk, hafter⟩
              · exact Or.inl ⟨e, Durable.bind_error herror⟩
              · have hpresent : StagingName.discarded t d ∈ s.keys := by simp [hkeys]
                rw [Directory.mem_keys, habsent] at hpresent
                cases hpresent
              · refine Or.inr (Or.inr ⟨u, stagedKept_shrunk preserved hshrunk, ?_⟩)
                rw [sweep_discarded hscanned hcanonical hkeys hshrunk]
                exact Durable.bind_after hafter

end Sweep

end StaticHostAgent.Releases
