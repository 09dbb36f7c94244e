import StaticHostAgent.Maintenance.Snapshots

/-!
# The ordinary retention

Restic proposes which scheduled snapshots to keep and to remove, group by group. The selection is
checked before it is believed: it must classify every scheduled snapshot exactly once, with the
host, the paths and the tags that the listing has, and keep at least one of every group.
`ordinaryRetentionIds_chosen` says that what remains is enough for every group.
-/

set_option autoImplicit false

namespace StaticHostAgent.Maintenance

open Library Contracts Host

def retentionError (message : String) : AgentError := .backupIdentity message

def textOf : Json → Except AgentError String
  | .string text => pure text
  | _ => throw (retentionError "ordinary retention has malformed source or tag metadata")

/-- A bounded list of different texts, sorted. -/
def stringInventory (value : Json) : Except AgentError (List String) :=
  match value with
  | .array elements => do
      require (decide (elements.length ≤ 64))
        (retentionError "ordinary retention has malformed source or tag metadata")
      let texts ← elements.mapM textOf
      require (decide texts.Nodup)
        (retentionError "ordinary retention has malformed source or tag metadata")
      pure (sortedTexts texts)
  | _ => throw (retentionError "ordinary retention has malformed source or tag metadata")

/-- A member that may be missing. -/
def memberOf (members : List (String × Json)) (name : String) : Json :=
  (members.lookup name).getD .null

def isString (value : Json) (text : String) : Bool :=
  match value with
  | .string found => decide (found = text)
  | _ => false

def fullSnapshotId (value : Json) : Except AgentError String :=
  match value with
  | .string text => do
      require (isSha256 text) (retentionError "audit archive requires a full SHA-256 identity")
      pure text
  | _ => throw (retentionError "audit archive requires a full SHA-256 identity")

section Groups

variable (hostname : String) (eligible : List RepositorySnapshot)

/-- One more record of a group: its snapshot is eligible, new, and described as in the listing. -/
def retentionRecord (paths : List String) (result : List RepositorySnapshot) (record : Json) :
    Except AgentError (List RepositorySnapshot) :=
  match record with
  | .object members => do
      let snapshotId ← fullSnapshotId (memberOf members "id")
      match eligible.find? fun s => decide (s.snapshotId = snapshotId) with
      | none => throw (retentionError "ordinary retention selected unknown or repeated authority")
      | some snapshot => do
          require (decide (snapshotId ∉ snapshotIdsOf result))
            (retentionError "ordinary retention selected unknown or repeated authority")
          let recordPaths ← stringInventory (memberOf members "paths")
          let recordTags ← stringInventory (memberOf members "tags")
          require (decide (sortedTexts snapshot.paths = paths) && decide (recordPaths = paths) &&
              isString (memberOf members "hostname") snapshot.hostname &&
              decide (recordTags = sortedTexts snapshot.tags))
            (retentionError "ordinary retention changed a snapshot's source or tag binding")
          pure (result ++ [snapshot])
  | _ => throw (retentionError "ordinary retention snapshot is malformed")

/-- Restic encodes an empty Go slice as null. -/
def retentionRecords (records : Json) (paths : List String) :
    Except AgentError (List RepositorySnapshot) :=
  match records with
  | .null => pure []
  | .array elements => do
      require (decide (elements.length ≤ maxSnapshots))
        (retentionError "ordinary retention output exceeds its snapshot bound")
      elements.foldlM (retentionRecord eligible paths) []
  | _ => throw (retentionError "ordinary retention output exceeds its snapshot bound")

def hasExactly (names : List String) (members : List (String × Json)) : Bool :=
  (members.map Prod.fst).all (fun name => decide (name ∈ names)) &&
    names.all (fun name => decide (name ∈ members.map Prod.fst))

def isEmptyList : Json → Bool
  | .null => true
  | .array [] => true
  | _ => false

/-- What a group keeps and what it removes. -/
def retentionGroup (group : Json) :
    Except AgentError (List RepositorySnapshot × List RepositorySnapshot) :=
  match group with
  | .object members => do
      require (isString (memberOf members "host") hostname &&
          hasExactly ["tags", "host", "paths", "keep", "remove", "reasons"] members &&
          isEmptyList (memberOf members "tags"))
        (retentionError "ordinary retention group has invalid node or grouping metadata")
      let paths ← stringInventory (memberOf members "paths")
      let kept ← retentionRecords eligible (memberOf members "keep") paths
      let removed ← retentionRecords eligible (memberOf members "remove") paths
      require (decide (paths ≠ []) && decide (kept ≠ []) &&
          decide (∀ s ∈ kept, s.snapshotId ∉ snapshotIdsOf removed))
        (retentionError "ordinary retention group lacks disjoint retained authority")
      pure (kept, removed)
  | _ => throw (retentionError
      "ordinary retention group has invalid node or grouping metadata")

/-- The snapshots that the groups so far classified and removed. -/
structure Classified where
  seen : List RepositorySnapshot
  removals : List RepositorySnapshot

/-- One more group: it repeats no snapshot of the groups before it. -/
def classifyGroup (c : Classified) (group : Json) : Except AgentError Classified := do
  let (kept, removed) ← retentionGroup hostname eligible group
  require (decide (∀ s ∈ kept ++ removed, s.snapshotId ∉ snapshotIdsOf c.seen))
    (retentionError "ordinary retention repeats a snapshot across groups")
  pure ⟨c.seen ++ kept ++ removed, c.removals ++ removed⟩

end Groups

def protectedTags : List String := [archiveTag, lineageTag]

/-- Ask the fixed Restic policy, then classify every retained and removed identity; `raw` is what
the dry run printed. -/
def ordinaryRetentionIds (loads : Bytes → Option Json) (identity : RepositoryIdentity)
    (snapshots : List RepositorySnapshot) (protectedIds : List String)
    (dryRun : Except AgentError Bytes) : Except AgentError (List String) := do
  let eligible := snapshots.filter (isScheduled identity.nodeName)
  require (eligible.all fun s => decide (s.snapshotId ∉ protectedIds) &&
      protectedTags.all fun tag => decide (tag ∉ s.tags))
    (retentionError "ordinary retention inventory contains protected evidence")
  require (eligible.all fun s => decide (s.paths ≠ []))
    (retentionError "ordinary retention inventory lacks source-path bindings")
  let raw ← dryRun
  if raw = [] then do
    require (decide (eligible = []))
      (retentionError "ordinary retention omitted its snapshot inventory")
    pure []
  else
    match loads (ascii "\x7b\"groups\":" ++ raw ++ ascii "\x7d") with
    | some (.object [("groups", .array groups)]) => do
        require (decide (groups.length ≤ maxSnapshots))
          (retentionError "ordinary retention output exceeds its group boundary")
        let c ← groups.foldlM (classifyGroup identity.nodeName eligible) ⟨[], []⟩
        require (eligible.all fun s => decide (s.snapshotId ∈ snapshotIdsOf c.seen))
          (retentionError "ordinary retention did not classify every scheduled snapshot")
        pure (sortedTexts (snapshotIdsOf c.removals))
    | _ => throw (retentionError "ordinary retention output exceeds its group boundary")

/-! ## What a selection leaves -/

/-- Snapshots that Restic retains together. -/
structure SameGroup (s kept : RepositorySnapshot) : Prop where
  hostname : kept.hostname = s.hostname
  paths : sortedTexts kept.paths = sortedTexts s.paths

/-- Without the snapshots `ids`, every group of the listing that loses one still has one. -/
def LeavesGroups (ids : List String) (listing : List RepositorySnapshot) : Prop :=
  ∀ s ∈ listing, s.snapshotId ∈ ids →
    ∃ kept ∈ listing, SameGroup s kept ∧ "scheduled" ∈ kept.tags ∧ kept.snapshotId ∉ ids

section Leaves

variable {hostname : String} {eligible : List RepositorySnapshot} {paths : List String}

theorem mem_sortedTexts {texts : List String} {text : String} :
    text ∈ sortedTexts texts ↔ text ∈ texts := (List.perm_insertionSort _ texts).mem_iff

theorem isScheduled_iff {nodeName : String} {s : RepositorySnapshot} :
    isScheduled nodeName s = true ↔ s.hostname = nodeName ∧ "scheduled" ∈ s.tags := by
  simp [isScheduled]

theorem retentionRecord_adds {result found : List RepositorySnapshot} {record : Json}
    (h : retentionRecord eligible paths result record = .ok found) :
    ∃ s ∈ eligible, sortedTexts s.paths = paths ∧ found = result ++ [s] := by
  unfold retentionRecord at h
  split at h
  · obtain ⟨snapshotId, -, h⟩ := bind_eq_ok.1 h
    split at h
    · cases h
    · rename_i snapshot hfind
      simp only [bind_eq_ok, pure_eq_ok, require_eq_ok, Bool.and_eq_true, decide_eq_true_eq] at h
      obtain ⟨-, -, -, -, -, -, -, ⟨⟨⟨hpaths, -⟩, -⟩, -⟩, rfl⟩ := h
      exact ⟨snapshot, List.mem_of_find?_eq_some hfind, hpaths, rfl⟩
  · cases h

/-- A fold of records keeps to eligible snapshots of the group's paths. -/
theorem foldlM_retentionRecord {records : List Json} :
    ∀ {result found : List RepositorySnapshot},
      records.foldlM (retentionRecord eligible paths) result = .ok found →
        (∀ s ∈ result, s ∈ eligible ∧ sortedTexts s.paths = paths) →
          ∀ s ∈ found, s ∈ eligible ∧ sortedTexts s.paths = paths := by
  induction records with
  | nil =>
      intro result found h hresult
      obtain rfl : result = found := pure_eq_ok.1 h
      exact hresult
  | cons record records ih =>
      intro result found h hresult
      rw [List.foldlM_cons] at h
      obtain ⟨next, hnext, h⟩ := bind_eq_ok.1 h
      obtain ⟨snapshot, hmem, hpaths, rfl⟩ := retentionRecord_adds hnext
      refine ih h fun s hs => ?_
      rcases List.mem_append.1 hs with hs | hs
      · exact hresult s hs
      · rw [List.mem_singleton.1 hs]
        exact ⟨hmem, hpaths⟩

theorem retentionRecords_mem {records : Json} {found : List RepositorySnapshot}
    (h : retentionRecords eligible records paths = .ok found) :
    ∀ s ∈ found, s ∈ eligible ∧ sortedTexts s.paths = paths := by
  unfold retentionRecords at h
  split at h
  · obtain rfl : [] = found := pure_eq_ok.1 h
    exact fun s hs => (nomatch hs)
  · obtain ⟨_, -, h⟩ := bind_eq_ok.1 h
    exact foldlM_retentionRecord h fun s hs => (nomatch hs)
  · cases h

/-- A group that was accepted keeps a snapshot that it does not remove. -/
structure SoundGroup (eligible kept removed : List RepositorySnapshot) : Prop where
  nonempty : kept ≠ []
  disjoint : ∀ s ∈ kept, s.snapshotId ∉ snapshotIdsOf removed
  paths : ∃ paths, ∀ s ∈ kept ++ removed, s ∈ eligible ∧ sortedTexts s.paths = paths

theorem retentionGroup_sound {group : Json} {kept removed : List RepositorySnapshot}
    (h : retentionGroup hostname eligible group = .ok (kept, removed)) :
    SoundGroup eligible kept removed := by
  unfold retentionGroup at h
  split at h
  · simp only [bind_eq_ok, pure_eq_ok, require_eq_ok, Bool.and_eq_true, decide_eq_true_eq,
      Prod.mk.injEq] at h
    obtain ⟨-, -, paths, -, kept', hkept, removed', hremoved, -, ⟨⟨-, hne⟩, hdisjoint⟩, rfl,
      rfl⟩ := h
    refine ⟨hne, hdisjoint, paths, fun s hs => ?_⟩
    rcases List.mem_append.1 hs with hs | hs
    · exact retentionRecords_mem hkept s hs
    · exact retentionRecords_mem hremoved s hs
  · cases h

/-- What the groups so far prove: every removal is outlived by a snapshot of its paths. -/
structure Classified.Sound (eligible : List RepositorySnapshot) (c : Classified) : Prop where
  seen : ∀ s ∈ c.seen, s ∈ eligible
  removals : ∀ s ∈ c.removals, s ∈ c.seen
  outlived : ∀ s ∈ c.removals, ∃ kept ∈ c.seen,
    sortedTexts kept.paths = sortedTexts s.paths ∧ kept.snapshotId ∉ snapshotIdsOf c.removals

theorem Classified.Sound.group {c d : Classified} {group : Json} (hc : c.Sound eligible)
    (h : classifyGroup hostname eligible c group = .ok d) : d.Sound eligible := by
  obtain ⟨⟨kept, removed⟩, hgroup, h⟩ := bind_eq_ok.1 h
  obtain ⟨_, hnew, h⟩ := bind_eq_ok.1 h
  obtain rfl : (⟨c.seen ++ kept ++ removed, c.removals ++ removed⟩ : Classified) = d :=
    pure_eq_ok.1 h
  rw [require_eq_ok, decide_eq_true_eq] at hnew
  obtain ⟨hne, hdisjoint, paths, hpaths⟩ := retentionGroup_sound hgroup
  -- a snapshot of the new group is none of those that were seen
  have hfresh : ∀ s ∈ kept ++ removed, ∀ t ∈ c.seen, t.snapshotId ≠ s.snapshotId :=
    fun s hs t ht heq => hnew s hs (heq ▸ List.mem_map_of_mem ht)
  refine ⟨fun s hs => ?_, fun s hs => ?_, fun s hs => ?_⟩
  · rw [List.append_assoc] at hs
    exact (List.mem_append.1 hs).elim (hc.seen s) fun hs => (hpaths s hs).1
  · rcases List.mem_append.1 hs with hs | hs
    · exact List.mem_append_left _ (List.mem_append_left _ (hc.removals s hs))
    · exact List.mem_append_right _ hs
  · rcases List.mem_append.1 hs with hs | hs
    · obtain ⟨k, hk, hsame, hkeep⟩ := hc.outlived s hs
      refine ⟨k, List.mem_append_left _ (List.mem_append_left _ hk), hsame, fun hmem => ?_⟩
      obtain ⟨r, hr, heq⟩ := List.mem_map.1 hmem
      rcases List.mem_append.1 hr with hr | hr
      · exact hkeep (heq ▸ List.mem_map_of_mem hr)
      · exact hfresh r (List.mem_append_right _ hr) k hk heq.symm
    · obtain ⟨k, hk⟩ := List.exists_mem_of_ne_nil kept hne
      refine ⟨k, List.mem_append_left _ (List.mem_append_right _ hk), ?_, fun hmem => ?_⟩
      · rw [(hpaths k (List.mem_append_left _ hk)).2, (hpaths s (List.mem_append_right _ hs)).2]
      · obtain ⟨r, hr, heq⟩ := List.mem_map.1 hmem
        rcases List.mem_append.1 hr with hr | hr
        · exact hfresh k (List.mem_append_left _ hk) r (hc.removals r hr) heq
        · exact hdisjoint k hk (heq ▸ List.mem_map_of_mem hr)

theorem Classified.Sound.groups {groups : List Json} :
    ∀ {c d : Classified}, c.Sound eligible →
      groups.foldlM (classifyGroup hostname eligible) c = .ok d → d.Sound eligible := by
  induction groups with
  | nil =>
      intro c d hc h
      obtain rfl : c = d := pure_eq_ok.1 h
      exact hc
  | cons group groups ih =>
      intro c d hc h
      rw [List.foldlM_cons] at h
      obtain ⟨next, hnext, h⟩ := bind_eq_ok.1 h
      exact ih (hc.group hnext) h

end Leaves

/-- A remove set that a listing allows: scheduled snapshots of it, and never the last of a group. -/
structure Chosen (ids : List String) (listing : List RepositorySnapshot) : Prop where
  listed : ∀ id ∈ ids, ∃ s ∈ listing, s.snapshotId = id ∧ "scheduled" ∈ s.tags
  leaves : LeavesGroups ids listing

/-- What the ordinary retention selects is allowed by the listing. -/
theorem ordinaryRetentionIds_chosen {loads : Bytes → Option Json} {identity : RepositoryIdentity}
    {snapshots : List RepositorySnapshot} {protectedIds ids : List String}
    {dryRun : Except AgentError Bytes} (hnodup : (snapshotIdsOf snapshots).Nodup)
    (h : ordinaryRetentionIds loads identity snapshots protectedIds dryRun = .ok ids) :
    Chosen ids snapshots := by
  unfold ordinaryRetentionIds at h
  obtain ⟨_, -, h⟩ := bind_eq_ok.1 h
  obtain ⟨_, -, h⟩ := bind_eq_ok.1 h
  obtain ⟨raw, -, h⟩ := bind_eq_ok.1 h
  split at h
  · obtain ⟨_, -, h⟩ := bind_eq_ok.1 h
    obtain rfl : [] = ids := pure_eq_ok.1 h
    exact ⟨fun id hid => (nomatch hid), fun s _ hs => (nomatch hs)⟩
  split at h
  · rename_i groups _
    obtain ⟨_, -, h⟩ := bind_eq_ok.1 h
    obtain ⟨c, hc, h⟩ := bind_eq_ok.1 h
    obtain ⟨_, -, h⟩ := bind_eq_ok.1 h
    obtain rfl : sortedTexts (snapshotIdsOf c.removals) = ids := pure_eq_ok.1 h
    have hsound : c.Sound (snapshots.filter (isScheduled identity.nodeName)) :=
      Classified.Sound.groups ⟨fun s hs => absurd hs List.not_mem_nil,
        fun s hs => absurd hs List.not_mem_nil, fun s hs => absurd hs List.not_mem_nil⟩ hc
    have hseen : ∀ s ∈ c.seen, s ∈ snapshots ∧ s.hostname = identity.nodeName ∧
        "scheduled" ∈ s.tags := by
      intro s hs
      obtain ⟨hmem, hscheduled⟩ := List.mem_filter.1 (hsound.seen s hs)
      exact ⟨hmem, isScheduled_iff.1 hscheduled⟩
    refine ⟨fun id hid => ?_, fun s hs hid => ?_⟩
    · obtain ⟨r, hr, rfl⟩ := List.mem_map.1 (mem_sortedTexts.1 hid)
      obtain ⟨hmem, -, hscheduled⟩ := hseen r (hsound.removals r hr)
      exact ⟨r, hmem, rfl, hscheduled⟩
    · obtain ⟨r, hr, heq⟩ := List.mem_map.1 (mem_sortedTexts.1 hid)
      obtain ⟨hmem, hhost, -⟩ := hseen r (hsound.removals r hr)
      -- identities are unique in the listing
      obtain rfl : r = s := List.inj_on_of_nodup_map hnodup hmem hs heq
      obtain ⟨kept, hkept, hpaths, hkeep⟩ := hsound.outlived r hr
      obtain ⟨hkeptMem, hkeptHost, hkeptScheduled⟩ := hseen kept hkept
      refine ⟨kept, hkeptMem, ⟨hkeptHost.trans hhost.symm, hpaths⟩, hkeptScheduled, ?_⟩
      exact fun hmem => hkeep (mem_sortedTexts.1 hmem)
  · cases h

end StaticHostAgent.Maintenance
