import StaticHostAgent.Library.Checks
import StaticHostAgent.Host.PublicationSteps

/-!
# Crashes of a publication

What a crash inside `create_immutable` or `replace` leaves behind (`LeftBehind`), that another
attempt after the removal of the abandoned temporaries ends like a call that nothing interrupted,
and which names that removal takes away.
-/

set_option autoImplicit false

namespace StaticHostAgent.Host

open Library Contracts

/-! ## One crash -/

/-- The volume `x` that a crash inside a publication leaves where a crash without the publication
would have left `u`: the names of `u`, or these with the temporary, or these with the destination
published. -/
inductive LeftBehind (placement : Placement) (process : Process)
    (temporaryName destination : String) (data : List UInt8) (mode : ℕ) (u x : Volume String) :
    Prop
  | unpublished {tail : List Inode} (hinodes : x.inodes = u.inodes ++ tail)
      (hcurrent : x.current = u.current)
  | leftover {node : Inode} (hnode : Leftover process mode node)
      (hinodes : x.inodes = u.inodes ++ [node])
      (hfresh : u.current.find? temporaryName = none)
      (hcurrent : x.current = u.current.insert temporaryName u.inodes.length)
  | published (hat : placement.atDestination u destination = none)
      (hinodes : x.inodes = u.inodes ++ [publishedInode process mode data])
      (hcurrent : x.current = u.current.insert destination u.inodes.length)

section OneCrash

variable {placement : Placement} {process : Process} {temporaryName destination : String}
  {data : List UInt8} {mode : ℕ} {u v w x : Volume String}

theorem erase_insert_of_fresh {d : Directory String ℕ} {name : String} (i : ℕ)
    (h : d.find? name = none) : (d.insert name i).erase name = d := by
  refine Directory.ext_find? fun name' => ?_
  by_cases hname : name' = name
  · rw [hname, Directory.find?_erase_self, h]
  · rw [Directory.find?_erase_of_ne _ hname, Directory.find?_insert_of_ne _ hname]

/-- The names of the volume once the temporary was moved into place. -/
theorem placed_names (hfresh : v.current.find? temporaryName = none) (node : Inode) :
    ((v.create temporaryName node).rename temporaryName destination).inodes =
        v.inodes ++ [node] ∧
      ((v.create temporaryName node).rename temporaryName destination).current =
        v.current.insert destination v.inodes.length ∧
      ((v.create temporaryName node).rename temporaryName destination).earlier =
        v.current.insert temporaryName v.inodes.length :: v.current :: v.earlier := by
  have hsource : (v.create temporaryName node).current.find? temporaryName =
      some v.inodes.length := Directory.find?_insert_self _ _ _
  obtain ⟨hinodes, hcurrent, hearlier⟩ := (@Volume.rename_eq _ _ _ _ destination) hsource
  refine ⟨hinodes, ?_, hearlier⟩
  rw [hcurrent, Volume.create_current, erase_insert_of_fresh _ hfresh]

/-- The directories that a publication adds to those a power loss may bring back. -/
inductive Proposed (placement : Placement) (process : Process) (temporaryName destination : String)
    (data : List UInt8) (mode : ℕ) (v : Volume String) (node : Inode) :
    Directory String ℕ → Prop
  | temporary : Proposed placement process temporaryName destination data mode v node
      (v.current.insert temporaryName v.inodes.length)
  | published (hat : placement.atDestination v destination = none)
      (hnode : node = publishedInode process mode data) :
      Proposed placement process temporaryName destination data mode v node
        (v.current.insert destination v.inodes.length)

/-- A volume in flight has one new inode and no other directories than proposed. -/
theorem Underway.names
    (h : Underway placement process temporaryName destination data mode v w) :
    ∃ node, Leftover process mode node ∧ w.inodes = v.inodes ++ [node] ∧
      (w.current = v.current ∨
        Proposed placement process temporaryName destination data mode v node w.current) ∧
      ∀ d ∈ w.current :: w.earlier, d ∈ v.current :: v.earlier ∨
        Proposed placement process temporaryName destination data mode v node d := by
  obtain ⟨-, hfresh, hne, hstage⟩ := h
  -- the stages of the call: filling, placed, placed on disk, and withdrawn, withdrawn on disk
  cases hstage with
  | @filling node hnode =>
      refine ⟨node, hnode, rfl, Or.inr Proposed.temporary, fun d hd => ?_⟩
      rcases List.mem_cons.1 hd with rfl | hd
      · exact Or.inr Proposed.temporary
      · exact Or.inl hd
  | placed hat =>
      obtain ⟨hinodes, hcurrent, hearlier⟩ :=
        (@placed_names _ destination) hfresh (publishedInode process mode data)
      refine ⟨_, leftover_published process mode data, hinodes, ?_, fun d hd => ?_⟩
      · rw [hcurrent]
        exact Or.inr (Proposed.published hat rfl)
      · rw [hcurrent, hearlier] at hd
        rcases List.mem_cons.1 hd with rfl | hd
        · exact Or.inr (Proposed.published hat rfl)
        · rcases List.mem_cons.1 hd with rfl | hd
          · exact Or.inr Proposed.temporary
          · exact Or.inl hd
  | writtenOut hat =>
      obtain ⟨hinodes, hcurrent, -⟩ :=
        (@placed_names _ destination) hfresh (publishedInode process mode data)
      refine ⟨_, leftover_published process mode data, hinodes, ?_, fun d hd => ?_⟩
      · rw [Volume.syncDirectory_current, hcurrent]
        exact Or.inr (Proposed.published hat rfl)
      · rw [Volume.syncDirectory_current, Volume.syncDirectory_earlier, hcurrent,
          List.mem_singleton] at hd
        rw [hd]
        exact Or.inr (Proposed.published hat rfl)
  | @removed node hnode =>
      have hcurrent : ((v.create temporaryName node).unlink temporaryName).current = v.current :=
        erase_insert_of_fresh _ hfresh
      refine ⟨node, hnode, rfl, Or.inl hcurrent, fun d hd => ?_⟩
      rw [hcurrent] at hd
      rcases List.mem_cons.1 hd with rfl | hd
      · exact Or.inl List.mem_cons_self
      · rcases List.mem_cons.1 hd with rfl | hd
        · exact Or.inr Proposed.temporary
        · exact Or.inl hd
  | @removalWrittenOut node hnode =>
      have hcurrent : ((v.create temporaryName node).unlink temporaryName).current = v.current :=
        erase_insert_of_fresh _ hfresh
      refine ⟨node, hnode, rfl, Or.inl hcurrent, fun d hd => ?_⟩
      rw [Volume.syncDirectory_current, Volume.syncDirectory_earlier, hcurrent,
        List.mem_singleton] at hd
      rw [hd]
      exact Or.inl List.mem_cons_self

/-- A power loss keeps what stands at the destination. -/
theorem atDestination_of_survives (hcurrent : u.current = v.current)
    (hinodes : List.Forall₂ Inode.Survives v.inodes u.inodes) :
    placement.atDestination u destination = placement.atDestination v destination := by
  unfold Placement.atDestination Volume.file?
  rw [hcurrent]
  cases v.current.find? destination with
  | none => rfl
  | some i =>
      have hkind : (u.inodes[i]?).map Inode.kind = (v.inodes[i]?).map Inode.kind := by
        generalize v.inodes = as at hinodes
        generalize u.inodes = bs at hinodes
        induction hinodes generalizing i with
        | nil => rfl
        | cons hab _ ih =>
            cases i with
            | zero => simp [hab.kind_eq]
            | succ i => simpa using ih i
      cases hu : u.inodes[i]? <;> cases hv : v.inodes[i]? <;> simp_all

theorem leftBehind_of_crash
    (h : Underway placement process temporaryName destination data mode v w)
    (hx : Volume.Crash w x) :
    ∃ u, Volume.Crash v u ∧
      LeftBehind placement process temporaryName destination data mode u x := by
  obtain ⟨node, hnode, hinodes, hnow, hearlier⟩ := h.names
  rcases hx with rfl | hx
  · refine ⟨v, Volume.Crash.refl v, ?_⟩
    rcases hnow with hsame | hproposed
    · exact LeftBehind.unpublished hinodes hsame
    · generalize hd : x.current = d at hproposed
      cases hproposed with
      | temporary => exact LeftBehind.leftover hnode hinodes h.fresh hd
      | published hat hpublished => exact LeftBehind.published hat (hpublished ▸ hinodes) hd
  · have hsplit := hx.inodes
    rw [hinodes] at hsplit
    obtain ⟨before, node', hall, hbefore, hnode'⟩ := Volume.survives_append hsplit
    have hlength : v.inodes.length = before.length := hbefore.length_eq
    rcases hearlier x.current hx.current with hd | hproposed
    · obtain ⟨u, hu, huinodes, hucurrent⟩ := Volume.exists_powerLoss v hd hbefore
      refine ⟨u, Or.inr hu, (@LeftBehind.unpublished _ _ _ _ _ _ _ _ [node']) ?_ hucurrent.symm⟩
      rw [hall, huinodes]
    · obtain ⟨u, hu, huinodes, hucurrent⟩ :=
        Volume.exists_powerLoss v (d := v.current) List.mem_cons_self hbefore
      refine ⟨u, Or.inr hu, ?_⟩
      generalize hd : x.current = d at hproposed
      cases hproposed with
      | temporary =>
          refine LeftBehind.leftover (hnode.survives hnode') ?_ ?_ ?_
          · rw [hall, huinodes]
          · rw [hucurrent, h.fresh]
          · rw [hd, hucurrent, huinodes, hlength]
      | published hat hpublished =>
          have hsame : node' = publishedInode process mode data := by
            rw [← hpublished]
            exact hnode'.eq_of_synced (by rw [hpublished]; rfl)
          refine LeftBehind.published ?_ ?_ ?_
          · rw [atDestination_of_survives hucurrent (by rw [huinodes]; exact hbefore), hat]
          · rw [hall, huinodes, hsame]
          · rw [hd, hucurrent, huinodes, hlength]

/-- Other names keep their files, the destination keeps its file or has the complete new one, and
the temporary is one that a publication can leave behind. -/
theorem LeftBehind.files (hne : temporaryName ≠ destination)
    (h : LeftBehind placement process temporaryName destination data mode u x) :
    (∀ name, name ≠ destination → name ≠ temporaryName → x.file? name = u.file? name) ∧
      (x.file? destination = u.file? destination ∨
        x.file? destination = some (publishedInode process mode data)) ∧
      (x.file? temporaryName = u.file? temporaryName ∨
        ∃ node, Leftover process mode node ∧ x.file? temporaryName = some node) := by
  cases h with
  | unpublished hinodes hcurrent =>
      have hall : ∀ name, x.file? name = u.file? name :=
        fun name => Volume.file?_of_extends hinodes (by rw [hcurrent])
      exact ⟨fun name _ _ => hall name, Or.inl (hall destination), Or.inl (hall temporaryName)⟩
  | @leftover node hnode hinodes hfresh hcurrent =>
      have hother : ∀ name, name ≠ temporaryName → x.file? name = u.file? name :=
        fun name hname => Volume.file?_of_extends hinodes
          (by rw [hcurrent, Directory.find?_insert_of_ne _ hname])
      refine ⟨fun name _ hname => hother name hname, Or.inl (hother destination (Ne.symm hne)),
        Or.inr ⟨node, hnode, Volume.file?_new hinodes ?_⟩⟩
      rw [hcurrent, Directory.find?_insert_self]
  | published hat hinodes hcurrent =>
      have hother : ∀ name, name ≠ destination → x.file? name = u.file? name :=
        fun name hname => Volume.file?_of_extends hinodes
          (by rw [hcurrent, Directory.find?_insert_of_ne _ hname])
      exact ⟨fun name hname _ => hother name hname,
        Or.inr (Volume.file?_new hinodes (by rw [hcurrent, Directory.find?_insert_self])),
        Or.inl (hother temporaryName hne)⟩

/-- The file of a name, once every name with the reserved prefix is gone. -/
def keptFile (v : Volume String) (name : String) : Option Inode :=
  if hasTemporaryPrefix name then none else v.file? name

/-- What a call that nothing interrupts makes of the files. -/
def settledFile (placement : Placement) (destination : String) (file : Inode)
    (files : String → Option Inode) (name : String) : Option Inode :=
  if name = destination then
    match files destination with
    | none => some file
    | some node => if (placement.obstructed node.kind).isSome then some node else some file
  else files name

/-- A crash does not change what another call arrives at. -/
theorem LeftBehind.settledFile_eq (hreserved : hasTemporaryPrefix temporaryName = true)
    (h : LeftBehind placement process temporaryName destination data mode u x) :
    settledFile placement destination (publishedInode process mode data) (keptFile x) =
      settledFile placement destination (publishedInode process mode data) (keptFile u) := by
  cases h with
  | unpublished hinodes hcurrent =>
      have hkept : keptFile x = keptFile u := funext fun name => by
        unfold keptFile
        rw [Volume.file?_of_extends hinodes (by rw [hcurrent])]
      rw [hkept]
  | leftover hnode hinodes hfresh hcurrent =>
      have hkept : keptFile x = keptFile u := funext fun name => by
        unfold keptFile
        by_cases hname : name = temporaryName
        · rw [hname, hreserved]
          rfl
        · rw [Volume.file?_of_extends hinodes
            (by rw [hcurrent, Directory.find?_insert_of_ne _ hname])]
      rw [hkept]
  | published hat hinodes hcurrent =>
      have hfile : x.file? destination = some (publishedInode process mode data) :=
        Volume.file?_new hinodes (by rw [hcurrent, Directory.find?_insert_self])
      funext name
      by_cases hname : name = destination
      · subst hname
        unfold settledFile keptFile
        rw [if_pos rfl, if_pos rfl, hfile]
        cases hinitial : hasTemporaryPrefix name with
        | true => rfl
        | false =>
            have hu : ∀ node, u.file? name = some node → placement.obstructed node.kind = none := by
              intro node hnode
              unfold Placement.atDestination at hat
              rwa [hnode] at hat
            cases hold : u.file? name with
            | none => simp
            | some node => simp [hu node hold]
      · unfold settledFile keptFile
        rw [if_neg hname, if_neg hname, Volume.file?_of_extends hinodes
          (by rw [hcurrent, Directory.find?_insert_of_ne _ hname])]

end OneCrash

/-! ## Calls that nothing interrupts -/

section Quiet

variable {placement : Placement} {process : Process} {answers : Answers}
  {temporaryName : String} {components : List String} {data : List UInt8} {mode : ℕ}
  {v : Volume String}

/-- A call that nothing interrupts, on a directory without reserved names. -/
theorem publish_quiet (hquiet : answers.Quiet)
    (hcomponents : validateComponents components = .ok ())
    (hname : validateTemporaryName temporaryName (components.getLastD "") = .ok ())
    (hclean : ∀ name, hasTemporaryPrefix name = true → v.current.find? name = none) :
    (∀ name, (publish placement process answers temporaryName components data mode v).state.file?
        name = settledFile placement (components.getLastD "") (publishedInode process mode data)
          v.file? name) ∧
      (publish placement process answers temporaryName components data mode v).state.earlier =
        [] := by
  have htriple := (@publish_triple placement process answers temporaryName data mode v) components
  obtain ⟨hreserved, hne⟩ := validateTemporaryName_eq_ok hname
  have hfresh := hclean temporaryName hreserved
  -- a quiet host leaves one reason to fail: what stands at the destination obstructs the placement
  cases hresult : (publish placement process answers temporaryName components data mode v).result with
  | ok u =>
      obtain ⟨hat, hstate⟩ := htriple.post u hresult
      rw [hstate]
      refine ⟨fun name => ?_, rfl⟩
      obtain ⟨hinodes, hcurrent, -⟩ := (@placed_names _ (components.getLastD "")) hfresh
        (publishedInode process mode data)
      rw [Volume.file?_syncDirectory]
      unfold settledFile
      by_cases hname : name = components.getLastD ""
      · rw [if_pos hname, Volume.file?_new hinodes
          (by rw [hcurrent, hname, Directory.find?_insert_self])]
        unfold Placement.atDestination at hat
        cases hold : v.file? (components.getLastD "") with
        | none => rfl
        | some node =>
            rw [hold] at hat
            change placement.obstructed node.kind = none at hat
            simp [hat]
      · rw [if_neg hname]
        exact Volume.file?_of_extends hinodes
          (by rw [hcurrent, Directory.find?_insert_of_ne _ hname])
  | error e =>
      obtain ⟨⟨e', hat⟩, hstate⟩ :=
        (htriple.failed e hresult).obstructed hquiet hcomponents hname hfresh
      rw [hstate]
      refine ⟨fun name => ?_, rfl⟩
      have hsame : ∀ name, ((v.create temporaryName (publishedInode process mode data)).unlink
          temporaryName).file? name = v.file? name := by
        refine fun name => Volume.file?_of_extends rfl ?_
        rw [Volume.unlink_current, Volume.create_current, erase_insert_of_fresh _ hfresh]
      rw [Volume.file?_syncDirectory, hsame]
      unfold settledFile
      by_cases hname : name = components.getLastD ""
      · rw [if_pos hname, hname]
        unfold Placement.atDestination at hat
        cases hold : v.file? (components.getLastD "") with
        | none => rw [hold] at hat; cases hat
        | some node =>
            rw [hold] at hat
            change placement.obstructed node.kind = some e' at hat
            simp [hat]
      · rw [if_neg hname]

/-- Components that fail their check stop the call before it changes anything. -/
theorem publish_invalid {e : DurableError} (h : validateComponents components = .error e) :
    publish placement process answers temporaryName components data mode v = ⟨[], v, .error e⟩ := by
  unfold publish
  exact Durable.query_bind_error h

end Quiet

/-! ## Removing abandoned temporaries -/

section Removal

variable {recovery : Recovery} {u v w x : Volume String} {names : List String}

/-- The recovery accepts exactly the directories within its bound in which every reserved name is
complete and leads to a safely shaped file; it lists all of them. -/
theorem publicationTemporaries_eq_ok : publicationTemporaries recovery v = .ok names ↔
    v.current.size ≤ recovery.maximumEntries ∧
      names = v.current.keys.filter hasTemporaryPrefix ∧
      ∀ name ∈ names, matchesTemporaryName name = true ∧ recovery.safeShape v name = true := by
  have hstep : ∀ name name', (if !matchesTemporaryName name then
      (.error (.statePath "reserved temporary name has an invalid shape") :
        Except DurableError String)
      else if !recovery.safeShape v name then
        .error (.statePath "reserved temporary has an unsafe inode shape")
      else .ok name) = .ok name' ↔
      name = name' ∧ matchesTemporaryName name = true ∧ recovery.safeShape v name = true := by
    intro name name'
    cases matchesTemporaryName name <;> cases recovery.safeShape v name <;> simp
  unfold publicationTemporaries
  by_cases hsize : recovery.maximumEntries < v.current.size
  · rw [if_pos hsize]
    refine ⟨fun h => (nomatch h), fun h => absurd h.1 (Nat.not_le.2 hsize)⟩
  · rw [if_neg hsize, mapM_check_eq_ok_iff hstep]
    constructor
    · rintro ⟨rfl, hall⟩
      exact ⟨Nat.not_lt.1 hsize, rfl, hall⟩
    · rintro ⟨-, rfl, hall⟩
      exact ⟨rfl, hall⟩

/-- A volume while the listed temporaries are removed from `v`. -/
structure Clearing (names : List String) (v w : Volume String) : Prop where
  inodes : w.inodes = v.inodes
  current : ∀ name, w.current.find? name = v.current.find? name ∨
    w.current.find? name = none ∧ name ∈ names
  earlier : ∀ d ∈ w.earlier, ∃ d' ∈ v.current :: v.earlier,
    ∀ name, name ∉ names → d.find? name = d'.find? name

theorem Clearing.refl (names : List String) (v : Volume String) : Clearing names v v :=
  ⟨rfl, fun _ => Or.inl rfl, fun d hd => ⟨d, List.mem_cons_of_mem _ hd, fun _ _ => rfl⟩⟩

theorem Clearing.unlink (h : Clearing names v w) {name : String} (hname : name ∈ names) :
    Clearing names v (w.unlink name) := by
  refine ⟨h.inodes, fun name' => ?_, fun d hd => ?_⟩
  · rw [Volume.unlink_current]
    by_cases hsame : name' = name
    · rw [hsame, Directory.find?_erase_self]
      exact Or.inr ⟨rfl, hname⟩
    · rw [Directory.find?_erase_of_ne _ hsame]
      exact h.current name'
  · rcases List.mem_cons.1 hd with rfl | hd
    · refine ⟨v.current, List.mem_cons_self, fun name' hname' => ?_⟩
      exact (h.current name').resolve_right fun hgone => hname' hgone.2
    · exact h.earlier d hd

theorem Clearing.syncDirectory (h : Clearing names v w) : Clearing names v w.syncDirectory :=
  ⟨h.inodes, h.current, fun _ hd => (nomatch hd)⟩

/-- The removal passes only through volumes that lack some of the listed temporaries, and ends with
none of them. -/
theorem removeAbandoned_triple (unlinked : String → Option ℕ) (synced : Option ℕ) :
    Durable.Triple v (removeAbandonedPublicationTemporaries recovery unlinked synced)
      (fun w => ∃ names, publicationTemporaries recovery v = .ok names ∧ Clearing names v w)
      (fun _ w => w.inodes = v.inodes ∧ ∀ name, w.current.find? name =
        if hasTemporaryPrefix name then none else v.current.find? name)
      (fun _ => ¬ ((∃ names, publicationTemporaries recovery v = .ok names) ∧
        (∀ name, unlinked name = none) ∧ synced = none)) := by
  refine Durable.Triple.bind (M := fun names w => w = v ∧
    publicationTemporaries recovery v = .ok names) ?_ ?_
  · refine Durable.Triple.query (fun names hnames => ⟨rfl, hnames⟩) ?_
    rintro e he ⟨⟨names, hnames⟩, -⟩
    rw [hnames] at he
    cases he
  rintro names w ⟨rfl, hnames⟩
  obtain ⟨-, hlisted, -⟩ := publicationTemporaries_eq_ok.1 hnames
  refine Durable.Triple.bind (M := fun _ v => Clearing names w v ∧
    ∀ name ∈ names, v.current.find? name = none) ?_ ?_
  · -- the names unlinked so far are gone, and nothing else has changed
    refine (Durable.Triple.forM (I := fun done v => Clearing names w v ∧
      ∀ name ∈ done, v.current.find? name = none) ⟨Clearing.refl names w, fun _ h => (nomatch h)⟩
      ?_)
    rintro done name rest hsplit v ⟨hclearing, hdone⟩
    have hmem : name ∈ names := hsplit ▸ List.mem_append_right _ List.mem_cons_self
    refine answered_triple ⟨names, hnames, hclearing.unlink hmem⟩ ⟨hclearing.unlink hmem, ?_⟩
      fun hanswer hquiet => hanswer (hquiet.2.1 name)
    intro name' hname'
    rw [Volume.unlink_current]
    by_cases hsame : name' = name
    · rw [hsame, Directory.find?_erase_self]
    · rw [Directory.find?_erase_of_ne _ hsame]
      rcases List.mem_append.1 hname' with hold | hnew
      · exact hdone name' hold
      · exact absurd (List.mem_singleton.1 hnew) hsame
  rintro _ v ⟨hclearing, hdone⟩
  refine Durable.Triple.bind (M := fun _ v => Clearing names w v ∧
    ∀ name ∈ names, v.current.find? name = none) ?_ ?_
  · refine Durable.Triple.when (fun _ => ?_) fun _ => ⟨hclearing, hdone⟩
    exact answered_triple ⟨names, hnames, hclearing.syncDirectory⟩
      ⟨hclearing.syncDirectory, hdone⟩ fun hanswer hquiet => hanswer hquiet.2.2
  rintro _ v ⟨hclearing, hdone⟩
  refine Durable.Triple.pure ⟨hclearing.inodes, fun name => ?_⟩
  -- the scan listed every name with the prefix, and only those
  cases hinitial : hasTemporaryPrefix name with
  | false =>
      refine (hclearing.current name).resolve_right fun hgone => ?_
      rw [hlisted, List.mem_filter, hinitial] at hgone
      exact absurd hgone.2.2 (by decide)
  | true =>
      cases hfound : w.current.find? name with
      | none =>
          rcases hclearing.current name with hsame | hgone
          · rw [hsame, hfound]
            rfl
          · exact hgone.1
      | some i =>
          refine hdone name ?_
          rw [hlisted, List.mem_filter, Directory.mem_keys, hfound]
          exact ⟨rfl, hinitial⟩

/-- A crash of the removal leaves every other name what a crash without it would have left. -/
theorem kept_of_crash (h : Clearing names v w)
    (hnames : ∀ name ∈ names, hasTemporaryPrefix name = true) (hx : Volume.Crash w x) :
    ∃ u, Volume.Crash v u ∧ keptFile x = keptFile u := by
  have hkept : ∀ {d d' : Directory String ℕ}, (∀ name, name ∉ names →
      d.find? name = d'.find? name) → ∀ name, hasTemporaryPrefix name = false →
      d.find? name = d'.find? name := by
    intro d d' hd name hname
    refine hd name fun hmem => ?_
    rw [hnames name hmem] at hname
    cases hname
  have hcurrent : ∀ name, name ∉ names → w.current.find? name = v.current.find? name :=
    fun name hname => (h.current name).resolve_right fun hgone => hname hgone.2
  rcases hx with rfl | hx
  · refine ⟨v, Volume.Crash.refl v, funext fun name => ?_⟩
    unfold keptFile
    cases hinitial : hasTemporaryPrefix name with
    | true => rfl
    | false =>
        exact Volume.file?_congr (hkept hcurrent name hinitial) fun i _ => by rw [h.inodes]
  · have hcandidate : ∃ d ∈ v.current :: v.earlier, ∀ name, name ∉ names →
        x.current.find? name = d.find? name := by
      rcases List.mem_cons.1 hx.current with hd | hd
      · exact ⟨v.current, List.mem_cons_self, fun name hname => hd ▸ hcurrent name hname⟩
      · exact h.earlier _ hd
    obtain ⟨d, hd, hsame⟩ := hcandidate
    obtain ⟨u, hu, huinodes, hucurrent⟩ := Volume.exists_powerLoss v hd (h.inodes ▸ hx.inodes)
    refine ⟨u, Or.inr hu, funext fun name => ?_⟩
    unfold keptFile
    cases hinitial : hasTemporaryPrefix name with
    | true => rfl
    | false =>
        refine Volume.file?_congr ?_ fun i _ => by rw [huinodes]
        rw [hucurrent]
        exact hkept hsame name hinitial

end Removal

end StaticHostAgent.Host
