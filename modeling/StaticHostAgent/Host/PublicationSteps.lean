import StaticHostAgent.Host.Publication

/-!
# The states a publication passes through

`InFlight` lists the volumes that a publication makes durable, one constructor for each stage of
the call. Every system call moves from one stage to the next (`fchmod_triple`, `writeAll_triple`,
`place_triple`, …), and `publish_triple` puts them together: whatever the calls answer, the volume
is never in another state, a success ends in the published one, and a call that nothing interrupts
fails only when the destination is obstructed.
-/

set_option autoImplicit false

namespace StaticHostAgent.Host

open Library Contracts

/-- Every call succeeds, every write makes progress and the hook never raises. -/
structure Answers.Quiet (answers : Answers) : Prop where
  openParent : answers.openParent = none
  openTemporary : answers.openTemporary = none
  chmod : answers.chmod = none
  write : ∀ count, ∃ written, answers.write count = .ok written ∧ written ≠ 0
  syncFile : answers.syncFile = none
  close : answers.close = none
  rename : answers.rename = none
  syncParent : answers.syncParent = none
  unlink : answers.unlink = none
  syncRemoval : answers.syncRemoval = none
  hook : ∀ boundary count, answers.hook boundary count = false

/-- The temporary after its mode was set and a part of the data was written. -/
def writtenInode (process : Process) (mode : ℕ) (written : List UInt8) : Inode :=
  { (createdInode process mode).chmod mode with data := written }

/-- The complete file. -/
def publishedInode (process : Process) (mode : ℕ) (data : List UInt8) : Inode :=
  (writtenInode process mode data).sync

/-- The shape of every temporary that a publication can leave behind. -/
structure Leftover (process : Process) (mode : ℕ) (node : Inode) : Prop where
  kind : node.kind = .regular
  owner : node.owner = process.owner
  elsewhere : node.elsewhere = 0
  modes : ∀ m ∈ node.mode :: node.earlierModes, m = mode ∨ m = (createdInode process mode).mode

section Shapes

variable (process : Process) (mode : ℕ)

theorem leftover_created : Leftover process mode (createdInode process mode) := by
  refine ⟨rfl, rfl, rfl, fun m hm => Or.inr ?_⟩
  exact List.mem_singleton.1 hm

theorem leftover_written (written : List UInt8) :
    Leftover process mode (writtenInode process mode written) := by
  refine ⟨rfl, rfl, rfl, fun m hm => ?_⟩
  rcases List.mem_cons.1 hm with rfl | hm
  · exact Or.inl rfl
  · exact Or.inr (List.mem_singleton.1 hm)

theorem leftover_published (data : List UInt8) :
    Leftover process mode (publishedInode process mode data) := by
  refine ⟨rfl, rfl, rfl, fun m hm => Or.inl ?_⟩
  exact List.mem_singleton.1 hm

variable {process mode}

theorem Leftover.survives {a b : Inode} (h : Leftover process mode a) (hab : Inode.Survives a b) :
    Leftover process mode b := by
  refine ⟨hab.kind_eq.trans h.kind, hab.owner_eq.trans h.owner,
    hab.elsewhere_eq.trans h.elsewhere, ?_⟩
  cases hab with
  | synced => exact h.modes
  | unsynced m _ _ hmode =>
      intro m' hm'
      rw [List.mem_singleton.1 hm']
      exact h.modes m hmode

end Shapes

/-- The volume after one publication from `v` made a change durable: the temporary is being filled,
it was moved into place, the move was written out, or the temporary was removed again. -/
inductive InFlight (placement : Placement) (process : Process) (temporaryName destination : String)
    (data : List UInt8) (mode : ℕ) (v : Volume String) : Volume String → Prop
  | filling {node : Inode} (h : Leftover process mode node) :
      InFlight placement process temporaryName destination data mode v
        (v.create temporaryName node)
  | placed (h : placement.atDestination v destination = none) :
      InFlight placement process temporaryName destination data mode v
        ((v.create temporaryName (publishedInode process mode data)).rename temporaryName
          destination)
  | writtenOut (h : placement.atDestination v destination = none) :
      InFlight placement process temporaryName destination data mode v
        ((v.create temporaryName (publishedInode process mode data)).rename temporaryName
          destination).syncDirectory
  | removed {node : Inode} (h : Leftover process mode node) :
      InFlight placement process temporaryName destination data mode v
        ((v.create temporaryName node).unlink temporaryName)
  | removalWrittenOut {node : Inode} (h : Leftover process mode node) :
      InFlight placement process temporaryName destination data mode v
        ((v.create temporaryName node).unlink temporaryName).syncDirectory

section Calls

variable {placement : Placement} {process : Process} {answers : Answers}
  {temporaryName destination : String} {data : List UInt8} {mode : ℕ} {v : Volume String}

theorem answered_eq_error {answer : Option ℕ} {e : DurableError} (h : answered answer = .error e) :
    answer ≠ none := by
  rintro rfl
  cases h

/-- A call that makes one change if it is answered without an error. -/
theorem answered_triple {answer : Option ℕ} {change : Volume String → Volume String}
    {Visited Failed : Volume String → Prop} {Post : Unit → Volume String → Prop}
    {w : Volume String} (hvisited : Visited (change w)) (hpost : Post () (change w))
    (hfailed : answer ≠ none → Failed w) :
    Durable.Triple w
      (do Durable.query fun _ => answered answer
          Durable.effect change : Durable (Volume String) DurableError Unit)
      Visited Post Failed := by
  refine Durable.Triple.bind (M := fun _ t => t = w) ?_ ?_
  · exact Durable.Triple.query (fun _ _ => rfl) fun e he => hfailed (answered_eq_error he)
  · rintro _ t rfl
    exact Durable.Triple.effect hvisited hpost

theorem notify_triple {boundary : DurabilityBoundary} {count : ℕ}
    {Visited Failed : Volume String → Prop} {Post : Unit → Volume String → Prop}
    {w : Volume String} (hpost : Post () w) (hfailed : ¬ answers.Quiet → Failed w) :
    Durable.Triple w (notify answers boundary count) Visited Post Failed := by
  refine Durable.Triple.query (fun _ _ => hpost) fun e he => hfailed fun hquiet => ?_
  simp only [hquiet.hook boundary count] at he
  cases he

/-- The temporary is being filled, and some call of the publication went wrong. -/
def Broken (process : Process) (answers : Answers) (temporaryName : String) (mode : ℕ)
    (v t : Volume String) : Prop :=
  ¬ answers.Quiet ∧ ∃ node, Leftover process mode node ∧ t = v.create temporaryName node

theorem fchmod_triple :
    Durable.Triple (v.create temporaryName (createdInode process mode))
      (fchmod answers v.inodes.length mode)
      (InFlight placement process temporaryName destination data mode v)
      (fun _ t => t = v.create temporaryName (writtenInode process mode []))
      (Broken process answers temporaryName mode v) := by
  have hchange : (v.create temporaryName (createdInode process mode)).modify v.inodes.length
      (Inode.chmod mode) = v.create temporaryName (writtenInode process mode []) :=
    Volume.modify_create v temporaryName _ _
  refine answered_triple ?_ hchange fun hanswer => ⟨fun hquiet => hanswer hquiet.chmod, ?_⟩
  · rw [hchange]
    exact InFlight.filling (leftover_written process mode [])
  · exact ⟨_, leftover_created process mode, rfl⟩

/-- Every round appends what the write accepted; enough fuel writes everything. -/
theorem writeAll_triple : ∀ (fuel count : ℕ) (written remaining : List UInt8),
    remaining.length ≤ fuel →
    Durable.Triple (v.create temporaryName (writtenInode process mode written))
      (writeAll answers v.inodes.length fuel count remaining)
      (InFlight placement process temporaryName destination data mode v)
      (fun _ t => t = v.create temporaryName (writtenInode process mode (written ++ remaining)))
      (Broken process answers temporaryName mode v) := by
  intro fuel
  -- on the fuel, which bounds the bytes left: every accepted write takes at least one of them
  induction fuel with
  | zero =>
      intro count written remaining hfuel
      obtain rfl : remaining = [] := List.length_eq_zero_iff.1 (Nat.le_zero.1 hfuel)
      exact Durable.Triple.pure (by rw [List.append_nil])
  | succ fuel ih =>
      intro count written remaining hfuel
      cases remaining with
      | nil => exact Durable.Triple.pure (by rw [List.append_nil])
      | cons byte rest =>
          have hbroken : ¬ answers.Quiet → ∀ part,
              Broken process answers temporaryName mode v
                (v.create temporaryName (writtenInode process mode part)) :=
            fun hnot part => ⟨hnot, _, leftover_written process mode part, rfl⟩
          refine Durable.Triple.bind (M := fun accepted t => 0 < accepted ∧
            t = v.create temporaryName (writtenInode process mode written)) ?_ ?_
          · refine Durable.Triple.query ?_ ?_
            · intro accepted haccepted
              cases hwrite : answers.write count with
              | error code => simp only [hwrite] at haccepted; cases haccepted
              | ok size =>
                  simp only [hwrite] at haccepted
                  split at haccepted
                  · cases haccepted
                  · rename_i hsize
                    cases haccepted
                    refine ⟨?_, rfl⟩
                    rw [List.length_cons]
                    omega
            · intro e he
              refine hbroken (fun hquiet => ?_) written
              -- a write fails only when the host is not quiet
              obtain ⟨size, hwrite, hsize⟩ := hquiet.write count
              simp only [hwrite, if_neg hsize] at he
              cases he
          · rintro accepted t ⟨haccepted, rfl⟩
            have hchange : (v.create temporaryName (writtenInode process mode written)).modify
                v.inodes.length (Inode.append ((byte :: rest).take accepted)) =
                v.create temporaryName
                  (writtenInode process mode (written ++ (byte :: rest).take accepted)) :=
              Volume.modify_create v temporaryName _ _
            refine Durable.Triple.bind (M := fun _ t => t = v.create temporaryName
              (writtenInode process mode (written ++ (byte :: rest).take accepted))) ?_ ?_
            · refine Durable.Triple.effect ?_ hchange
              rw [hchange]
              exact InFlight.filling (leftover_written process mode _)
            · rintro _ t rfl
              refine Durable.Triple.bind (M := fun _ t => t = v.create temporaryName
                (writtenInode process mode (written ++ (byte :: rest).take accepted))) ?_ ?_
              · exact notify_triple rfl fun hnot => hbroken hnot _
              · rintro _ t rfl
                have hlength : ((byte :: rest).drop accepted).length ≤ fuel := by
                  rw [List.length_drop]
                  omega
                have hrest := ih (count + 1) (written ++ (byte :: rest).take accepted)
                  ((byte :: rest).drop accepted) hlength
                rwa [List.append_assoc, List.take_append_drop] at hrest

theorem fsyncFile_triple :
    Durable.Triple (v.create temporaryName (writtenInode process mode data))
      (fsyncFile answers v.inodes.length)
      (InFlight placement process temporaryName destination data mode v)
      (fun _ t => t = v.create temporaryName (publishedInode process mode data))
      (Broken process answers temporaryName mode v) := by
  have hchange : (v.create temporaryName (writtenInode process mode data)).modify v.inodes.length
      Inode.sync = v.create temporaryName (publishedInode process mode data) :=
    Volume.modify_create v temporaryName _ _
  refine answered_triple ?_ hchange fun hanswer => ⟨fun hquiet => hanswer hquiet.syncFile, ?_⟩
  · rw [hchange]
    exact InFlight.filling (leftover_published process mode data)
  · exact ⟨_, leftover_written process mode data, rfl⟩

/-- The part of the call that fills the temporary. -/
theorem fill_triple :
    Durable.Triple (v.create temporaryName (createdInode process mode))
      (do
        fchmod answers v.inodes.length mode
        writeAll answers v.inodes.length data.length 0 data
        fsyncFile answers v.inodes.length
        notify answers .fileSync 0
        closeFile answers)
      (InFlight placement process temporaryName destination data mode v)
      (fun _ t => t = v.create temporaryName (publishedInode process mode data))
      (Broken process answers temporaryName mode v) := by
  have hbroken : ¬ answers.Quiet → Broken process answers temporaryName mode v
      (v.create temporaryName (publishedInode process mode data)) :=
    fun hnot => ⟨hnot, _, leftover_published process mode data, rfl⟩
  refine Durable.Triple.bind fchmod_triple ?_
  rintro _ t rfl
  refine Durable.Triple.bind (writeAll_triple data.length 0 [] data le_rfl) ?_
  rintro _ t rfl
  refine Durable.Triple.bind fsyncFile_triple ?_
  rintro _ t rfl
  refine Durable.Triple.bind (M := fun _ t =>
    t = v.create temporaryName (publishedInode process mode data)) (notify_triple rfl hbroken) ?_
  rintro _ t rfl
  refine Durable.Triple.query (fun _ _ => rfl) fun e he => hbroken fun hquiet => ?_
  exact answered_eq_error he hquiet.close

/-- The temporary of a broken publication is removed, unless that fails as well. -/
theorem removeTemporary_triple {node : Inode} (hnode : Leftover process mode node) :
    Durable.Triple (v.create temporaryName node) (removeTemporary answers temporaryName)
      (InFlight placement process temporaryName destination data mode v)
      (fun _ t => InFlight placement process temporaryName destination data mode v t ∧
        (answers.Quiet →
          t = ((v.create temporaryName node).unlink temporaryName).syncDirectory))
      (fun t => InFlight placement process temporaryName destination data mode v t ∧
        ¬ answers.Quiet) := by
  refine Durable.Triple.bind (M := fun found t => t = v.create temporaryName node ∧
    (found = false → ¬ answers.Quiet)) ?_ ?_
  · refine Durable.Triple.query ?_ ?_
    · intro found hfound
      refine ⟨rfl, ?_⟩
      rintro rfl hquiet
      simp [hquiet.unlink] at hfound
    · intro e he
      refine ⟨InFlight.filling hnode, fun hquiet => ?_⟩
      simp only [hquiet.unlink] at he
      cases he
  · rintro found t ⟨rfl, hfound⟩
    refine Durable.Triple.when (fun _ => ?_) ?_
    · refine Durable.Triple.bind (M := fun _ t =>
        t = (v.create temporaryName node).unlink temporaryName) ?_ ?_
      · exact Durable.Triple.effect (InFlight.removed hnode) rfl
      · rintro _ t rfl
        refine answered_triple (InFlight.removalWrittenOut hnode) ?_ ?_
        · exact ⟨InFlight.removalWrittenOut hnode, fun _ => rfl⟩
        · exact fun hanswer => ⟨InFlight.removed hnode, fun hquiet => hanswer hquiet.syncRemoval⟩
    · exact fun hskip => ⟨InFlight.filling hnode, fun hquiet => absurd hquiet (hfound hskip)⟩

theorem place_triple (hne : temporaryName ≠ destination) :
    Durable.Triple (v.create temporaryName (publishedInode process mode data))
      (placement.place answers temporaryName destination)
      (InFlight placement process temporaryName destination data mode v)
      (fun _ t => placement.atDestination v destination = none ∧
        t = (v.create temporaryName (publishedInode process mode data)).rename temporaryName
          destination)
      (fun t => t = v.create temporaryName (publishedInode process mode data) ∧
        (answers.Quiet → ∃ e, placement.atDestination v destination = some e)) := by
  have hdestination : placement.atDestination
      (v.create temporaryName (publishedInode process mode data)) destination =
      placement.atDestination v destination := by
    unfold Placement.atDestination
    rw [Volume.file?_create_of_ne v (Ne.symm hne)]
  refine Durable.Triple.bind (M := fun _ t => placement.atDestination v destination = none ∧
    t = v.create temporaryName (publishedInode process mode data)) ?_ ?_
  · refine Durable.Triple.query ?_ ?_
    · intro u hu
      cases hrename : answers.rename with
      | some code => simp only [hrename] at hu; cases hu
      | none =>
          cases hat : placement.atDestination v destination with
          | some e => simp only [hrename, hdestination, hat] at hu; cases hu
          | none => exact ⟨rfl, rfl⟩
    · intro e he
      refine ⟨rfl, fun hquiet => ?_⟩
      cases hat : placement.atDestination v destination with
      | some e' => exact ⟨e', rfl⟩
      | none => simp only [hquiet.rename, hdestination, hat] at he; cases he
  · rintro _ t ⟨hat, rfl⟩
    exact Durable.Triple.effect (InFlight.placed hat) ⟨hat, rfl⟩

/-- A state made durable by a publication whose temporary name passed its checks. -/
structure Underway (placement : Placement) (process : Process) (temporaryName destination : String)
    (data : List UInt8) (mode : ℕ) (v t : Volume String) : Prop where
  reserved : hasTemporaryPrefix temporaryName = true
  fresh : v.current.find? temporaryName = none
  different : temporaryName ≠ destination
  stage : InFlight placement process temporaryName destination data mode v t

/-- How a publication fails: some call went wrong, or the checks refused the arguments, or the
temporary name was taken, or the destination was obstructed and the temporary is removed again. -/
structure Unfinished (placement : Placement) (process : Process) (answers : Answers)
    (temporaryName destination : String) (components : List String) (data : List UInt8) (mode : ℕ)
    (v t : Volume String) : Prop where
  stage : t = v ∨ Underway placement process temporaryName destination data mode v t
  obstructed : answers.Quiet → validateComponents components = .ok () →
    validateTemporaryName temporaryName destination = .ok () →
    v.current.find? temporaryName = none →
    (∃ e, placement.atDestination v destination = some e) ∧
      t = ((v.create temporaryName (publishedInode process mode data)).unlink
        temporaryName).syncDirectory

theorem validateTemporaryName_eq_ok {u : Unit}
    (h : validateTemporaryName temporaryName destination = .ok u) :
    hasTemporaryPrefix temporaryName = true ∧ temporaryName ≠ destination := by
  unfold validateTemporaryName at h
  cases hcomponents : validateComponents [temporaryName] with
  | error e => rw [hcomponents] at h; cases h
  | ok =>
      rw [hcomponents] at h
      change (if _ then _ else _) = _ at h
      split at h
      · cases h
      · rename_i hnot
        simpa using hnot

theorem publish_triple (components : List String) :
    Durable.Triple v
      (publish placement process answers temporaryName components data mode)
      (Underway placement process temporaryName (components.getLastD "") data mode v)
      (fun _ t => placement.atDestination v (components.getLastD "") = none ∧
        t = ((v.create temporaryName (publishedInode process mode data)).rename temporaryName
          (components.getLastD "")).syncDirectory)
      (Unfinished placement process answers temporaryName (components.getLastD "") components
        data mode v) := by
  generalize hdestination : components.getLastD "" = destination
  have hstart : (answers.Quiet → validateComponents components = .ok () →
      validateTemporaryName temporaryName destination = .ok () →
      v.current.find? temporaryName ≠ none) →
      Unfinished placement process answers temporaryName destination components data mode v v :=
    fun h => ⟨Or.inl rfl, fun hquiet hcomponents hname hfresh =>
      absurd hfresh (h hquiet hcomponents hname)⟩
  unfold publish
  refine Durable.Triple.bind (M := fun _ t => t = v) ?_ ?_
  · refine Durable.Triple.query (fun _ _ => rfl) fun e he => hstart fun _ hcomponents => ?_
    rw [hcomponents] at he
    cases he
  rintro _ t rfl
  simp only [hdestination]
  refine Durable.Triple.bind (M := fun _ s => s = t ∧
    hasTemporaryPrefix temporaryName = true ∧ temporaryName ≠ destination) ?_ ?_
  · refine Durable.Triple.query ?_ ?_
    · exact fun u hu => ⟨rfl, validateTemporaryName_eq_ok hu⟩
    · intro e he
      refine hstart fun _ _ hname => ?_
      rw [hname] at he
      cases he
  rintro _ s ⟨rfl, hreserved, hne⟩
  refine Durable.Triple.bind (M := fun _ t => t = s) ?_ ?_
  · refine Durable.Triple.query (fun _ _ => rfl) fun e he => hstart fun hquiet => ?_
    simp only [hquiet.openParent] at he
    cases he
  rintro _ t rfl
  -- From here on the temporary name was free.
  refine Durable.Triple.bind (M := fun descriptor s => descriptor = t.inodes.length ∧
    t.current.find? temporaryName = none ∧
    s = t.create temporaryName (createdInode process mode)) ?_ ?_
  · refine Durable.Triple.bind (M := fun _ s => s = t) ?_ ?_
    · refine Durable.Triple.query (fun _ _ => rfl) fun e he => hstart fun hquiet => ?_
      exact absurd hquiet.openTemporary (answered_eq_error he)
    rintro _ s rfl
    refine Durable.Triple.bind (M := fun descriptor t => descriptor = s.inodes.length ∧
      s.current.find? temporaryName = none ∧ t = s) ?_ ?_
    · refine Durable.Triple.query ?_ ?_
      · intro descriptor hopen
        split at hopen
        · cases hopen
        · rename_i hnone
          cases hopen
          exact ⟨rfl, by simpa using hnone, rfl⟩
      · intro e he
        refine hstart fun _ _ _ hfresh => ?_
        simp [hfresh] at he
    rintro descriptor t ⟨rfl, hfresh, rfl⟩
    refine Durable.Triple.bind (M := fun _ s =>
      s = t.create temporaryName (createdInode process mode)) ?_ ?_
    · exact Durable.Triple.effect
        ⟨hreserved, hfresh, hne, InFlight.filling (leftover_created process mode)⟩ rfl
    · rintro _ s rfl
      exact Durable.Triple.pure ⟨rfl, hfresh, rfl⟩
  rintro descriptor s ⟨rfl, hfresh, rfl⟩
  have hunderway : ∀ s, InFlight placement process temporaryName destination data mode t s →
      Underway placement process temporaryName destination data mode t s :=
    fun s hs => ⟨hreserved, hfresh, hne, hs⟩
  have hloud : ∀ s, InFlight placement process temporaryName destination data mode t s ∧
      ¬ answers.Quiet →
      Unfinished placement process answers temporaryName destination components data mode t s :=
    fun s hs => ⟨Or.inr (hunderway s hs.1), fun hquiet => absurd hquiet hs.2⟩
  refine Durable.Triple.bind (M := fun _ s =>
    s = t.create temporaryName (publishedInode process mode data)) ?_ ?_
  · refine Durable.Triple.onError (fill_triple.weaken hunderway (fun _ _ h => h) fun _ h => h) ?_
    rintro s ⟨hnot, node, hnode, rfl⟩
    refine Durable.Triple.bind (M := fun _ s => s = t.create temporaryName node) ?_ ?_
    · exact Durable.Triple.query (fun _ _ => rfl) fun _ _ =>
        hloud _ ⟨InFlight.filling hnode, hnot⟩
    · rintro _ s rfl
      exact (removeTemporary_triple hnode).weaken hunderway
        (fun _ s h => hloud s ⟨h.1, hnot⟩) hloud
  rintro _ s rfl
  refine Durable.Triple.bind (M := fun _ s => placement.atDestination t destination = none ∧
    s = (t.create temporaryName (publishedInode process mode data)).rename temporaryName
      destination) ?_ ?_
  · refine Durable.Triple.onError
      ((place_triple hne).weaken hunderway (fun _ _ h => h) fun _ h => h) ?_
    rintro s ⟨rfl, hobstructed⟩
    refine (removeTemporary_triple (leftover_published process mode data)).weaken hunderway
      (fun _ s h => ?_) hloud
    exact ⟨Or.inr (hunderway s h.1), fun hquiet _ _ _ => ⟨hobstructed hquiet, h.2 hquiet⟩⟩
  rintro _ s ⟨hat, rfl⟩
  refine Durable.Triple.bind (M := fun _ s => s = (t.create temporaryName
    (publishedInode process mode data)).rename temporaryName destination) ?_ ?_
  · exact notify_triple rfl fun hnot => hloud _ ⟨InFlight.placed hat, hnot⟩
  rintro _ s rfl
  refine Durable.Triple.bind (M := fun _ s => s = ((t.create temporaryName
    (publishedInode process mode data)).rename temporaryName destination).syncDirectory) ?_ ?_
  · refine answered_triple (hunderway _ (InFlight.writtenOut hat)) rfl fun hanswer => ?_
    exact hloud _ ⟨InFlight.placed hat, fun hquiet => hanswer hquiet.syncParent⟩
  rintro _ s rfl
  exact notify_triple ⟨hat, rfl⟩ fun hnot => hloud _ ⟨InFlight.writtenOut hat, hnot⟩

end Calls

end StaticHostAgent.Host
