import StaticHostAgent.Host.AtomicPublication

/-!
# Publication over any number of interrupted attempts

A `Publication` fixes the arguments of one `create_immutable` or `replace`. `Interrupted` is one
attempt at it, or one removal of abandoned temporaries, that a crash ended anywhere. `CrashSafe`
collects what holds of every directory: a crash leaves the old or the complete new file, after any
interrupted attempts a recovery that accepts the directory and another call arrive where a call that
nothing interrupts does, and the recovery takes away nothing but what it recognised, or refuses and
changes nothing.
-/

set_option autoImplicit false

namespace StaticHostAgent.Host

open Library Contracts

inductive Publisher where
  | createImmutable
  | replace
  deriving DecidableEq

/-- The arguments of one publication, with the process that makes it. -/
structure Publication where
  publisher : Publisher
  process : Process
  components : List String
  data : List UInt8
  mode : ℕ

namespace Publication

def destination (publication : Publication) : String := publication.components.getLastD ""

/-- The complete file under its final name. -/
def file (publication : Publication) : Inode :=
  publishedInode publication.process publication.mode publication.data

def placement (publication : Publication) : Placement :=
  match publication.publisher with
  | .createImmutable => renameNoreplace
  | .replace => osReplace

def run (publication : Publication) (answers : Answers) (temporaryName : String) :
    Durable (Volume String) DurableError Unit :=
  match publication.publisher with
  | .createImmutable => createImmutable publication.process answers temporaryName
      publication.components publication.data publication.mode
  | .replace => replace publication.process answers temporaryName publication.components
      publication.data publication.mode

/-- The removal of abandoned temporaries followed by another call. -/
def retry (publication : Publication) (recovery : Recovery) (answers : Answers)
    (temporaryName : String) : Durable (Volume String) DurableError Unit := do
  let _ ← removeAbandonedPublicationTemporaries recovery (fun _ => none) none
  publication.run answers temporaryName

theorem run_eq (publication : Publication) (answers : Answers) (temporaryName : String) :
    publication.run answers temporaryName =
      publish publication.placement publication.process answers temporaryName
        publication.components publication.data publication.mode := by
  unfold run placement
  cases publication.publisher <;> rfl

end Publication

/-- One attempt that a crash ended: the call, or the removal of abandoned temporaries. -/
inductive Interrupted (publication : Publication) (recovery : Recovery) (v x : Volume String) :
    Prop
  | call {w : Volume String} (answers : Answers) (temporaryName : String)
      (hw : Durable.Crashed (publication.run answers temporaryName) v w) (hx : Volume.Crash w x)
  | removal {w : Volume String} (unlinked : String → Option ℕ) (synced : Option ℕ)
      (hw : Durable.Crashed
        (removeAbandonedPublicationTemporaries recovery unlinked synced) v w)
      (hx : Volume.Crash w x)

section Runs

variable {publication : Publication} {recovery : Recovery} {u v w x : Volume String}

/-- What the files come to once the publication is completed. -/
def Publication.outcome (publication : Publication) (v : Volume String) :
    String → Option Inode :=
  if validateComponents publication.components = .ok () then
    settledFile publication.placement publication.destination publication.file (keptFile v)
  else keptFile v

theorem underway_of_crashed {answers : Answers} {temporaryName : String}
    (h : Durable.Crashed (publication.run answers temporaryName) v w) :
    w = v ∨ validateComponents publication.components = .ok () ∧
      Underway publication.placement publication.process temporaryName publication.destination
        publication.data publication.mode v w := by
  refine h.imp_right fun hw => ?_
  rw [publication.run_eq] at hw
  cases hvalid : validateComponents publication.components with
  | error e => rw [publish_invalid hvalid] at hw; cases hw
  | ok => exact ⟨rfl, (publish_triple publication.components).visited w hw⟩

/-- One interrupted attempt leaves the outcome that a crash without it would have left. -/
theorem Interrupted.outcome_eq (h : Interrupted publication recovery v x) :
    ∃ u, Volume.Crash v u ∧ publication.outcome x = publication.outcome u := by
  cases h with
  | call answers temporaryName hw hx =>
      rcases underway_of_crashed hw with rfl | ⟨hvalid, hunderway⟩
      · exact ⟨x, hx, rfl⟩
      · obtain ⟨u, hu, hleft⟩ := leftBehind_of_crash hunderway hx
        refine ⟨u, hu, ?_⟩
        unfold Publication.outcome
        rw [if_pos hvalid, if_pos hvalid]
        exact hleft.settledFile_eq hunderway.reserved
  | removal unlinked synced hw hx =>
      rcases hw with rfl | hw
      · exact ⟨x, hx, rfl⟩
      · obtain ⟨names, hnames, hclearing⟩ :=
          ((@removeAbandoned_triple recovery) unlinked synced).visited _ hw
        obtain ⟨-, hlisted, -⟩ := publicationTemporaries_eq_ok.1 hnames
        obtain ⟨u, hu, hkept⟩ := kept_of_crash hclearing (fun name hname => by
          rw [hlisted, List.mem_filter] at hname
          exact hname.2) hx
        refine ⟨u, hu, ?_⟩
        unfold Publication.outcome
        rw [hkept]

theorem Interrupted.crash (h : Interrupted publication recovery v w) (hx : Volume.Crash w x) :
    Interrupted publication recovery v x := by
  cases h with
  | call answers temporaryName hw hw' => exact .call answers temporaryName hw (hw'.trans hx)
  | removal unlinked synced hw hw' => exact .removal unlinked synced hw (hw'.trans hx)

/-- The outcome is fixed by the start, however often the attempts are interrupted. -/
theorem outcome_of_interrupted
    (h : Relation.ReflTransGen (Interrupted publication recovery) v x) :
    ∀ y, Volume.Crash x y →
      ∃ u, Volume.Crash v u ∧ publication.outcome y = publication.outcome u := by
  induction h with
  | refl => exact fun y hy => ⟨y, hy, rfl⟩
  | tail _ hlast ih =>
      intro y hy
      obtain ⟨z, hz, hsame⟩ := (hlast.crash hy).outcome_eq
      obtain ⟨u, hu, hstart⟩ := ih z hz
      exact ⟨u, hu, hsame.trans hstart⟩

/-- A call that nothing interrupts arrives at the outcome, on a directory whose reserved names were
taken away. -/
theorem run_outcome {answers : Answers} {temporaryName : String} (hquiet : answers.Quiet)
    (hname : validateTemporaryName temporaryName publication.destination = .ok ())
    (hfiles : ∀ name, v.file? name = keptFile u name) :
    (∀ name, (publication.run answers temporaryName v).state.file? name =
        publication.outcome u name) ∧
      (validateComponents publication.components = .ok () →
        (publication.run answers temporaryName v).state.earlier = []) := by
  have hclean : ∀ name, hasTemporaryPrefix name = true → v.current.find? name = none := by
    intro name hinitial
    rw [← Volume.file?_eq_none, hfiles]
    exact if_pos hinitial
  have hsame : v.file? = keptFile u := funext hfiles
  rw [publication.run_eq]
  unfold Publication.outcome
  cases hvalid : validateComponents publication.components with
  | error e =>
      rw [publish_invalid hvalid]
      exact ⟨hfiles, fun h => (nomatch h)⟩
  | ok =>
      obtain ⟨hstate, hearlier⟩ := (@publish_quiet publication.placement publication.process _ _ _ publication.data publication.mode)
        hquiet hvalid hname hclean
      refine ⟨fun name => ?_, fun _ => hearlier⟩
      rw [hstate name, hsame]
      rfl

theorem retry_outcome {answers : Answers} {temporaryName : String} {names : List String}
    (hquiet : answers.Quiet)
    (hname : validateTemporaryName temporaryName publication.destination = .ok ())
    (haccepted : publicationTemporaries recovery v = .ok names) :
    (∀ name, (publication.retry recovery answers temporaryName v).state.file? name =
        publication.outcome v name) ∧
      (validateComponents publication.components = .ok () →
        (publication.retry recovery answers temporaryName v).state.earlier = []) := by
  have htriple := (@removeAbandoned_triple recovery v) (fun _ => none) none
  cases hresult : (removeAbandonedPublicationTemporaries recovery (fun _ => none) none v).result
    with
  | error e => exact absurd ⟨⟨names, haccepted⟩, fun _ => rfl, rfl⟩ (htriple.failed e hresult)
  | ok count =>
      obtain ⟨hinodes, hcurrent⟩ := htriple.post count hresult
      have hrun := Durable.bind_ok (f := fun _ => publication.run answers temporaryName)
        (show removeAbandonedPublicationTemporaries recovery (fun _ => none) none v =
          ⟨_, _, .ok count⟩ by rw [← hresult])
      have hstate : (publication.retry recovery answers temporaryName v).state =
          (publication.run answers temporaryName
            (removeAbandonedPublicationTemporaries recovery (fun _ => none) none v).state).state := by
        unfold Publication.retry
        rw [hrun]
      rw [hstate]
      refine run_outcome hquiet hname fun name => ?_
      unfold keptFile Volume.file?
      rw [hcurrent, hinodes]
      cases hasTemporaryPrefix name <;> rfl

/-! ## When the recovery accepts what a crash left -/

theorem safeShape_eq_true {name : String} : recovery.safeShape v name = true ↔
    ∃ i node, v.current.find? name = some i ∧ v.inodes[i]? = some node ∧ node.kind = .regular ∧
      node.owner = recovery.expectedOwner ∧ node.mode = recovery.expectedMode ∧
      v.links i = 1 := by
  unfold Recovery.safeShape
  cases hfound : v.current.find? name with
  | none => simp
  | some i =>
      cases hnode : v.inodes[i]? with
      | none => simp [hnode]
      | some node => simp [hnode, and_assoc]

/-- The temporary of a publication whose mode the mask leaves alone has a safe shape. -/
theorem safeShape_leftover {process : Process} {mode : ℕ} {node : Inode} {temporaryName : String}
    (howner : recovery.expectedOwner = process.owner) (hmode : recovery.expectedMode = mode)
    (hmask : mode &&& process.umask = 0) (hnode : Leftover process mode node)
    (hinodes : x.inodes = u.inodes ++ [node]) (hfresh : u.current.find? temporaryName = none)
    (hcurrent : x.current = u.current.insert temporaryName u.inodes.length) :
    recovery.safeShape x temporaryName = true := by
  refine safeShape_eq_true.2 ⟨u.inodes.length, node, ?_, ?_, hnode.kind,
    hnode.owner.trans howner.symm, ?_, ?_⟩
  · rw [hcurrent, Directory.find?_insert_self]
  · rw [hinodes]
    simp
  · rw [hmode]
    rcases hnode.modes node.mode List.mem_cons_self with h | h
    · exact h
    · rw [h]
      show mode ^^^ (mode &&& process.umask) = mode
      rw [hmask, Nat.xor_zero]
  · have hunused : (u.current.total fun _ j => if j = u.inodes.length then 1 else 0) = 0 := by
      refine List.sum_eq_zero fun n hn => ?_
      obtain ⟨e, he, rfl⟩ := List.mem_map.1 hn
      have hbound := u.bound u.current List.mem_cons_self e.1 e.2
        (u.current.find?_of_mem he)
      exact if_neg (Nat.ne_of_lt hbound)
    have htotal := Directory.total_insert (fun _ j => if j = u.inodes.length then 1 else 0)
      u.current temporaryName u.inodes.length
    rw [hfresh, hunused] at htotal
    unfold Volume.links
    rw [hcurrent, hinodes]
    simp only [List.getElem?_append_right le_rfl, Nat.sub_self, List.getElem?_cons_zero,
      Option.elim_some, hnode.elsewhere]
    simpa using htotal

/-- Another reserved name keeps its safe shape when one name is bound to a new inode. -/
theorem safeShape_other {node : Inode} {name bound : String} (hne : name ≠ bound)
    (hinodes : x.inodes = u.inodes ++ [node])
    (hcurrent : x.current = u.current.insert bound u.inodes.length)
    (h : recovery.safeShape u name = true) : recovery.safeShape x name = true := by
  obtain ⟨i, old, hfound, hold, hkind, howner, hmode, hlinks⟩ := safeShape_eq_true.1 h
  have hlt := u.bound u.current List.mem_cons_self name i hfound
  have hfound' : x.current.find? name = some i := by
    rw [hcurrent, Directory.find?_insert_of_ne _ hne, hfound]
  have hinode : x.inodes[i]? = u.inodes[i]? := by
    rw [hinodes, List.getElem?_append_left hlt]
  refine safeShape_eq_true.2 ⟨i, old, hfound', hinode.trans hold, hkind, howner, hmode, ?_⟩
  -- Binding the other name may only take links to `i` away, and the one of `name` stays.
  have htotal := Directory.total_insert (fun _ j => if j = i then 1 else 0) u.current bound
    u.inodes.length
  rw [← hcurrent, if_neg (Nat.ne_of_gt hlt)] at htotal
  have hsome := Directory.weight_le_total (fun _ j => if j = i then 1 else 0) hfound
  have hstays := Directory.weight_le_total (fun _ j => if j = i then 1 else 0) hfound'
  rw [if_pos rfl] at hsome hstays
  unfold Volume.links at hlinks ⊢
  rw [hinode]
  omega

/-- A recovery that would have accepted the directory without the publication accepts what a crash
left of it, if there is room for one more entry. -/
theorem accepted_of_leftBehind {process : Process} {placement : Placement}
    {temporaryName destination : String} {data : List UInt8} {mode : ℕ} {names : List String}
    (h : LeftBehind placement process temporaryName destination data mode u x)
    (howner : recovery.expectedOwner = process.owner) (hmode : recovery.expectedMode = mode)
    (hmask : mode &&& process.umask = 0) (hcomplete : matchesTemporaryName temporaryName = true)
    (hdestination : hasTemporaryPrefix destination = false)
    (hroom : x.current.size ≤ recovery.maximumEntries)
    (haccepted : publicationTemporaries recovery u = .ok names) :
    ∃ names', publicationTemporaries recovery x = .ok names' := by
  obtain ⟨-, hlisted, hall⟩ := publicationTemporaries_eq_ok.1 haccepted
  have hold : ∀ name, (u.current.find? name).isSome = true → hasTemporaryPrefix name = true →
      matchesTemporaryName name = true ∧ recovery.safeShape u name = true := by
    intro name hname hinitial
    refine hall name ?_
    rw [hlisted, List.mem_filter, Directory.mem_keys]
    exact ⟨hname, hinitial⟩
  refine ⟨_, publicationTemporaries_eq_ok.2 ⟨hroom, rfl, fun name hname => ?_⟩⟩
  rw [List.mem_filter, Directory.mem_keys] at hname
  obtain ⟨hname, hinitial⟩ := hname
  cases h with
  | unpublished hinodes hcurrent =>
      rw [hcurrent] at hname
      obtain ⟨hmatches, hsafe⟩ := hold name hname hinitial
      refine ⟨hmatches, ?_⟩
      obtain ⟨i, node, hfound, hnode, hkind, howner', hmode', hlinks⟩ := safeShape_eq_true.1 hsafe
      have hinode : x.inodes[i]? = u.inodes[i]? := by
        rw [hinodes, List.getElem?_append_left (u.bound u.current List.mem_cons_self name i hfound)]
      refine safeShape_eq_true.2 ⟨i, node, by rw [hcurrent, hfound], hinode.trans hnode, hkind,
        howner', hmode', ?_⟩
      unfold Volume.links at hlinks ⊢
      rw [hinode, hcurrent, hlinks]
  | leftover hnode hinodes hfresh hcurrent =>
      by_cases hsame : name = temporaryName
      · rw [hsame]
        exact ⟨hcomplete,
          safeShape_leftover howner hmode hmask hnode hinodes hfresh hcurrent⟩
      · rw [hcurrent, Directory.find?_insert_of_ne _ hsame] at hname
        obtain ⟨hmatches, hsafe⟩ := hold name hname hinitial
        exact ⟨hmatches, safeShape_other hsame hinodes hcurrent hsafe⟩
  | published hat hinodes hcurrent =>
      have hne : name ≠ destination := by
        rintro rfl
        rw [hdestination] at hinitial
        cases hinitial
      rw [hcurrent, Directory.find?_insert_of_ne _ hne] at hname
      obtain ⟨hmatches, hsafe⟩ := hold name hname hinitial
      exact ⟨hmatches, safeShape_other hne hinodes hcurrent hsafe⟩

end Runs

/-! ## Crash safety -/

/-- What holds of a publication into the directory `v`. -/
structure CrashSafe (publication : Publication) (recovery : Recovery) (v : Volume String) : Prop
    where
  /-- After a crash anywhere in the call the destination has its old file or the complete new one,
  and no other name is touched but the temporary, which has the reserved form. -/
  atomic : ∀ answers temporaryName w x,
    Durable.Crashed (publication.run answers temporaryName) v w → Volume.Crash w x →
    ∃ u, Volume.Crash v u ∧
      (∀ name, name ≠ publication.destination → name ≠ temporaryName →
        x.file? name = u.file? name) ∧
      (x.file? publication.destination = u.file? publication.destination ∨
        x.file? publication.destination = some publication.file) ∧
      (x.file? temporaryName = u.file? temporaryName ∨
        hasTemporaryPrefix temporaryName = true ∧
          ∃ node, Leftover publication.process publication.mode node ∧
            x.file? temporaryName = some node)
  /-- After any number of interrupted attempts, an accepted recovery and another call arrive where
  the call arrives that nothing interrupts, with the directory written out. -/
  resumed : ∀ x, Relation.ReflTransGen (Interrupted publication recovery) v x →
    ∃ u, Volume.Crash v u ∧
      ∀ answers temporaryName answers' temporaryName' names, answers.Quiet → answers'.Quiet →
        validateTemporaryName temporaryName publication.destination = .ok () →
        validateTemporaryName temporaryName' publication.destination = .ok () →
        publicationTemporaries recovery x = .ok names →
        (∀ name, (publication.retry recovery answers temporaryName x).state.file? name =
          (publication.run answers' temporaryName'
            (u.restrict fun name => !hasTemporaryPrefix name)).state.file? name) ∧
        (validateComponents publication.components = .ok () →
          (publication.retry recovery answers temporaryName x).state.earlier = [])
  /-- The recovery takes away only complete reserved names of safely shaped files. -/
  recognised : ∀ unlinked synced w,
    w ∈ (removeAbandonedPublicationTemporaries recovery unlinked synced v).trace →
    ∀ name, w.file? name = v.file? name ∨
      w.file? name = none ∧ matchesTemporaryName name = true ∧
        recovery.safeShape v name = true
  /-- The recovery refuses, changing nothing, a directory beyond its bound and one with a reserved
  name that is not complete or does not lead to a safely shaped file. -/
  refused : ∀ unlinked synced,
    (recovery.maximumEntries < v.current.size ∨
      ∃ name, (v.current.find? name).isSome = true ∧ hasTemporaryPrefix name = true ∧
        ¬ (matchesTemporaryName name = true ∧ recovery.safeShape v name = true)) →
    ∃ e, removeAbandonedPublicationTemporaries recovery unlinked synced v = ⟨[], v, .error e⟩
  /-- The recovery accepts what a crash left behind if it would have accepted the directory without
  the call and finds room for the entries. -/
  accepted : ∀ answers temporaryName w x,
    Durable.Crashed (publication.run answers temporaryName) v w → Volume.Crash w x →
    recovery.expectedOwner = publication.process.owner →
    recovery.expectedMode = publication.mode →
    publication.mode &&& publication.process.umask = 0 →
    matchesTemporaryName temporaryName = true →
    hasTemporaryPrefix publication.destination = false →
    x.current.size ≤ recovery.maximumEntries →
    ∃ u, Volume.Crash v u ∧ ∀ names, publicationTemporaries recovery u = .ok names →
      ∃ names', publicationTemporaries recovery x = .ok names'

def quietAnswers : Answers where
  openParent := none
  openTemporary := none
  chmod := none
  write _ := .ok 4096
  syncFile := none
  close := none
  rename := none
  syncParent := none
  unlink := none
  syncRemoval := none
  hook _ _ := false

/-- A root-owned file of mode `0o600` that some other program wrote. -/
def foreignFile : Inode where
  kind := .regular
  owner := 0
  mode := 0o600
  elsewhere := 0
  data := [1, 2, 3]
  earlierModes := []
  synced := true

/-- A directory with that file only. -/
def directoryWith (name : String) : Volume String :=
  ((⟨[], Directory.empty, [], fun d hd name i hi => by
    rw [List.mem_singleton.1 hd] at hi
    cases hi⟩ : Volume String).create name foreignFile).syncDirectory

def stateRecord : Publication where
  publisher := .createImmutable
  process := ⟨0, 0o077⟩
  components := ["state.json"]
  data := [7]
  mode := 0o600

end StaticHostAgent.Host
