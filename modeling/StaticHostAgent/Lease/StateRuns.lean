import StaticHostAgent.Lease.State

/-!
# Runs over the lease directory

Calls on the lease directory one after another, by any process, each of which may stop after any
number of durable changes. `Sound` is the invariant of the directory: every complete file is
justified by files that were complete before it, and at most one use is open. A call creates files
that `Admits` allows and nothing else, and these keep `Sound`.
-/

set_option autoImplicit false

namespace StaticHostAgent.Lease

open Library Contracts

/-! ## Calls and histories -/

inductive Call where
  | claimIssuer (writerSha256 : String)
  | requireWriter (writerSha256 : String)
  | submitting (intent : Intent) (writerSha256 : String)
  | remember (intent : Intent) (identifier : String) (secret : Option String)
  | finishIssuer (writerSha256 stoppedAt : String)
  | issuerStop (published : Option StopProof)
  | acquireUse (attemptId bindingSha256 kind : String)
  | releaseUse (attemptId : String) (quiescence : Quiescence) (producer : Option ProducerRecords)

/-- The call as a program; `finish_issuer` and `issuer_stop` return a proof. -/
def program (h : LeaseHost) : Call → Durable LeaseFiles LeaseError (Option StopProof)
  | .claimIssuer writer => do
      claimIssuer h writer
      pure none
  | .requireWriter writer => do
      Durable.query (requireWriter h writer)
      pure none
  | .submitting intent writer => do
      submitting h intent writer
      pure none
  | .remember intent identifier secret => do
      remember h intent identifier secret
      pure none
  | .finishIssuer writer stoppedAt => do
      let proof ← finishIssuer h writer stoppedAt
      pure (some proof)
  | .issuerStop published => Durable.query (issuerStop h published)
  | .acquireUse attemptId bindingSha256 kind => do
      acquireUse h attemptId bindingSha256 kind
      pure none
  | .releaseUse attemptId quiescence producer => do
      releaseUse h attemptId quiescence producer
      pure none

/-- A call, and the number of durable changes after which its process stops, if it does. -/
structure Action where
  call : Call
  crash : Option Nat

/-- What one call found and returned; a process that stopped returned nothing. -/
structure Entry where
  call : Call
  start : LeaseFiles
  result : Option (Except LeaseError (Option StopProof))

/-- The calls made so far and the directory they left. -/
structure History where
  entries : List Entry
  files : LeaseFiles

namespace History

/-- The directory that `initialize` leaves: the manifest and nothing else. -/
def initial (m : LeaseManifest) : History :=
  ⟨[], Directory.insert Directory.empty .manifest (.complete (.manifest m))⟩

/-- The directory that a process leaves that stops after some durable changes. -/
def left (run : Run LeaseFiles LeaseError (Option StopProof)) (start : LeaseFiles) (changes : Nat) :
    LeaseFiles :=
  (run.trace.take changes).getLastD start

/-- One more call. -/
def act (h : LeaseHost) (history : History) (action : Action) : History :=
  let run := program h action.call history.files
  match action.crash with
  | none => ⟨history.entries ++ [⟨action.call, history.files, some run.result⟩], run.state⟩
  | some changes =>
      ⟨history.entries ++ [⟨action.call, history.files, none⟩], left run history.files changes⟩

/-- The history of a sequence of calls. -/
def execute (h : LeaseHost) (m : LeaseManifest) (actions : List Action) : History :=
  actions.foldl (act h) (initial m)

/-- The directories that some call found, and the last one. -/
def states (history : History) : List LeaseFiles :=
  history.entries.map Entry.start ++ [history.files]

end History

/-! ## Readings -/

variable {h : LeaseHost} {m : LeaseManifest} {s t u : LeaseFiles}

theorem readPrivate_eq_ok {name : LeaseName} {record : LeaseRecord} :
    readPrivate name s = .ok record ↔ s.find? name = some (.complete record) := by
  unfold readPrivate
  cases s.find? name with
  | none => exact ⟨fun h => (nomatch h), fun h => (nomatch h)⟩
  | some cell =>
      cases cell with
      | torn => exact ⟨fun h => (nomatch h), fun h => (nomatch h)⟩
      | complete stored =>
          constructor
          · intro h
            rw [Except.ok.inj h]
          · intro h
            rw [Cell.complete.inj (Option.some.inj h)]
            rfl

theorem present_eq_false {name : LeaseName} : present name s = false ↔ s.find? name = none := by
  unfold present
  rw [Option.isSome_eq_false_iff, Option.isNone_iff_eq_none]

/-- The writer check passes for the writer that claimed the issuer and for no other one. -/
theorem requireWriterBinding_eq_ok {writer : String} :
    requireWriterBinding h writer m s = .ok () ↔ isSha256 writer = true ∧
      s.find? .issuer = some (.complete (.issuer writer (h.manifestSha256 m))) := by
  unfold requireWriterBinding
  rw [bind_eq_ok]
  constructor
  · rintro ⟨_, hwriter, hrest⟩
    obtain ⟨stored, hstored, hsame⟩ := bind_eq_ok.1 hrest
    rw [of_decide_eq_true (require_eq_ok.1 hsame)] at hstored
    exact ⟨require_eq_ok.1 hwriter, readPrivate_eq_ok.1 hstored⟩
  · rintro ⟨hwriter, hissuer⟩
    refine ⟨(), require_eq_ok.2 hwriter, bind_eq_ok.2 ⟨_, readPrivate_eq_ok.2 hissuer, ?_⟩⟩
    exact require_eq_ok.2 (decide_eq_true rfl)

/-- A credential that can be read tells whether its file is there, and whole. -/
theorem credential_isSome {intent : Intent} {found : Option (String × String)}
    (hread : credential h intent s = .ok found) :
    found.isSome = true ↔ ∃ record, s.find? (.credential intent.role) = some (.complete record) := by
  unfold credential at hread
  cases hpresent : present (.credential intent.role) s with
  | false =>
      rw [hpresent] at hread
      cases hread
      rw [present_eq_false.1 hpresent]
      exact ⟨fun h => (nomatch h), fun ⟨_, h⟩ => (nomatch h)⟩
  | true =>
      rw [hpresent, if_pos rfl] at hread
      obtain ⟨record, hrecord, hrest⟩ := bind_eq_ok.1 hread
      have hfound := readPrivate_eq_ok.1 hrecord
      cases record with
      | credential intentSha256 identifier secret =>
          obtain ⟨_, _, hid⟩ := bind_eq_ok.1 hrest
          cases hid
          exact iff_of_true rfl ⟨_, hfound⟩
      | _ => exact nomatch hrest

/-! ## The invariant -/

/-- The created record of the intent is complete. -/
def HasCreated (h : LeaseHost) (s : LeaseFiles) (intent : Intent) : Prop :=
  ∃ credentialId, s.find? (.created intent.role) =
    some (.complete (.created (h.intentSha256 intent) credentialId))

/-- The use of the attempt was released. -/
def Matched (h : LeaseHost) (s : LeaseFiles) (attemptId : String) : Prop :=
  ∃ record quiescence, s.find? (.use attemptId) = some (.complete (.use record)) ∧
    s.find? (.released attemptId) =
      some (.complete (.released (h.useSha256 record) quiescence))

/-- A runtime use, torn or complete, without a matching release. -/
def OpenUse (h : LeaseHost) (s : LeaseFiles) (attemptId : String) : Prop :=
  (s.find? (.use attemptId)).isSome = true ∧ ¬ Matched h s attemptId

/-- Why a complete file may have the record it has. -/
inductive Justified (h : LeaseHost) (m : LeaseManifest) (s : LeaseFiles) :
    LeaseName → LeaseRecord → Prop where
  | manifest : Justified h m s .manifest (.manifest m)
  | issuer (writer : String) : Justified h m s .issuer (.issuer writer (h.manifestSha256 m))
  | submitting (role : Role) (intentSha256 writer : String) :
      Justified h m s (.submitting role) (.submitting intentSha256 writer)
  | created {intent : Intent} (hintent : intent ∈ m.intents) (credentialId : String) :
      Justified h m s (.created intent.role) (.created (h.intentSha256 intent) credentialId)
  | credential {intent : Intent} (hintent : intent ∈ m.intents) (identifier secret : String)
      (hcreated : s.find? (.created intent.role) =
        some (.complete (.created (h.intentSha256 intent) identifier))) :
      Justified h m s (.credential intent.role)
        (.credential (h.intentSha256 intent) identifier secret)
  | binding (proof : StopProof)
      (hcreated : ∀ intent ∈ m.intents, intent.role.value ∈ proof.retainedRoles →
        HasCreated h s intent) :
      Justified h m s .issuerStopBinding (.binding (h.manifestSha256 m) proof)
  | stopped (proof : StopProof)
      (hbinding : s.find? .issuerStopBinding =
        some (.complete (.binding (h.manifestSha256 m) proof))) :
      Justified h m s .issuerStopped (.stopped proof)
  | use (record : Use) : Justified h m s (.use record.attemptId) (.use record)
  | released (attemptId useSha256 : String) (quiescence : Quiescence) :
      Justified h m s (.released attemptId) (.released useSha256 quiescence)

/-- The invariant of the directory. -/
structure Sound (h : LeaseHost) (m : LeaseManifest) (s : LeaseFiles) : Prop where
  manifest : s.find? .manifest = some (.complete (.manifest m))
  recorded : ∀ name record, s.find? name = some (.complete record) → Justified h m s name record
  exclusive : ∀ a b, OpenUse h s a → OpenUse h s b → a = b

/-- What a call that began in `start` may create. -/
structure Admits (h : LeaseHost) (m : LeaseManifest) (start s : LeaseFiles) (name : LeaseName)
    (record : LeaseRecord) : Prop where
  justified : Justified h m s name record
  roles : ∀ manifestSha256 proof, record = .binding manifestSha256 proof →
    retainedRoles h m start = .ok proof.retainedRoles
  exclusive : ∀ a, name = .use a → ∀ b, (s.find? (.use b)).isSome = true → Matched h s b

theorem HasCreated.mono {intent : Intent} (hkept : WriteOnce.Kept s t)
    (hcreated : HasCreated h s intent) : HasCreated h t intent := by
  obtain ⟨credentialId, hfound⟩ := hcreated
  exact ⟨credentialId, hkept _ _ hfound⟩

theorem Matched.mono {a : String} (hkept : WriteOnce.Kept s t) (hmatched : Matched h s a) :
    Matched h t a := by
  obtain ⟨record, quiescence, huse, hreleased⟩ := hmatched
  exact ⟨record, quiescence, hkept _ _ huse, hkept _ _ hreleased⟩

theorem Justified.mono {name : LeaseName} {record : LeaseRecord} (hkept : WriteOnce.Kept s t)
    (hjustified : Justified h m s name record) : Justified h m t name record := by
  cases hjustified with
  | manifest => exact .manifest
  | issuer writer => exact .issuer writer
  | submitting role intentSha256 writer => exact .submitting role intentSha256 writer
  | created hintent credentialId => exact .created hintent credentialId
  | credential hintent identifier secret hcreated =>
      exact .credential hintent identifier secret (hkept _ _ hcreated)
  | binding proof hcreated =>
      exact .binding proof fun intent hintent hrole => (hcreated intent hintent hrole).mono hkept
  | stopped proof hbinding => exact .stopped proof (hkept _ _ hbinding)
  | use record => exact .use record
  | released a useSha256 quiescence => exact .released a useSha256 quiescence

/-- An open use of a larger directory is open in the smaller one, unless it is new. -/
theorem OpenUse.of_insert {name : LeaseName} {cell : Cell LeaseRecord} {a : String}
    (free : s.find? name = none) (hopen : OpenUse h (Directory.insert s name cell) a) :
    OpenUse h s a ∨ name = .use a := by
  obtain ⟨hfound, hunmatched⟩ := hopen
  by_cases hname : LeaseName.use a = name
  · exact Or.inr hname.symm
  · rw [Directory.find?_insert_of_ne _ hname] at hfound
    exact Or.inl ⟨hfound, fun hmatched => hunmatched (hmatched.mono (WriteOnce.Kept.insert free _))⟩

/-- One admitted file keeps the invariant, torn or complete. -/
theorem Sound.insert {start : LeaseFiles} {name : LeaseName} {record : LeaseRecord}
    (hs : Sound h m s) (free : s.find? name = none) (admitted : Admits h m start s name record)
    {cell : Cell LeaseRecord} (hcell : ∀ stored, cell = .complete stored → stored = record) :
    Sound h m (Directory.insert s name cell) := by
  have hkept := WriteOnce.Kept.insert free cell
  refine ⟨hkept _ _ hs.manifest, ?_, ?_⟩
  · intro other stored hstored
    by_cases hother : other = name
    · subst hother
      rw [Directory.find?_insert_self] at hstored
      rw [hcell stored (Option.some.inj hstored)]
      exact admitted.justified.mono hkept
    · rw [Directory.find?_insert_of_ne _ hother] at hstored
      exact (hs.recorded other stored hstored).mono hkept
  · intro a b ha hb
    rcases ha.of_insert free with ha' | rfl
    · rcases hb.of_insert free with hb' | rfl
      · exact hs.exclusive a b ha' hb'
      · -- a new use finds every earlier one released
        exact absurd (admitted.exclusive b rfl a ha'.1) ha'.2
    · rcases hb.of_insert free with hb' | hb'
      · exact absurd (admitted.exclusive a rfl b hb'.1) hb'.2
      · exact LeaseName.use.inj hb'

theorem Sound.visits {start : LeaseFiles} (hs : Sound h m s)
    (hvisits : WriteOnce.Visits (Admits h m start) s t) : Sound h m t := by
  refine hvisits.invariant ?_ hs
  intro v name record hv free admitted
  constructor
  · exact hv.insert free admitted fun _ hcell => (nomatch hcell)
  · exact hv.insert free admitted fun _ hcell => (Cell.complete.inj hcell).symm

theorem Sound.readManifest (hs : Sound h m s) : readManifest s = .ok m := by
  unfold Lease.readManifest
  rw [readPrivate_eq_ok.2 hs.manifest]
  rfl

/-- The first directory holds the manifest only. -/
theorem find?_initial {name : LeaseName} {cell : Cell LeaseRecord}
    (hfound : (History.initial m).files.find? name = some cell) :
    name = .manifest ∧ cell = .complete (.manifest m) := by
  by_cases hname : name = .manifest
  · subst hname
    exact ⟨rfl, (Option.some.inj ((Directory.find?_insert_self _ _ _).symm.trans hfound)).symm⟩
  · have hempty := (Directory.find?_insert_of_ne _ hname _).symm.trans hfound
    cases hempty

theorem sound_initial : Sound h m (History.initial m).files := by
  refine ⟨Directory.find?_insert_self _ _ _, ?_, ?_⟩
  · intro name record hrecord
    obtain ⟨rfl, hcell⟩ := find?_initial hrecord
    cases hcell
    exact .manifest
  · intro a b ha _
    obtain ⟨cell, hcell⟩ := Option.isSome_iff_exists.1 ha.1
    cases (find?_initial hcell).1

/-! ## What the calls write -/

theorem writePrivate_writes {start : LeaseFiles} {name : LeaseName} {record : LeaseRecord}
    {occupied : LeaseError} (hadmits : s.find? name = none → Admits h m start s name record) :
    WriteOnce.Writes (Admits h m start) s (writePrivate h name record occupied) fun _ t =>
      s.find? name = none ∧ t = Directory.insert s name (.complete record) :=
  WriteOnce.Writes.query_bind fun _ _ => WriteOnce.Writes.create hadmits

/-- What is retained is there afterwards, whether the call wrote it or found it. -/
theorem retain_writes {start : LeaseFiles} {name : LeaseName} {record : LeaseRecord}
    (hadmits : s.find? name = none → Admits h m start s name record) :
    WriteOnce.Writes (Admits h m start) s (retain h name record) fun _ t =>
      t.find? name = some (.complete record) := by
  refine WriteOnce.Writes.query_bind fun found hfound => ?_
  cases hfound
  refine WriteOnce.Writes.bind (M := fun _ _ => True) ?_ ?_
  · apply WriteOnce.Writes.when
    · intro _
      exact (writePrivate_writes hadmits).weaken fun _ _ _ => trivial
    · intro _
      trivial
  · intro _ t _ _
    refine WriteOnce.Writes.query fun _ hread => ?_
    obtain ⟨stored, hstored, hsame⟩ := bind_eq_ok.1 hread
    rw [of_decide_eq_true (require_eq_ok.1 hsame)] at hstored
    exact readPrivate_eq_ok.1 hstored

/-- A file that is neither a binding nor a use needs its justification only. -/
theorem Justified.admits {start : LeaseFiles} {name : LeaseName} {record : LeaseRecord}
    (hjustified : Justified h m s name record) (hbinding : name ≠ .issuerStopBinding)
    (huse : ∀ a, name ≠ .use a) : Admits h m start s name record := by
  refine ⟨hjustified, ?_, fun a ha => absurd ha (huse a)⟩
  rintro manifestSha256 proof rfl
  cases hjustified
  exact absurd rfl hbinding

theorem claimIssuer_writes (hs : Sound h m s) (writer : String) :
    WriteOnce.Writes (Admits h m s) s (claimIssuer h writer) fun _ _ => True := by
  refine WriteOnce.Writes.query_bind fun _ _ => ?_
  refine WriteOnce.Writes.query_bind fun m' hm' => ?_
  obtain rfl := Except.ok.inj (hs.readManifest.symm.trans hm')
  refine (writePrivate_writes fun _ => ?_).weaken fun _ _ _ => trivial
  exact (Justified.issuer writer).admits nofun nofun

/-- A submission is admitted before the binding, under a name that is free. -/
theorem submitting_writes (intent : Intent) (writer : String) :
    WriteOnce.Writes (Admits h m s) s (submitting h intent writer) fun _ t =>
      s.find? (.submitting intent.role) = none ∧
        (t.find? (.submitting intent.role)).isSome = true ∧
        s.find? .issuerStopBinding = none := by
  refine WriteOnce.Writes.query_bind fun _ hwriter => ?_
  obtain ⟨m', hm', hrest⟩ := bind_eq_ok.1 hwriter
  obtain ⟨_, _, hrunning⟩ := bind_eq_ok.1 hrest
  have hfree := require_eq_ok.1 hrunning
  rw [Bool.not_eq_true', Bool.or_eq_false_iff] at hfree
  refine WriteOnce.Writes.query_bind fun _ _ => ?_
  refine WriteOnce.Writes.query_bind fun _ _ => ?_
  refine (writePrivate_writes fun _ => ?_).weaken ?_
  · exact (Justified.submitting intent.role _ writer).admits nofun nofun
  · rintro _ t ⟨hnone, rfl⟩
    refine ⟨hnone, ?_, present_eq_false.1 hfree.2⟩
    rw [Directory.find?_insert_self]
    rfl

theorem remember_writes (hs : Sound h m s) (intent : Intent) (identifier : String)
    (secret : Option String) :
    WriteOnce.Writes (Admits h m s) s (remember h intent identifier secret) fun _ _ => True := by
  refine WriteOnce.Writes.query_bind fun m' hm' => ?_
  obtain rfl := Except.ok.inj (hs.readManifest.symm.trans hm')
  refine WriteOnce.Writes.query_bind fun _ hintent => ?_
  have hmem := of_decide_eq_true (require_eq_ok.1 hintent)
  refine WriteOnce.Writes.bind (retain_writes fun _ => ?_) fun _ t _ hcreated => ?_
  · exact (Justified.created hmem identifier).admits nofun nofun
  · cases secret with
    | none => exact WriteOnce.Writes.pure trivial
    | some secret =>
        refine (retain_writes fun _ => ?_).weaken fun _ _ _ => trivial
        exact (Justified.credential hmem identifier secret hcreated).admits nofun nofun

/-! ## The stop proof -/

/-- The private credential of the intent is durable. -/
def durableCredential (files : LeaseFiles) (intent : Intent) : Bool :=
  match files.find? (.credential intent.role) with
  | some (.complete _) => true
  | _ => false

/-- The roles whose private credential is durable, in order. -/
def durableRoles (m : LeaseManifest) (files : LeaseFiles) : List String :=
  ((m.intents.filter (durableCredential files)).map fun intent => intent.role.value).insertionSort
    (· ≤ ·)

theorem durableCredential_eq_true {intent : Intent} : durableCredential s intent = true ↔
    ∃ record, s.find? (.credential intent.role) = some (.complete record) := by
  unfold durableCredential
  cases s.find? (.credential intent.role) with
  | none => exact ⟨fun h => (nomatch h), fun ⟨_, h⟩ => (nomatch h)⟩
  | some cell =>
      cases cell with
      | torn => exact ⟨fun h => (nomatch h), fun ⟨_, h⟩ => (nomatch h)⟩
      | complete record => exact iff_of_true rfl ⟨record, rfl⟩

/-- The roles that `finish_issuer` binds are the durable ones. -/
theorem retainedRoles_eq {roles : List String} (hroles : retainedRoles h m s = .ok roles) :
    roles = durableRoles m s := by
  obtain ⟨kept, hkept, hsorted⟩ := bind_eq_ok.1 hroles
  cases hsorted
  unfold durableRoles
  congr 1
  rw [mapM_eq_ok_iff] at hkept
  clear hroles
  generalize m.intents = intents at hkept
  induction hkept with
  | nil => rfl
  | @cons intent found intents kept hread _ ih =>
      obtain ⟨credentialFound, hcredential, hfound⟩ := bind_eq_ok.1 hread
      have hdurable : credentialFound.isSome = durableCredential s intent := by
        rw [Bool.eq_iff_iff, credential_isSome hcredential, durableCredential_eq_true]
      cases hfound
      rw [List.flatten_cons, ih, hdurable, List.filter_cons]
      cases durableCredential s intent with
      | true => rfl
      | false => rfl

theorem mem_durableRoles {role : String} : role ∈ durableRoles m s ↔
    ∃ intent ∈ m.intents, intent.role.value = role ∧
      ∃ record, s.find? (.credential intent.role) = some (.complete record) := by
  unfold durableRoles
  rw [List.mem_insertionSort, List.mem_map]
  constructor
  · rintro ⟨intent, hintent, rfl⟩
    obtain ⟨hmem, hdurable⟩ := List.mem_filter.1 hintent
    exact ⟨intent, hmem, rfl, durableCredential_eq_true.1 hdurable⟩
  · rintro ⟨intent, hmem, rfl, hdurable⟩
    exact ⟨intent, List.mem_filter.2 ⟨hmem, durableCredential_eq_true.2 hdurable⟩, rfl⟩

/-- A durable credential has a created record. -/
theorem Sound.hasCreated (hs : Sound h m s) {intent : Intent} (hintent : intent ∈ m.intents)
    (hrole : intent.role.value ∈ durableRoles m s) : HasCreated h s intent := by
  obtain ⟨other, hother, hvalue, record, hfound⟩ := mem_durableRoles.1 hrole
  obtain rfl := m.intent_eq hother hintent (Role.value_injective hvalue)
  have hjustified := hs.recorded _ _ hfound
  generalize hname : LeaseName.credential other.role = name at hjustified
  cases hjustified with
  | credential hmem identifier secret hcreated =>
      obtain rfl := m.intent_eq hother hmem (LeaseName.credential.inj hname)
      exact ⟨identifier, hcreated⟩
  | _ => cases hname

/-- A proof that `issuer_stop` returns is the content of the stop document. -/
theorem issuerStop_eq_some {published : Option StopProof} {proof : StopProof}
    (hstop : issuerStop h published s = .ok (some proof)) :
    s.find? .issuerStopped = some (.complete (.stopped proof)) := by
  unfold issuerStop at hstop
  cases hpresent : present .issuerStopped s with
  | false =>
      rw [hpresent] at hstop
      cases hstop
  | true =>
      rw [hpresent, if_pos rfl] at hstop
      obtain ⟨m', _, hrest⟩ := bind_eq_ok.1 hstop
      obtain ⟨issuer, _, hrest⟩ := bind_eq_ok.1 hrest
      cases issuer with
      | issuer writer manifestSha256 =>
          obtain ⟨_, _, hrest⟩ := bind_eq_ok.1 hrest
          obtain ⟨_, _, hrest⟩ := bind_eq_ok.1 hrest
          obtain ⟨record, hrecord, hrest⟩ := bind_eq_ok.1 hrest
          cases record with
          | stopped stored =>
              obtain ⟨_, _, hrest⟩ := bind_eq_ok.1 hrest
              obtain ⟨_, _, hrest⟩ := bind_eq_ok.1 hrest
              cases hrest
              exact readPrivate_eq_ok.1 hrecord
          | _ => exact nomatch hrest
      | _ => exact nomatch hrest

theorem readBinding_eq_ok {writer : String} {proof : StopProof}
    (hread : readBinding h m writer s = .ok proof) :
    s.find? .issuerStopBinding = some (.complete (.binding (h.manifestSha256 m) proof)) := by
  obtain ⟨record, hrecord, hrest⟩ := bind_eq_ok.1 hread
  cases record with
  | binding manifestSha256 stored =>
      obtain ⟨_, hmanifest, hrest⟩ := bind_eq_ok.1 hrest
      obtain ⟨_, _, hrest⟩ := bind_eq_ok.1 hrest
      cases hrest
      rw [of_decide_eq_true (require_eq_ok.1 hmanifest)] at hrecord
      exact readPrivate_eq_ok.1 hrecord
  | _ => exact nomatch hrest

/-- The proof is bound before it is exposed, to the roles that are durable then. -/
theorem bindProof_writes (hs : Sound h m s) (writer stoppedAt : String) :
    WriteOnce.Writes (Admits h m s) s (bindProof h m writer stoppedAt) fun proof t =>
      t.find? .issuerStopBinding = some (.complete (.binding (h.manifestSha256 m) proof)) := by
  refine WriteOnce.Writes.query_bind fun bound hbound => ?_
  cases bound with
  | true => exact WriteOnce.Writes.query fun proof hread => readBinding_eq_ok hread
  | false =>
      refine WriteOnce.Writes.query_bind fun roles hroles => ?_
      have hdurable := retainedRoles_eq hroles
      refine WriteOnce.Writes.bind (retain_writes fun _ => ?_) fun _ t _ hbinding => ?_
      · refine ⟨.binding _ fun intent hintent hrole => ?_, ?_, nofun⟩
        · exact hs.hasCreated hintent (hdurable ▸ hrole)
        · intro manifestSha256 proof hrecord
          cases hrecord
          exact hroles
      · exact WriteOnce.Writes.pure hbinding

theorem finishIssuer_writes (hs : Sound h m s) (writer stoppedAt : String) :
    WriteOnce.Writes (Admits h m s) s (finishIssuer h writer stoppedAt) fun proof t =>
      t.find? .issuerStopped = some (.complete (.stopped proof)) := by
  refine WriteOnce.Writes.query_bind fun m' hm' => ?_
  obtain rfl := Except.ok.inj (hs.readManifest.symm.trans hm')
  refine WriteOnce.Writes.query_bind fun _ _ => ?_
  refine WriteOnce.Writes.query_bind fun _ _ => ?_
  refine WriteOnce.Writes.query_bind fun stopped hstopped => ?_
  cases stopped with
  | some proof => exact WriteOnce.Writes.pure (issuerStop_eq_some hstopped)
  | none =>
      refine WriteOnce.Writes.bind (bindProof_writes hs writer stoppedAt) ?_
      intro proof t _ hbinding
      refine WriteOnce.Writes.bind (retain_writes fun _ => ?_) ?_
      · exact (Justified.stopped proof hbinding).admits nofun nofun
      · intro _ u _ hfound
        exact WriteOnce.Writes.pure hfound

/-! ## Runtime use -/

/-- A use that passed the check of the listing was released. -/
theorem requireReleased_ok (hs : Sound h m s) {a : String} {cell : Cell LeaseRecord}
    (hfound : s.find? (.use a) = some cell) (hchecked : requireReleased h s cell = .ok ()) :
    Matched h s a := by
  obtain ⟨record, hrecord, hrest⟩ := bind_eq_ok.1 hchecked
  cases cell with
  | torn => cases hrecord
  | complete stored =>
      cases hrecord
      cases record with
      | use previous =>
          obtain ⟨_, _, hrest⟩ := bind_eq_ok.1 hrest
          obtain ⟨_, _, hrest⟩ := bind_eq_ok.1 hrest
          obtain ⟨release, hrelease, hrest⟩ := bind_eq_ok.1 hrest
          have hname : previous.attemptId = a := by
            have hjustified := hs.recorded _ _ hfound
            generalize hname : LeaseName.use a = name at hjustified
            cases hjustified
            exact (LeaseName.use.inj hname).symm
          subst hname
          cases release with
          | released useSha256 quiescence =>
              rw [of_decide_eq_true (require_eq_ok.1 hrest)] at hrelease
              exact ⟨previous, quiescence, hfound, readPrivate_eq_ok.1 hrelease⟩
          | _ => exact nomatch hrest
      | _ => exact nomatch hrest

theorem acquireUse_writes (hs : Sound h m s) (attemptId bindingSha256 kind : String) :
    WriteOnce.Writes (Admits h m s) s (acquireUse h attemptId bindingSha256 kind)
      fun _ _ => True := by
  refine WriteOnce.Writes.query_bind fun _ _ => ?_
  refine WriteOnce.Writes.query_bind fun _ _ => ?_
  refine WriteOnce.Writes.query_bind fun _ _ => ?_
  refine WriteOnce.Writes.query_bind fun _ hlisting => ?_
  refine (writePrivate_writes fun _ => ?_).weaken fun _ _ _ => trivial
  refine ⟨.use ⟨attemptId, bindingSha256, kind⟩, nofun, ?_⟩
  intro a _ b hb
  obtain ⟨cell, hcell⟩ := Option.isSome_iff_exists.1 hb
  have hentry : (LeaseName.use b, cell) ∈
      s.entries.filter fun entry => LeaseName.matchesUse entry.1.text :=
    List.mem_filter.2 ⟨Directory.mem_entries.2 hcell, LeaseName.matchesUse_use b⟩
  exact requireReleased_ok hs hcell (forM_eq_ok.1 hlisting _ hentry)

theorem releaseUse_writes (attemptId : String) (quiescence : Quiescence)
    (producer : Option ProducerRecords) :
    WriteOnce.Writes (Admits h m s) s (releaseUse h attemptId quiescence producer)
      fun _ _ => True := by
  refine WriteOnce.Writes.query_bind fun _ _ => ?_
  refine WriteOnce.Writes.query_bind fun record _ => ?_
  refine WriteOnce.Writes.query_bind fun _ _ => ?_
  refine (retain_writes fun _ => ?_).weaken fun _ _ _ => trivial
  exact (Justified.released attemptId _ quiescence).admits nofun nofun

/-! ## Histories -/

/-- The entry is an admitted submission of the role. -/
def Entry.admits (role : Role) : Entry → Bool
  | ⟨.submitting intent _, _, some (.ok _)⟩ => decide (intent.role = role)
  | _ => false

/-- The stop proof that the call returned. -/
def Entry.returned : Entry → Option StopProof
  | ⟨_, _, some (.ok proof)⟩ => proof
  | _ => none

/-- What a call that returned normally found and left. -/
structure Completed (s : LeaseFiles) (call : Call) (result : Option StopProof) (t : LeaseFiles) :
    Prop where
  stopped : ∀ proof, result = some proof → t.find? .issuerStopped = some (.complete (.stopped proof))
  submitted : ∀ intent writer, call = .submitting intent writer →
    s.find? (.submitting intent.role) = none ∧
      (t.find? (.submitting intent.role)).isSome = true ∧ s.find? .issuerStopBinding = none

theorem Completed.quiet {call : Call} (hcall : ∀ intent writer, call ≠ .submitting intent writer) :
    Completed s call none t :=
  ⟨nofun, fun intent writer heq => absurd heq (hcall intent writer)⟩

/-- Every call creates admitted files only. -/
theorem program_writes (hs : Sound h m s) (call : Call) :
    WriteOnce.Writes (Admits h m s) s (program h call) (Completed s call) := by
  cases call with
  | claimIssuer writer =>
      refine (claimIssuer_writes hs writer).bind fun _ t _ _ => ?_
      exact WriteOnce.Writes.pure (Completed.quiet nofun)
  | requireWriter writer =>
      refine WriteOnce.Writes.query_bind fun _ _ => ?_
      exact WriteOnce.Writes.pure (Completed.quiet nofun)
  | submitting intent writer =>
      refine (submitting_writes intent writer).bind fun _ t _ hsubmitted => ?_
      refine WriteOnce.Writes.pure ⟨nofun, fun intent' writer' heq => ?_⟩
      cases heq
      exact hsubmitted
  | remember intent identifier secret =>
      refine (remember_writes hs intent identifier secret).bind fun _ t _ _ => ?_
      exact WriteOnce.Writes.pure (Completed.quiet nofun)
  | finishIssuer writer stoppedAt =>
      refine (finishIssuer_writes hs writer stoppedAt).bind fun proof t _ hfound => ?_
      refine WriteOnce.Writes.pure ⟨fun proof' heq => ?_, nofun⟩
      rw [← Option.some.inj heq]
      exact hfound
  | issuerStop published =>
      refine WriteOnce.Writes.query fun result hresult => ⟨?_, nofun⟩
      rintro proof rfl
      exact issuerStop_eq_some hresult
  | acquireUse attemptId bindingSha256 kind =>
      refine (acquireUse_writes hs attemptId bindingSha256 kind).bind fun _ t _ _ => ?_
      exact WriteOnce.Writes.pure (Completed.quiet nofun)
  | releaseUse attemptId quiescence producer =>
      refine (releaseUse_writes attemptId quiescence producer).bind fun _ t _ _ => ?_
      exact WriteOnce.Writes.pure (Completed.quiet nofun)

/-- The directory after some of the durable changes is one that a crash leaves. -/
theorem left_crashed (p : Durable LeaseFiles LeaseError (Option StopProof)) (s : LeaseFiles)
    (changes : Nat) : Durable.Crashed p s (History.left (p s) s changes) :=
  Durable.left_crashed p s changes

/-- The directory that the calls after some entry found first. -/
def following (after : List Entry) (files : LeaseFiles) : LeaseFiles :=
  (after.map Entry.start).headD files

/-- The binding was first written by a call of the history, and the proof names the roles whose
credential was durable then. -/
def FirstBound (m : LeaseManifest) (history : History) (proof : StopProof) : Prop :=
  ∃ before e after, history.entries = before ++ e :: after ∧
    e.start.find? .issuerStopBinding = none ∧
    present .issuerStopBinding (following after history.files) = true ∧
    proof.retainedRoles = durableRoles m e.start

/-- What holds of every history. -/
structure Recorded (h : LeaseHost) (m : LeaseManifest) (history : History) : Prop where
  sound : Sound h m history.files
  kept : ∀ e ∈ history.entries, WriteOnce.Kept e.start history.files
  submitted : ∀ e ∈ history.entries, ∀ role, e.admits role = true →
    (history.files.find? (.submitting role)).isSome = true ∧
      e.start.find? .issuerStopBinding = none
  once : ∀ role, history.entries.countP (Entry.admits role) ≤ 1
  bound : ∀ e ∈ history.entries, ∀ proof, e.returned = some proof →
    history.files.find? .issuerStopBinding =
      some (.complete (.binding (h.manifestSha256 m) proof))
  origin : ∀ proof, history.files.find? .issuerStopBinding =
    some (.complete (.binding (h.manifestSha256 m) proof)) → FirstBound m history proof

/-- A stop document has its binding. -/
theorem Sound.binding (hs : Sound h m s) {proof : StopProof}
    (hstopped : s.find? .issuerStopped = some (.complete (.stopped proof))) :
    s.find? .issuerStopBinding = some (.complete (.binding (h.manifestSha256 m) proof)) := by
  cases hs.recorded _ _ hstopped with
  | stopped _ hbinding => exact hbinding

theorem Entry.admits_eq_true {e : Entry} {role : Role} (hadmits : e.admits role = true) :
    ∃ intent writer value, e.call = .submitting intent writer ∧ e.result = some (.ok value) ∧
      intent.role = role := by
  unfold Entry.admits at hadmits
  split at hadmits
  · exact ⟨_, _, _, rfl, rfl, of_decide_eq_true hadmits⟩
  · cases hadmits

theorem Entry.returned_eq_some {e : Entry} {proof : StopProof} (hreturned : e.returned = some proof) :
    e.result = some (.ok (some proof)) := by
  unfold Entry.returned at hreturned
  split at hreturned
  · rw [hreturned]
  · cases hreturned

/-- The history after one more call, whose process may have stopped. -/
theorem Recorded.extend {history : History} (hr : Recorded h m history) {call : Call}
    {result : Option (Except LeaseError (Option StopProof))}
    (hvisits : WriteOnce.Visits (Admits h m history.files) history.files t)
    (hcompleted : ∀ value, result = some (.ok value) → Completed history.files call value t) :
    Recorded h m ⟨history.entries ++ [⟨call, history.files, result⟩], t⟩ := by
  have hkept := hvisits.kept
  have hsound := hr.sound.visits hvisits
  have hnew : ∀ role, Entry.admits role ⟨call, history.files, result⟩ = true →
      history.files.find? (.submitting role) = none ∧
        (t.find? (.submitting role)).isSome = true ∧
        history.files.find? .issuerStopBinding = none := by
    intro role hadmits
    obtain ⟨intent, writer, value, rfl, hresult, rfl⟩ := Entry.admits_eq_true hadmits
    exact (hcompleted value hresult).submitted intent writer rfl
  refine ⟨hsound, ?_, ?_, ?_, ?_, ?_⟩
  · intro e he
    rcases List.mem_append.1 he with he | he
    · exact (hr.kept e he).trans hkept
    · rw [List.mem_singleton.1 he]
      exact hkept
  · intro e he role hadmits
    rcases List.mem_append.1 he with he | he
    · obtain ⟨hfound, hbefore⟩ := hr.submitted e he role hadmits
      exact ⟨hkept.isSome hfound, hbefore⟩
    · obtain rfl := List.mem_singleton.1 he
      exact (hnew role hadmits).2
  · intro role
    rw [List.countP_append, List.countP_singleton]
    cases hadmits : Entry.admits role ⟨call, history.files, result⟩ with
    | false => exact hr.once role
    | true =>
        -- the name was free, so no earlier submission of the role was admitted
        have hzero : history.entries.countP (Entry.admits role) = 0 := by
          refine List.countP_eq_zero.2 fun e he hearlier => ?_
          have hfound := (hr.submitted e he role hearlier).1
          rw [(hnew role hadmits).1] at hfound
          cases hfound
        rw [hzero]
        exact Nat.le_refl 1
  · intro e he proof hreturned
    rcases List.mem_append.1 he with he | he
    · exact hkept _ _ (hr.bound e he proof hreturned)
    · obtain rfl := List.mem_singleton.1 he
      have hvalue := hcompleted _ (Entry.returned_eq_some hreturned)
      exact hsound.binding (hvalue.stopped proof rfl)
  · intro proof hbinding
    cases hbefore : history.files.find? .issuerStopBinding with
    | none =>
        obtain ⟨u, _, _, admitted⟩ := hvisits.origin hbefore hbinding
        refine ⟨history.entries, _, [], rfl, hbefore, ?_, ?_⟩
        · exact Option.isSome_iff_exists.2 ⟨_, hbinding⟩
        · exact retainedRoles_eq (admitted.roles _ _ rfl)
    | some cell =>
        have hsame := (hkept _ _ hbefore).symm.trans hbinding
        rw [Option.some.inj hsame] at hbefore
        obtain ⟨before, e, after, hentries, hnone, hpresent, hroles⟩ := hr.origin proof hbefore
        refine ⟨before, e, after ++ [⟨call, history.files, result⟩], ?_, hnone, ?_, hroles⟩
        · rw [hentries, List.append_assoc, List.cons_append]
        · cases after with
          | nil => exact hpresent
          | cons next rest => exact hpresent

theorem recorded_act {history : History} (hr : Recorded h m history) (action : Action) :
    Recorded h m (History.act h history action) := by
  have hwrites := program_writes hr.sound action.call
  unfold History.act
  cases action.crash with
  | none =>
      refine hr.extend (.between hwrites.ended) fun value hresult => ?_
      exact (hwrites.post value (Option.some.inj hresult)).2
  | some changes => exact hr.extend (hwrites.crashed (left_crashed _ _ changes)) nofun

theorem recorded_initial : Recorded h m (History.initial m) := by
  have hnone : ∀ e, e ∉ (History.initial m).entries := fun e => List.not_mem_nil
  refine ⟨sound_initial, fun e he => absurd he (hnone e), fun e he => absurd he (hnone e), ?_,
    fun e he => absurd he (hnone e), ?_⟩
  · intro role
    exact Nat.zero_le 1
  · intro proof hbinding
    cases (find?_initial hbinding).1

theorem recorded_execute (actions : List Action) : Recorded h m (History.execute h m actions) := by
  induction actions using List.reverseRecOn with
  | nil => exact recorded_initial
  | append_singleton actions action ih =>
      unfold History.execute at ih ⊢
      rw [List.foldl_append]
      exact recorded_act ih action

/-! ## The laws of the lease -/

/-- What every sequence of calls keeps, whoever makes them and wherever they stop. -/
structure LeaseLaws (h : LeaseHost) (m : LeaseManifest) (history : History) : Prop where
  /-- At most one writer ever passes the writer check. -/
  writer : ∀ s ∈ history.states, ∀ t ∈ history.states, ∀ writer writer',
    requireWriterBinding h writer m s = .ok () → requireWriterBinding h writer' m t = .ok () →
    writer = writer'
  /-- At most one submission of a role is admitted. -/
  submittedOnce : ∀ role, history.entries.countP (Entry.admits role) ≤ 1
  /-- No submission is admitted once the binding exists, torn or complete. -/
  fenced : ∀ e ∈ history.entries, ∀ role, e.admits role = true →
    present .issuerStopBinding e.start = false
  /-- Every proof ever returned is the same document. -/
  oneProof : ∀ e ∈ history.entries, ∀ e' ∈ history.entries, ∀ proof proof',
    e.returned = some proof → e'.returned = some proof' → proof = proof'
  /-- It names exactly the roles that were durable when the binding was first written. -/
  exact : ∀ e ∈ history.entries, ∀ proof, e.returned = some proof → FirstBound m history proof
  /-- Each of these roles has a created record. -/
  created : ∀ e ∈ history.entries, ∀ proof, e.returned = some proof → ∀ intent ∈ m.intents,
    intent.role.value ∈ proof.retainedRoles → HasCreated h history.files intent
  /-- At most one use is without a matching release. -/
  oneUse : ∀ a b, OpenUse h history.files a → OpenUse h history.files b → a = b

theorem lease_laws (h : LeaseHost) (m : LeaseManifest) (actions : List Action) :
    LeaseLaws h m (History.execute h m actions) := by
  have hr := recorded_execute (h := h) (m := m) actions
  have hkept : ∀ s ∈ (History.execute h m actions).states,
      WriteOnce.Kept s (History.execute h m actions).files := by
    intro s hs
    rcases List.mem_append.1 hs with hs | hs
    · obtain ⟨e, he, rfl⟩ := List.mem_map.1 hs
      exact hr.kept e he
    · rw [List.mem_singleton.1 hs]
      exact WriteOnce.Kept.refl _
  have hrecord : ∀ {e proof intent}, e ∈ (History.execute h m actions).entries →
      e.returned = some proof → intent ∈ m.intents →
      intent.role.value ∈ proof.retainedRoles →
      HasCreated h (History.execute h m actions).files intent := by
    intro e proof intent he hreturned hintent hrole
    cases hr.sound.recorded _ _ (hr.bound e he proof hreturned) with
    | binding _ hcreated => exact hcreated intent hintent hrole
  constructor
  · intro s hs t ht writer writer' hwriter hwriter'
    have hfirst := hkept s hs _ _ (requireWriterBinding_eq_ok.1 hwriter).2
    have hsecond := hkept t ht _ _ (requireWriterBinding_eq_ok.1 hwriter').2
    have hsame := hfirst.symm.trans hsecond
    exact (LeaseRecord.issuer.inj (Cell.complete.inj (Option.some.inj hsame))).1
  · exact hr.once
  · intro e he role hadmits
    exact present_eq_false.2 (hr.submitted e he role hadmits).2
  · intro e he e' he' proof proof' hreturned hreturned'
    have hsame := (hr.bound e he proof hreturned).symm.trans (hr.bound e' he' proof' hreturned')
    exact (LeaseRecord.binding.inj (Cell.complete.inj (Option.some.inj hsame))).2
  · intro e he proof hreturned
    exact hr.origin proof (hr.bound e he proof hreturned)
  · intro e he proof hreturned intent hintent hrole
    exact hrecord he hreturned hintent hrole
  · exact hr.sound.exclusive

def sampleIntent (role : Role) : Intent := ⟨role, role.value⟩

/-- A manifest with one intent for every role. -/
def sampleManifest : LeaseManifest where
  intents := [Role.archive, .audit, .backup, .caddy, .observer, .operator, .pageRules].map
    sampleIntent
  details := ""
  roles_nodup := by decide
  roles_complete role := by cases role <;> decide

def sampleLeaseHost : LeaseHost where
  manifestSha256 := LeaseManifest.details
  intentSha256 := Intent.details
  useSha256 := Use.bindingSha256
  validInstant _ := true
  fits _ := true

def sampleWriter : String := sha256Text 7

/-- The process that binds the stop proof stops before it exposes it; a later call exposes the bound
proof, and no other credential is submitted. -/
def sampleActions : List Action :=
  [⟨.claimIssuer sampleWriter, none⟩, ⟨.submitting (sampleIntent .archive) sampleWriter, none⟩,
    ⟨.remember (sampleIntent .archive) "key" (some "secret"), none⟩,
    ⟨.finishIssuer sampleWriter "first", some 2⟩, ⟨.finishIssuer sampleWriter "second", none⟩,
    ⟨.submitting (sampleIntent .backup) sampleWriter, none⟩]

theorem sampleActions_lawful :
    LeaseLaws sampleLeaseHost sampleManifest
        (History.execute sampleLeaseHost sampleManifest sampleActions) ∧
      (History.execute sampleLeaseHost sampleManifest sampleActions).entries.map
          (fun e => (e.returned, e.admits .archive)) =
        [(none, false), (none, true), (none, false), (none, false),
          (some ⟨sampleWriter, "first", ["archive"]⟩, false), (none, false)] :=
  ⟨lease_laws _ _ _, by decide +kernel⟩

end StaticHostAgent.Lease
