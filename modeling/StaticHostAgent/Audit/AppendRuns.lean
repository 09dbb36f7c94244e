import StaticHostAgent.Audit.Linked
import StaticHostAgent.Contracts.TableEncoding

/-!
# Runs of appends

A run appends any entries to an empty log, or to a valid log behind an archive head. Every call
either raises and changes no segment, or leaves a sound log behind, exactly if no planned call writes
a correlation that the chain carries already and no write raises behind its rename
(`appends_atomic_and_sound`). The planner does not ask for the correlation, the reading pass does: a
repeated correlation is written before it is noticed.
-/

set_option autoImplicit false

namespace StaticHostAgent.Audit

open Library Contracts Host

/-- One call of `appendAudit`, with the clock and the filesystem it finds and how its write ends. -/
structure AppendCall where
  entry : AuditEntry
  administrator : Bool
  now : Int
  capacity : FilesystemCapacity
  outcome : WriteOutcome

section Runs

variable (host : AuditHost) (limits : AuditLimits)

/-- The host at the time of the call. -/
def AuditHost.at (now : Int) : AuditHost := { host with now := now }

def AppendCall.run (call : AppendCall) (a : AuditStore) :
    Run AuditStore AgentError AuditAppend :=
  appendAudit (host.at call.now) limits call.outcome call.capacity call.entry call.administrator a

/-- What the planner makes of the call. -/
def AppendCall.plan (call : AppendCall) (a : AuditStore) : Except AgentError AuditAppendPlan :=
  planAppend (host.at call.now) limits call.capacity call.entry call.administrator a

/-- The log after a sequence of calls. -/
def runAppends (a : AuditStore) : List AppendCall → AuditStore
  | [] => a
  | call :: calls => runAppends (call.run host limits a).state calls

/-- A log that every read accepts, with everything its chain promises. -/
structure SoundLog (a : AuditStore) : Prop where
  readable : Readable host limits a
  chain : ∀ archive segments, readSegments host limits a = .ok (archive, segments) →
    ChainSound host limits segments
  distinct : ∀ archive segments, readSegments host limits a = .ok (archive, segments) →
    ((chainEntries host segments).map AuditEntry.correlationId).Nodup

/-- The call raised and changed nothing, or it succeeded and left a sound log. -/
def AppendCall.Atomic (call : AppendCall) (a : AuditStore) : Prop :=
  ((∃ error, (call.run host limits a).result = .error error) ∧
      (call.run host limits a).state = a) ∨
    ((∃ appended, (call.run host limits a).result = .ok appended) ∧
      SoundLog host limits (call.run host limits a).state)

/-- Every call of the sequence is atomic where it is made. -/
def AllAtomic (a : AuditStore) : List AppendCall → Prop
  | [] => True
  | call :: calls => call.Atomic host limits a ∧ AllAtomic (call.run host limits a).state calls

/-- The planner refuses the call, the write raises before its rename, or the write goes through and
brings a correlation that the chain does not carry. -/
def AppendCall.Admissible (call : AppendCall) (a : AuditStore) : Prop :=
  (call.plan host limits a).isOk = true →
    call.outcome.isRefused = true ∨
      call.outcome = .written ∧ Fresh host limits a call.entry.correlationId

/-- Every call of the sequence is admissible where it is made. -/
def AdmissibleCalls (a : AuditStore) : List AppendCall → Prop
  | [] => True
  | call :: calls => call.Admissible host limits a ∧
      AdmissibleCalls (call.run host limits a).state calls

/-- The empty log, or a valid one whose archived prefix a head describes. -/
def StartingLog (a : AuditStore) : Prop :=
  a = ⟨none, Directory.empty⟩ ∨
    (a.archive.isSome = true ∧ ∃ state, inspectAudit host limits a = .ok state)

end Runs

variable {host : AuditHost} {limits : AuditLimits}

/-- The empty log is readable. -/
theorem readable_empty : Readable host limits ⟨none, Directory.empty⟩ :=
  ⟨ArchivePrefix.none host.encoding, [], rfl, fun _ =>
    ⟨⟨0, none, 0, none, [], none, false, false, false, []⟩,
      validateChainRecords_eq_ok.2 ⟨rfl, Nat.zero_le _⟩⟩⟩

theorem StartingLog.readable {a : AuditStore} (h : StartingLog host limits a) :
    Readable host limits a := by
  rcases h with rfl | ⟨harchive, state, hstate⟩
  · exact readable_empty
  · exact readable_of_headed harchive hstate

theorem Readable.soundLog {a : AuditStore} (h : Readable host limits a) :
    SoundLog host limits a := by
  refine ⟨h, fun archive segments hread => ?_, fun archive segments hread =>
    distinct_of_readable hread h⟩
  obtain ⟨archive', segments', hread', hall⟩ := h
  have hsame := hread.symm.trans hread'
  cases hsame
  obtain ⟨scan, hvalidated⟩ := hall .none
  exact chainSound_of_read hread (validateChainRecords_eq_ok.1 hvalidated).1

/-- Every read of a sound log succeeds. -/
theorem Readable.reads {a : AuditStore} (h : Readable host limits a) :
    (∃ state, inspectAudit host limits a = .ok state) ∧
      (∀ c, ∃ snapshot, inspectAuditCorrelation host limits c a = .ok snapshot) ∧
      (∀ t, ∃ history, tenantAuditHistory host limits t a = .ok history) ∧
      ∀ ts, ∃ found, deploymentAuditHistoryTenantIds host limits ts a = .ok found := by
  obtain ⟨archive, segments, hread, hall⟩ := h
  unfold inspectAudit validateChain inspectAuditCorrelation tenantAuditHistory
    deploymentAuditHistoryTenantIds
  simp only [hread, ok_bind]
  refine ⟨?_, fun c => ?_, fun t => ?_, fun ts => ?_⟩
  · obtain ⟨scan, hscan⟩ := hall .none
    exact ⟨scan.state segments, by rw [hscan]; rfl⟩
  · obtain ⟨scan, hscan⟩ := hall (.correlation c)
    exact ⟨_, by rw [hscan]; rfl⟩
  · obtain ⟨scan, hscan⟩ := hall ⟨none, some t, []⟩
    exact ⟨_, by rw [hscan]; rfl⟩
  · obtain ⟨scan, hscan⟩ := hall ⟨none, none, ts⟩
    exact ⟨_, by rw [hscan]; rfl⟩

/-- The clock decides about admission only. -/
theorem Readable.at {a : AuditStore} (h : Readable host limits a) (now : Int) :
    Readable (host.at now) limits a := h

theorem Fresh.at {a : AuditStore} {c : Uuid7} (h : Fresh host limits a c) (now : Int) :
    Fresh (host.at now) limits a c := h

/-- The write of a fresh correlation goes through, and the log stays readable. -/
theorem append_fresh {a : AuditStore} {call : AppendCall} {plan : AuditAppendPlan}
    (h : Readable host limits a) (hplan : call.plan host limits a = .ok plan)
    (hwritten : call.outcome = .written) (hfresh : Fresh host limits a call.entry.correlationId) :
    call.Atomic host limits a ∧ Readable host limits (call.run host limits a).state := by
  have hreadable : Readable host limits (a.write plan) :=
    (h.at call.now).write hplan (hfresh.at call.now)
  obtain ⟨appended, happended⟩ := verifyAppend_write hplan (hfresh.at call.now)
  unfold AppendCall.Atomic AppendCall.run
  rw [hwritten, appendAudit_written hplan]
  exact ⟨Or.inr ⟨⟨appended, happended⟩, hreadable.soundLog⟩, hreadable⟩

/-- An admissible call is atomic and keeps the log readable. -/
theorem append_atomic {a : AuditStore} {call : AppendCall} (h : Readable host limits a)
    (hadmissible : call.Admissible host limits a) :
    call.Atomic host limits a ∧ Readable host limits (call.run host limits a).state := by
  have hraised : ∀ error, call.run host limits a = ⟨[], a, .error error⟩ →
      call.Atomic host limits a ∧ Readable host limits (call.run host limits a).state := by
    intro error hrun
    unfold AppendCall.Atomic
    rw [hrun]
    exact ⟨Or.inl ⟨⟨error, rfl⟩, rfl⟩, h⟩
  cases hplan : call.plan host limits a with
  | error error => exact hraised error (appendAudit_unplanned hplan)
  | ok plan =>
      rcases hadmissible (by rw [hplan]; rfl) with hrefused | ⟨hwritten, hfresh⟩
      · cases houtcome : call.outcome with
        | refused error =>
            refine hraised error ?_
            unfold AppendCall.run
            rw [houtcome]
            exact appendAudit_refused hplan
        | written | placed _ =>
            rw [houtcome] at hrefused
            cases hrefused
      · exact append_fresh h hplan hwritten hfresh

/-- A planned write puts its entry behind those of the chain. -/
theorem write_entries {a : AuditStore} {plan : AuditAppendPlan} {call : AppendCall}
    (hplan : call.plan host limits a = .ok plan) :
    ∃ archive segments archive' segments', readSegments host limits a = .ok (archive, segments) ∧
      readSegments host limits (a.write plan) = .ok (archive', segments') ∧
      chainEntries host segments' = chainEntries host segments ++ [call.entry] := by
  obtain ⟨archive, segments, scan, headroom, hp⟩ := planAppend_eq_ok.1 hplan
  exact ⟨archive, segments, _, _, hp.read, hp.read_write,
    chainEntries_appended hp.read hp.target hp.scanned⟩

/-- A write changes the log. -/
theorem write_ne {a : AuditStore} {plan : AuditAppendPlan} {call : AppendCall}
    (hplan : call.plan host limits a = .ok plan) : a.write plan ≠ a := by
  intro hsame
  obtain ⟨archive, segments, archive', segments', hread, hread', hentries⟩ := write_entries hplan
  rw [hsame, hread] at hread'
  cases hread'
  have hlength := congrArg List.length hentries
  rw [List.length_append, List.length_singleton] at hlength
  omega

/-- The write of a repeated correlation leaves a log that not every read accepts. -/
theorem write_repeated {a : AuditStore} {plan : AuditAppendPlan} {call : AppendCall}
    (hplan : call.plan host limits a = .ok plan)
    (hwritten : Readable host limits (a.write plan)) :
    Fresh host limits a call.entry.correlationId := by
  obtain ⟨archive, segments, archive', segments', hread, hread', hentries⟩ := write_entries hplan
  have hnodup := distinct_of_readable hread' hwritten
  rw [hentries, List.map_append] at hnodup
  intro archive'' segments'' hagain x hx heq
  have hsame := hread.symm.trans hagain
  cases hsame
  exact (List.disjoint_of_nodup_append hnodup) (List.mem_map.2 ⟨x, hx, heq⟩) List.mem_cons_self

/-- An atomic call of a readable log is admissible. -/
theorem AppendCall.Atomic.admissible {a : AuditStore} {call : AppendCall}
    (hatomic : call.Atomic host limits a) : call.Admissible host limits a := by
  intro hplanned
  cases hplan : call.plan host limits a with
  | error error =>
      rw [hplan] at hplanned
      cases hplanned
  | ok plan =>
      cases houtcome : call.outcome with
      | refused error => exact Or.inl rfl
      | written =>
          have hstate : (call.run host limits a).state = a.write plan := by
            unfold AppendCall.run
            rw [houtcome, appendAudit_written hplan]
          rcases hatomic with ⟨-, hsame⟩ | ⟨-, hsound⟩
          · exact absurd (hstate.symm.trans hsame) (write_ne hplan)
          · rw [hstate] at hsound
            exact Or.inr ⟨rfl, write_repeated hplan hsound.readable⟩
      | placed error =>
          -- the call raises, and the new segment is in place
          have hrun : call.run host limits a = ⟨[a.write plan], a.write plan, .error error⟩ := by
            unfold AppendCall.run
            rw [houtcome, appendAudit_placed hplan]
          unfold AppendCall.Atomic at hatomic
          rw [hrun] at hatomic
          rcases hatomic with ⟨-, hsame⟩ | ⟨⟨appended, happended⟩, -⟩
          · exact absurd hsame (write_ne hplan)
          · cases happended

theorem appends_readable {a : AuditStore} {calls : List AppendCall}
    (h : Readable host limits a) (hadmissible : AdmissibleCalls host limits a calls) :
    AllAtomic host limits a calls ∧ Readable host limits (runAppends host limits a calls) := by
  induction calls generalizing a with
  | nil => exact ⟨trivial, h⟩
  | cons call calls ih =>
      obtain ⟨hcall, hcalls⟩ := hadmissible
      obtain ⟨hatomic, hnext⟩ := append_atomic h hcall
      obtain ⟨hrest, hend⟩ := ih hnext hcalls
      exact ⟨⟨hatomic, hrest⟩, hend⟩

theorem AllAtomic.admissible {a : AuditStore} {calls : List AppendCall}
    (hatomic : AllAtomic host limits a calls) : AdmissibleCalls host limits a calls := by
  induction calls generalizing a with
  | nil => trivial
  | cons call calls ih => exact ⟨hatomic.1.admissible, ih hatomic.2⟩

/-- In a run of appends each call raises without a change or leaves a log that passes every later
read, and so does the whole run, exactly if every call is admissible where it is made. -/
theorem appends_atomic_and_sound (host : AuditHost) (limits : AuditLimits) (a : AuditStore)
    (calls : List AppendCall) (hstart : StartingLog host limits a) :
    AllAtomic host limits a calls ∧ SoundLog host limits (runAppends host limits a calls) ↔
      AdmissibleCalls host limits a calls := by
  constructor
  · rintro ⟨hatomic, -⟩
    exact hatomic.admissible
  · intro hadmissible
    obtain ⟨hatomic, hend⟩ := appends_readable hstart.readable hadmissible
    exact ⟨hatomic, hend.soundLog⟩

/-! ## Two appends -/

/-- Whether the correlation is fresh, by reading the chain. -/
def freshCheck (host : AuditHost) (limits : AuditLimits) (a : AuditStore) (c : Uuid7) : Bool :=
  match readSegments host limits a with
  | .ok (_, segments) =>
      (chainEntries host segments).all fun x => decide (x.correlationId ≠ c)
  | .error _ => true

theorem freshCheck_iff {a : AuditStore} {c : Uuid7} :
    freshCheck host limits a c = true ↔ Fresh host limits a c := by
  unfold freshCheck Fresh
  cases readSegments host limits a with
  | error error => simp
  | ok read =>
      obtain ⟨archive, segments⟩ := read
      simp only [List.all_eq_true, decide_eq_true_eq]
      constructor
      · rintro h archive' segments' hread
        cases hread
        exact h
      · intro h
        exact h archive segments rfl

instance (a : AuditStore) (c : Uuid7) : Decidable (Fresh host limits a c) :=
  decidable_of_iff _ freshCheck_iff

instance (call : AppendCall) (a : AuditStore) : Decidable (call.Admissible host limits a) :=
  inferInstanceAs (Decidable (_ → _))

instance decidableAdmissibleCalls :
    (a : AuditStore) → (calls : List AppendCall) → Decidable (AdmissibleCalls host limits a calls)
  | _, [] => .isTrue trivial
  | a, call :: calls =>
      have := decidableAdmissibleCalls (call.run host limits a).state calls
      inferInstanceAs (Decidable (call.Admissible host limits a ∧
        AdmissibleCalls host limits (call.run host limits a).state calls))

def suspension (sequence : Nat) (previous : Option Digest) (correlationId : Uuid7) : AuditEntry :=
  ⟨sequence, previous, "2026-01-01T00:00:00Z", "operator", .suspend, some (sampleId 1),
    correlationId, ⟨.result, 0⟩, .succeeded, none⟩

def firstSuspension : AuditEntry := suspension 0 none (sampleId 2)

def nextSuspension (correlationId : Uuid7) : AuditEntry :=
  suspension 1 (some (placeDigest .auditEntry 0)) correlationId

noncomputable def sampleAuditHost : AuditHost where
  encoding := tableEncoding [.auditEntry firstSuspension,
    .auditEntry (nextSuspension (sampleId 3)), .auditEntry (nextSuspension (sampleId 2))]
  allocation := .exact
  headDigest := fun _ => 0
  now := 0

def ordinaryAppend (entry : AuditEntry) : AppendCall :=
  ⟨entry, false, 0, ⟨0, 0, 0, 0⟩, .written⟩

theorem two_suspensions_atomic :
    AllAtomic sampleAuditHost defaultAuditLimits ⟨none, Directory.empty⟩
        [ordinaryAppend firstSuspension, ordinaryAppend (nextSuspension (sampleId 3))] ∧
      SoundLog sampleAuditHost defaultAuditLimits
        (runAppends sampleAuditHost defaultAuditLimits ⟨none, Directory.empty⟩
          [ordinaryAppend firstSuspension, ordinaryAppend (nextSuspension (sampleId 3))]) :=
  (appends_atomic_and_sound _ _ _ _ (Or.inl rfl)).2 (by decide)

/-- Two valid entries with one correlation are both appended, and no read for that correlation
succeeds any more. -/
theorem repeated_correlation_unsound :
    ¬ ∀ (host : AuditHost) (limits : AuditLimits) (a : AuditStore) (calls : List AppendCall),
      StartingLog host limits a →
      (∀ call ∈ calls, ValidContract host.encoding (.auditEntry call.entry)) →
        AllAtomic host limits a calls ∧ SoundLog host limits (runAppends host limits a calls) := by
  intro h
  obtain ⟨-, hsound⟩ := h sampleAuditHost defaultAuditLimits ⟨none, Directory.empty⟩
    [ordinaryAppend firstSuspension, ordinaryAppend (nextSuspension (sampleId 2))] (Or.inl rfl)
    (by decide)
  obtain ⟨snapshot, hsnapshot⟩ := hsound.readable.reads.2.1 (sampleId 2)
  have hfails : (inspectAuditCorrelation sampleAuditHost defaultAuditLimits (sampleId 2)
      (runAppends sampleAuditHost defaultAuditLimits ⟨none, Directory.empty⟩
        [ordinaryAppend firstSuspension, ordinaryAppend (nextSuspension (sampleId 2))])).isOk =
      false := by rfl
  rw [hsnapshot] at hfails
  cases hfails

end StaticHostAgent.Audit
